import Digicash.Wallet.Amounts
import Digicash.Wallet.Operations

/-!
# Spending loses no coin

A spend moves coins from the store to a bundle file, and there is no transaction over the two. It
writes the bundle first, so that wherever it is stopped each of its coins is in one of them or in
both.

What is not safe is to overwrite: `fs::write` replaces a bundle that was at the path before, and
`put_coin` a coin that was under the serial. So a coin is kept in the runs that overwrite no last
copy, and `bundle_overwritten` is a run of two spends that does.
-/

namespace Digicash.Wallet

open Lib

variable {X : Crypto} {i : CallId} {op : Op} {sh : State X} {s : Sys (service X)}

/-! ## Where coins are -/

/-- The coin a commit puts in the store. -/
def putOf (c : Commit database Op) : Option Coin :=
  match c.tx.trace with
  | [⟨.putCoin coin, _⟩] => some coin
  | _ => none

def EverPut (hist : List (Commit database Op)) (coin : Coin) : Prop :=
  ∃ c ∈ hist, putOf c = some coin

instance (hist : List (Commit database Op)) (coin : Coin) : Decidable (EverPut hist coin) :=
  inferInstanceAs (Decidable (∃ c ∈ hist, putOf c = some coin))

/-- The coins in the store. -/
def Disk.held (d : Disk) : List Coin := d.coins.rows.map Prod.snd

def Disk.bundledAt (d : Disk) (path : String) (coin : Coin) : Bool :=
  match d.files.lookup path with
  | some (.ok bundle) => coin ∈ bundle
  | _ => false

/-- A bundle somewhere but at `path` contains the coin. -/
def Disk.bundledBeside (d : Disk) (path : Option String) (coin : Coin) : Bool :=
  d.files.keys.any fun p => some p ≠ path && d.bundledAt p coin

/-- The coin is in the store or in a bundle. -/
def Disk.Holds (d : Disk) (coin : Coin) : Prop :=
  d.coins.lookup coin.serialNumber = some coin ∨ ∃ path, d.bundledAt path coin = true

/-- What the commit overwrites is not the last copy of a coin of this wallet: another coin under
    the serial of one that is put is in a bundle, and the coins of a bundle that is replaced are
    in the store or in another bundle. -/
def keepsCopies (sh : Shared database Op) (c : Commit database Op) : Bool :=
  match c.tx.trace with
  | [⟨.putCoin coin, _⟩] =>
    (sh.db.coins.lookup coin.serialNumber).all fun old =>
      old = coin || sh.db.bundledBeside none old
  | [⟨.writeFile path _, _⟩] =>
    match sh.db.files.lookup path with
    | some (.ok old) => old.all fun coin => !decide (EverPut sh.hist coin) ||
        sh.db.coins.lookup coin.serialNumber = some coin || sh.db.bundledBeside (some path) coin
    | _ => true
  | _ => true

theorem everPut_cons {c : Commit database Op} {hist : List (Commit database Op)} {coin : Coin} :
    EverPut (c :: hist) coin ↔ putOf c = some coin ∨ EverPut hist coin := by
  simp [EverPut]

theorem exists_of_bundledBeside {d : Disk} {path : Option String} {coin : Coin}
    (h : d.bundledBeside path coin = true) :
    ∃ p, some p ≠ path ∧ d.bundledAt p coin = true := by
  obtain ⟨p, -, hp⟩ := List.any_eq_true.mp h
  exact ⟨p, by simpa using hp⟩

theorem bundledAt_congr {d d' : Disk} {path : String}
    (h : d'.files.lookup path = d.files.lookup path) (coin : Coin) :
    d'.bundledAt path coin = d.bundledAt path coin := by
  unfold Disk.bundledAt
  rw [h]

/-! ## What is kept -/

/-- Every coin is under its own serial, and every coin ever put is there. -/
structure Kept (sh : State X) : Prop where
  keyed : ∀ serial coin, sh.db.coins.lookup serial = some coin → coin.serialNumber = serial
  holds : ∀ coin, EverPut sh.hist coin → sh.db.Holds coin

theorem Kept.put (h : Kept sh) {coin : Coin}
    (hsafe : keepsCopies sh ⟨i, op, written (.putCoin coin) () (.coin coin.serialNumber)
      (some coin), sh.db⟩ = true) : Kept (stored sh i op coin) := by
  have hlookup : ∀ serial, (stored sh i op coin).db.coins.lookup serial =
      if serial = coin.serialNumber then some coin else sh.db.coins.lookup serial := fun serial =>
    Table.lookup_put _ _ _ _
  refine ⟨fun serial c hc => ?_, fun c hc => ?_⟩
  · rw [hlookup] at hc
    split at hc
    · rename_i hserial
      obtain rfl := Option.some.inj hc
      exact hserial.symm
    · exact h.keyed serial c hc
  · unfold Disk.Holds
    rw [hlookup]
    rcases everPut_cons.mp hc with hput | hold
    · obtain rfl : coin = c := Option.some.inj hput
      exact Or.inl (if_pos rfl)
    · rcases h.holds c hold with hstore | ⟨path, hpath⟩
      · split
        · -- Another coin was under the serial; it is in a bundle.
          rename_i hserial
          rw [hserial] at hstore
          have hc' := (Option.all_eq_true _ _).mp hsafe c hstore
          rcases Bool.or_eq_true .. |>.mp hc' with heq | hbundled
          · obtain rfl : c = coin := by simpa using heq
            exact Or.inl rfl
          · obtain ⟨p, -, hp⟩ := exists_of_bundledBeside hbundled
            exact Or.inr ⟨p, hp⟩
        · exact Or.inl hstore
      · exact Or.inr ⟨path, hpath⟩

theorem Kept.write (h : Kept sh) {path : String} {bundle : List Coin}
    (hsafe : keepsCopies sh ⟨i, op, written (.writeFile path bundle) () (.file path)
      (some (.ok bundle)), sh.db⟩ = true) : Kept (bundled sh i op path bundle) := by
  refine ⟨h.keyed, fun c hc => ?_⟩
  have hold : EverPut sh.hist c := (everPut_cons.mp hc).resolve_left (by simp [putOf, written, Tx.push])
  have hother : ∀ p, some p ≠ some path → sh.db.bundledAt p c = true →
      (bundled sh i op path bundle).db.bundledAt p c = true := fun p hp hb => by
    rw [bundledAt_congr (Table.lookup_put_ne fun he => hp (congrArg some he))]
    exact hb
  rcases h.holds c hold with hstore | ⟨p, hp⟩
  · exact Or.inl hstore
  · by_cases hpp : p = path
    · -- The bundle that is replaced had it, and it was not the last copy.
      subst hpp
      unfold Disk.bundledAt at hp
      cases hl : sh.db.files.lookup p with
      | none => simp [hl] at hp
      | some file =>
        cases file with
        | error e => simp [hl] at hp
        | ok old =>
          simp only [hl, decide_eq_true_eq] at hp
          simp only [keepsCopies, written, Tx.push, Tx.empty, hl] at hsafe
          have hc' := List.all_eq_true.mp hsafe c hp
          simp only [hold, decide_true, Bool.not_true, Bool.false_or, Bool.or_eq_true,
            decide_eq_true_eq] at hc'
          rcases hc' with hstore | hbeside
          · exact Or.inl hstore
          · obtain ⟨p', hp', hb⟩ := exists_of_bundledBeside hbeside
            exact Or.inr ⟨p', hother p' hp' hb⟩
    · exact Or.inr ⟨p, hother p (fun he => hpp (Option.some.inj he)) hp⟩

/-- A coin may leave the store when a bundle contains it. -/
theorem Kept.remove (h : Kept sh) {coin : Coin} {path : String}
    (hstore : sh.db.coins.lookup coin.serialNumber = some coin)
    (hbundle : sh.db.bundledAt path coin = true) :
    Kept (removed sh i op coin.serialNumber) := by
  have hlookup : ∀ serial, (removed sh i op coin.serialNumber).db.coins.lookup serial =
      if serial = coin.serialNumber then none else sh.db.coins.lookup serial := fun serial =>
    Table.lookup_put _ _ _ _
  refine ⟨fun serial c hc => ?_, fun c hc => ?_⟩
  · rw [hlookup] at hc
    split at hc
    · exact absurd hc (by simp)
    · exact h.keyed serial c hc
  · have hold : EverPut sh.hist c := (everPut_cons.mp hc).resolve_left (by simp [putOf, written, Tx.push])
    unfold Disk.Holds
    rw [hlookup]
    rcases h.holds c hold with hc' | ⟨p, hp⟩
    · split
      · rename_i hserial
        rw [hserial] at hc'
        obtain rfl := Option.some.inj (hstore.symm.trans hc')
        exact Or.inr ⟨path, hbundle⟩
      · exact Or.inl hc'
    · exact Or.inr ⟨p, hp⟩

/-! ## Operations -/

/-- The runs that overwrite no last copy. -/
@[reducible] def carefully : Policy (service X) := .commits fun sh c => keepsCopies sh c = true

/-- An outcome in them. -/
def careful : Outcomes (service X) := fun _ _ sh sh' =>
  ∀ c, sh'.hist = c :: sh.hist → keepsCopies sh c = true

/-- The bundle at `path` and the store of `d'` are disjoint, and together the store of `d`. -/
structure Spent (d : Disk) (path : String) (bundle : List Coin) (d' : Disk) : Prop where
  written : d'.files.lookup path = some (.ok bundle)
  disjoint : ∀ coin ∈ bundle, coin ∉ d'.held
  whole : (bundle ++ d'.held).Perm d.held

theorem withdrawCoins_kept {accountId : String} {keys : Table UInt64 X.PublicKey} :
    ∀ {amounts : List UInt64} {sh : State X}, Kept sh →
      Alone.Spec careful i op Kept (fun _ tx _ => tx = none) Whatever
        (withdrawCoins accountId keys amounts) none sh
  | [], _, _ => Alone.Spec.ok rfl
  | d :: ds, sh, h => by
    refine Alone.Spec.bind (R := fun _ tx _ => tx = none) h
      (withdrawCoin_spec h (fun _ => trivial) ?_) fun coin tx sh₁ h₁ htx => ?_
    · intro pk serial blinding request reply fault o _ _
      have hdrew : Kept (drew sh i request reply) := ⟨h.keyed, h.holds⟩
      refine ⟨hdrew, fun _ => trivial, fun response coin _ _ fault o hsafe => ?_⟩
      exact ⟨hdrew.put (hsafe _ rfl), trivial, rfl⟩
    · subst htx
      exact Alone.Spec.bind h₁ (withdrawCoins_kept h₁) fun coins tx _ _ htx => Alone.Spec.ok htx

theorem depositCoins_kept {accountId : String} :
    ∀ {coins : List Coin} {sh : State X}, Kept sh →
      Alone.Spec careful i op Kept (fun _ tx _ => tx = none) Whatever
        (depositCoins accountId coins) none sh
  | [], _, _ => Alone.Spec.ok rfl
  | coin :: coins, sh, h => by
    refine Alone.Spec.bind (R := fun _ tx _ => tx = none) h
      (depositCoin_spec h (fun _ => trivial) ?_) fun _ tx sh₁ h₁ htx => ?_
    · intro requestId reply fault o _
      exact ⟨⟨h.keyed, h.holds⟩, fun _ _ => trivial, fun _ _ => rfl⟩
    · subst htx
      exact Alone.Spec.bind h₁ (depositCoins_kept h₁) fun _ tx _ _ htx => Alone.Spec.ok htx

/-- The loop of `spend`. Until a coin is removed it is both in the store and in the bundle. -/
theorem removeCoins_kept {path : String} {bundle : List Coin} : ∀ {coins : List Coin} {sh : State X},
    Kept sh → sh.db.files.lookup path = some (.ok bundle) → coins ⊆ bundle →
    (coins.map Coin.serialNumber).Nodup →
    (∀ coin ∈ coins, sh.db.coins.lookup coin.serialNumber = some coin) →
      Alone.Spec careful i op Kept (fun _ tx sh' => tx = none ∧ sh'.db.files = sh.db.files ∧
        (coins ++ sh'.db.held).Perm sh.db.held) Whatever (removeCoins coins) none sh
  | [], _, _, _, _, _, _ => Alone.Spec.ok ⟨rfl, rfl, .refl _⟩
  | coin :: coins, sh, h, hfile, hsub, hnodup, hstore => by
    have hcoin := hstore coin (List.mem_cons_self ..)
    have hbundled : sh.db.bundledAt path coin = true := by
      simpa [Disk.bundledAt, hfile] using hsub (List.mem_cons_self ..)
    refine removeCoin_bind h (fun _ => trivial) (fun hnone => ?_) fun old hold fault o _ => ?_
    · exact absurd (hcoin.symm.trans hnone) (by simp)
    have h₁ : Kept (removed sh i op coin.serialNumber) := h.remove hcoin hbundled
    refine ⟨h₁, trivial, ?_⟩
    rw [List.map_cons, List.nodup_cons] at hnodup
    refine Alone.Spec.mono h₁ (removeCoins_kept h₁ hfile (fun c hc => hsub (List.mem_cons_of_mem _ hc))
      hnodup.2 fun c hc => ?_) (fun _ tx sh' _ hQ => ?_) fun _ _ _ _ _ => trivial
    · have hne : c.serialNumber ≠ coin.serialNumber := fun he =>
        hnodup.1 (he ▸ List.mem_map_of_mem hc)
      exact (Table.lookup_put_ne hne).trans (hstore c (List.mem_cons_of_mem _ hc))
    · obtain ⟨htx, hfiles, hperm⟩ := hQ
      refine ⟨htx, hfiles, ?_⟩
      have hout : (coin :: (removed sh i op coin.serialNumber).db.held).Perm sh.db.held :=
        (Table.perm_rows_put_none hcoin).map Prod.snd
      exact (hperm.cons coin).trans hout

/-- Coins that are listed are under their serials, each once. -/
theorem Kept.serials_held (h : Kept sh) :
    (sh.db.held.map Coin.serialNumber).Nodup ∧
      ∀ coin ∈ sh.db.held, sh.db.coins.lookup coin.serialNumber = some coin := by
  have hrow : ∀ e ∈ sh.db.coins.rows, e.2.serialNumber = e.1 := fun e he =>
    h.keyed e.1 e.2 (Table.mem_rows.mp he)
  refine ⟨?_, fun coin hcoin => ?_⟩
  · have hmap : sh.db.held.map Coin.serialNumber = sh.db.coins.rows.map Prod.fst := by
      rw [Disk.held, List.map_map]
      exact List.map_congr_left hrow
    rw [hmap]
    exact Table.nodup_rows _
  · obtain ⟨e, he, rfl⟩ := List.mem_map.mp hcoin
    rw [hrow e he]
    exact Table.mem_rows.mp he

theorem spend_kept {amount : UInt64} {path : String} (h : Kept sh) :
    Alone.Spec careful i op Kept
      (fun bundle tx sh' => tx = none ∧ Spent sh.db path bundle sh'.db) Whatever
      (spend amount path) none sh := by
  refine read_bind (fun o d => arrange (d.coins.rows.map Prod.snd) o.order) (fun _ _ => rfl) h
    (fun _ => trivial) fun o => ?_
  have hperm : (arrange (sh.db.coins.rows.map Prod.snd) o.order).Perm sh.db.held := arrange_perm _ _
  generalize arrange (sh.db.coins.rows.map Prod.snd) o.order = held at hperm
  cases hselect : selectExact held amount with
  | none => exact Alone.Spec.throw trivial
  | some bundle =>
    obtain ⟨hnodup, hstore⟩ := h.serials_held
    have hsub : bundle.Subperm sh.db.held := (selectExact_subperm hselect).trans hperm.subperm
    have hserials : (bundle.map Coin.serialNumber).Nodup := by
      obtain ⟨l, hl, hsublist⟩ := hsub
      exact (hl.map Coin.serialNumber).nodup_iff.mp (hnodup.sublist (hsublist.map _))
    refine write_bind (fun _ => rfl) h (fun _ => trivial) fun fault o hsafe => ?_
    have h₁ : Kept (bundled sh i op path bundle) := h.write (hsafe _ rfl)
    have hfile : (bundled sh i op path bundle).db.files.lookup path = some (.ok bundle) :=
      Table.lookup_put_self _ _ _
    refine ⟨h₁, fun _ => trivial, ?_⟩
    refine Alone.Spec.bind h₁ (removeCoins_kept h₁ hfile (fun _ hc => hc) hserials
      fun coin hcoin => hstore coin (hsub.subset hcoin)) fun _ tx sh' h' hQ => ?_
    obtain ⟨htx, hfiles, hwhole⟩ := hQ
    refine Alone.Spec.ok ⟨htx, (congrArg _ hfiles).trans hfile, fun coin hcoin hheld => ?_, hwhole⟩
    -- A coin in both would be twice in the store there was.
    have hdup : ((bundle ++ sh'.db.held).map Coin.serialNumber).Nodup :=
      (hwhole.map Coin.serialNumber).nodup_iff.mpr hnodup
    rw [List.map_append] at hdup
    exact (List.disjoint_of_nodup_append hdup) (List.mem_map_of_mem hcoin)
      (List.mem_map_of_mem hheld)

/-- **Every operation keeps every coin**, wherever it is stopped. -/
theorem code_kept (op' : Op) (h : Kept sh) :
    Alone careful i op Kept (fun _ _ _ => True) (code X op') none sh := by
  cases op' with
  | withdraw amount =>
    refine Alone.Spec.answer (Q := fun _ _ _ => True) (E := Whatever) h ?_ (fun _ _ _ _ _ => trivial)
      fun _ _ _ _ _ => trivial
    refine client_bind h (fun _ => trivial) fun accountId _ => ?_
    refine bankPublicKeys_bind h (fun _ => trivial) fun _ keys _ => ?_
    exact Alone.Spec.mono h (withdrawCoins_kept h) (fun _ _ _ _ _ => trivial) fun _ _ _ _ _ => trivial
  | storedCoins =>
    refine Alone.Spec.answer (Q := fun _ _ _ => True) (E := Whatever) h ?_ (fun _ _ _ _ _ => trivial)
      fun _ _ _ _ _ => trivial
    have hpure : (sql .listCoins >>= pure : WalletM (List Coin)) = Wallet.storedCoins :=
      query_bind_pure (D := database) Stmt.listCoins
    rw [← hpure]
    exact read_bind (fun o d => arrange (d.coins.rows.map Prod.snd) o.order) (fun _ _ => rfl) h
      (fun _ => trivial) fun _ => Alone.Spec.ok trivial
  | spend amount path =>
    exact Alone.Spec.answer h (spend_kept h) (fun _ _ _ _ _ => trivial) fun _ _ _ _ _ => trivial
  | deposit path =>
    refine Alone.Spec.answer (Q := fun _ _ _ => True) (E := Whatever) h ?_ (fun _ _ _ _ _ => trivial)
      fun _ _ _ _ _ => trivial
    refine client_bind h (fun _ => trivial) fun accountId _ => ?_
    refine read_bind (fun _ d => d.files.lookup path) (fun _ _ => rfl) h (fun _ => trivial) fun _ => ?_
    cases sh.db.files.lookup path with
    | none => exact Alone.Spec.throw trivial
    | some file =>
      refine Alone.Spec.orThrow_bind (fun _ _ => trivial) fun coins _ => ?_
      exact Alone.Spec.mono h (depositCoins_kept h) (fun _ _ _ _ _ => trivial) fun _ _ _ _ _ => trivial
  | putCoin coin =>
    refine Alone.Spec.answer (Q := fun _ _ _ => True) (E := Whatever) h ?_ (fun _ _ _ _ _ => trivial)
      fun _ _ _ _ _ => trivial
    refine write_bind (fun _ => rfl) h (fun _ => trivial) fun _ _ hsafe => ?_
    exact ⟨h.put (hsafe _ rfl), fun _ => trivial, Alone.Spec.ok trivial⟩

/-! ## Every run -/

variable {accountId : Option String} {files : Table String File}

theorem kept_tended (h : Sys.Steps carefully (start X accountId files) s) :
    s.Tended careful Kept (fun _ _ _ _ _ => True) ∧
      (s.shared.mem.running = false → s.Idle) := by
  refine Sys.tended exclusive h (fun _ => rfl) ⟨fun _ _ hl => absurd hl (by simp [start, Sys.init]),
    fun coin hput => absurd hput (by simp [start, Sys.init, EverPut])⟩ (fun hG c hc => hG.commit c hc)
    (fun _ hk => ⟨hk.keyed, hk.holds⟩) fun hk => code_kept _ hk

/-- **Spending never loses a coin.** In every run that overwrites no last copy, every coin ever
    put in the store is there or in a bundle; and where a spend returns, the bundle it wrote and
    what is left of the store are disjoint and make up the store there was. -/
theorem coins_kept (h : Sys.Steps carefully (start X accountId files) s) :
    (∀ coin, EverPut s.shared.hist coin → s.shared.db.Holds coin) ∧
    ∀ s₁ s₂ amount path, Sys.Steps carefully (start X accountId files) s₁ →
      s₁.step (.start (.spend amount path)) = some s₂ → Sys.Steps carefully s₂ s →
      s.next = s₂.next → ∀ a ∈ s.answers, a.call = s₁.next →
        ∀ bundle, a.ans = .spend (.ok bundle) → Spent s₁.shared.db path bundle s.shared.db := by
  refine ⟨(kept_tended h).1.now.holds, fun s₁ s₂ amount path h₁ hstart hrun hnext a ha hcall
    bundle hans => ?_⟩
  obtain ⟨htended, hfree⟩ := kept_tended h₁
  have hcalls := Sys.calls_init.steps h₁
  have hidle : s₁.Idle := by
    obtain ⟨m, hm, -⟩ := Option.map_eq_some_iff.mp hstart
    exact hfree (exclusive.enter _ _ m hm).1
  -- From here on only this call runs, and it promises what the spend promises.
  have hspend : s₂.Tended careful Kept fun _ _ ans _ sh => ∀ bundle, ans = .spend (.ok bundle) →
      Spent s₁.shared.db path bundle sh.db := by
    refine (hidle.tended htended.now).step hstart (fun _ _ _ heq => by cases heq)
      (fun op heq => ?_) fun _ heq => by cases heq
    cases heq
    obtain ⟨m, -, rfl⟩ := Option.map_eq_some_iff.mp hstart
    have hk : Kept { s₁.shared with mem := m } := ⟨htended.now.keyed, htended.now.holds⟩
    refine ⟨hidle, hk, Alone.Spec.answer hk (spend_kept hk) (fun bundle _ sh' _ hQ bundle' heq => ?_)
      fun e _ _ _ _ bundle' heq => ?_⟩
    · obtain rfl : bundle = bundle' := by simpa using heq
      exact hQ.2
    · exact absurd heq (by simp)
  obtain ⟨-, hanswers⟩ := hspend.until hrun hnext (fun hG c hc => hG.commit c hc)
    (fun _ hk => ⟨hk.keyed, hk.holds⟩)
  rcases hanswers a ha with hold | ⟨-, tx, sh, hQ, hdb, -⟩
  · obtain ⟨m, -, rfl⟩ := Option.map_eq_some_iff.mp hstart
    exact absurd (hcalls.answered a hold).1 (by simp [hcall])
  · exact hdb ▸ hQ bundle hans

/-- A coin of 100 cents. -/
def toyCoin (serial : UInt8) : Coin := ⟨0, 100, toySerial serial, []⟩

/-- Two coins are put in the store. The next call is number 2. -/
def twoCoins : List (Event (service .toy)) :=
  call (.putCoin (toyCoin 1)) :: go 0 2 ++ exit :: call (.putCoin (toyCoin 2)) :: go 1 2 ++ [exit]

/-- One of them is spent, and the process ends. -/
theorem coins_kept_spent : ∃ s : Sys (service .toy),
    Sys.Steps carefully (start .toy (some "alice") ∅) s ∧
      (EverPut s.shared.hist (toyCoin 1) ∧ s.shared.db.Holds (toyCoin 1)) ∧
      ∃ d bundle, bundle.length = 1 ∧ Spent d "bundle" bundle s.shared.db := by
  have hrun : ((start .toy (some "alice") ∅).runGuarded keepsCopies twoCoins).any (fun s₁ =>
      (s₁.stepGuarded keepsCopies (call (.spend 100 "bundle"))).any fun s₂ =>
        (s₂.runGuarded keepsCopies (go 2 4)).any fun s =>
          decide (EverPut s.shared.hist (toyCoin 1)) && s.next == s₂.next &&
            s.answers.any fun a => a.call == s₁.next &&
              decide (∃ coin ∈ [toyCoin 1, toyCoin 2], a.ans = .spend (.ok [coin]))) = true := by
    decide
  obtain ⟨s₁, h₁, hrun⟩ := Sys.exists_of_runGuarded hrun
  obtain ⟨s₂, hstart, hrun⟩ := (Option.any_eq_true _ _).mp hrun
  obtain ⟨s, h₂, hp⟩ := Sys.exists_of_runGuarded hrun
  have hsteps : Sys.Steps carefully (start .toy (some "alice") ∅) s :=
    (h₁.tail (Sys.step_of_stepGuarded hstart)).trans h₂
  have hstart := (Option.filter_eq_some_iff.mp hstart).1
  obtain ⟨⟨hput, hnext⟩, hans⟩ := by simpa only [Bool.and_eq_true] using hp
  obtain ⟨a, ha, hcall⟩ := List.any_eq_true.mp hans
  obtain ⟨hcall, hbundle⟩ := (Bool.and_eq_true ..).mp hcall
  obtain ⟨hholds, hspends⟩ := coins_kept hsteps
  have hput : EverPut s.shared.hist (toyCoin 1) := of_decide_eq_true hput
  refine ⟨s, hsteps, ⟨hput, hholds _ hput⟩, s₁.shared.db, ?_⟩
  obtain ⟨coin, -, heq⟩ := of_decide_eq_true hbundle
  exact ⟨[coin], rfl, hspends s₁ s₂ 100 "bundle" h₁ hstart h₂ (by simpa using hnext) a ha
    (by simpa using hcall) [coin] heq⟩

/-- **Spending can lose a coin.** Two spends write their bundles to one path, and the coin of the
    first is nowhere. -/
theorem bundle_overwritten : ∃ s : Sys (service .toy),
    Sys.Steps .any (start .toy (some "alice") ∅) s ∧
      ∃ coin, EverPut s.shared.hist coin ∧ ¬ s.shared.db.Holds coin := by
  have hrun : ((start .toy (some "alice") ∅).run (twoCoins ++
      call (.spend 100 "bundle") :: go 2 4 ++ exit ::
      call (.spend 100 "bundle") :: go 3 4)).any (fun s =>
        decide (EverPut s.shared.hist (toyCoin 2)) &&
          !(decide (s.shared.db.coins.lookup (toyCoin 2).serialNumber = some (toyCoin 2))) &&
          s.shared.db.files.keys == ["bundle"] && !s.shared.db.bundledAt "bundle" (toyCoin 2))
        = true := by decide
  obtain ⟨s, hs, hp⟩ := Sys.exists_of_run hrun
  simp only [Bool.and_eq_true, Bool.not_eq_true', decide_eq_true_eq, decide_eq_false_iff_not,
    beq_iff_eq] at hp
  obtain ⟨⟨⟨hput, hstore⟩, hkeys⟩, hbundle⟩ := hp
  refine ⟨s, hs, toyCoin 2, hput, ?_⟩
  rintro (h | ⟨path, hpath⟩)
  · exact hstore h
  · have hmem : path ∈ s.shared.db.files := by
      by_contra hnone
      rw [← AList.lookup_eq_none] at hnone
      simp [Disk.bundledAt, hnone] at hpath
    have hkey : path ∈ s.shared.db.files.keys := AList.mem_keys.mp hmem
    rw [hkeys, List.mem_singleton] at hkey
    subst hkey
    exact absurd (hbundle.symm.trans hpath) (by simp)

end Digicash.Wallet
