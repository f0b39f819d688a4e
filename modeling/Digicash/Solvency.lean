import Digicash.Bank.Crediting
import Digicash.Bank.Undisturbed
import Digicash.Bank.Withdrawals
import Digicash.CrossBank
import Digicash.Lib.Counting
import Digicash.Lib.Deeds

/-!
# Coins are backed

What the banks owe their customers, and the coins in the customers' hands, is what was ever paid
in. Every coin that comes back was verified, so where the signatures cannot be forged there are
no more of them than the banks have signed, and each signature is backed by a debit that stands.
So a bank alone, or the members of one registry together, never owe more than was paid in.

Unforgeability is what it is for blind signatures: nobody has valid signatures on more serials
than he got signatures (`Unforged`). It says nothing about which withdrawal a coin came from.
-/

namespace Digicash

open Lib

variable {X : Crypto}

namespace Bank

variable {κ : Config X} {s : Sys (service X)} {sh : State X}

/-! ## The books as a whole -/

/-- What the bank owes. -/
def Tables.liabilities (db : Tables) : Int := db.accounts.total fun _ b => b

/-- What a withdrawal holds back from its account, unless it was given back. -/
def WithdrawRow.held (row : WithdrawRow) : Int :=
  if row.state = .compensated then 0 else row.denominationCents

/-- What is withdrawn and stands. -/
def Tables.standing (db : Tables) : Int := db.withdrawStates.total fun _ row => row.held

/-- What a committed transaction paid in, by opening an account. -/
def paidIn (c : Commit database Op) : Int :=
  match c.op with
  | .createAccount _ b => b.toNat
  | _ => 0

/-- What was ever paid in. -/
def endowment (hist : List (Commit database Op)) : Int := (hist.map paidIn).sum

/-- The coin that a committed transaction deposited. -/
def depositedCoin (c : Commit database Op) : Option Coin :=
  match c.op with
  | .deposit req => some req.coin
  | _ => none

/-- The coins that came back. -/
def coins (hist : List (Commit database Op)) : List Coin := hist.filterMap depositedCoin

def faceValue (coin : Coin) : Nat := coin.denominationCents.toNat

/-- What came back. -/
def returned (hist : List (Commit database Op)) : Nat := ((coins hist).map faceValue).sum

/-- The books balance: what is owed, and what was taken out, is what was paid in and what came
    back. -/
def Balanced (sh : State X) : Prop :=
  sh.db.liabilities + sh.db.standing = endowment sh.hist + returned sh.hist

namespace Entry

/-- What an entry adds to what the bank owes. -/
def owes : Entry → Int
  | openAccount _ b => b
  | debit _ _ denom _ _ => -denom
  | compensate _ row _ => row.denominationCents
  | deposit _ row _ => row.coin.denominationCents
  | _ => 0

/-- What it adds to what is withdrawn and stands. -/
def holds : Entry → Int
  | debit _ _ denom _ _ => denom
  | compensate _ row _ => -row.denominationCents
  | _ => 0

theorem liabilities_apply {db : Tables} {e : Entry} (h : e.Valid κ db) :
    (e.apply db).liabilities = db.liabilities + e.owes := by
  have hput : ∀ {a b} (d : Int), db.accounts.lookup a = some b →
      (db.accounts.put a (some (b + d))).total (fun _ b => b) = db.liabilities + d := by
    intro a b d hl
    rw [Table.total_put, hl, Table.share_some, Table.share_some, Tables.liabilities]
    omega
  cases e with
  | openAccount a b =>
    rw [Tables.liabilities, apply, Table.total_put, h.1, Table.share_none, sub_zero]
    rfl
  | debit r a denom m b => exact hput (-denom) h.1
  | compensate r row b => exact hput row.denominationCents h.2.2.2.1
  | deposit r row b => exact hput row.coin.denominationCents h.2.2.1
  | _ => exact (add_zero _).symm

theorem standing_apply {db : Tables} {e : Entry} (h : e.Valid κ db) (hp : ¬ e.SecondReversal) :
    (e.apply db).standing = db.standing + e.holds := by
  have hput : ∀ {r row row'}, db.withdrawStates.lookup r = some row →
      (db.withdrawStates.put r (some row')).total (fun _ row => row.held) =
        db.standing - row.held + row'.held := by
    intro r row row' hl
    rw [Table.total_put, hl, Table.share_some, Table.share_some, Tables.standing]
  cases e with
  | debit r a denom m b =>
    rw [Tables.standing, apply, Table.total_put, h.2.1, Table.share_none, sub_zero]
    rfl
  | sign r row signature =>
    refine (hput h.1).trans ?_
    simp [WithdrawRow.held, h.2.2.not_compensated h.2.1, holds]
  | complete r row =>
    obtain ⟨hr, signature, hs⟩ := h
    refine (hput hr).trans ?_
    simp [WithdrawRow.held, hs.not_compensated, holds]
  | compensate r row b =>
    have hnot : row.state ≠ .compensated := hp
    refine (hput h.1).trans ?_
    simp only [WithdrawRow.held, hnot, if_true, if_false, holds]
    omega
  | _ => exact (add_zero _).symm

/-- **Every entry keeps the books balanced, except for a second reversal.** -/
theorem balanced {call : CallId} {op : Op} {e : Entry} (hv : e.Valid κ sh.db)
    (hfrom : e.From κ sh.mem call op) (hp : ¬ e.SecondReversal) (h : Balanced sh) :
    Balanced (⟨e.apply sh.db, sh.mem, ⟨call, op, e.tx, sh.db⟩ :: sh.hist⟩ : State X) := by
  have hnew : paidIn ⟨call, op, e.tx, sh.db⟩ +
      (((depositedCoin ⟨call, op, e.tx, sh.db⟩).elim 0 faceValue : Nat) : Int) =
        e.owes + e.holds := by
    cases op <;> cases e <;> first
      | exact False.elim hfrom
      | rfl
      | simp only [paidIn, depositedCoin, Option.elim, owes, holds]
        omega
      | skip
    · obtain ⟨rfl, hb⟩ := hfrom
      simp [paidIn, depositedCoin, owes, holds, (i64TryFrom_eq_some hb).1]
    · obtain ⟨-, -, ⟨denom, hd, hcoin⟩, -⟩ := hfrom
      simp [paidIn, depositedCoin, owes, holds, hcoin, coinKey, faceValue, (i64TryFrom_eq_some hd).1]
  have hreturned : returned (⟨call, op, e.tx, sh.db⟩ :: sh.hist) =
      (depositedCoin ⟨call, op, e.tx, sh.db⟩).elim 0 faceValue + returned sh.hist := by
    unfold returned coins
    rw [List.filterMap_cons]
    cases depositedCoin ⟨call, op, e.tx, sh.db⟩ <;> simp
  have hendowment : endowment (⟨call, op, e.tx, sh.db⟩ :: sh.hist) =
      paidIn ⟨call, op, e.tx, sh.db⟩ + endowment sh.hist := List.sum_cons
  unfold Balanced at h ⊢
  simp only [liabilities_apply hv, standing_apply hv hp, hreturned, hendowment]
  push_cast
  omega

end Entry

/-- The runs that keep their keys and reverse no debit twice. -/
def prudent : Policy (service X) :=
  ⟨fun κ κ' => κ'.keys = κ.keys, fun sh c => reversesOnce sh c = true⟩

theorem balanced (h : Sys.Steps prudent (start κ) s) : Balanced s.shared := by
  refine invariant (J := fun _ sh => Balanced sh) h rfl ?_ (fun h _ => h) (fun h _ => h)
  intro κ sh call op e _ hj hv hfrom hp
  exact Entry.balanced hv hfrom (Entry.not_secondReversal hv hp) hj

/-! ## The coins that came back -/

/-- A deposit of a coin that does not verify issues no command. -/
theorem deposit_only_genuine (req : DepositRequest) :
    Prog.Along (fun _ _ => Genuine κ req.coin) (fun _ _ => True) [] (deposit κ req).run := by
  unfold deposit
  dsimp only
  split
  · trivial
  rename_i hscheme
  have hid : req.coin.schemeId = schemeIdRsaDeterministic := by
    unfold ensureSupportedScheme at hscheme
    split at hscheme
    · assumption
    · exact absurd hscheme (by simp)
  split
  · trivial
  rename_i keypair hget
  split
  · trivial
  rename_i hverify
  exact .of_forall (fun _ _ => ⟨hid, keypair, hid ▸ hget, hverify⟩) fun _ _ => trivial

/-- Every coin that came back was genuine. -/
theorem genuine_of_returned (h : Sys.Steps prudent (start κ) s) :
    s.conf.keys = κ.keys ∧ ∀ coin ∈ coins s.shared.hist, Genuine κ coin := by
  have hcode : ∀ (κ : Config X) op, Prog.Along
      (fun _ _ => ∀ req, op = .deposit req → Genuine κ req.coin) (fun _ _ => True) []
        ((service X).code κ op) := by
    intro κ op
    cases op with
    | deposit req =>
      refine ((deposit_only_genuine req).mono ?_ fun _ _ h => h).map fun _ _ _ => trivial
      rintro _ _ hg _ ⟨⟩
      exact hg
    | _ => exact .of_forall (fun _ _ _ h => by cases h) fun _ _ => trivial
  induction h with
  | refl => exact ⟨rfl, fun coin hc => absurd hc (by simp [coins, start, Sys.init])⟩
  | @tail s₁ s₂ hrun hstep ih =>
    obtain ⟨e, he, hallows⟩ := hstep
    refine ⟨?_, fun coin hcoin => ?_⟩
    · rcases Sys.conf_step he with hconf | rfl
      · rw [hconf]
        exact ih.1
      · exact (hallows.reboot _ rfl).trans ih.1
    rcases Sys.committed (G := prudent.Allows)
        (P := fun κ op _ _ => ∀ req, op = .deposit req → Genuine κ req.coin) hcode hrun
        Sys.calls_init rfl he with
      hsame | ⟨i, op, c, k, tx, t, ds, -, hshared, -, hgenuine, -⟩
    · exact ih.2 coin (hsame.2 ▸ hcoin)
    have hhist : s₂.shared.hist = ⟨i, op, t, s₁.shared.db⟩ :: s₁.shared.hist := by
      rw [hshared]
      rfl
    rw [hhist, coins, List.filterMap_cons] at hcoin
    cases op with
    | deposit req =>
      rcases List.mem_cons.mp hcoin with rfl | hold
      · obtain ⟨hid, keypair, hget, hverify⟩ := hgenuine req rfl
        exact ⟨hid, keypair, ih.1 ▸ hget, hverify⟩
      · exact ih.2 coin hold
    | _ => exact ih.2 coin hcoin

/-- No coin came back twice. -/
theorem nodup_coins {π : Policy (service X)} (h : Sys.Steps π (start κ) s) :
    ((coins s.shared.hist).map coinKeyOf).Nodup := by
  have hkeys : (coins s.shared.hist).map coinKeyOf = s.shared.hist.filterMap spends := by
    rw [coins, List.map_filterMap]
    refine List.filterMap_congr fun c _ => ?_
    unfold depositedCoin spends
    cases c.op <;> rfl
  rw [hkeys, List.nodup_iff_count_le_one]
  intro coin
  have hcount : List.count coin (s.shared.hist.filterMap spends) =
      (s.shared.hist.filter fun c => spends c = some coin).length := by
    rw [List.count_filterMap, List.countP_eq_length_filter]
    simp [beq_eq_decide]
  rw [hcount]
  cases hl : s.shared.db.spentSerials.lookup coin with
  | none => rw [(creditedOnce h).unspent coin hl]; exact Nat.zero_le 1
  | some r =>
    obtain ⟨c, -, hone, -⟩ := (creditedOnce h).spent coin r hl
    rw [hone]
    exact Nat.le_refl 1

/-! ## Banks together -/

variable {B : Type} {κs : B → Config X} {t : B → Sys (service X)}

/-- Banks that serve, each after a run of its own, and no two of which took the same coin. -/
structure Fleet (κs : B → Config X) (t : B → Sys (service X)) : Prop where
  run : ∀ b, Sys.Steps prudent (start (κs b)) (t b)
  apart : ∀ b b' coin coin', coin ∈ coins (t b).shared.hist → coin' ∈ coins (t b').shared.hist →
    coinKeyOf coin = coinKeyOf coin' → b = b'

/-- No key signs for two denominations. -/
def KeysApart (κs : B → Config X) : Prop := ∀ b b' denom denom' keypair keypair',
  (κs b).keys.get denom schemeIdRsaDeterministic = some keypair →
    (κs b').keys.get denom' schemeIdRsaDeterministic = some keypair' →
      keypair.pk = keypair'.pk → denom = denom'

/-- A withdrawal of a bank, by its request id, holds a signature of this key. -/
def Issued (κs : B → Config X) (t : B → Sys (service X)) (pk : X.PublicKey) (w : B × String) :
    Prop :=
  ∃ row signature, (t w.1).shared.db.withdrawStates.lookup w.2 = some row ∧
    row.Signed signature ∧ ∃ denom keypair, u64TryFrom row.denominationCents = some denom ∧
      (κs w.1).keys.get denom schemeIdRsaDeterministic = some keypair ∧ keypair.pk = pk

/-- **One-more unforgeability.** Whoever came with valid signatures of a key on so many serials,
    that key has signed as often. -/
def Unforged (κs : B → Config X) (t : B → Sys (service X)) : Prop :=
  ∀ (pk : X.PublicKey) (l : List Coin), (l.map Coin.serialNumber).Nodup →
    (∀ coin ∈ l, (∃ b, coin ∈ coins (t b).shared.hist) ∧
      verify pk coin.serialNumber coin.signature = .ok ()) →
    ∃ issued : List (B × String), issued.Nodup ∧ (∀ w ∈ issued, Issued κs t pk w) ∧
      l.length ≤ issued.length

/-- What a coin or a signature is of: a key, and how many cents. -/
abbrev Kind (X : Crypto) := Option X.PublicKey × Nat

def kindOf (κ : Config X) (denom : UInt64) : Kind X :=
  ((κ.keys.get denom schemeIdRsaDeterministic).map Keypair.pk, denom.toNat)

/-- The kind of a withdrawal's signature; one that was given back is of no kind, and weighs
    nothing. -/
def WithdrawRow.kind (κ : Config X) (row : WithdrawRow) : Kind X :=
  if row.state = .compensated then (none, 0)
  else
    (((u64TryFrom row.denominationCents).bind fun denom =>
      κ.keys.get denom schemeIdRsaDeterministic).map Keypair.pk, row.denominationCents.toNat)

namespace Fleet

variable [Fintype B]

theorem nodup_coins (h : Fleet κs t) :
    ((gather fun b => coins (t b).shared.hist).map fun x => coinKeyOf x.2).Nodup :=
  nodup_map_gather (fun b => Bank.nodup_coins (h.run b)) h.apart

/-- Coins of one kind have different serials. -/
theorem nodup_serials (h : Fleet κs t) {l : List (B × Coin)} {k : Kind X}
    (hl : l.Sublist (gather fun b => coins (t b).shared.hist))
    (hk : ∀ x ∈ l, kindOf (κs x.1) x.2.denominationCents = k) :
    (l.map fun x => x.2.serialNumber).Nodup := by
  have hnd : (l.map fun x => coinKeyOf x.2).Nodup := h.nodup_coins.sublist (hl.map _)
  refine (List.Nodup.of_map _ hnd).map_on fun x hx y hy hserial => ?_
  refine List.inj_on_of_nodup_map hnd hx hy ?_
  have hscheme : ∀ x ∈ l, x.2.schemeId = schemeIdRsaDeterministic := fun x hx =>
    ((genuine_of_returned (h.run x.1)).2 x.2 (mem_gather.mp (hl.subset hx))).1
  have hdenom : x.2.denominationCents.toNat = y.2.denominationCents.toNat :=
    congrArg Prod.snd ((hk x hx).trans (hk y hy).symm)
  simp only [coinKeyOf, coinKey, hscheme x hx, hscheme y hy, hdenom, hserial]

omit [Fintype B] in
/-- The signatures that a key issued are withdrawals of one kind. -/
theorem kind_of_issued (h : Fleet κs t) (hkeys : KeysApart κs) {pk : X.PublicKey}
    {w : B × String} (hw : Issued κs t pk w) {b : B} {denom : UInt64} {keypair : Keypair X}
    (hget : (κs b).keys.get denom schemeIdRsaDeterministic = some keypair)
    (hpk : keypair.pk = pk) :
    ∃ row, (t w.1).shared.db.withdrawStates.lookup w.2 = some row ∧
      row.kind (κs w.1) = kindOf (κs b) denom := by
  obtain ⟨row, signature, hl, hsigned, denom', keypair', hdenom, hget', hpk'⟩ := hw
  obtain rfl : denom' = denom := hkeys _ _ _ _ _ _ hget' hget (hpk'.trans hpk.symm)
  have hrow : row.denominationCents = denom'.toNat :=
    (i64TryFrom_eq_some (u64TryFrom_eq_some
      ((good (h.run w.1)).inv.row w.2 row hl).denom_le hdenom)).1
  refine ⟨row, hl, ?_⟩
  rw [WithdrawRow.kind, if_neg hsigned.not_compensated, kindOf, hdenom, Option.bind_some, hget',
    hget, Option.map_some, Option.map_some, hpk', hpk, hrow, Int.toNat_natCast]

/-- **Of each kind, no more coins came back than withdrawals stand.** -/
theorem kinds_le [DecidableEq (Kind X)] (h : Fleet κs t) (hkeys : KeysApart κs)
    (hunforged : Unforged κs t) (k : Kind X) :
    ((gather fun b => coins (t b).shared.hist).filter fun x =>
      kindOf (κs x.1) x.2.denominationCents = k).length ≤
    ((gather fun b => (t b).shared.db.withdrawStates.rows).filter fun x =>
      x.2.2.kind (κs x.1) = k).length := by
  generalize hl : (gather fun b => coins (t b).shared.hist).filter (fun x =>
    kindOf (κs x.1) x.2.denominationCents = k) = l
  have hsub : l.Sublist (gather fun b => coins (t b).shared.hist) := hl ▸ List.filter_sublist
  have hk : ∀ x ∈ l, kindOf (κs x.1) x.2.denominationCents = k := by
    intro x hx
    rw [← hl] at hx
    exact of_decide_eq_true (List.mem_filter.mp hx).2
  have hgenuine : ∀ x ∈ l, Genuine (κs x.1) x.2 := fun x hx =>
    (genuine_of_returned (h.run x.1)).2 x.2 (mem_gather.mp (hsub.subset hx))
  by_cases hnil : l = []
  · rw [hnil]
    exact Nat.zero_le _
  -- One of the coins names the key, and all of them verify under it.
  obtain ⟨x₀, hx₀⟩ := List.exists_mem_of_ne_nil l hnil
  obtain ⟨keypair, hget, -⟩ := (hgenuine x₀ hx₀).verifies
  have hverify : ∀ x ∈ l, verify keypair.pk x.2.serialNumber x.2.signature = .ok () := by
    intro x hx
    obtain ⟨keypair', hget', hverify⟩ := (hgenuine x hx).verifies
    have hsame := congrArg Prod.fst ((hk x hx).trans (hk x₀ hx₀).symm)
    rw [kindOf, kindOf, hget', hget] at hsame
    have hpk : keypair'.pk = keypair.pk := Option.some.inj hsame
    exact hpk ▸ hverify
  obtain ⟨issued, hnd, hissued, hlen⟩ := hunforged keypair.pk (l.map Prod.snd)
    (by
      rw [List.map_map]
      exact h.nodup_serials hsub hk)
    (fun coin hc => by
      obtain ⟨x, hx, rfl⟩ := List.mem_map.mp hc
      exact ⟨⟨x.1, mem_gather.mp (hsub.subset hx)⟩, hverify x hx⟩)
  rw [List.length_map] at hlen
  refine hlen.trans ?_
  -- The signatures are among the withdrawals of that kind.
  have hamong : issued ⊆ ((gather fun b => (t b).shared.db.withdrawStates.rows).filter fun x =>
      x.2.2.kind (κs x.1) = k).map fun x => (x.1, x.2.1) := by
    intro w hw
    obtain ⟨row, hrow, hkind⟩ := h.kind_of_issued hkeys (hissued w hw) hget rfl
    exact List.mem_map.mpr ⟨(w.1, w.2, row), List.mem_filter.mpr
      ⟨mem_gather.mpr (Table.mem_rows.mpr hrow), decide_eq_true (hkind.trans (hk x₀ hx₀))⟩, rfl⟩
  exact (hnd.subperm hamong).length_le.trans_eq (List.length_map ..)

omit [Fintype B] in
/-- What stands is what the kinds of the withdrawals weigh. -/
theorem standing_eq (h : Fleet κs t) (b : B) : (t b).shared.db.standing =
    (((t b).shared.db.withdrawStates.rows.map fun x => (x.2.kind (κs b)).2).sum : Nat) := by
  rw [Nat.cast_list_sum, List.map_map, Tables.standing, Table.total, Table.rows, List.map_map]
  refine congrArg List.sum (List.map_congr_left fun e he => ?_)
  have hnonneg := ((good (h.run b)).inv.row e.1 e.2 (AList.mem_lookup_iff.mpr he)).denom_nonneg
  show e.2.held = ((e.2.kind (κs b)).2 : Int)
  unfold WithdrawRow.held WithdrawRow.kind
  split
  · rfl
  · exact (Int.toNat_of_nonneg hnonneg).symm

/-- **No more came back than was taken out.** -/
theorem returned_le (h : Fleet κs t) (hkeys : KeysApart κs) (hunforged : Unforged κs t) :
    ∑ b, (returned (t b).shared.hist : Int) ≤ ∑ b, (t b).shared.db.standing := by
  classical
  have hkinds := sum_le_of_kinds Prod.snd (h.kinds_le hkeys hunforged)
  rw [sum_gather (w := fun b (coin : Coin) => (kindOf (κs b) coin.denominationCents).2),
    sum_gather (w := fun b (x : String × WithdrawRow) => (x.2.kind (κs b)).2)] at hkinds
  calc ∑ b, (returned (t b).shared.hist : Int)
    _ = ((∑ b, returned (t b).shared.hist : Nat) : Int) := (Nat.cast_sum ..).symm
    _ ≤ ((∑ b, ((t b).shared.db.withdrawStates.rows.map fun x =>
          (x.2.kind (κs b)).2).sum : Nat) : Int) := Int.ofNat_le.mpr hkinds
    _ = ∑ b, (t b).shared.db.standing := by
      rw [Nat.cast_sum]
      exact Finset.sum_congr rfl fun b _ => (h.standing_eq b).symm

end Fleet

/-- **Banks together owe no more than was paid in.** -/
theorem Fleet.liabilities_le [Fintype B] (h : Fleet κs t) (hkeys : KeysApart κs)
    (hunforged : Unforged κs t) :
    ∑ b, (t b).shared.db.liabilities ≤ ∑ b, endowment (t b).shared.hist := by
  have hle := h.returned_le hkeys hunforged
  have hbalanced : ∑ b, ((t b).shared.db.liabilities + (t b).shared.db.standing) =
      ∑ b, (endowment (t b).shared.hist + (returned (t b).shared.hist : Int)) :=
    Finset.sum_congr rfl fun b _ => balanced (h.run b)
  rw [Finset.sum_add_distrib, Finset.sum_add_distrib] at hbalanced
  omega

/-- **A bank is solvent.** Where its keys stay, no debit is reversed twice and its signatures
    cannot be forged, in every state of every run: its books balance, no more has come back than
    was taken out, and what it owes is at most what was paid in. -/
theorem solvent (h : Sys.Steps prudent (start κ) s) (hkeys : KeysApart fun _ : Unit => κ)
    (hunforged : Unforged (fun _ : Unit => κ) fun _ => s) :
    Balanced s.shared ∧ (returned s.shared.hist : Int) ≤ s.shared.db.standing ∧
      s.shared.db.liabilities ≤ endowment s.shared.hist := by
  have hfleet : Fleet (fun _ : Unit => κ) fun _ => s :=
    ⟨fun _ => h, fun _ _ _ _ _ _ _ => rfl⟩
  have hreturned := hfleet.returned_le hkeys hunforged
  have hsolvent := hfleet.liabilities_le hkeys hunforged
  rw [Fintype.sum_unique, Fintype.sum_unique] at hreturned hsolvent
  exact ⟨balanced h, hreturned, hsolvent⟩

/-! ### Over the toy primitives, where every signature verifies -/

theorem keysApart_toy {κs : B → Config .toy} (h : ∀ b, (κs b).keys = Config.toy.keys) :
    KeysApart κs := by
  intro b b' denom denom' keypair keypair' hget hget' _
  have hone : ∀ denom keypair, Config.toy.keys.get denom schemeIdRsaDeterministic = some keypair →
      denom = 100 := by
    intro denom keypair hget
    by_contra hne
    rw [KeyStore.get, Config.toy, Table.lookup_put_ne fun he => hne (Prod.mk.inj he).1] at hget
    cases hget
  rw [h] at hget hget'
  rw [hone denom keypair hget, hone denom' keypair' hget']

/-- What came back are few serials, and as many signatures were issued. -/
theorem unforged_toy {κs : B → Config .toy} {t : B → Sys (service .toy)} (back : List Serial)
    (issued : List (B × String))
    (hback : ∀ b, ∀ coin ∈ coins (t b).shared.hist, coin.serialNumber ∈ back)
    (hissued : ∀ w ∈ issued, Issued κs t () w) (hnd : issued.Nodup)
    (hlen : back.length ≤ issued.length) : Unforged κs t := by
  intro pk l hserials hl
  refine ⟨issued, hnd, hissued, ?_⟩
  have hsub : l.map Coin.serialNumber ⊆ back := by
    intro serial hserial
    obtain ⟨coin, hc, rfl⟩ := List.mem_map.mp hserial
    obtain ⟨⟨b, hb⟩, -⟩ := hl coin hc
    exact hback b coin hb
  have hfew := (hserials.subperm hsub).length_le
  rw [List.length_map] at hfew
  exact hfew.trans hlen

/-- A withdrawal of 100 cents, and the coin comes back. -/
def circulating : List (Event (service .toy)) :=
  opened ++ call (.withdraw ⟨"alice", "r", 100, [7]⟩) :: go 2 9 ++
    call (.deposit ⟨toyCoin 1, "alice", "p"⟩) :: go 3 7

theorem solvent_circulating : ∃ s : Sys (service .toy),
    s.shared.db.standing = 100 ∧ returned s.shared.hist = 100 ∧ Balanced s.shared ∧
      (returned s.shared.hist : Int) ≤ s.shared.db.standing ∧
      s.shared.db.liabilities ≤ endowment s.shared.hist := by
  have hrun : ((start Config.toy).runGuarded reversesOnce circulating).any (fun s => decide
      (s.shared.db.standing = 100 ∧ returned s.shared.hist = 100 ∧
        (coins s.shared.hist).map Coin.serialNumber = [toySerial 1] ∧
        s.shared.db.withdrawStates.lookup "r" =
          some ⟨.completed, "alice", 100, [7], some [7]⟩)) = true := by decide
  obtain ⟨s, hs, hp⟩ := (Option.any_eq_true _ _).mp hrun
  obtain ⟨hstanding, hreturned, hback, hrow⟩ := of_decide_eq_true hp
  refine ⟨s, hstanding, hreturned, solvent
    (Sys.steps_of_runGuarded_steady (π := prudent) (fun _ _ h => h) ?_ hs)
    (keysApart_toy fun _ => rfl)
    (unforged_toy [toySerial 1] [((), "r")] (fun _ coin hc => ?_) ?_
      (List.nodup_singleton _) (Nat.le_refl 1))⟩
  · simp [circulating, opened, call, go, Event.steps]
  · exact hback ▸ List.mem_map_of_mem hc
  · intro w hw
    obtain rfl := List.mem_singleton.mp hw
    exact ⟨_, [7], hrow, ⟨Or.inr rfl, rfl⟩, 100, ⟨(), ()⟩, rfl, rfl, rfl⟩

end Bank

/-! ## The members of one registry -/

namespace Net

variable {B : Type} [DecidableEq B] {π : NetPolicy X B} {κ : B → Member X} {s s' : Net X B}

/-- The runs in which every member's own steps are within its policy. -/
@[reducible] def each (ρ : Policy (Bank.service X)) : NetPolicy X B := fun s e s' =>
  ∀ b be, e = .bank b be → ρ.Allows (s.bank b) be (s'.bank b)

/-- The runs in which every member keeps its keys and reverses no debit twice. -/
@[reducible] def prudent : NetPolicy X B := each Bank.prudent

theorem step_of_bank {b : B} {be : Event (Bank.service X)}
    (hs : s.step (.bank b be) = some s') : (s.bank b).step be = some (s'.bank b) := by
  cases stepped hs with
  | @bank _ _ t hp ht =>
    show (s.bank b).step be = some (Function.update s.bank b t b)
    rw [ht, Function.update_self]

/-- What a bank does in such a run is a run within its policy. -/
theorem bank_each {ρ : Policy (Bank.service X)} (h : Steps (each ρ) (start κ) s) (b : B) :
    Sys.Steps ρ (Bank.start (κ b).1) (s.bank b) := by
  induction h with
  | refl => exact .refl
  | @tail s₁ _ _ hstep ih =>
    obtain ⟨e, he, hallows⟩ := hstep
    cases stepped he with
    | @bank b' be t _ ht =>
      by_cases hb : b = b'
      · subst hb
        exact ih.tail ⟨be, step_of_bank he, hallows b be rfl⟩
      · show Sys.Steps ρ _ (Function.update s₁.bank b' t b)
        rw [Function.update_of_ne hb]
        exact ih
    | _ => exact ih

/-- A coin that came back to a bank stands there as a deposit. -/
theorem deposit_of_coin (h : Steps π (start κ) s) {b : B} {coin : Coin}
    (hcoin : coin ∈ Bank.coins (s.bank b).shared.hist) : ∃ r a,
      (s.bank b).shared.db.deposits.lookup r = some ⟨Bank.coinKeyOf coin, a⟩ := by
  have hrun := steps_bank h b
  obtain ⟨c, hc, hdeposited⟩ := List.mem_filterMap.mp hcoin
  have hspends : Bank.spends c = some (Bank.coinKeyOf coin) := by
    unfold Bank.depositedCoin at hdeposited
    unfold Bank.spends
    split at hdeposited
    · obtain rfl := Option.some.inj hdeposited
      simp only [*]
    · exact absurd hdeposited (by simp)
  cases hl : (s.bank b).shared.db.spentSerials.lookup (Bank.coinKeyOf coin) with
  | none =>
    have hmem : c ∈ (s.bank b).shared.hist.filter fun c =>
        Bank.spends c = some (Bank.coinKeyOf coin) :=
      List.mem_filter.mpr ⟨hc, decide_eq_true hspends⟩
    rw [(Bank.creditedOnce hrun).unspent _ hl] at hmem
    exact absurd hmem (by simp)
  | some r =>
    obtain ⟨a, ha⟩ := (Bank.spentByDeposit hrun _ r).mp hl
    exact ⟨r, a, ha⟩

/-- No two members took the same coin. -/
theorem coins_apart (h : Steps π (start κ) s) {b b' : B} {coin coin' : Coin}
    (hcoin : coin ∈ Bank.coins (s.bank b).shared.hist)
    (hcoin' : coin' ∈ Bank.coins (s.bank b').shared.hist)
    (hkey : Bank.coinKeyOf coin = Bank.coinKeyOf coin') : b = b' := by
  obtain ⟨r, a, hr⟩ := deposit_of_coin h hcoin
  obtain ⟨r', a', hr'⟩ := deposit_of_coin h hcoin'
  obtain ⟨i, hi⟩ := Bank.deposit_heard (κ b).2 (steps_bank h b) hr
  obtain ⟨i', hi'⟩ := Bank.deposit_heard (κ b').2 (steps_bank h b') hr'
  exact (heard_once h hi (show Bank.Heard _ i' (Bank.coinKeyOf coin).serialKey from
    hkey.symm ▸ hi')).1

theorem fleet (h : Steps prudent (start κ) s) : Bank.Fleet (fun b => (κ b).1) s.bank :=
  ⟨bank_each h, fun _ _ _ _ hcoin hcoin' hkey => coins_apart h hcoin hcoin' hkey⟩

/-- **The members together are solvent.** However calls, messages, losses and crashes
    interleave: where the members keep their keys, which they may share, reverse no debit twice,
    and no signatures are forged, no more has come back to all of them than was taken out
    anywhere, and together they owe at most what was ever paid in to them. -/
theorem members_solvent [Fintype B] (h : Steps prudent (start κ) s)
    (hkeys : Bank.KeysApart fun b => (κ b).1)
    (hunforged : Bank.Unforged (fun b => (κ b).1) s.bank) :
    (∀ b, Bank.Balanced (s.bank b).shared) ∧
      ∑ b, (Bank.returned (s.bank b).shared.hist : Int) ≤
        ∑ b, (s.bank b).shared.db.standing ∧
      ∑ b, (s.bank b).shared.db.liabilities ≤ ∑ b, Bank.endowment (s.bank b).shared.hist :=
  ⟨fun b => Bank.balanced (bank_each h b), (fleet h).returned_le hkeys hunforged,
    (fleet h).liabilities_le hkeys hunforged⟩

/-- Nobody restarts, and no debit is reversed twice. -/
@[reducible] def steadily : NetPolicy X B := fun s e _ =>
  match e with
  | .bank _ (.crash _) => False
  | .bank b be => ((s.bank b).stepGuarded Bank.reversesOnce be).isSome = true
  | _ => True

instance (s : Net X B) (e : NetEvent X B) (s' : Net X B) : Decidable (steadily s e s') := by
  unfold steadily
  split <;> infer_instance

theorem prudent_of_steadily (h : Steps steadily s s') : Steps prudent s s' := by
  refine Relation.ReflTransGen.mono (fun s₁ s₂ hstep => ?_) _ _ h
  obtain ⟨e, he, hsteady⟩ := hstep
  refine ⟨e, he, ?_⟩
  rintro b be rfl
  have hκ : ∀ κ, be ≠ .crash κ := by
    rintro κ rfl
    exact hsteady
  have hsome : ((s₁.bank b).stepGuarded Bank.reversesOnce be).isSome = true := by
    cases be with
    | crash κ => exact absurd rfl (hκ κ)
    | _ => exact hsteady
  obtain ⟨t, ht⟩ := Option.isSome_iff_exists.mp hsome
  obtain ⟨ht', hallows⟩ := Sys.allows_of_stepGuarded (π := Bank.prudent) (fun _ _ h => h) hκ ht
  obtain rfl : t = s₂.bank b := Option.some.inj (ht'.symm.trans (step_of_bank he))
  exact hallows

/-- The toy coin is withdrawn at one member and deposited at the other. -/
def travelled : List (NetEvent .toy Bool) :=
  opened ++ (Bank.call (.withdraw ⟨"alice", "r", 100, [7]⟩) :: Bank.go 2 9).map (.bank false) ++
    asks true 2 toyDeposit 1 ++ hears true 2 .accepted [] 7

theorem members_solvent_travelled : ∃ s : Net .toy Bool,
    (s.bank false).shared.db.standing = 100 ∧ Bank.returned (s.bank true).shared.hist = 100 ∧
      ∑ b, (s.bank b).shared.db.liabilities ≤ ∑ b, Bank.endowment (s.bank b).shared.hist := by
  obtain ⟨s, hs, hp⟩ := exists_of_run (π := steadily) (s := start members) (l := travelled)
    (p := fun s => decide ((s.bank false).shared.db.standing = 100 ∧
      Bank.returned (s.bank true).shared.hist = 100 ∧
      (∀ b, ∀ coin ∈ Bank.coins (s.bank b).shared.hist, coin.serialNumber ∈ [toySerial 1]) ∧
      (s.bank false).shared.db.withdrawStates.lookup "r" =
        some ⟨.completed, "alice", 100, [7], some [7]⟩)) (by decide +kernel)
  obtain ⟨hstanding, hreturned, hback, hrow⟩ := of_decide_eq_true hp
  refine ⟨s, hstanding, hreturned, (members_solvent (prudent_of_steadily hs)
    (Bank.keysApart_toy fun _ => rfl)
    (Bank.unforged_toy [toySerial 1] [(false, "r")] hback ?_
      (List.nodup_singleton _) (Nat.le_refl 1))).2.2⟩
  intro w hw
  obtain rfl := List.mem_singleton.mp hw
  exact ⟨_, [7], hrow, ⟨Or.inr rfl, rfl⟩, 100, ⟨(), ()⟩, rfl, rfl, rfl⟩

end Net

end Digicash
