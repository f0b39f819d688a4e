import Digicash.CrossBank
import Digicash.Lib.Progress

/-!
# What the registry holds and what the bank holds

The registry commits a submission before the bank's own transaction runs, and nothing takes it
back. So a serial recorded under a bank's name is a deposit at that bank only if, from the
registry's commit on, the deposit call is led to its own commit: `Attended` says step by step
what that takes. The half about the bank's code is `deposit_settles`: once its submission is
accepted, a deposit whose commands go well cannot end otherwise than in its deposit.
-/

namespace Digicash

open Lib

variable {X : Crypto}

namespace Bank

/-! ## Commands that go well -/

/-- The bank holds a deposit of the coin with this serial. -/
def Tables.Holds (db : Tables) (key : Registry.SerialKey) : Prop :=
  ∃ e ∈ db.deposits.rows, e.2.coin.serialKey = key

instance (db : Tables) (key : Registry.SerialKey) : Decidable (db.Holds key) :=
  inferInstanceAs (Decidable (∃ e ∈ db.deposits.rows, e.2.coin.serialKey = key))

theorem Tables.holds_of_lookup {db : Tables} {r : String} {row : DepositRow}
    (h : db.deposits.lookup r = some row) : db.Holds row.coin.serialKey :=
  ⟨(r, row), Table.mem_rows.mpr h, rfl⟩

theorem Tables.Holds.apply {κ : Config X} {db : Tables} {e : Entry} {key : Registry.SerialKey}
    (hv : e.Valid κ db) (h : db.Holds key) : (e.apply db).Holds key := by
  obtain ⟨⟨r, row⟩, hmem, rfl⟩ := h
  exact holds_of_lookup (e.deposit_stays hv (Table.mem_rows.mp hmem))

/-- Whether a statement of a deposit finds what it needs: its request id and its coin unused,
    and an account that can take the credit. -/
def Stmt.finds (db : Tables) : Stmt → Bool
  | .selectDeposit r => (db.deposits.lookup r).isNone
  | .insertSpent coin _ => (db.spentSerials.lookup coin).isNone
  | .credit denom a =>
    (db.accounts.lookup a).any fun b => decide (0 ≤ b + denom ∧ b + denom ≤ i64Max)
  | .insertDeposit r _ _ => (db.deposits.lookup r).isNone
  | _ => true

/-- Whether a command of a deposit goes well: the registry's answer arrives and accepts, no
    statement fails, and a commit takes effect, acknowledged or not. -/
def goesWell (fault : Fault) (o : Oracle) (sh : State X) (tx : Option (Tx database)) :
    Cmd database → Bool
  | .begin => fault = .none
  | .commit => fault ≠ .before
  | .rollback => true
  | .stmt s => fault = .none && s.finds (tx.elim sh.db fun t => t.view sh.db)
  | .ext (.postSerials _) =>
    match o.reply with
    | .ok response => response.outcome = .accepted
    | .error _ => false
  | .ext _ => true

/-- Whether the next command of a call goes well. -/
def nextGoesWell (fault : Fault) (o : Oracle) (sh : State X) (ss : Session (service X)) : Bool :=
  match ss.code with
  | .cmd c _ => goesWell fault o sh ss.tx c
  | .pure _ => true

/-- Every command goes well. -/
@[reducible] def smoothly : Demand database (service X).Op :=
  fun fault o sh tx c => goesWell fault o sh tx c = true

/-- The bank came to hold the deposit. -/
@[reducible] def Paid (key : Registry.SerialKey) (sh : State X) : Prop := sh.db.Holds key

/-! ## The code of a deposit -/

theorem commitDeposit_settles {req : DepositRequest} {denom : Int}
    (hd : i64TryFrom req.coin.denominationCents = some denom) {tx : Option (Tx database)} :
    GetsTo (smoothly (X := X)) (Paid (coinKey req.coin denom).serialKey)
      (commitDeposit req).run tx := by
  have hdenom : toI64 req.coin.denominationCents "denomination" = .ok denom := by
    simp only [toI64, hd]
  unfold commitDeposit
  rw [hdenom]
  refine Leads.transaction (fun fault o sh h => of_decide_eq_true h)
    (fun fault o sh t h => of_decide_eq_true h) ?_
  refine Leads.query_bind fun fault o sh h => ?_
  obtain ⟨hf, hfinds⟩ := Bool.and_eq_true .. |>.mp h
  have hnew := Option.isNone_iff_eq_none.mp hfinds
  refine ⟨of_decide_eq_true hf, [], none, [], congrArg Effect.read hnew, ?_⟩
  refine Leads.query_bind fun fault o sh h => ?_
  obtain ⟨hf, hfinds⟩ := Bool.and_eq_true .. |>.mp h
  have hfresh := Option.isNone_iff_eq_none.mp hfinds
  refine ⟨of_decide_eq_true hf, [], (1 : Nat),
    [⟨.spent (coinKey req.coin denom), some req.requestId⟩], insertSpent_of_none (o := o) hfresh, ?_⟩
  rw [if_neg Nat.one_ne_zero]
  refine Leads.query_bind fun fault o sh h => ?_
  obtain ⟨hf, hfinds⟩ := Bool.and_eq_true .. |>.mp h
  obtain ⟨b, hb, hrange⟩ := (Option.any_eq_true _ _).mp hfinds
  obtain ⟨hmin, hmax⟩ := of_decide_eq_true hrange
  refine ⟨of_decide_eq_true hf, [], (1 : Nat), [⟨.account req.accountId, some (b + denom)⟩],
    addBalance_of_some hb hmin hmax, ?_⟩
  rw [if_neg Nat.one_ne_zero]
  refine Leads.query_bind fun fault o sh h => ?_
  obtain ⟨hf, hfinds⟩ := Bool.and_eq_true .. |>.mp h
  have hnew := Option.isNone_iff_eq_none.mp hfinds
  refine ⟨of_decide_eq_true hf, [], (1 : Nat),
    [⟨.deposit req.requestId, some ⟨coinKey req.coin denom, req.accountId⟩⟩],
    insertDeposit_of_none (o := o) hnew, ?_⟩
  exact ⟨_, _, rfl, rfl, fun sh i op =>
    @Tables.holds_of_lookup _ _ ⟨coinKey req.coin denom, req.accountId⟩
      (Table.lookup_put_self _ req.requestId _)⟩

theorem depositLocally_settles {req : DepositRequest} {denom : Int}
    (hd : i64TryFrom req.coin.denominationCents = some denom) {tx : Option (Tx database)} :
    GetsTo (smoothly (X := X)) (Paid (coinKey req.coin denom).serialKey)
      (depositLocally req).run tx :=
  Leads.bind (fun _ _ h => h.elim) (commitDeposit_settles hd)

/-- Not a submission. -/
def isLocal (c : Cmd database) : Prop := ∀ submission, c ≠ .ext (.postSerials submission)

theorem only_commitDeposit (req : DepositRequest) : (commitDeposit req).run.Only isLocal := by
  have hsql : ∀ s : Stmt, isLocal (.stmt s) := fun s submission h => by cases h
  unfold commitDeposit
  refine only_bind trivial fun denom => only_transaction (fun _ h => by cases h)
    (fun _ h => by cases h) (fun _ h => by cases h) ?_
  refine only_bind (only_query (hsql _)) fun found => ?_
  cases found with
  | some prior =>
    dsimp only
    split
    · trivial
    · trivial
  | none =>
    refine only_bind (only_query (hsql _)) fun inserted => ?_
    split
    · trivial
    refine only_bind (only_query (hsql _)) fun credited => ?_
    split
    · trivial
    exact only_bind (only_query (hsql _)) fun _ => trivial

/-- A call that waits with a submission is led to its deposit from there. -/
def Settling (code : Code database Ans) : Prop :=
  ∀ submission k denom, code = .cmd (.ext (.postSerials submission)) k →
    i64TryFrom submission.denominationCents = some denom → ∀ tx,
      GetsTo (smoothly (X := X)) (Paid (Registry.serialKey submission denom)) code tx

theorem depositLocally_settling (req : DepositRequest) :
    (Ans.deposit <$> (depositLocally req).run).Everywhere (Settling (X := X)) := by
  have honly : (depositLocally req).run.Only isLocal :=
    only_bind (only_commitDeposit req) fun _ => trivial
  refine Prog.Everywhere.of_only (fun a submission k denom h => by cases h)
    (fun c k hc submission k' denom h => ?_)
    (Prog.Only.bind (f := fun r => .pure (Ans.deposit r)) (fun _ => trivial) honly)
  exact absurd (by cases h; rfl) (hc submission)

/-- **A deposit whose submission is accepted ends in its deposit, if all goes well.** -/
theorem deposit_settling (κ : Config X) (req : DepositRequest) :
    (code κ (.deposit req)).Everywhere (Settling (X := X)) := by
  have hpure : ∀ a : Ans, Prog.Everywhere (Settling (X := X)) (.pure a : Code database Ans) :=
    fun a submission k denom h => by cases h
  unfold code deposit
  dsimp only
  split
  · exact hpure _
  split
  · exact hpure _
  split
  · exact hpure _
  cases κ.registryClient with
  | none => exact depositLocally_settling req
  | some client =>
    refine ⟨fun submission k denom h => (by cases h), fun now => ⟨?_, fun reply => ?_⟩⟩
    · intro submission k denom h hd tx free i op fault o sh r sh' tx' hM hx
      cases h
      cases hx
      refine Or.inr ?_
      change (match o.reply with
        | .ok response => decide (response.outcome = .accepted)
        | .error _ => false) = true at hM
      cases hreply : o.reply with
      | error e =>
        rw [hreply] at hM
        exact absurd hM (by simp)
      | ok response =>
        rw [hreply] at hM
        obtain ⟨outcome, transcripts⟩ := response
        obtain rfl : outcome = .accepted := of_decide_eq_true hM
        exact Leads.bind (f := fun r => .pure (Ans.deposit r)) (fun _ _ h => h.elim)
          (depositLocally_settles hd)
    · match reply with
      | .error e => exact hpure _
      | .ok ⟨.accepted, _⟩ => exact depositLocally_settling req
      | .ok ⟨.doubleSpend, _⟩ => exact hpure _
      | .ok ⟨.exposureCapExceeded, _⟩ => exact hpure _

end Bank

variable {B : Type} [DecidableEq B] {κ : B → Member X} {b : B} {bankId : String} {s s' : Net X B}

/-- The step of bank `b` that an event is, if it is one. -/
def NetEvent.at (b : B) : NetEvent X B → Option (Event (Bank.service X))
  | .bank b' e => if b' = b then some e else none
  | _ => none

namespace Net

/-! ## Deposits that are attended to -/

/-- The registry accepted a submission of this call, and the bank does not hold the deposit. -/
def Owed (s : Net X B) (b : B) (i : CallId) : Prop :=
  ∃ c ∈ s.registry.shared.hist, ∃ key ∈ Registry.acceptedKey c, ∃ m ∈ s.about c.call,
    m.bank = b ∧ m.call = i ∧ ¬ (s.bank b).shared.db.Holds key

instance (s : Net X B) (b : B) (i : CallId) : Decidable (s.Owed b i) :=
  inferInstanceAs (Decidable (∃ c ∈ s.registry.shared.hist, ∃ key ∈ Registry.acceptedKey c,
    ∃ m ∈ s.about c.call, m.bank = b ∧ m.call = i ∧ ¬ (s.bank b).shared.db.Holds key))

/-- Call `i` of bank `b` is a deposit that waits with this submission. -/
def awaits (s : Net X B) (b : B) (i : CallId) (submission : SerialSubmission) : Bool :=
  ((s.bank b).live i).any (fun ss => ss.op.isDeposit) &&
    decide (Bank.waiting (s.bank b) i = some submission)

/-- The commit the registry made in a step. -/
def newCommit (s s' : Net X B) : Option (Commit Registry.database Registry.Op) :=
  if s.registry.shared.hist.length < s'.registry.shared.hist.length then
    s'.registry.shared.hist.head?
  else none

/-- A commit that accepts a serial under the name `bankId` does so for a deposit call of bank
    `b` that is waiting for it. -/
def heeded (s : Net X B) (b : B) (bankId : String) (c : Commit Registry.database Registry.Op) :
    Bool :=
  match c.op with
  | .postSerial caller submission =>
    decide (caller ≠ bankId) || (Registry.acceptedKey c).isNone ||
      (s.about c.call).any fun m => decide (m.bank = b) && s.awaits b m.call submission
  | _ => true

/-- A step of bank `b` attends to what it owes: no call that owes is dropped or lost in a crash,
    and each of its commands goes well. -/
def Attends (s : Net X B) (b : B) : Event (Bank.service X) → Prop
  | .start _ => True
  | .drop i => ¬ s.Owed b i
  | .crash _ => ∀ i < (s.bank b).next, ¬ s.Owed b i
  | .step i fault o => s.Owed b i → ∀ ss ∈ (s.bank b).live i,
    Bank.nextGoesWell fault o (s.bank b).shared ss = true

instance (s : Net X B) (b : B) : DecidablePred (s.Attends b)
  | .start _ => .isTrue trivial
  | .drop i => inferInstanceAs (Decidable (¬ s.Owed b i))
  | .crash _ => inferInstanceAs (Decidable (∀ i < (s.bank b).next, ¬ s.Owed b i))
  | .step i fault o => inferInstanceAs (Decidable (s.Owed b i → ∀ ss ∈ (s.bank b).live i,
      Bank.nextGoesWell fault o (s.bank b).shared ss = true))

/-- The runs in which every deposit of bank `b` is attended to, once the registry accepted its
    submission under the name `bankId`. -/
def Attended (b : B) (bankId : String) : NetPolicy X B := fun s e s' =>
  (∀ c ∈ s.newCommit s', s.heeded b bankId c = true) ∧ ∀ ev ∈ e.at b, s.Attends b ev

instance (s s' : Net X B) (b : B) (bankId : String) (e : NetEvent X B) :
    Decidable (Attended b bankId s e s') :=
  inferInstanceAs (Decidable ((∀ c ∈ s.newCommit s', s.heeded b bankId c = true) ∧
    ∀ ev ∈ e.at b, s.Attends b ev))

/-! ## What is owed is on its way -/

/-- Every serial the registry accepted under the bank's name is a deposit of the bank, or a call
    is on its way to making it one. -/
structure OnTheWay (b : B) (bankId : String) (s : Net X B) : Prop where
  asks : ∀ i ss, (s.bank b).live i = some ss → ss.op.isDeposit = true →
    ss.code.Everywhere (Bank.Settling (X := X))
  paid : ∀ c ∈ s.registry.shared.hist, ∀ key submission, Registry.acceptedKey c = some key →
    c.op = .postSerial bankId submission → (s.bank b).shared.db.Holds key ∨
      ∃ m ss, s.about c.call = some m ∧ m.bank = b ∧ (s.bank b).live m.call = some ss ∧
        ss.op.isDeposit = true ∧ GetsTo (Bank.smoothly (X := X)) (Bank.Paid key) ss.code ss.tx

omit [DecidableEq B] in
theorem mem_newCommit {c : Commit Registry.database Registry.Op}
    (h : s'.registry.shared.hist = c :: s.registry.shared.hist) : c ∈ s.newCommit s' := by
  have hlt : s.registry.shared.hist.length < s'.registry.shared.hist.length := by
    rw [h]
    exact Nat.lt_succ_self _
  rw [newCommit, if_pos hlt, h]
  exact rfl

omit [DecidableEq B] in
/-- A call that waits with a submission has the code of one. -/
theorem code_of_awaits {i : CallId} {submission : SerialSubmission}
    (h : s.awaits b i submission = true) : ∃ ss k, (s.bank b).live i = some ss ∧
      ss.op.isDeposit = true ∧ ss.code = .cmd (.ext (.postSerials submission)) k := by
  obtain ⟨hdep, hw⟩ := Bool.and_eq_true .. |>.mp h
  obtain ⟨ss, hl, hop⟩ := (Option.any_eq_true _ _).mp hdep
  have hwait := of_decide_eq_true hw
  unfold Bank.waiting at hwait
  split at hwait
  · rename_i op sub k tx hl'
    obtain rfl := Option.some.inj hwait
    obtain rfl := Option.some.inj (hl.symm.trans hl')
    exact ⟨_, k, hl, hop, rfl⟩
  · exact absurd hwait (by simp)

omit [DecidableEq B] in
theorem OnTheWay.start : OnTheWay b bankId (start κ) :=
  ⟨fun _ _ hl => absurd hl (by simp [Net.start, Bank.start, Sys.init]),
    fun _ hc => absurd hc (by simp [Net.start, Registry.start, Sys.init])⟩

/-- A step of the bank: a call that owes goes on towards its deposit. -/
theorem OnTheWay.bank {e : Event (Bank.service X)} {t : Sys (Bank.service X)}
    (h : OnTheWay b bankId s) (hg : (s.bank b).Good (Bank.protocol X))
    (hc : (s.bank b).Calls) (ha : s.Attends b e) (ht : (s.bank b).step e = some t) :
    OnTheWay b bankId { s with bank := Function.update s.bank b t } := by
  have hbank : Function.update s.bank b t b = t := Function.update_self ..
  have hkeep : ∀ {key}, (s.bank b).shared.db.Holds key → t.shared.db.Holds key := fun hk =>
    Ledger.step_keeps Bank.sound hg ht (J := fun db => Bank.Tables.Holds db _)
      (fun hv h => h.apply hv) hk
  refine ⟨fun i ss hl hop => ?_, fun c hcm key submission hkey hop => ?_⟩
  · change (Function.update s.bank b t b).live i = some ss at hl
    rw [hbank] at hl
    rcases Sys.live_step ht hl with ⟨-, op, -, rfl⟩ | hl' | ⟨op, c, k, tx, r, tx', hl', rfl⟩
    · cases op with
      | deposit req => exact Bank.deposit_settling _ req
      | _ => exact absurd hop (by simp [Bank.Op.isDeposit])
    · exact h.asks i ss hl' hop
    · exact (h.asks i _ hl' hop).2 r
  · show (Function.update s.bank b t b).shared.db.Holds key ∨
      ∃ m ss, s.about c.call = some m ∧ m.bank = b ∧
        (Function.update s.bank b t b).live m.call = some ss ∧ _
    rw [hbank]
    rcases h.paid c hcm key submission hkey hop with hk | ⟨m, ss, hm, hmb, hl, hdep, hlead⟩
    · exact Or.inl (hkeep hk)
    by_cases hk : (s.bank b).shared.db.Holds key
    · exact Or.inl (hkeep hk)
    have howed : s.Owed b m.call := ⟨c, hcm, key, hkey, m, hm, hmb, rfl, hk⟩
    rcases Sys.live_next hc ht hl with hl' | rfl | ⟨κ', rfl⟩ | ⟨fault, o, rfl, hnext⟩
    · exact Or.inr ⟨m, ss, hm, hmb, hl', hdep, hlead⟩
    · exact absurd howed ha
    · exact absurd howed (ha m.call (hc.live _ ss hl))
    · have hgoes := ha howed ss hl
      obtain ⟨op, code, tx⟩ := ss
      cases code with
      | pure a => exact hlead.elim
      | cmd cmd k =>
        obtain ⟨r, tx', hl', hx⟩ := hnext cmd k rfl
        rcases hlead _ _ _ _ _ _ _ _ _ hgoes hx with hpaid | hlead'
        · exact Or.inl hpaid
        · exact Or.inr ⟨m, _, hm, hmb, hl', hdep, hlead'⟩

/-- A step of the registry: whoever it accepts is waiting, and is led to its deposit. -/
theorem OnTheWay.registry {e : Event (Registry.service X)} {t : Sys (Registry.service X)}
    {f : CallId → Option (Envelope B)} (h : OnTheWay b bankId s)
    (hrun : Sys.Steps .any (Registry.start X) s.registry) (ht : s.registry.step e = some t)
    (hf : ∀ j < s.registry.next, f j = s.about j)
    (ha : ∀ c, t.shared.hist = c :: s.registry.shared.hist → s.heeded b bankId c = true) :
    OnTheWay b bankId { s with registry := t, about := f } := by
  have hc : s.registry.Calls := Sys.calls_init.steps hrun
  refine ⟨h.asks, fun c hcm key submission hkey hop => ?_⟩
  have hold : c ∈ s.registry.shared.hist → (s.bank b).shared.db.Holds key ∨
      ∃ m ss, f c.call = some m ∧ m.bank = b ∧ (s.bank b).live m.call = some ss ∧
        ss.op.isDeposit = true ∧ GetsTo (Bank.smoothly (X := X)) (Bank.Paid key) ss.code ss.tx := by
    intro hcm
    have hlt := Sys.lt_of_mem_hist hrun Sys.calls_init (fun _ hc => absurd hc (by
      simp [Registry.start, Sys.init])) c hcm
    rw [hf _ hlt]
    exact h.paid c hcm key submission hkey hop
  rcases Sys.hist_step ht with heq | ⟨c', ss', hl', -, heq⟩
  · exact hold (heq ▸ hcm)
  · have hmem : c ∈ t.shared.hist := hcm
    rw [heq] at hcm
    rcases List.mem_cons.mp hcm with rfl | hcm
    · -- The commit is new: its call is waiting, by the policy.
      have hheeded := ha c heq
      rw [heeded, hop] at hheeded
      have hany : ((s.about c.call).any fun m => decide (m.bank = b) &&
          s.awaits b m.call submission) = true := by simpa [hkey] using hheeded
      obtain ⟨m, hm, hboth⟩ := (Option.any_eq_true _ _).mp hany
      obtain ⟨hmb, hawaits⟩ := Bool.and_eq_true .. |>.mp hboth
      obtain ⟨ss, k, hl, hdep, hcode⟩ := code_of_awaits hawaits
      obtain ⟨denom, hd, rfl⟩ := Registry.acceptedKey_eq
        (hrun.tail ⟨e, ht, Policy.any_allows _ _ _⟩) hmem hkey hop
      refine Or.inr ⟨m, ss, ?_, of_decide_eq_true hmb, hl, hdep, ?_⟩
      · rw [← hm]
        exact hf _ (hc.live _ ss' hl')
      · exact (h.asks _ ss hl hdep).here submission k denom hcode hd ss.tx
    · exact hold hcm

theorem OnTheWay.step {e : NetEvent X B} (h : OnTheWay b bankId s)
    (hrun : Sys.Steps .any (Registry.start X) s.registry)
    (hg : (s.bank b).Good (Bank.protocol X)) (hc : (s.bank b).Calls) (hs : s.step e = some s')
    (ha : Attended b bankId s e s') : OnTheWay b bankId s' := by
  obtain ⟨hnew, hstep⟩ := ha
  cases stepped hs with
  | @bank b' e t hp ht =>
    by_cases hb : b' = b
    · subst hb
      exact h.bank hg hc (hstep e (if_pos rfl)) ht
    · have hbank : Function.update s.bank b' t b = s.bank b := Function.update_of_ne (Ne.symm hb) ..
      refine ⟨fun i ss hl hop => h.asks i ss (hbank ▸ hl) hop, fun c hcm key sub hkey hop => ?_⟩
      show (Function.update s.bank b' t b).shared.db.Holds key ∨
        ∃ m ss, s.about c.call = some m ∧ m.bank = b ∧
          (Function.update s.bank b' t b).live m.call = some ss ∧ _
      rw [hbank]
      exact h.paid c hcm key sub hkey hop
  | registry ht =>
    exact h.registry hrun ht (fun _ _ => rfl) fun c hcm => hnew c (mem_newCommit hcm)
  | post _ _ => exact ⟨h.asks, h.paid⟩
  | deliver _ ht =>
    exact h.registry hrun ht (fun j hj => Function.update_of_ne (Nat.ne_of_lt hj) ..)
      fun c hcm => hnew c (mem_newCommit hcm)

theorem onTheWay (h : Steps (Attended b bankId) (start κ) s) : OnTheWay b bankId s := by
  induction h with
  | refl => exact .start
  | tail hrun hstep ih =>
    obtain ⟨e, he, ha⟩ := hstep
    exact ih.step (steps_registry hrun) (Bank.good (steps_bank hrun b))
      (Sys.calls_init.steps (steps_bank hrun b)) he ha

/-! ## Agreement -/

/-- **Whatever the registry holds under a bank's name, the bank has credited.** In every run in
    which accepted deposits are attended to, and in every state of it with no deposit call of
    the bank in flight. -/
theorem agreement (h : Steps (Attended b bankId) (start κ) s)
    (hidle : ∀ i ss, (s.bank b).live i = some ss → ss.op.isDeposit = false)
    {key : Registry.SerialKey} {row : Registry.SerialRow}
    (hrow : s.registry.shared.db.serials.lookup key = some row) (hbank : row.firstBankId = bankId) :
    ∃ coin r a, coin.serialKey = key ∧ (s.bank b).shared.db.spentSerials.lookup coin = some r ∧
      (s.bank b).shared.db.deposits.lookup r = some ⟨coin, a⟩ ∧
      Bank.totalCredited a (s.bank b).shared.hist = (s.bank b).shared.db.deposited a := by
  obtain ⟨c, hc, hkey, submission, hop⟩ :=
    (Registry.serialsKept (steps_registry h)).from_accept key row hrow
  rw [hbank] at hop
  rcases (onTheWay h).paid c hc key submission hkey hop with hheld | ⟨m, ss, -, -, hl, hdep, -⟩
  · obtain ⟨⟨r, coin, a⟩, hmem, rfl⟩ := hheld
    have hr := Table.mem_rows.mp hmem
    have hrun := steps_bank h b
    exact ⟨coin, r, a, rfl, (Bank.spentByDeposit hrun coin r).mpr ⟨a, hr⟩, hr,
      Bank.totalCredited_eq hrun a⟩
  · exact absurd (hidle _ ss hl) (by simp [hdep])

/-- One member deposits a coin, and is attended to; its retry is told of a double spend. -/
theorem agreement_attended : ∃ s : Net .toy Bool,
    (s.registry.shared.db.serials.lookup (Bank.coinKey toyDeposit.coin 100).serialKey).isSome ∧
      ∀ key row, s.registry.shared.db.serials.lookup key = some row → row.firstBankId = "bank-b" →
        ∃ coin r a, coin.serialKey = key ∧
          (s.bank true).shared.db.deposits.lookup r = some ⟨coin, a⟩ := by
  obtain ⟨s, hs, hp⟩ := exists_of_run (π := Attended true "bank-b") (s := start members)
    (l := retried) (p := fun s => (s.registry.shared.db.serials.lookup
        (Bank.coinKey toyDeposit.coin 100).serialKey).isSome &&
      decide (∀ i < (s.bank true).next, ((s.bank true).live i).isNone = true))
    (by decide +kernel)
  obtain ⟨hsome, hidle⟩ := Bool.and_eq_true .. |>.mp hp
  have hcalls := (Sys.calls_init).steps (steps_bank hs true)
  refine ⟨s, hsome, fun key row hrow hbank => ?_⟩
  obtain ⟨coin, r, a, hkey, -, hr, -⟩ := agreement hs (fun i ss hl =>
    absurd (hl.symm.trans (hcalls.idle (of_decide_eq_true hidle) i)) (by simp)) hrow hbank
  exact ⟨coin, r, a, hkey, hr⟩

/-- A deposit to an account that is not there: the registry keeps the serial of a coin the bank
    never credited. -/
theorem orphaned_serial : ∃ s : Net .toy Bool, Steps .any (start members) s ∧
    (s.bank true).Idle ∧ (∃ row, row.firstBankId = "bank-b" ∧
      s.registry.shared.db.serials.lookup (Bank.coinKey toyDeposit.coin 100).serialKey =
        some row) ∧
    ∀ coin, (s.bank true).shared.db.spentSerials.lookup coin = none := by
  obtain ⟨s, hs, hp⟩ := exists_of_run (π := .any) (s := start members)
    (l := opened ++ asks true 2 { toyDeposit with accountId := "ghost" } 1 ++
      hears true 2 .accepted [] 6)
    (p := fun s => decide (∃ row ∈ s.registry.shared.db.serials.lookup
        (Bank.coinKey toyDeposit.coin 100).serialKey, row.firstBankId = "bank-b") &&
      decide ((s.bank true).shared.db.spentSerials.entries = []) &&
      decide (∀ i < (s.bank true).next, ((s.bank true).live i).isNone = true))
    (by decide +kernel)
  simp only [Bool.and_eq_true, decide_eq_true_eq] at hp
  obtain ⟨⟨⟨row, hrow, hbank⟩, hspent⟩, hidle⟩ := hp
  have hcalls := (Sys.calls_init).steps (steps_bank hs true)
  refine ⟨s, hs, hcalls.idle hidle, ⟨row, hbank, hrow⟩, fun coin => ?_⟩
  cases hl : (s.bank true).shared.db.spentSerials.lookup coin with
  | none => rfl
  | some r =>
    have hmem := Table.mem_rows.mpr hl
    rw [Table.rows, hspent] at hmem
    exact absurd hmem (by simp)

end Net

end Digicash
