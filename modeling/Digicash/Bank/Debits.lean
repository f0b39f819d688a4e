import Digicash.Bank.Deposits
import Digicash.Bank.Withdrawals
import Digicash.Lib.Deeds

/-!
# No overdraft

The balance a debit compares with is the one it debits: the account is locked from the look at
the balance to the end of the transaction, so neither a credit nor another debit comes between.
What is compared is read off the deeds of the call, what the account holds off the run.
-/

namespace Digicash.Bank

open Lib Lib.Protocol

variable {X : Crypto} {κ : Config X} {s s' : Sys (service X)} {i : CallId}

/-! ## The deeds of a withdrawal -/

/-- A transaction was begun, and its first statement locked the account and found `balance`. -/
def locked (accountId : String) (balance : Option Int) (ds : Deeds database) : Deeds database :=
  ⟨.stmt (.selectBalanceForUpdate accountId), .ok balance⟩ :: ⟨.begin, .ok ()⟩ :: ds

/-- A debit comes right after a look at a balance that covers it. -/
def Covered (ds : Deeds database) : Cmd database → Prop
  | .stmt (.debit denom a) => ∃ balance rest, ds = locked a (some balance) rest ∧
      0 ≤ denom ∧ denom ≤ balance
  | _ => True

/-- The balance that the lock found does not cover the withdrawal. -/
def Short (req : WithdrawRequest) (balance : Option Int) (ds : Deeds database) : Prop :=
  ∃ denom rest, ds = ⟨.rollback, ()⟩ :: locked req.accountId balance rest ∧
    i64TryFrom req.denominationCents = some denom ∧ ∀ b, balance = some b → b < denom

/-- The first thing done was to look the request id up, and `found` was there. -/
def LookedUp (req : WithdrawRequest) (found : Option WithdrawRow) (ds : Deeds database) : Prop :=
  [⟨.stmt (.selectWithdrawal req.requestId), .ok found⟩] <:+ ds

/-- No signature comes of this withdrawal any more. -/
def WithdrawRow.Lost (κ : Config X) (row : WithdrawRow) : Prop :=
  row.state = .compensated ∨ row.state = .pending ∧ ∀ signature, κ.sign row ≠ some (.ok signature)

/-- No signature comes of the withdrawal that is there, or of the one that will be. -/
def Doomed (κ : Config X) (req : WithdrawRequest) : Option WithdrawRow → Prop
  | some row => row.Lost κ
  | none => ∀ denom, i64TryFrom req.denominationCents = some denom →
      ∀ signature, κ.sign (pendingRow req denom) ≠ some (.ok signature)

/-- What was looked up leaves no hope of a signature. -/
def Hopeless (κ : Config X) (req : WithdrawRequest) (ds : Deeds database) : Prop :=
  ∃ found, LookedUp req found ds ∧
    (Doomed κ req found ∨ ∃ row e, found = some row ∧ toRecord row = .error e)

/-- What a withdrawal has seen that fails with an error. -/
def Failed (κ : Config X) (req : WithdrawRequest) (ds : Deeds database) : BankError → Prop
  | .db _ | .malformedRecord _ _ => True
  | .insufficientBalance _ _ _ => ∃ balance, Short req (some balance) ds
  | .accountNotFound _ => Short req none ds
  | .valueRange _ => (∃ balance, Short req balance ds) ∨ Hopeless κ req ds
  | _ => Hopeless κ req ds

/-- Where code is that has looked up `found`, or what it has seen if it fails. -/
def FailedEnd {α : Type} (κ : Config X) (req : WithdrawRequest) (found : Option WithdrawRow)
    (ds : Deeds database) : Except BankError α → Prop
  | .ok _ => LookedUp req found ds
  | .error e => Failed κ req ds e

variable {req : WithdrawRequest} {ds : Deeds database} {found : Option WithdrawRow}

theorem LookedUp.cons (h : LookedUp req found ds) (d : Deed (Cmd.Reply (D := database))) :
    LookedUp req found (d :: ds) := h.trans (List.suffix_cons d ds)

theorem Doomed.hopeless (h : Doomed κ req found) (hl : LookedUp req found ds) :
    Hopeless κ req ds := ⟨found, hl, Or.inl h⟩

theorem failed_of_toI64 {n : UInt64} {what : String} {e : BankError} (hd : Hopeless κ req ds)
    (h : toI64 n what = .error e) : Failed κ req ds e := by
  unfold toI64 at h
  split at h
  · cases h
  · cases h
    exact Or.inr hd

theorem toU64_error {n : Int} {what : String} {e : BankError} (h : toU64 n what = .error e) :
    ∃ message, e = .valueRange message := by
  unfold toU64 at h
  split at h
  · cases h
  · cases h
    exact ⟨_, rfl⟩

theorem u64TryFrom_of_toU64 {n : Int} {what : String} {value : UInt64}
    (h : toU64 n what = .ok value) : u64TryFrom n = some value := by
  unfold toU64 at h
  split at h
  · obtain rfl := Except.ok.inj h
    assumption
  · cases h

theorem failed_bind {α β : Type} {x : BankM α} {f : α → BankM β}
    (h : Prog.Along Covered (FailedEnd κ req found) ds x.run)
    (hf : ∀ ds a, LookedUp req found ds → Prog.Along Covered (FailedEnd κ req found) ds (f a).run) :
    Prog.Along Covered (FailedEnd κ req found) ds (x >>= f).run :=
  Prog.Along.bind_ok h hf fun _ _ he => he

theorem debitAndRecordPending_along (hl : LookedUp req none ds) :
    Prog.Along Covered (FailedEnd κ req none) ds (debitAndRecordPending req).run := by
  unfold debitAndRecordPending
  refine Prog.Along.orThrow_bind (fun e he => ?_) fun denom hdenom => ?_
  · -- The denomination is none of the column's, so there will be no withdrawal.
    have hnone : i64TryFrom req.denominationCents = none := by
      unfold toI64 at he
      split at he
      · cases he
      · assumption
    have hdoomed : Doomed κ req none := fun denom hdenom =>
      absurd (hnone.symm.trans hdenom) (by simp)
    exact failed_of_toI64 (hdoomed.hopeless hl) he
  have hdenom := toI64_eq_ok hdenom
  have hnonneg : 0 ≤ denom := i64TryFrom_nonneg hdenom
  refine Prog.Along.transaction trivial (fun e => trivial) ?_
  refine Prog.Along.query_bind trivial (fun e => ⟨trivial, trivial⟩) fun balance => ?_
  cases balance with
  | none => exact ⟨trivial, denom, ds, rfl, hdenom, fun b hb => by cases hb⟩
  | some balance =>
    have hshort : balance < denom →
        Short req (some balance) (⟨.rollback, ()⟩ :: locked req.accountId (some balance) ds) :=
      fun hlt => ⟨denom, ds, rfl, hdenom, fun b hb => Option.some.inj hb ▸ hlt⟩
    dsimp only
    split
    · rename_i hlt
      refine Prog.Along.orThrow_bind (fun e he => ?_) fun b _ => ?_
      · obtain ⟨message, rfl⟩ := toU64_error he
        exact ⟨trivial, Or.inl ⟨_, hshort hlt⟩⟩
      · exact ⟨trivial, _, hshort hlt⟩
    · rename_i hle
      have hcovered : Covered (locked req.accountId (some balance) ds)
          (.stmt (.debit denom req.accountId)) :=
        ⟨balance, ds, rfl, hnonneg, Int.not_lt.mp hle⟩
      refine Prog.Along.query_bind hcovered (fun e => ⟨trivial, trivial⟩) fun n => ?_
      refine Prog.Along.query_bind trivial (fun e => ⟨trivial, trivial⟩) fun n => ?_
      exact ⟨trivial, (((((hl.cons _).cons _).cons _).cons _).cons _), fun e => trivial⟩

theorem setState_along {r : String} {state : WithdrawState} (hl : LookedUp req found ds) :
    Prog.Along Covered (FailedEnd κ req found) ds (setState r state).run :=
  Prog.Along.query_bind trivial (fun _ => trivial) fun _ => hl.cons _

theorem compensate_along {r a : String} {denom : UInt64} (hl : LookedUp req found ds)
    (hd : Doomed κ req found) :
    Prog.Along Covered (FailedEnd κ req found) ds (compensate r a denom).run := by
  unfold compensate
  refine Prog.Along.orThrow_bind (fun e he => failed_of_toI64 (hd.hopeless hl) he) fun n _ => ?_
  refine Prog.Along.transaction trivial (fun e => trivial) ?_
  refine Prog.Along.query_bind trivial (fun e => ⟨trivial, trivial⟩) fun _ => ?_
  refine Prog.Along.query_bind trivial (fun e => ⟨trivial, trivial⟩) fun _ => ?_
  exact ⟨trivial, (((hl.cons _).cons _).cons _).cons _, fun e => trivial⟩

/-- No key signs this message. -/
def Unsigned (κ : Config X) (denom : UInt64) (blindedMessage : Bytes) : Prop :=
  ∀ keypair signature, κ.keys.get denom schemeIdRsaDeterministic = some keypair →
    signBlinded keypair.sk blindedMessage ≠ .ok signature

theorem Unsigned.sign_ne {denom : UInt64} (row : WithdrawRow)
    (h : Unsigned κ denom row.blindedMessage) (hd : u64TryFrom row.denominationCents = some denom)
    (signature : Bytes) : κ.sign row ≠ some (.ok signature) := by
  intro hs
  rw [Config.sign, hd, Option.bind_some] at hs
  obtain ⟨keypair, hk, hok⟩ := Option.map_eq_some_iff.mp hs
  exact h keypair signature hk hok

theorem Unsigned.doomed (h : Unsigned κ req.denominationCents req.blindedMessage) :
    Doomed κ req none := fun denom hdenom signature =>
  Unsigned.sign_ne (pendingRow req denom) h (u64TryFrom_i64TryFrom hdenom) signature

theorem finalizeWithdraw_along {r a : String} {denom : UInt64} {m : Bytes}
    (hl : LookedUp req found ds) (hd : Unsigned κ denom m → Doomed κ req found) :
    Prog.Along Covered (FailedEnd κ req found) ds (finalizeWithdraw κ r a denom m).run := by
  unfold finalizeWithdraw
  split
  · rename_i hk
    have hdoomed : Doomed κ req found := hd fun keypair signature hkeypair =>
      absurd (hk.symm.trans hkeypair) (by simp)
    exact hdoomed.hopeless hl
  · rename_i keypair hk
    split
    · refine Prog.Along.query_bind trivial (fun e => trivial) fun _ => ?_
      exact failed_bind (setState_along (hl.cons _)) fun ds _ hl => hl
    · rename_i e he
      have hdoomed : Doomed κ req found := hd fun keypair' signature hkeypair hok => by
        obtain rfl := Option.some.inj (hk.symm.trans hkeypair)
        exact absurd (he.symm.trans hok) (by simp)
      exact failed_bind (compensate_along hl hdoomed) fun ds _ hl => hdoomed.hopeless hl

theorem resumeWithdraw_along {row : WithdrawRow} {record : WithdrawalRecord}
    (hl : LookedUp req (some row) ds) (hrec : toRecord row = .ok record) :
    Prog.Along Covered (FailedEnd κ req (some row)) ds
      (resumeWithdraw κ req.requestId record).run := by
  have hrecord := isRecord_of_ok hrec
  unfold resumeWithdraw
  cases hstate : record.state
  case signed | completed =>
    dsimp only
    split
    · exact trivial
    split
    · exact failed_bind (setState_along hl) fun ds _ hl => hl
    · exact hl
  case pending =>
    refine failed_bind (finalizeWithdraw_along hl fun hs => ?_) fun ds _ hl => hl
    rw [hrecord.blindedMessage] at hs
    exact Or.inr ⟨hrecord.state.symm.trans hstate,
      hs.sign_ne row (u64TryFrom_of_toU64 hrecord.denominationCents)⟩
  case compensated =>
    have hlost : Doomed κ req (some row) := Or.inl (hrecord.state.symm.trans hstate)
    exact hlost.hopeless hl

/-! ## The deeds of every call -/

def Covers : Op → Deeds database → Cmd database → Prop
  | .withdraw _ => Covered
  | _ => fun _ _ => True

def Fails (κ : Config X) : Op → Deeds database → Ans → Prop
  | .withdraw req, ds, a => ∃ r, a = .withdraw r ∧ ∀ e, r = .error e → Failed κ req ds e
  | _, _, _ => True

/-- What `load_record` has seen. -/
def Loaded (κ : Config X) (req : WithdrawRequest) (ds : Deeds database) :
    Except BankError (Option WithdrawalRecord) → Prop
  | .ok none => LookedUp req none ds
  | .ok (some record) => ∃ row, LookedUp req (some row) ds ∧ toRecord row = .ok record
  | .error e => Failed κ req ds e

theorem loadRecord_along :
    Prog.Along Covered (Loaded κ req) [] (loadRecord req.requestId).run := by
  unfold loadRecord
  refine Prog.Along.query_bind trivial (fun e => trivial) fun found => ?_
  have hl : LookedUp req found [⟨.stmt (.selectWithdrawal req.requestId), .ok found⟩] :=
    List.suffix_refl _
  cases found with
  | none => exact hl
  | some row =>
    refine Prog.Along.orThrow_bind (fun e he => ?_) fun record hrec => ⟨row, hl, hrec⟩
    have hopeless : Hopeless κ req [⟨.stmt (.selectWithdrawal req.requestId), .ok (some row)⟩] :=
      ⟨some row, hl, Or.inr ⟨row, e, rfl, he⟩⟩
    unfold toRecord at he
    cases hd : toU64 row.denominationCents "denomination" with
    | ok denom => exact absurd he (by simp [hd, Except.map])
    | error e' =>
      obtain rfl : e' = e := by simpa [hd, Except.map] using he
      obtain ⟨message, rfl⟩ := toU64_error hd
      exact Or.inr hopeless

theorem withdraw_along : Prog.Along Covered
    (fun ds r => ∀ e, r = .error e → Failed κ req ds e) [] (withdraw κ req).run := by
  have hend : ∀ (found : Option WithdrawRow) {ds : Deeds database} {x : BankM WithdrawResponse},
      Prog.Along Covered (FailedEnd κ req found) ds x.run →
        Prog.Along Covered (fun ds r => ∀ e, r = .error e → Failed κ req ds e) ds x.run := by
    intro found ds x h
    refine h.mono (fun _ _ h => h) fun ds r hr e he => ?_
    subst he
    exact hr
  refine Prog.Along.bind_ok (loadRecord_along (κ := κ)) (fun ds found hl => ?_)
    fun ds e he e' heq => ?_
  · cases found with
    | some record =>
      obtain ⟨row, hl, hrec⟩ := hl
      exact hend (some row) (resumeWithdraw_along hl hrec)
    | none =>
      have hl : LookedUp req none ds := hl
      dsimp only
      split
      · rename_i hk
        have hs : Unsigned κ req.denominationCents req.blindedMessage :=
          fun keypair signature hkeypair => absurd (hk.symm.trans hkeypair) (by simp)
        exact hend none (hs.doomed.hopeless hl)
      · refine hend none (failed_bind (debitAndRecordPending_along hl) fun ds _ hl => ?_)
        exact failed_bind (finalizeWithdraw_along hl Unsigned.doomed) fun ds _ hl => hl
  · cases heq
    exact he

theorem code_along (op : Op) : Prog.Along (Covers op) (Fails κ op) [] (code κ op) := by
  cases op with
  | withdraw req => exact Prog.Along.map (fun ds r h => ⟨r, rfl, h⟩) withdraw_along
  | _ => exact Prog.Along.of_forall (fun _ _ => trivial) fun _ _ => trivial

/-! ## The lock -/

/-- Where the look at the balance was: what it found is what the account held, and then the call
    rested. -/
theorem did_locked {G : Sys (service X) → Event (service X) → Sys (service X) → Prop}
    {s₀ : Sys (service X)} {op : Op} {a : String} {found : Option Int} {tx : Option (Tx database)}
    (h : Sys.Did G s₀ i op (locked a found ds) tx s) : ∃ s₁ s₂, Sys.StepsIn G s₀ s₁ ∧
      Sys.Does G s₁ s₂ i op (some .empty) ⟨.stmt (.selectBalanceForUpdate a), .ok found⟩ tx ∧
      s₁.shared.db.accounts.lookup a = found ∧ Relation.ReflTransGen (Sys.Rests G i) s₂ s := by
  obtain ⟨s₁, s₂, h₁, hread, -, hrests, o, ws, hres, -⟩ := h.first
  refine ⟨s₁, s₂, h₁, hread, ?_, hrests⟩
  cases hl : s₁.shared.db.accounts.lookup a with
  | none =>
    simp only [exec, hl, Effect.read, Except.ok.injEq, Prod.mk.injEq] at hres
    exact hres.1
  | some b =>
    simp only [exec, hl, Effect.write, Except.ok.injEq, Prod.mk.injEq] at hres
    exact hres.1

/-- **The balance that was compared is the balance that is debited.** -/
theorem balance_of_locked {κ : Config X} {π : Policy (service X)} {op : Op} {a : String}
    {balance : Int} {tx : Option (Tx database)}
    (h : Sys.Did π.Allows (start κ) i op (locked a (some balance) ds) tx s) : ∃ t, tx = some t ∧
      t.view s.shared.db = s.shared.db ∧ s.shared.db.accounts.lookup a = some balance := by
  obtain ⟨s₁, s₂, h₁, hread, hl, hrests⟩ := did_locked h
  obtain ⟨hshared, o, ws, hres, rfl⟩ := hread.stmt
  obtain ⟨k, -, hlive⟩ := hread.live_after
  have hview : (Tx.empty : Tx database).view s₁.shared.db = s₁.shared.db := rfl
  have heff : database.exec (.selectBalanceForUpdate a) o s₁.shared.db =
      .write [.account a] (some balance) [] := by
    simp only [exec, hl]
  rw [hview, heff] at hres hlive ⊢
  obtain rfl : [] = ws := (Prod.mk.inj (Except.ok.inj hres)).2
  refine ⟨_, rfl, rfl, ?_⟩
  have hg₂ := good (h₁.trans hread.step)
  have hframe := hg₂.rests sound hrests hlive (.account a) (by simp [Tx.push, Tx.locks, Effect.write])
  refine (hframe.trans ?_).trans hl
  rw [hshared]
  rfl

/-! ## The transaction -/

/-- A transaction that has run nothing but the statements of a debit so far. -/
def debiting (t : Tx database) : Bool :=
  t.trace.all fun e =>
    match e.1 with
    | .selectBalanceForUpdate _ | .debit _ _ | .insertPending _ _ _ _ => true
    | _ => false

/-- Of what a withdrawal commits only the debit is of that kind. -/
theorem Entry.eq_debit_of_debiting {mem : Memory} {e : Entry}
    (h : e.From κ mem i (.withdraw req)) (hd : debiting e.tx = true) : ∃ denom balance,
      e = .debit req.requestId req.accountId denom req.blindedMessage balance ∧
        i64TryFrom req.denominationCents = some denom := by
  cases e with
  | debit r a denom m balance =>
    obtain ⟨rfl, rfl, hdenom, rfl⟩ := h
    exact ⟨denom, balance, rfl, hdenom⟩
  | sign => exact absurd hd (by simp [debiting, tx, ran, Tx.push, Tx.empty])
  | complete => exact absurd hd (by simp [debiting, tx, ran, Tx.push, Tx.empty])
  | compensate => exact absurd hd (by simp [debiting, tx, ran, Tx.push, Tx.empty])
  | _ => exact h.elim

/-- **No overdraft.** In every run, whatever else goes on: a withdrawal that is about to debit
    sees a balance that covers it, so that the update succeeds and leaves no negative one; a
    withdrawal that is answered that the balance is insufficient read one below its denomination
    when it took the lock; and a transaction of a debit leaves the tables as they were unless it
    is committed, and then as a whole. -/
theorem no_overdraft {π : Policy (service X)} (h : Sys.Steps π (start κ) s) :
    (∀ i req denom a k tx, s.live i = some ⟨.withdraw req, .cmd (.stmt (.debit denom a)) k, tx⟩ →
      ∃ t balance, tx = some t ∧ (t.view s.shared.db).accounts.lookup a = some balance ∧
        0 ≤ balance - denom ∧ ∀ o, exec (.debit denom a) o (t.view s.shared.db) =
          .write [] (1 : Nat) [⟨.account a, some (balance - denom)⟩]) ∧
    (∀ a ∈ s.answers, ∀ req who held wanted, a.op = .withdraw req →
      a.ans = .withdraw (.error (.insufficientBalance who held wanted)) →
      ∃ s₁ s₂ tx denom balance, Sys.Steps π (start κ) s₁ ∧ Sys.Steps π s₂ s ∧
        Sys.Does π.Allows s₁ s₂ a.call a.op (some .empty)
          ⟨.stmt (.selectBalanceForUpdate req.accountId), .ok (some balance)⟩ tx ∧
        s₁.shared.db.accounts.lookup req.accountId = some balance ∧
        i64TryFrom req.denominationCents = some denom ∧ balance < denom) ∧
    ∀ i req x t e s', s.live i = some ⟨.withdraw req, x, some t⟩ → debiting t = true →
      s.step e = some s' → Sys.Concerns i e →
      s'.shared.db = s.shared.db ∨ ∃ k denom balance, x = .cmd .commit k ∧
        (Entry.debit req.requestId req.accountId denom req.blindedMessage balance).Valid s.conf
          s.shared.db ∧
        s'.shared.db = (Entry.debit req.requestId req.accountId denom req.blindedMessage
          balance).apply s.shared.db := by
  have hgood := good h
  obtain ⟨hlive, hans⟩ := Sys.deeds (P := fun _ => Covers) (Q := fun κ => Fails κ)
    (fun κ op => code_along op) h Sys.calls_init
  refine ⟨fun i req denom a k tx hl => ?_, fun a ha req who held wanted hop herr => ?_,
    fun i req x t e s' hl hd he hi => ?_⟩
  · obtain ⟨ds, hdid, hcovered, -⟩ := hlive i _ (Nat.zero_le i) hl
    obtain ⟨balance, rest, rfl, hnonneg, hle⟩ := hcovered
    obtain ⟨t, rfl, hview, hl⟩ := balance_of_locked hdid
    obtain ⟨-, hmax⟩ := hgood.inv.balance a balance hl
    refine ⟨t, balance, rfl, ?_, by omega, fun o => ?_⟩ <;> rw [hview]
    · exact hl
    · exact addBalance_of_some hl (by omega) (by omega)
  · obtain ⟨s₁, ds, tx, -, hlater, hdid, -, -, hfailed⟩ := hans a ha (Nat.zero_le _)
    rw [hop, herr] at hfailed
    obtain ⟨r, hr, hfailed⟩ := hfailed
    obtain ⟨balance, denom, rest, rfl, hdenom, hlt⟩ := hfailed _ (Ans.withdraw.inj hr).symm
    obtain ⟨s₂, s₃, tx', hdid', -, hrollback, hrests⟩ := hdid.last
    obtain ⟨s₄, s₅, h₄, hread, hl, hrests'⟩ := did_locked hdid'
    refine ⟨s₄, s₅, _, denom, balance, h₄, ?_, hread, hl, hdenom, hlt _ rfl⟩
    have hend := hrollback.step.trans ((Sys.stepsIn_of_rests hrests).trans hlater)
    exact (Sys.stepsIn_of_rests hrests').trans hend
  · rcases hgood.atomic sound he hl hi with heq | ⟨k, rfl, ⟨entry, htx, hv, hfrom⟩, heq⟩
    · exact Or.inl heq
    · obtain rfl : t = entry.tx := htx
      obtain ⟨denom, balance, rfl, -⟩ := Entry.eq_debit_of_debiting hfrom hd
      exact Or.inr ⟨k, denom, balance, rfl, hv, heq.trans (Entry.applyWrites_tx _ _)⟩

/-- Two withdrawals and a deposit at a time, on an account that holds 500 cents: one withdrawal
    has the lock, and is about to debit. -/
def contended : List (Event (service .toy)) :=
  opened ++ call (.withdraw ⟨"alice", "r", 100, [7]⟩) :: go 2 3 ++
    call (.withdraw ⟨"alice", "q", 100, [8]⟩) :: go 3 2 ++
      call (.deposit ⟨toyCoin 1, "alice", "p"⟩) :: go 4 3

/-- The call is about to debit `denom` from `a`. -/
def aboutToDebit (denom : Int) (a : String) : Option (Session (service .toy)) → Bool
  | some ⟨.withdraw _, .cmd (.stmt (.debit d a')) _, _⟩ => d == denom && a' == a
  | _ => false

theorem no_overdraft_contended : ∃ s : Sys (service .toy), ∃ t balance,
    s.txOf 2 = some t ∧ (t.view s.shared.db).accounts.lookup "alice" = some balance ∧
      0 ≤ balance - 100 := by
  obtain ⟨s, hs, hp⟩ := Sys.exists_of_run (s := start Config.toy) (l := contended)
    (p := fun s => aboutToDebit 100 "alice" (s.live 2)) (by decide)
  unfold aboutToDebit at hp
  split at hp
  · rename_i req d a k tx hl
    obtain ⟨hd, ha⟩ := (Bool.and_eq_true ..).mp hp
    obtain rfl : d = 100 := beq_iff_eq.mp hd
    obtain rfl : a = "alice" := beq_iff_eq.mp ha
    obtain ⟨t, balance, rfl, hview, hle, -⟩ := (no_overdraft hs).1 2 req _ _ k tx hl
    exact ⟨s, t, balance, Sys.txOf_of_live hl, hview, hle⟩
  · exact absurd hp (by simp)

end Digicash.Bank
