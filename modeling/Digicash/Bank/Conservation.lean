import Digicash.Bank.Refinement

/-!
# Conservation of money

An account holds what it was opened with, what was deposited to it, less what was withdrawn
from it and not given back. `Conserved` is that equation, and every entry keeps it but one:
a compensation of a withdrawal that has been compensated already.

The code does not exclude that one. `compensate` credits the account and sets the state
whatever the state is, so two calls that both saw the withdrawal `pending` — the original
and a retry — both give the money back (`double_reversal`). `conservation` says that this is
all that can go wrong.
-/

namespace Digicash.Bank

open Lib

variable {X : Crypto} {κ : Config X} {s : Sys (service X)}

/-! ## The equation -/

def Tables.balanceOf (db : Tables) (a : String) : Int := (db.accounts.lookup a).getD 0

/-- What a committed transaction credited `a` with when it opened it. -/
def opening (a : String) (c : Commit database Op) : Int :=
  match c.op with
  | .createAccount a' b => if a' = a then b.toNat else 0
  | _ => 0

def initialCredit (a : String) (hist : List (Commit database Op)) : Int :=
  (hist.map (opening a)).sum

def Tables.deposited (db : Tables) (a : String) : Int :=
  db.deposits.total fun _ row => if row.accountId = a then row.coin.denominationCents else 0

/-- What one withdrawal keeps from `a`: its denomination, unless it was given back. -/
def WithdrawRow.keeps (row : WithdrawRow) (a : String) : Int :=
  if row.accountId = a ∧ row.state ≠ .compensated then row.denominationCents else 0

/-- What is withdrawn from `a` and stands. -/
def Tables.withdrawn (db : Tables) (a : String) : Int :=
  db.withdrawStates.total fun _ row => row.keeps a

/-- The balance of `a` is accounted for. -/
def Conserved (sh : State X) (a : String) : Prop :=
  sh.db.balanceOf a = initialCredit a sh.hist + sh.db.deposited a - sh.db.withdrawn a

/-! ## The condition -/

/-- The transaction debits the withdrawal `r`. -/
def debits (r : String) (c : Commit database Op) : Bool :=
  c.ran fun
    | .insertPending r' _ _ _ => r' == r
    | _ => false

/-- The transaction reverses the debit of the withdrawal `r`. -/
def reverses (r : String) (c : Commit database Op) : Bool :=
  c.ran fun
    | .setState r' .compensated => r' == r
    | _ => false

/-- Whether the withdrawal `r` is compensated. -/
def Tables.isCompensated (db : Tables) (r : String) : Bool :=
  (db.withdrawStates.lookup r).any fun row => row.state == .compensated

/-- The transaction reverses no debit that is reversed already. -/
def reversesOnce (sh : State X) (c : Commit database Op) : Bool :=
  c.tx.trace.all fun e =>
    match e.1 with
    | .setState r .compensated => !sh.db.isCompensated r
    | _ => true

/-! ## One entry -/

namespace Entry

/-- What an entry adds to the balance of `a`. -/
def moves (a : String) : Entry → Int
  | openAccount a' b => if a' = a then b else 0
  | debit _ a' denom _ _ => if a' = a then -denom else 0
  | compensate _ row _ => if row.accountId = a then row.denominationCents else 0
  | deposit _ row _ => if row.accountId = a then row.coin.denominationCents else 0
  | _ => 0

/-- What it credits `a` with by opening it. -/
def opens (a : String) : Entry → Int
  | openAccount a' b => if a' = a then b else 0
  | _ => 0

/-- What it adds to the deposits of `a`. -/
def deposits (a : String) : Entry → Int
  | deposit _ row _ => if row.accountId = a then row.coin.denominationCents else 0
  | _ => 0

/-- What it adds to the standing withdrawals of `a`. -/
def withdraws (a : String) : Entry → Int
  | debit _ a' denom _ _ => if a' = a then denom else 0
  | compensate _ row _ => if row.accountId = a then -row.denominationCents else 0
  | _ => 0

theorem moves_eq (a : String) (e : Entry) :
    e.moves a = e.opens a + e.deposits a - e.withdraws a := by
  cases e <;> grind [moves, opens, deposits, withdraws]

end Entry

/-- Writing a balance that moved by `d`. -/
theorem balanceOf_put {db : Tables} {a' : String} {b : Int} (h : db.balanceOf a' = b) (d : Int)
    (a : String) :
    ({ db with accounts := db.accounts.put a' (some (b + d)) } : Tables).balanceOf a =
      db.balanceOf a + if a' = a then d else 0 := by
  rw [Tables.balanceOf, Table.lookup_put]
  split
  · rename_i haa
    subst haa
    rw [if_pos rfl, h]
    rfl
  · rename_i haa
    rw [if_neg (Ne.symm haa), add_zero]
    rfl

theorem balanceOf_eq {db : Tables} {a : String} {b : Int} (h : db.accounts.lookup a = some b) :
    db.balanceOf a = b := by
  rw [Tables.balanceOf, h]
  rfl

theorem Entry.balanceOf_apply {db : Tables} {e : Entry} (h : e.Valid κ db) (a : String) :
    (e.apply db).balanceOf a = db.balanceOf a + e.moves a := by
  cases e with
  | openAccount a' b =>
    have hnew : db.balanceOf a' = 0 := by
      rw [Tables.balanceOf, h.1]
      rfl
    have hput := balanceOf_put hnew b a
    rw [zero_add] at hput
    exact hput
  | debit r a' denom m b =>
    refine (balanceOf_put (balanceOf_eq h.1) (-denom) a).trans ?_
    simp only [moves]
  | compensate r row b => exact balanceOf_put (balanceOf_eq h.2.2.2.1) row.denominationCents a
  | deposit r row b => exact balanceOf_put (balanceOf_eq h.2.2.1) row.coin.denominationCents a
  | _ => exact (add_zero _).symm

theorem Entry.deposited_apply {db : Tables} {e : Entry} (h : e.Valid κ db) (a : String) :
    (e.apply db).deposited a = db.deposited a + e.deposits a := by
  cases e with
  | deposit r row b =>
    rw [Tables.deposited, apply, Table.total_put, h.1, Table.share_none, sub_zero]
    rfl
  | _ => exact (add_zero _).symm

/-- Rewriting a withdrawal changes what is withdrawn by the difference of the two rows. -/
theorem withdrawn_put {db : Tables} {r : String} {row : WithdrawRow}
    (h : db.withdrawStates.lookup r = some row) (row' : WithdrawRow) (a : String) :
    ({ db with withdrawStates := db.withdrawStates.put r (some row') } : Tables).withdrawn a =
      db.withdrawn a - row.keeps a + row'.keeps a := by
  rw [Tables.withdrawn, Table.total_put, h]
  rfl

/-- Nobody signs a withdrawal that was given back. -/
theorem Finalizing.not_compensated {row : WithdrawRow} {signature : Bytes}
    (hf : Finalizing κ row) (hs : κ.sign row = some (.ok signature)) :
    row.state ≠ .compensated := by
  unfold Finalizing at hf
  rw [hs] at hf
  rcases hf with h | h
  · rw [h]
    decide
  · rcases h.state with h | h <;> rw [h] <;> decide

theorem WithdrawRow.Signed.not_compensated {row : WithdrawRow} {signature : Bytes}
    (h : row.Signed signature) : row.state ≠ .compensated := by
  rcases h.state with h | h <;> rw [h] <;> decide

/-- The one entry that can be valid and still break the books. -/
def Entry.SecondReversal : Entry → Prop
  | compensate _ row _ => row.state = .compensated
  | _ => False

theorem Entry.withdrawn_apply {db : Tables} {e : Entry} (h : e.Valid κ db)
    (hp : ¬ e.SecondReversal) (a : String) :
    (e.apply db).withdrawn a = db.withdrawn a + e.withdraws a := by
  cases e with
  | debit r a' denom m b =>
    rw [Tables.withdrawn, apply, Table.total_put, h.2.1, Table.share_none, sub_zero,
      Table.share_some]
    simp [WithdrawRow.keeps, Tables.withdrawn, withdraws]
  | sign r row signature =>
    refine (withdrawn_put h.1 _ a).trans ?_
    simp [WithdrawRow.keeps, h.2.2.not_compensated h.2.1, withdraws]
  | complete r row =>
    obtain ⟨hr, signature, hs⟩ := h
    refine (withdrawn_put hr _ a).trans ?_
    simp [WithdrawRow.keeps, hs.not_compensated, withdraws]
  | compensate r row b =>
    have hnot : row.state ≠ .compensated := hp
    refine (withdrawn_put h.1 _ a).trans ?_
    simp only [WithdrawRow.keeps, hnot, ne_eq, not_false_eq_true, and_true, not_true_eq_false,
      and_false, if_false, withdraws]
    split <;> omega
  | _ => exact (add_zero _).symm

theorem Entry.opening_eq {mem : Memory} {call : CallId} {op : Op} {e : Entry} {db : Tables}
    (h : e.From κ mem call op) (a : String) : opening a ⟨call, op, e.tx, db⟩ = e.opens a := by
  cases op <;> cases e <;> first
    | exact False.elim h
    | rfl
    | obtain ⟨rfl, hb⟩ := h
      rw [opening, opens, (i64TryFrom_eq_some hb).1]

theorem Entry.not_secondReversal {sh : State X} {call : CallId} {op : Op} {e : Entry}
    (hv : e.Valid κ sh.db) (hp : reversesOnce sh ⟨call, op, e.tx, sh.db⟩ = true) :
    ¬ e.SecondReversal := by
  cases e with
  | compensate r row b =>
    intro (hcomp : row.state = .compensated)
    have hrow : sh.db.isCompensated r = false := by
      simpa [reversesOnce, tx, ran, Tx.push, Tx.empty] using hp
    rw [Tables.isCompensated, hv.1, Option.any_some, hcomp] at hrow
    exact absurd hrow (by decide)
  | _ => exact id

/-- **Every entry keeps the equation, except for a second reversal.** -/
theorem Entry.conserves {sh : State X} {call : CallId} {op : Op} {e : Entry} {a : String}
    (hv : e.Valid κ sh.db) (hfrom : e.From κ sh.mem call op) (hp : ¬ e.SecondReversal)
    (h : Conserved sh a) :
    Conserved (⟨e.apply sh.db, sh.mem, ⟨call, op, e.tx, sh.db⟩ :: sh.hist⟩ : State X) a := by
  have hcredit : initialCredit a (⟨call, op, e.tx, sh.db⟩ :: sh.hist) =
      e.opens a + initialCredit a sh.hist := by
    rw [initialCredit, List.map_cons, List.sum_cons, opening_eq hfrom]
    rfl
  have hmoves := e.moves_eq a
  unfold Conserved at h ⊢
  simp only [balanceOf_apply hv, deposited_apply hv, withdrawn_apply hv hp, hcredit]
  omega

/-- A second reversal does break it: the condition leaves out nothing that is harmless. -/
theorem Entry.second_reversal_breaks {sh : State X} {call : CallId} {op : Op} {r : String}
    {row : WithdrawRow} {b : Int} (hv : (compensate r row b).Valid κ sh.db)
    (hfrom : (compensate r row b).From κ sh.mem call op) (hcomp : row.state = .compensated)
    (hd : row.denominationCents ≠ 0) (h : Conserved sh row.accountId) :
    ¬ Conserved (⟨(compensate r row b).apply sh.db, sh.mem,
      ⟨call, op, (compensate r row b).tx, sh.db⟩ :: sh.hist⟩ : State X) row.accountId := by
  have hcredit : initialCredit row.accountId
      (⟨call, op, (compensate r row b).tx, sh.db⟩ :: sh.hist) =
        (compensate r row b).opens row.accountId + initialCredit row.accountId sh.hist := by
    rw [initialCredit, List.map_cons, List.sum_cons, opening_eq hfrom]
    rfl
  have hwd : ((compensate r row b).apply sh.db).withdrawn row.accountId =
      sh.db.withdrawn row.accountId := by
    refine (withdrawn_put hv.1 _ _).trans ?_
    simp [WithdrawRow.keeps, hcomp]
  unfold Conserved at h ⊢
  simp only [balanceOf_apply hv, deposited_apply hv, hwd, hcredit]
  simp only [moves, opens, deposits, if_true]
  omega

/-! ## How often -/

theorem Entry.debits_tx {call : CallId} {op : Op} {db : Tables} (e : Entry) (r : String) :
    debits r ⟨call, op, e.tx, db⟩ = match e with
      | .debit r' _ _ _ _ => r' == r
      | _ => false := by
  cases e <;> simp [debits, Commit.ran, tx, ran, Tx.push, Tx.empty]

theorem Entry.reverses_tx {call : CallId} {op : Op} {db : Tables} (e : Entry) (r : String) :
    reverses r ⟨call, op, e.tx, db⟩ = match e with
      | .compensate r' _ _ => r' == r
      | _ => false := by
  cases e <;> simp [reverses, Commit.ran, tx, ran, Tx.push, Tx.empty]

/-- What is there after a row was overwritten. -/
theorem lookup_overwrite {db : Tables} {r' : String} {row : WithdrawRow}
    (h : db.withdrawStates.lookup r' = some row) (row' : WithdrawRow) (r : String) :
    (db.withdrawStates.put r' (some row')).lookup r =
      (db.withdrawStates.lookup r).map fun old => if r = r' then row' else old := by
  rw [Table.lookup_put]
  split
  · rename_i hr
    subst hr
    rw [h]
    rfl
  · rw [Option.map_id']

/-- A withdrawal is recorded exactly by the transaction that debits it. -/
theorem Entry.recorded_apply (call : CallId) (op : Op) {db : Tables} {e : Entry}
    (h : e.Valid κ db) (r : String) :
    ((e.apply db).withdrawStates.lookup r).isSome.toNat =
      (db.withdrawStates.lookup r).isSome.toNat + (debits r ⟨call, op, e.tx, db⟩).toNat := by
  rw [debits_tx]
  cases e with
  | debit r' a denom m b =>
    rw [apply, Table.lookup_put]
    by_cases hr : r = r'
    · subst hr
      rw [if_pos rfl, h.2.1]
      simp
    · have hne : (r' == r) = false := beq_false_of_ne (Ne.symm hr)
      simp only [if_neg hr, hne]
      rfl
  | sign r' row signature =>
    rw [apply, lookup_overwrite h.1, Option.isSome_map]
    rfl
  | complete r' row =>
    rw [apply, lookup_overwrite h.1, Option.isSome_map]
    rfl
  | compensate r' row b =>
    rw [apply, lookup_overwrite h.1, Option.isSome_map]
    rfl
  | _ => rfl

/-- A withdrawal becomes compensated exactly by a transaction that reverses it. -/
theorem Entry.compensated_apply (call : CallId) (op : Op) {db : Tables} {e : Entry}
    (h : e.Valid κ db) (hp : ¬ e.SecondReversal) (r : String) :
    ((e.apply db).isCompensated r).toNat =
      (db.isCompensated r).toNat + (reverses r ⟨call, op, e.tx, db⟩).toNat := by
  have hsame : ∀ {r' : String} {row row' : WithdrawRow}, db.withdrawStates.lookup r' = some row →
      row.state ≠ .compensated → row'.state ≠ .compensated →
        ((db.withdrawStates.put r' (some row')).lookup r).any
          (fun row => row.state == .compensated) = db.isCompensated r := by
    intro r' row row' hl hrow hrow'
    rw [Table.lookup_put, Tables.isCompensated]
    split
    · rename_i hr
      subst hr
      rw [hl, Option.any_some, Option.any_some, beq_false_of_ne hrow, beq_false_of_ne hrow']
    · rfl
  rw [reverses_tx]
  cases e with
  | debit r' a denom m b =>
    rw [Tables.isCompensated, apply, Table.lookup_put, Tables.isCompensated]
    split
    · rename_i hr
      subst hr
      rw [h.2.1]
      rfl
    · rfl
  | sign r' row signature =>
    rw [Tables.isCompensated, apply,
      hsame h.1 (h.2.2.not_compensated h.2.1) (by simp)]
    rfl
  | complete r' row =>
    obtain ⟨hl, signature, hs⟩ := h
    rw [Tables.isCompensated, apply, hsame hl hs.not_compensated (by simp)]
    rfl
  | compensate r' row b =>
    have hnot : row.state ≠ .compensated := hp
    rw [Tables.isCompensated, apply, Table.lookup_put, Tables.isCompensated]
    by_cases hr : r = r'
    · subst hr
      rw [if_pos rfl, h.1, Option.any_some, Option.any_some, beq_false_of_ne hnot]
      simp
    · have hne : (r' == r) = false := beq_false_of_ne (Ne.symm hr)
      simp only [if_neg hr, hne]
      rfl
  | _ => rfl

/-! ## Every run -/

/-- In every run, a withdrawal has been debited once if it is recorded, and else never. -/
theorem debited_once {π : Policy (service X)} (h : Sys.Steps π (start κ) s) (r : String) :
    s.shared.hist.countP (debits r) =
      (s.shared.db.withdrawStates.lookup r).isSome.toNat := by
  refine invariant (J := fun _ sh => sh.hist.countP (debits r) =
    (sh.db.withdrawStates.lookup r).isSome.toNat) h rfl ?_ (fun h _ => h) (fun h _ => h)
  intro κ sh call op e _ hj hv _ _
  have hstep := Entry.recorded_apply call op hv r
  simp only [List.countP_cons, hj, hstep]
  cases debits r ⟨call, op, e.tx, sh.db⟩ <;> rfl

/-- Where no debit is reversed twice, one is reversed once if its withdrawal is compensated,
    and else never. -/
theorem reversed_once
    (h : Sys.Steps (.commits fun sh c => reversesOnce sh c = true) (start κ) s) (r : String) :
    s.shared.hist.countP (reverses r) = (s.shared.db.isCompensated r).toNat := by
  refine invariant (J := fun _ sh => sh.hist.countP (reverses r) =
    (sh.db.isCompensated r).toNat) h rfl ?_ (fun h _ => h) (fun h _ => h)
  intro κ sh call op e _ hj hv _ hp
  have hstep := Entry.compensated_apply call op hv
    (Entry.not_secondReversal hv hp) r
  simp only [List.countP_cons, hj, hstep]
  cases reverses r ⟨call, op, e.tx, sh.db⟩ <;> rfl

/-- **Where no debit is reversed twice, every balance is accounted for**, in every state of
    every run, and every withdrawal is debited at most once and reversed at most once. -/
theorem conservation
    (h : Sys.Steps (.commits fun sh c => reversesOnce sh c = true) (start κ) s)
    (a r : String) :
    Conserved s.shared a ∧ s.shared.hist.countP (debits r) ≤ 1 ∧
      s.shared.hist.countP (reverses r) ≤ 1 := by
  refine ⟨?_, ?_, ?_⟩
  · refine invariant (J := fun _ sh => Conserved sh a) h rfl ?_ (fun h _ => h) (fun h _ => h)
    intro κ sh call op e _ hj hv hfrom hp
    exact Entry.conserves hv hfrom (Entry.not_secondReversal hv hp) hj
  · rw [debited_once h r]
    exact Bool.toNat_le _
  · rw [reversed_once h r]
    exact Bool.toNat_le _

instance (sh : State X) (a : String) : Decidable (Conserved sh a) :=
  inferInstanceAs (Decidable (_ = _))

/-- A withdrawal whose message cannot be signed, so that its debit is given back. -/
def unsignable : WithdrawRequest := ⟨"alice", "r", 100, []⟩

/-- One call of it, given back. -/
theorem conservation_unsignable : ∃ s : Sys (service .toy),
    s.shared.hist.length = 3 ∧ Conserved s.shared "alice" ∧
      s.shared.hist.countP (debits "r") ≤ 1 ∧ s.shared.hist.countP (reverses "r") ≤ 1 := by
  obtain ⟨s, hs, hp⟩ := Sys.exists_of_runGuarded (s := start Config.toy) (g := reversesOnce)
    (l := opened ++ call (.withdraw unsignable) :: go 2 11)
    (p := fun s => s.shared.hist.length == 3) (by decide)
  exact ⟨s, beq_iff_eq.mp hp, conservation hs "alice" "r"⟩

/-- The call and a retry that finds it `pending`: both give the 100 cents back. -/
def doubleReversal : List (Event (service .toy)) :=
  opened ++ call (.withdraw unsignable) :: go 2 6 ++ call (.withdraw unsignable) :: go 3 6 ++
    go 2 5

/-- **Without the condition the books do not balance**: the account ends with 600 cents. -/
theorem double_reversal : ∃ s : Sys (service .toy), Sys.Steps .any (start Config.toy) s ∧
    s.Quiescent ∧ s.shared.db.balanceOf "alice" = 600 ∧ ¬ Conserved s.shared "alice" := by
  obtain ⟨s, hs, hp⟩ := Sys.exists_of_run (s := start Config.toy) (l := doubleReversal)
    (p := fun s => decide ((∀ i < s.next, (s.txOf i).isNone = true) ∧
      s.shared.db.balanceOf "alice" = 600 ∧ ¬ Conserved s.shared "alice")) (by decide)
  obtain ⟨hq, hbal, hnot⟩ := of_decide_eq_true hp
  exact ⟨s, hs, (good hs).quiescent hq, hbal, hnot⟩

end Digicash.Bank
