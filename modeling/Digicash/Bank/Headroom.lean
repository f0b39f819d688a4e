import Digicash.Bank.Recovery
import Digicash.Bank.Deposits

/-!
# Room for what may come back

A debit makes room on its account, and nothing keeps it: before the debit is given back a deposit
may take the room, or a debit that is given back twice. Then the credit of `compensate` is out of
the column's range, and the customer does not get the money back. Where every credit that reverses
no pending debit leaves room for all the pending ones, each of them can be given back.
-/

namespace Digicash.Bank

open Lib

variable {X : Crypto} {κ : Config X} {s : Sys (service X)} {db : Tables} {a : String}

/-! ## The condition -/

/-- What a withdrawal would give back to `a`. -/
def WithdrawRow.pendingOn (a : String) (_ : String) (row : WithdrawRow) : Int :=
  if row.accountId = a ∧ row.state = .pending then row.denominationCents else 0

/-- All that is pending on `a`. -/
def Tables.pendingOn (db : Tables) (a : String) : Int :=
  db.withdrawStates.total (WithdrawRow.pendingOn a)

/-- The transaction reverses a pending debit. -/
def reversesPending (sh : State X) (c : Commit database Op) : Bool :=
  c.tx.trace.any fun e =>
    match e.1 with
    | .setState r .compensated =>
      (sh.db.withdrawStates.lookup r).any fun row => row.state == .pending
    | _ => false

/-- **The condition under which a credit always fits**: what the transaction credits to an account
    leaves room for all that is pending on it, unless it reverses a pending debit itself. -/
def leavesRoom (sh : State X) (c : Commit database Op) : Bool :=
  reversesPending sh c || c.tx.trace.all fun e =>
    match e.1 with
    | .credit denom a =>
      (sh.db.accounts.lookup a).all fun b => b + denom + sh.db.pendingOn a ≤ i64Max
    | _ => true

/-- Every account has room for all that is pending on it. -/
def Tables.Roomy (db : Tables) : Prop :=
  ∀ a b, db.accounts.lookup a = some b → b + db.pendingOn a ≤ i64Max

/-! ## One entry -/

theorem pendingOn_put {r : String} {old : Option WithdrawRow} (new : WithdrawRow)
    (accounts : Table String Int) (hl : db.withdrawStates.lookup r = old) (a : String) :
    Tables.pendingOn { db with accounts, withdrawStates := db.withdrawStates.put r (some new) } a =
      db.pendingOn a - Table.share (WithdrawRow.pendingOn a) r old + new.pendingOn a r := by
  rw [Tables.pendingOn, Table.total_put, hl, Table.share_some, Tables.pendingOn]

theorem WithdrawRow.pendingOn_nonneg {row : WithdrawRow} (h : 0 ≤ row.denominationCents)
    (a r : String) : 0 ≤ row.pendingOn a r := by
  unfold pendingOn
  split
  · exact h
  · exact Int.le_refl 0

theorem WithdrawRow.pendingOn_of_ne {row : WithdrawRow} (h : row.state ≠ .pending)
    (a r : String) : row.pendingOn a r = 0 := if_neg fun hp => h hp.2

/-- A row that is not pending any more takes no more room. -/
theorem Tables.Roomy.overwrite {r : String} {row row' : WithdrawRow} (h : db.Roomy)
    (hw : db.WellFormed) (hl : db.withdrawStates.lookup r = some row) (hp : row'.state ≠ .pending) :
    Tables.Roomy { db with withdrawStates := db.withdrawStates.put r (some row') } := by
  intro a b hb
  have hroom := h a b hb
  have hnonneg := row.pendingOn_nonneg (hw.row r row hl).denom_nonneg a r
  have hput := pendingOn_put row' db.accounts hl a
  rw [row'.pendingOn_of_ne hp, Table.share_some] at hput
  omega

/-- A change of one account that its pending withdrawals allow. -/
theorem Tables.Roomy.account {db' : Tables} {b' : Int} {a' : String} (h : db.Roomy)
    (hacc : db'.accounts = db.accounts.put a' (some b'))
    (hroom : b' + db'.pendingOn a' ≤ i64Max)
    (hothers : ∀ a, a ≠ a' → db'.pendingOn a = db.pendingOn a) : db'.Roomy := by
  intro a b hb
  rw [hacc, Table.lookup_put] at hb
  split at hb
  · rename_i heq
    obtain rfl := Option.some.inj hb
    rw [heq]
    exact hroom
  · rename_i hne
    rw [hothers a hne]
    exact h a b hb

/-- An account that is not there has nothing pending. -/
theorem Tables.WellFormed.pendingOn_eq_zero (hw : db.WellFormed) (h : db.accounts.lookup a = none) :
    db.pendingOn a = 0 := by
  refine Table.total_eq_zero fun r row hl => if_neg ?_
  rintro ⟨rfl, -⟩
  obtain ⟨b, hb⟩ := (hw.row r row hl).account
  exact absurd (h.symm.trans hb) (by simp)

/-- What `leavesRoom` says of an entry. -/
def Entry.LeavesRoom (db : Tables) : Entry → Prop
  | compensate _ row b =>
    row.state = .pending ∨ b + row.denominationCents + db.pendingOn row.accountId ≤ i64Max
  | deposit _ row b =>
    b + row.coin.denominationCents + db.pendingOn row.accountId ≤ i64Max
  | _ => True

theorem Entry.leavesRoom_iff {sh : State X} {call : CallId} {op : Op} {e : Entry}
    (hv : e.Valid κ sh.db) :
    leavesRoom sh ⟨call, op, e.tx, sh.db⟩ = true ↔ e.LeavesRoom sh.db := by
  cases e with
  | compensate r row b =>
    obtain ⟨hl, -, -, hb, -⟩ := hv
    simp [leavesRoom, reversesPending, tx, ran, Tx.push, Tx.empty, LeavesRoom, hl, hb]
  | deposit r row b =>
    obtain ⟨-, -, hb, -⟩ := hv
    simp [leavesRoom, reversesPending, tx, ran, Tx.push, Tx.empty, LeavesRoom, hb]
  | _ => simp [leavesRoom, reversesPending, tx, ran, Tx.push, Tx.empty, LeavesRoom]

/-- **The accounts stay roomy exactly as long as every entry leaves room.** -/
theorem Entry.roomy_iff {e : Entry} (hv : e.Valid κ db) (hw : db.WellFormed) (h : db.Roomy) :
    (e.apply db).Roomy ↔ e.LeavesRoom db := by
  cases e with
  | openAccount a b =>
    refine iff_of_true (h.account rfl ?_ fun _ _ => rfl) trivial
    have hzero : db.pendingOn a = 0 := hw.pendingOn_eq_zero hv.1
    have hmax := hv.2
    show b + db.pendingOn a ≤ i64Max
    omega
  | debit r a denom m b =>
    obtain ⟨hb, hr, -⟩ := hv
    have hput := pendingOn_put ⟨.pending, a, denom, m, none⟩
      (db.accounts.put a (some (b + -denom))) hr
    have hold := h a b hb
    refine iff_of_true (h.account rfl ?_ fun a' ha' => ?_) trivial
    · rw [apply, hput, Table.share_none]
      simp only [WithdrawRow.pendingOn, and_self, if_true]
      omega
    · rw [apply, hput, Table.share_none]
      simp [WithdrawRow.pendingOn, Ne.symm ha']
  | sign r row signature => exact iff_of_true (h.overwrite hw hv.1 (by simp)) trivial
  | complete r row =>
    exact iff_of_true (h.overwrite hw hv.1 (by simp)) trivial
  | compensate r row b =>
    obtain ⟨hl, ⟨e, hs⟩, hf, hb, -⟩ := hv
    have hput := pendingOn_put { row with state := .compensated }
      (db.accounts.put row.accountId (some (b + row.denominationCents))) hl
    have hgone : ∀ a, WithdrawRow.pendingOn a r { row with state := .compensated } = 0 :=
      fun a => WithdrawRow.pendingOn_of_ne (by simp) a r
    have hold := h row.accountId b hb
    have hothers : ∀ a, a ≠ row.accountId →
        ((compensate r row b).apply db).pendingOn a = db.pendingOn a := by
      intro a ha
      rw [apply, hput, Table.share_some, hgone]
      simp [WithdrawRow.pendingOn, Ne.symm ha]
    have hown : ((compensate r row b).apply db).pendingOn row.accountId =
        db.pendingOn row.accountId - row.pendingOn row.accountId r := by
      rw [apply, hput, Table.share_some, hgone, add_zero]
    by_cases hp : row.state = .pending
    · -- The credit takes the room that its own debit has left.
      rw [WithdrawRow.pendingOn, if_pos ⟨rfl, hp⟩] at hown
      exact iff_of_true (h.account rfl (by omega) hothers) (Or.inl hp)
    · rw [row.pendingOn_of_ne hp, sub_zero] at hown
      refine ⟨fun hroomy => Or.inr ?_, fun hroom => ?_⟩
      · have := hroomy row.accountId _ (Table.lookup_put_self _ _ _)
        omega
      · have := hroom.resolve_left hp
        exact h.account rfl (by omega) hothers
  | deposit r row b =>
    obtain ⟨-, -, hb, -⟩ := hv
    refine ⟨fun hroomy => hroomy row.accountId _ (Table.lookup_put_self _ _ _), fun hroom => ?_⟩
    exact h.account rfl hroom fun _ _ => rfl
  | _ => exact iff_of_true h trivial

/-! ## Every run -/

/-- One pending withdrawal needs no more room than all of them. -/
theorem Tables.Roomy.fits (h : db.Roomy) (hw : db.WellFormed) {r : String} {row : WithdrawRow}
    (hl : db.withdrawStates.lookup r = some row) (hp : row.state = .pending) {b : Int}
    (hb : db.accounts.lookup row.accountId = some b) : b + row.denominationCents ≤ i64Max := by
  have hshare := Table.share_le_total (f := WithdrawRow.pendingOn row.accountId) (fun r row' hl =>
    row'.pendingOn_nonneg (hw.row r row' hl).denom_nonneg row.accountId r) hl
  have hown : row.pendingOn row.accountId r = row.denominationCents := if_pos ⟨rfl, hp⟩
  have hroom := h _ b hb
  unfold Tables.pendingOn at hroom
  omega

/-- And whatever signing gives, no account gets back more than is pending on it. -/
theorem Tables.Roomy.refundable (h : db.Roomy) (hw : db.WellFormed) (κ : Config X) :
    db.Refundable κ := by
  intro a b hb
  have hroom := h a b hb
  have hle : db.refunds κ a ≤ db.pendingOn a := by
    refine Table.total_le fun r row hl => ?_
    have := (hw.row r row hl).denom_nonneg
    unfold refund WithdrawRow.pendingOn
    split
    · rename_i hp _
      by_cases hacc : row.accountId = a <;> simp [hacc, hp]
    · split <;> omega
  omega

theorem roomy (h : Sys.Steps (.commits fun sh c => leavesRoom sh c = true) (start κ) s) :
    s.shared.db.Roomy := by
  refine invariant (J := fun _ sh => sh.db.Roomy) h ?_ ?_ (fun h _ => h) (fun h _ => h)
  · exact fun a b hb => absurd hb (by simp [Tables.empty])
  · intro κ sh call op e hw hj hv _ hroom
    exact (e.roomy_iff hv hw hj).mpr ((e.leavesRoom_iff hv).mp hroom)

/-- Where signing the withdrawal fails, `finalize_withdraw`, run alone, gives the money back and
    reports it. -/
def GivesBack (κ : Config X) (r : String) (row : WithdrawRow) (b : Int) (sh : State X) : Prop :=
  ∀ call op denom e, i64TryFrom denom = some row.denominationCents →
    κ.sign row = some (.error e) →
      Alone.Spec (S := service X) Calm call op (fun _ => True) (fun _ _ _ => False)
        (fun err tx sh' => err = .withdrawFailed r e.toText ∧ tx = none ∧
          sh'.db = (Entry.compensate r row b).apply sh.db)
        (finalizeWithdraw κ r row.accountId denom row.blindedMessage) none sh

theorem gives_back {sh : State X} {r : String} {row : WithdrawRow} {b : Int}
    (hl : sh.db.withdrawStates.lookup r = some row)
    (hb : sh.db.accounts.lookup row.accountId = some b) (hmin : 0 ≤ b + row.denominationCents)
    (hmax : b + row.denominationCents ≤ i64Max) : GivesBack κ r row b sh := by
  intro call op denom e hd hs
  obtain ⟨denom', hdenom, hkeys⟩ := Option.bind_eq_some_iff.mp hs
  obtain rfl : denom = denom' := Option.some.inj ((u64TryFrom_i64TryFrom hd).symm.trans hdenom)
  obtain ⟨keypair, hkeypair, herr⟩ := Option.map_eq_some_iff.mp hkeys
  unfold finalizeWithdraw
  simp only [hkeypair, herr]
  have hspec : Alone.Spec (S := service X) Calm call op _ _ _ _ _ _ := compensate_returns
    (C := fun _ => True) (i := call) trivial trivial hl hb hmin hmax hd
  refine Alone.Spec.bind trivial (hspec.mono trivial (fun _ _ _ _ h => h) fun _ _ _ _ h => h.elim)
    fun _ tx sh _ h₁ => ?_
  obtain ⟨rfl, rfl⟩ := h₁
  exact Alone.Spec.throw ⟨rfl, rfl, Ledger.commit_db (L := ledger X) _ _⟩

/-- **A compensating credit always fits.** In every state of every run whose credits leave room,
    every pending withdrawal's account can take it back: the update of `compensate` does not leave
    the column's range; a signing that fails, run alone, gives the money back; and a startup can
    give back all that is pending, whichever keys it finds. -/
theorem compensation_fits
    (h : Sys.Steps (.commits fun sh c => leavesRoom sh c = true) (start κ) s) {r : String}
    {row : WithdrawRow} (hl : s.shared.db.withdrawStates.lookup r = some row)
    (hp : row.state = .pending) :
    (∃ b, s.shared.db.accounts.lookup row.accountId = some b ∧
      b + row.denominationCents ≤ i64Max ∧
      (∀ o, exec (.credit row.denominationCents row.accountId) o s.shared.db =
        .write [] (1 : Nat) [⟨.account row.accountId, some (b + row.denominationCents)⟩]) ∧
      ∀ κ' : Config X, GivesBack κ' r row b s.shared) ∧
    ∀ κ' : Config X, s.shared.db.Refundable κ' := by
  have hw := (good h).inv
  have hroomy := roomy h
  have hrow := hw.row r row hl
  obtain ⟨b, hb⟩ := hrow.account
  have hmin : 0 ≤ b + row.denominationCents :=
    Int.add_nonneg (hw.balance _ b hb).1 hrow.denom_nonneg
  have hmax := hroomy.fits hw hl hp hb
  exact ⟨⟨b, hb, hmax, fun o => addBalance_of_some hb hmin hmax,
    fun κ' => gives_back hl hb hmin hmax⟩, hroomy.refundable hw⟩

/-- A withdrawal that will not be signed, after its debit. -/
theorem compensation_fits_unsignable : ∃ s : Sys (service .toy), ∃ row b,
    s.shared.db.withdrawStates.lookup "r" = some row ∧ row.state = .pending ∧
      s.shared.db.accounts.lookup row.accountId = some b ∧
        b + row.denominationCents ≤ i64Max := by
  obtain ⟨s, hs, hp⟩ := Sys.exists_of_runGuarded (s := start Config.toy) (g := leavesRoom)
    (l := opened ++ call (.withdraw unsignable) :: go 2 6)
    (p := fun s => decide (s.shared.db.withdrawStates.lookup "r" =
      some ⟨.pending, "alice", 100, [], none⟩)) (by decide)
  have hl := of_decide_eq_true hp
  obtain ⟨⟨b, hb, hmax, -⟩, -⟩ := compensation_fits hs hl rfl
  exact ⟨s, _, b, hl, rfl, hb, hmax⟩

/-- "max" opens with all that the column holds. A deposit takes the room that a debit has left, and
    then the message of the withdrawal cannot be signed. -/
def roomTaken : List (Event (service .toy)) :=
  opened ++ call (.createAccount "max" 9223372036854775807) :: go 2 2 ++
    call (.withdraw ⟨"max", "r", 100, []⟩) :: go 3 6 ++
      call (.deposit ⟨toyCoin 1, "max", "p"⟩) :: go 4 7 ++ go 3 4

/-- **Without the condition** the credit does not fit: the withdrawal is answered with an error of
    the database, and stays pending. -/
theorem compensation_out_of_range : ∃ s : Sys (service .toy),
    Sys.Steps .any (start Config.toy) s ∧
      s.shared.db.withdrawStates.lookup "r" = some ⟨.pending, "max", 100, [], none⟩ ∧
      s.shared.db.accounts.lookup "max" = some i64Max ∧
      (∃ a ∈ s.answers, a.op = .withdraw ⟨"max", "r", 100, []⟩ ∧
        a.ans = .withdraw (.error (.db .numericOverflow))) ∧
      ¬ i64Max + 100 ≤ i64Max := by
  obtain ⟨s, hs, hp⟩ := Sys.exists_of_run (s := start Config.toy) (l := roomTaken)
    (p := fun s => decide (
      s.shared.db.withdrawStates.lookup "r" = some ⟨.pending, "max", 100, [], none⟩ ∧
      s.shared.db.accounts.lookup "max" = some i64Max ∧
      ∃ a ∈ s.answers, a.op = .withdraw ⟨"max", "r", 100, []⟩ ∧
        a.ans = .withdraw (.error (.db .numericOverflow)))) (by decide)
  obtain ⟨hrow, hacct, hans⟩ := of_decide_eq_true hp
  exact ⟨s, hs, hrow, hacct, hans, by decide⟩

end Digicash.Bank
