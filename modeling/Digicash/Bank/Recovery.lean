import Digicash.Lib.Alone
import Digicash.Bank.Requests

/-!
# Recovery refines the uninterrupted withdrawal

`settled` is where a withdrawal in flight ends up if it is driven forward, and `refund` what its
account gets back on the way. Every statement that `withdraw` commits after the debit, and every
one that recovery commits, leaves a table that *settles as* the one before. So it does not matter
where a crash falls, nor how often: when `connect` returns, everything in flight is settled, and
the tables are those of the uninterrupted call with everything else that was in flight settled
too.

That last part is what recovery is for, and it is why the tables are not exactly those of the
uninterrupted call where other withdrawals were in flight (`other_withdrawal_settled`).
-/

namespace Digicash.Bank

open Lib

variable {X : Crypto} {κ : Config X} {i : CallId} {op : Op} {r : String} {sh : State X}

/-! ## Recovering -/

/-- Where a withdrawal ends up. Without its key it stays where it is. -/
def settled (κ : Config X) (row : WithdrawRow) : WithdrawRow :=
  match row.state with
  | .pending =>
    match κ.sign row with
    | none => row
    | some (.ok signature) => { row with state := .completed, blindSignature := some signature }
    | some (.error _) => { row with state := .compensated }
  | .signed => { row with state := .completed }
  | .completed | .compensated => row

/-- What settling a withdrawal gives back to account `a`. -/
def refund (κ : Config X) (a : String) (_ : String) (row : WithdrawRow) : Int :=
  match row.state, κ.sign row with
  | .pending, some (.error _) => if row.accountId = a then row.denominationCents else 0
  | _, _ => 0

def Tables.refunds (κ : Config X) (db : Tables) (a : String) : Int :=
  db.withdrawStates.total (refund κ a)

/-- Both settle to the same withdrawals and the same balances. -/
structure SettlesAs (κ : Config X) (db db' : Tables) : Prop where
  rows : ∀ r, (db'.withdrawStates.lookup r).map (settled κ) =
    (db.withdrawStates.lookup r).map (settled κ)
  accounts : ∀ a, (db'.accounts.lookup a).map (· + db'.refunds κ a) =
    (db.accounts.lookup a).map (· + db.refunds κ a)

/-- Every account can take what settling gives back to it. -/
def Tables.Refundable (κ : Config X) (db : Tables) : Prop :=
  ∀ a b, db.accounts.lookup a = some b → b + db.refunds κ a ≤ i64Max

instance (κ : Config X) (db : Tables) : Decidable (db.Refundable κ) :=
  decidable_of_iff (∀ row ∈ db.accounts.rows, row.2 + db.refunds κ row.1 ≤ i64Max)
    ⟨fun h a b hb => h (a, b) (Table.mem_rows.mpr hb),
      fun h row hrow => h row.1 row.2 (Table.mem_rows.mp hrow)⟩

theorem SettlesAs.refl (κ : Config X) (db : Tables) : SettlesAs κ db db :=
  ⟨fun _ => rfl, fun _ => rfl⟩

theorem SettlesAs.trans {db db' db'' : Tables} (h : SettlesAs κ db db')
    (h' : SettlesAs κ db' db'') : SettlesAs κ db db'' :=
  ⟨fun r => (h'.rows r).trans (h.rows r), fun a => (h'.accounts a).trans (h.accounts a)⟩

theorem SettlesAs.refundable {db db' : Tables} (h : SettlesAs κ db db')
    (hr : db.Refundable κ) : db'.Refundable κ := by
  intro a b hb
  have ha := h.accounts a
  rw [hb, Option.map_some] at ha
  obtain ⟨b₀, hb₀, heq⟩ := Option.map_eq_some_iff.mp ha.symm
  exact heq ▸ hr a b₀ hb₀

/-- One row moves on, and its account gets back what settling it would have given back. -/
theorem settlesAs_put {db : Tables} {row row' : WithdrawRow} {accounts : Table String Int}
    (hl : db.withdrawStates.lookup r = some row) (hrow : settled κ row' = settled κ row)
    (hacc : ∀ a, accounts.lookup a =
      (db.accounts.lookup a).map (· + (refund κ a r row - refund κ a r row'))) :
    SettlesAs κ db { db with accounts, withdrawStates := db.withdrawStates.put r (some row') } := by
  refine ⟨fun r' => ?_, fun a => ?_⟩
  · rw [Table.lookup_put]
    split
    · rename_i heq
      rw [heq, hl, Option.map_some, Option.map_some, hrow]
    · rfl
  · have hrefunds : Tables.refunds κ
        { db with accounts, withdrawStates := db.withdrawStates.put r (some row') } a =
          db.refunds κ a - refund κ a r row + refund κ a r row' := by
      rw [Tables.refunds, Table.total_put, hl, Table.share_some, Table.share_some, Tables.refunds]
    rw [hacc, hrefunds, Option.map_map]
    refine congrArg (fun f => Option.map f _) (funext fun b => ?_)
    simp only [Function.comp_apply]
    omega

theorem settlesAs_sign {db : Tables} {row : WithdrawRow} {signature : Bytes}
    (hl : db.withdrawStates.lookup r = some row) (hp : row.state = .pending)
    (hs : κ.sign row = some (.ok signature)) :
    SettlesAs κ db ((Entry.sign r row signature).apply db) := by
  refine settlesAs_put hl ?_ fun a => ?_
  · simp only [settled, hp, hs]
  · have h0 : refund κ a r row = 0 := by simp only [refund, hp, hs]
    have h1 : refund κ a r { row with state := .signed, blindSignature := some signature } = 0 := rfl
    simp [h0, h1]

theorem settlesAs_complete {db : Tables} {row : WithdrawRow}
    (hl : db.withdrawStates.lookup r = some row) (hp : row.state = .signed) :
    SettlesAs κ db ((Entry.complete r row).apply db) := by
  refine settlesAs_put hl ?_ fun a => ?_
  · simp only [settled, hp]
  · have h0 : refund κ a r row = 0 := by simp only [refund, hp]
    have h1 : refund κ a r { row with state := .completed } = 0 := rfl
    simp [h0, h1]

theorem settlesAs_compensate {db : Tables} {row : WithdrawRow} {e : CoreError} {b : Int}
    (hl : db.withdrawStates.lookup r = some row) (hp : row.state = .pending)
    (hs : κ.sign row = some (.error e)) (hb : db.accounts.lookup row.accountId = some b) :
    SettlesAs κ db ((Entry.compensate r row b).apply db) := by
  refine settlesAs_put hl ?_ fun a => ?_
  · simp only [settled, hp, hs]
  · have h0 : refund κ a r row = if row.accountId = a then row.denominationCents else 0 := by
      simp only [refund, hp, hs]
    have h1 : refund κ a r { row with state := .compensated } = 0 := rfl
    rw [Table.lookup_put, h0, h1]
    by_cases ha : a = row.accountId
    · subst ha
      simp [hb]
    · simp [ha, Ne.symm ha]

/-- A pending row's refund fits its account. -/
theorem Tables.Refundable.credit {db : Tables} {row : WithdrawRow} {e : CoreError} {b : Int}
    (h : db.Refundable κ) (hw : db.WellFormed) (hl : db.withdrawStates.lookup r = some row)
    (hp : row.state = .pending) (hs : κ.sign row = some (.error e))
    (hb : db.accounts.lookup row.accountId = some b) : b + row.denominationCents ≤ i64Max := by
  have hnonneg : ∀ r' row', db.withdrawStates.lookup r' = some row' →
      0 ≤ refund κ row.accountId r' row' := by
    intro r' row' hl'
    have := (hw.row r' row' hl').denom_nonneg
    unfold refund
    split
    · split <;> omega
    · exact Int.le_refl 0
  have hshare := Table.share_le_total hnonneg hl
  have hrefund : refund κ row.accountId r row = row.denominationCents := by
    simp only [refund, hp, hs, if_true]
  have hle := h _ b hb
  unfold Tables.refunds at hle
  omega

/-! ## Finalizing, alone -/

variable {D : Tables} {row : WithdrawRow}

/-- The tables settle as `D` does. -/
structure Recovering (κ : Config X) (D : Tables) (sh : State X) : Prop where
  wellFormed : sh.db.WellFormed
  settles : SettlesAs κ D sh.db
  refundable : sh.db.Refundable κ

theorem Recovering.commit {e : Entry} (h : Recovering κ D sh) (hv : e.Valid κ sh.db)
    (hs : SettlesAs κ sh.db (e.apply sh.db)) : Recovering κ D (sh.commit i op e.tx) := by
  have hdb : (sh.commit i op e.tx).db = e.apply sh.db := Ledger.commit_db (L := ledger X) e sh
  refine ⟨?_, ?_, ?_⟩
  · rw [hdb]
    exact Entry.wellFormed h.wellFormed hv
  · rw [hdb]
    exact h.settles.trans hs
  · rw [hdb]
    exact hs.refundable h.refundable

/-- The withdrawal `r`, which was `row`, is settled, and no other has changed. -/
structure Drove (κ : Config X) (r : String) (row : WithdrawRow) (db db' : Tables) : Prop where
  row : db'.withdrawStates.lookup r = some (settled κ row)
  others : ∀ r', r' ≠ r → db'.withdrawStates.lookup r' = db.withdrawStates.lookup r'

theorem Drove.put {db db' : Tables}
    (h : db'.withdrawStates = db.withdrawStates.put r (some (settled κ row))) :
    Drove κ r row db db' := by
  refine ⟨?_, fun r' hr' => ?_⟩
  · rw [h]
    exact Table.lookup_put_self _ _ _
  · rw [h]
    exact Table.lookup_put_ne hr'

theorem setState_completed_alone (hc : Recovering κ D sh)
    (hl : sh.db.withdrawStates.lookup r = some row) (hp : row.state = .signed) :
    Alone.Spec Calm i op (Recovering κ D) (fun _ tx sh' => tx = none ∧ Drove κ r row sh.db sh'.db)
      (fun _ _ _ => False) (setState r .completed) none sh := by
  have hsigned : ∃ signature, row.Signed signature := by
    rcases (hc.wellFormed.row r row hl).signature with hs | ⟨hstate, -⟩
    · exact hs
    · rcases hstate with h | h <;> rw [hp] at h <;> exact absurd h (by decide)
  have hv : (Entry.complete r row).Valid κ sh.db := ⟨hl, hsigned⟩
  refine Alone.Spec.write_bind_calm (fun o => updateWithdrawal_some hl _) (by simp) hc
    (hc.commit hv (settlesAs_complete hl hp)) (Alone.Spec.ok ⟨rfl, Drove.put ?_⟩)
  simp only [settled, hp]
  exact congrArg Tables.withdrawStates (Ledger.commit_db (L := ledger X) (Entry.complete r row) sh)

/-- A debit is given back where its account can take it. -/
theorem compensate_returns {C : State X → Prop} {denom : UInt64} {b : Int} (hc : C sh)
    (hc' : C (sh.commit i op (Entry.compensate r row b).tx))
    (hl : sh.db.withdrawStates.lookup r = some row)
    (hb : sh.db.accounts.lookup row.accountId = some b) (hmin : 0 ≤ b + row.denominationCents)
    (hmax : b + row.denominationCents ≤ i64Max)
    (hd : i64TryFrom denom = some row.denominationCents) :
    Alone.Spec Calm i op C
      (fun _ tx sh' => tx = none ∧ sh' = sh.commit i op (Entry.compensate r row b).tx)
      (fun _ _ _ => False) (compensate r row.accountId denom) none sh := by
  have hcredit := addBalance_of_some hb hmin hmax
  unfold compensate toI64
  rw [hd]
  refine Alone.Spec.orThrow_bind (fun e he => absurd he (by simp)) fun n hn => ?_
  obtain rfl := Except.ok.inj hn
  refine Alone.Spec.transaction hc ?_
  refine Alone.Spec.write_bind_tx (fun o => hcredit) hc ?_
  refine Alone.Spec.write_bind_tx (fun o => updateWithdrawal_some hl _) hc ?_
  exact Alone.Spec.ok ⟨_, rfl, hc', rfl, rfl⟩

theorem compensate_alone {denom : UInt64} {e : CoreError} (hc : Recovering κ D sh)
    (hl : sh.db.withdrawStates.lookup r = some row) (hp : row.state = .pending)
    (hs : κ.sign row = some (.error e)) (hd : i64TryFrom denom = some row.denominationCents) :
    Alone.Spec Calm i op (Recovering κ D) (fun _ tx sh' => tx = none ∧ Drove κ r row sh.db sh'.db)
      (fun _ _ _ => False) (compensate r row.accountId denom) none sh := by
  have hw := hc.wellFormed.row r row hl
  obtain ⟨b, hb⟩ := hw.account
  have hmax := hc.refundable.credit hc.wellFormed hl hp hs hb
  have hv : (Entry.compensate r row b).Valid κ sh.db := ⟨hl, ⟨e, hs⟩, Or.inl hp, hb, hmax⟩
  have h0 := (hc.wellFormed.balance _ b hb).1
  have h1 := hw.denom_nonneg
  have hspec : Alone.Spec Calm i op _ _ _ _ _ _ := compensate_returns hc
    (hc.commit hv (settlesAs_compensate hl hp hs hb)) hl hb (by omega) hmax hd
  refine hspec.mono hc (fun _ tx sh' _ h => ?_) fun _ _ _ _ h => h
  obtain ⟨rfl, rfl⟩ := h
  refine ⟨rfl, Drove.put ?_⟩
  simp only [settled, hp, hs]
  exact congrArg Tables.withdrawStates
    (Ledger.commit_db (L := ledger X) (Entry.compensate r row b) sh)

/-- What `κ` makes of the withdrawal `row` with id `r` where signing does not work. -/
def Unsignable (κ : Config X) (r : String) (row : WithdrawRow) (e : BankError) : Prop :=
  κ.sign row = none ∨ ∃ c, κ.sign row = some (.error c) ∧ e = .withdrawFailed r c.toText

/-- **A pending withdrawal is settled**, whichever way it goes. -/
theorem finalizeWithdraw_alone {denom : UInt64} (hc : Recovering κ D sh)
    (hl : sh.db.withdrawStates.lookup r = some row) (hp : row.state = .pending)
    (hd : i64TryFrom denom = some row.denominationCents) :
    Alone.Spec Calm i op (Recovering κ D)
      (fun signature tx sh' => tx = none ∧ Drove κ r row sh.db sh'.db ∧
        κ.sign row = some (.ok signature))
      (fun e tx sh' => tx = none ∧ Drove κ r row sh.db sh'.db ∧ Unsignable κ r row e)
      (finalizeWithdraw κ r row.accountId denom row.blindedMessage) none sh := by
  unfold finalizeWithdraw
  cases hk : κ.keys.get denom schemeIdRsaDeterministic with
  | none =>
    have hsign : κ.sign row = none := by
      rw [Config.sign, u64TryFrom_i64TryFrom hd, Option.bind_some, hk]
      rfl
    refine Alone.Spec.throw ⟨rfl, ⟨?_, fun _ _ => rfl⟩, Or.inl hsign⟩
    simp only [settled, hp, hsign, hl]
  | some keypair =>
    have hsign : κ.sign row = some (signBlinded keypair.sk row.blindedMessage) := by
      rw [Config.sign, u64TryFrom_i64TryFrom hd, Option.bind_some, hk]
      rfl
    cases hb : signBlinded keypair.sk row.blindedMessage with
    | error e =>
      rw [hb] at hsign
      simp only [hb]
      have hspec : Alone.Spec Calm i op _ _ _ _ _ _ := compensate_alone hc hl hp hsign hd
      refine Alone.Spec.bind hc (hspec.mono hc (fun _ _ _ _ h => h) fun _ _ _ _ h => h.elim)
        fun _ tx sh₁ _ h₁ => ?_
      exact Alone.Spec.throw ⟨h₁.1, h₁.2, Or.inr ⟨e, hsign, rfl⟩⟩
    | ok signature =>
      rw [hb] at hsign
      simp only [hb]
      have hv : (Entry.sign r row signature).Valid κ sh.db := ⟨hl, hsign, Or.inl hp⟩
      have hc₁ : Recovering κ D (sh.commit i op (Entry.sign r row signature).tx) :=
        hc.commit hv (settlesAs_sign hl hp hsign)
      refine Alone.Spec.write_bind_calm (fun o => updateWithdrawal_some hl _) (by simp) hc hc₁ ?_
      have hdb : (sh.commit i op (Entry.sign r row signature).tx).db =
          (Entry.sign r row signature).apply sh.db := Ledger.commit_db (L := ledger X) _ sh
      have hl₁ : (sh.commit i op (Entry.sign r row signature).tx).db.withdrawStates.lookup r =
          some { row with state := .signed, blindSignature := some signature } := by
        rw [hdb]
        exact Table.lookup_put_self _ _ _
      have hspec : Alone.Spec Calm i op _ _ _ _ _ _ := setState_completed_alone hc₁ hl₁ rfl
      refine Alone.Spec.bind hc₁ (hspec.mono hc₁ (fun _ _ _ _ h => h) fun _ _ _ _ h => h.elim)
        fun _ tx sh₂ _ h₂ => ?_
      obtain ⟨rfl, hrow, hothers⟩ := h₂
      refine Alone.Spec.ok ⟨rfl, ⟨?_, fun r' hr' => ?_⟩, hsign⟩
      · rw [hrow]
        simp only [settled, hp, hsign]
      · rw [hothers r' hr', hdb]
        exact Table.lookup_put_ne hr'

/-! ## Startup, alone -/

/-- Nothing is in flight that could be settled. -/
def AtRest (κ : Config X) (db : Tables) : Prop :=
  ∀ r row, db.withdrawStates.lookup r = some row → settled κ row = row

theorem settled_of_not_inFlight (h : row.state.inFlight = false) : settled κ row = row := by
  cases hstate : row.state with
  | pending => exact absurd h (by simp [hstate, WithdrawState.inFlight])
  | signed => exact absurd h (by simp [hstate, WithdrawState.inFlight])
  | completed => simp only [settled, hstate]
  | compensated => simp only [settled, hstate]

theorem settled_settled (κ : Config X) (row : WithdrawRow) :
    settled κ (settled κ row) = settled κ row := by
  cases hp : row.state with
  | pending =>
    cases hs : κ.sign row with
    | none => simp only [settled, hp, hs]
    | some outcome => cases outcome <;> simp only [settled, hp, hs]
  | _ => simp only [settled, hp]

theorem toResume_ok {t : ToResume} (hw : row.denominationCents ≤ i64Max)
    (h : toResume (r, row) = .ok t) : t.requestId = r ∧ t.state = row.state ∧
      t.accountId = row.accountId ∧ i64TryFrom t.denominationCents = some row.denominationCents ∧
      t.blindedMessage = row.blindedMessage := by
  unfold toResume at h
  cases hd : toU64 row.denominationCents "denomination" with
  | error e =>
    rw [hd] at h
    exact absurd h (by simp [Except.map])
  | ok denom =>
    rw [hd] at h
    obtain rfl := Except.ok.inj h
    exact ⟨rfl, rfl, rfl, toU64_eq_ok hw hd, rfl⟩

theorem recoverOne_alone {t : ToResume} (hc : Recovering κ D sh)
    (hl : sh.db.withdrawStates.lookup r = some row) (ht : toResume (r, row) = .ok t) :
    Alone.Spec Calm i op (Recovering κ D) (fun _ tx sh' => tx = none ∧ Drove κ r row sh.db sh'.db)
      (fun _ _ _ => False) (recoverOne κ t) none sh := by
  obtain ⟨hr, hstate, haccount, hd, hm⟩ := toResume_ok (hc.wellFormed.row r row hl).denom_le ht
  unfold recoverOne
  rw [hr, hstate, haccount, hm]
  cases hp : row.state with
  | pending =>
    refine Alone.Spec.attempt_bind hc (finalizeWithdraw_alone hc hl hp hd)
      fun res tx sh₁ _ h₁ => Alone.Spec.ok ?_
    cases res with
    | ok signature => exact ⟨h₁.1, h₁.2.1⟩
    | error e => exact ⟨h₁.1, h₁.2.1⟩
  | signed => exact setState_completed_alone hc hl hp
  | completed =>
    refine Alone.Spec.ok ⟨rfl, ?_, fun _ _ => rfl⟩
    simp only [settled, hp, hl]
  | compensated =>
    refine Alone.Spec.ok ⟨rfl, ?_, fun _ _ => rfl⟩
    simp only [settled, hp, hl]

/-- The scan settles every withdrawal of its list, and leaves the others. -/
theorem recoverAll_alone : ∀ {todo : List ToResume} {sh : State X}, Recovering κ D sh →
    (todo.map ToResume.requestId).Nodup →
    (∀ t ∈ todo, ∃ row, sh.db.withdrawStates.lookup t.requestId = some row ∧
      toResume (t.requestId, row) = .ok t) →
    (∀ r row, sh.db.withdrawStates.lookup r = some row →
      settled κ row = row ∨ r ∈ todo.map ToResume.requestId) →
    Alone.Spec Calm i op (Recovering κ D) (fun _ tx sh' => tx = none ∧ AtRest κ sh'.db)
      (fun _ _ _ => False) (recoverAll κ todo) none sh
  | [], sh, _, _, _, hrest =>
    Alone.Spec.ok ⟨rfl, fun r row hl => (hrest r row hl).resolve_right (by simp)⟩
  | t :: todo, sh, hc, hnd, htodo, hrest => by
    rw [List.map_cons, List.nodup_cons] at hnd
    obtain ⟨row, hl, ht⟩ := htodo t (List.mem_cons_self ..)
    have hspec : Alone.Spec Calm i op _ _ _ _ _ _ := recoverOne_alone hc hl ht
    refine Alone.Spec.bind hc hspec fun _ tx sh₁ hc₁ h₁ => ?_
    obtain ⟨rfl, hrow, hothers⟩ := h₁
    refine recoverAll_alone hc₁ hnd.2 (fun t' ht' => ?_) fun r' row' hl' => ?_
    · -- The rest of the list is as the scan saw it.
      obtain ⟨row', hl', hto'⟩ := htodo t' (List.mem_cons_of_mem _ ht')
      have hne : t'.requestId ≠ t.requestId := fun heq =>
        hnd.1 (heq ▸ List.mem_map_of_mem ht')
      exact ⟨row', (hothers _ hne).trans hl', hto'⟩
    · by_cases hr' : r' = t.requestId
      · subst hr'
        obtain rfl := Option.some.inj (hrow.symm.trans hl')
        exact Or.inl (settled_settled κ row)
      · refine (hrest r' row' ((hothers r' hr').symm.trans hl')).imp id fun hmem => ?_
        exact (List.mem_cons.mp hmem).resolve_left hr'

theorem map_requestId_of_mapM : ∀ {rows : List (String × WithdrawRow)} {todo : List ToResume},
    rows.mapM toResume = .ok todo → todo.map ToResume.requestId = rows.map Prod.fst
  | [], todo, h => by
    obtain rfl := Except.ok.inj h
    rfl
  | row :: rows, todo, h => by
    rw [List.mapM_cons] at h
    cases ht : toResume row with
    | error e =>
      rw [ht] at h
      exact absurd h (by simp [bind, Except.bind])
    | ok t =>
      rw [ht] at h
      cases hrows : rows.mapM toResume with
      | error e =>
        rw [hrows] at h
        exact absurd h (by simp [bind, Except.bind])
      | ok ts =>
        rw [hrows] at h
        obtain rfl : t :: ts = todo := Except.ok.inj h
        have hid : t.requestId = row.1 := by
          unfold toResume at ht
          cases hd : toU64 row.2.denominationCents "denomination" with
          | error e =>
            rw [hd] at ht
            exact absurd ht (by simp [Except.map])
          | ok denom =>
            rw [hd] at ht
            exact (congrArg ToResume.requestId (Except.ok.inj ht)).symm
        rw [List.map_cons, List.map_cons, hid, map_requestId_of_mapM hrows]

theorem recoverWithdrawals_alone (hc : Recovering κ D sh) :
    Alone.Spec Calm i op (Recovering κ D) (fun _ tx sh' => tx = none ∧ AtRest κ sh'.db)
      (fun _ _ _ => True) (recoverWithdrawals κ) none sh := by
  unfold recoverWithdrawals
  refine Alone.Spec.read_bind_calm (fun o db =>
    arrange (db.withdrawStates.rows.filter fun r => r.2.state.inFlight) o.inFlight)
    (fun _ _ => rfl) hc fun o => ?_
  refine Alone.Spec.orThrow_bind (fun _ _ => trivial) fun todo htodo => ?_
  have hperm := arrange_perm (sh.db.withdrawStates.rows.filter fun r => r.2.state.inFlight)
    o.inFlight
  have hids := map_requestId_of_mapM htodo
  have hspec : Alone.Spec Calm i op (Recovering κ D) (fun _ tx sh' => tx = none ∧ AtRest κ sh'.db)
      (fun _ _ _ => False) (recoverAll κ todo) none sh := by
    refine recoverAll_alone hc ?_ (fun t ht => ?_) fun r row hl => ?_
    · rw [hids, (hperm.map Prod.fst).nodup_iff]
      exact (Table.nodup_rows _).sublist (List.filter_sublist.map _)
    · obtain ⟨⟨r, row⟩, hmem, hto⟩ := mem_of_mapM_ok htodo t ht
      have hl := Table.mem_rows.mp (List.mem_of_mem_filter (hperm.mem_iff.mp hmem))
      obtain rfl := (toResume_ok (hc.wellFormed.row r row hl).denom_le hto).1
      exact ⟨row, hl, hto⟩
    · cases hp : row.state.inFlight with
      | false => exact Or.inl (settled_of_not_inFlight hp)
      | true =>
        refine Or.inr ?_
        rw [hids]
        exact List.mem_map_of_mem (f := Prod.fst)
          (hperm.mem_iff.mpr (List.mem_filter.mpr ⟨Table.mem_rows.mpr hl, hp⟩))
  exact hspec.mono hc (fun _ _ _ _ h => h) fun _ _ _ _ h => h.elim

theorem connect_alone (hc : Recovering κ D sh) :
    Alone.Spec Calm i op (Recovering κ D) (fun _ _ sh' => AtRest κ sh'.db) (fun _ _ _ => True)
      (connect κ) none sh := by
  unfold connect nowUnix
  refine Alone.Spec.bind hc (recoverWithdrawals_alone hc) fun _ tx sh₁ hc₁ h₁ => ?_
  obtain ⟨rfl, hrest⟩ := h₁
  refine Alone.Spec.perform_bind fun fault o now m _ _ => ⟨⟨hc₁.1, hc₁.2, hc₁.3⟩, ?_⟩
  have hpurge : Alone.Spec Calm i op (Recovering κ D) (fun _ _ sh' => AtRest κ sh'.db)
      (fun _ _ _ => True) (purgeExpiredNonces now) none { sh₁ with mem := m } := by
    unfold purgeExpiredNonces
    refine Alone.Spec.orThrow_bind (fun _ _ => trivial) fun n _ => ?_
    refine Alone.Spec.query_bind ⟨hc₁.1, hc₁.2, hc₁.3⟩ (fun _ _ _ _ => trivial)
      (fun _ _ _ => trivial) (fun _ _ _ => Alone.Spec.ok hrest) ?_
    intro fault o k ws _ hex _
    obtain ⟨expired, hx, hvalid⟩ := exec_purgeNonces sh₁.db n
    simp only [hx, Effect.write, Except.ok.injEq, Prod.mk.injEq] at hex ⊢
    obtain ⟨rfl, rfl⟩ := hex
    have hdb : ((⟨sh₁.db, m, sh₁.hist⟩ : State X).commit i op (Entry.purge n expired).tx).db =
        (Entry.purge n expired).apply sh₁.db := Ledger.commit_db (L := ledger X) _ _
    have hsame : SettlesAs κ sh₁.db ((Entry.purge n expired).apply sh₁.db) :=
      ⟨fun _ => rfl, fun _ => rfl⟩
    have hc₂ : Recovering κ D (Shared.commit ⟨sh₁.db, m, sh₁.hist⟩ i op
        (Entry.purge n expired).tx) :=
      Recovering.commit ⟨hc₁.1, hc₁.2, hc₁.3⟩ hvalid hsame
    refine ⟨hc₂, fun _ => trivial, Alone.Spec.ok ?_⟩
    exact hdb ▸ hrest
  refine Alone.Spec.bind ⟨hc₁.1, hc₁.2, hc₁.3⟩ hpurge fun _ tx sh₂ hc₂ hrest₂ => ?_
  refine Alone.Spec.perform_bind (f := pure) fun _ _ _ m _ _ => ⟨⟨hc₂.1, hc₂.2, hc₂.3⟩, ?_⟩
  exact Alone.Spec.ok hrest₂

/-! ## A withdrawal, alone -/

variable {db₀ : Tables} {req : WithdrawRequest}

/-- The entry of a request's debit. -/
abbrev debitOf (req : WithdrawRequest) (denom b : Int) : Entry :=
  .debit req.requestId req.accountId denom req.blindedMessage b

/-- The debit of this request leads from `db₀` to `D`. -/
def Debited (db₀ : Tables) (req : WithdrawRequest) (D : Tables) : Prop :=
  ∃ denom b, i64TryFrom req.denominationCents = some denom ∧
    db₀.accounts.lookup req.accountId = some b ∧ denom ≤ b ∧ D = (debitOf req denom b).apply db₀

theorem Debited.unique {D D' : Tables} (h : Debited db₀ req D) (h' : Debited db₀ req D') :
    D = D' := by
  obtain ⟨denom, b, hd, hb, -, rfl⟩ := h
  obtain ⟨denom', b', hd', hb', -, rfl⟩ := h'
  obtain rfl := Option.some.inj (hd.symm.trans hd')
  obtain rfl := Option.some.inj (hb.symm.trans hb')
  rfl

/-- What the debit takes out of an account covers what it may have to give back. -/
theorem Debited.refundable (hfresh : db₀.withdrawStates.lookup req.requestId = none)
    (hr : db₀.Refundable κ) (h : Debited db₀ req D) : D.Refundable κ := by
  obtain ⟨denom, b, hd, hb, -, rfl⟩ := h
  have h0 := i64TryFrom_nonneg hd
  intro a b' hb'
  have hrefunds : Tables.refunds κ ((debitOf req denom b).apply db₀) a =
      db₀.refunds κ a + refund κ a req.requestId (pendingRow req denom) := by
    rw [Tables.refunds, Entry.apply, Table.total_put, hfresh, Table.share_none, Table.share_some,
      sub_zero]
    rfl
  rw [Entry.apply, Table.lookup_put] at hb'
  rw [hrefunds]
  by_cases ha : a = req.accountId
  · rw [if_pos ha] at hb'
    obtain rfl := Option.some.inj hb'
    have hle := hr a b (ha ▸ hb)
    have hshare : refund κ a req.requestId (pendingRow req denom) ≤ denom := by
      unfold refund pendingRow
      split
      · split
        · exact Int.le_refl denom
        · exact h0
      · exact h0
    omega
  · rw [if_neg ha] at hb'
    have hle := hr a b' hb'
    have hshare : refund κ a req.requestId (pendingRow req denom) = 0 := by
      unfold refund pendingRow
      split
      · exact if_neg (Ne.symm ha)
      · rfl
    omega

theorem debitAndRecordPending_alone {C : State X → Prop} (hc : C sh)
    (hfresh : sh.db.withdrawStates.lookup req.requestId = none) (hw : sh.db.WellFormed)
    (hcommit : ∀ denom b, (debitOf req denom b).Valid κ sh.db →
      Debited sh.db req ((debitOf req denom b).apply sh.db) →
      C (sh.commit i op (debitOf req denom b).tx)) :
    Alone.Spec Calm i op C
      (fun _ tx sh' => tx = none ∧ ∃ denom b, i64TryFrom req.denominationCents = some denom ∧
        (debitOf req denom b).Valid κ sh.db ∧ sh' = sh.commit i op (debitOf req denom b).tx ∧
        Debited sh.db req ((debitOf req denom b).apply sh.db))
      (fun _ tx sh' => tx = none ∧ sh' = sh ∧ ∀ D, ¬ Debited sh.db req D)
      (debitAndRecordPending req) none sh := by
  unfold debitAndRecordPending toI64
  cases hd : i64TryFrom req.denominationCents with
  | none =>
    refine Alone.Spec.orThrow_bind (fun e he => ⟨rfl, rfl, ?_⟩) fun n hn => absurd hn (by simp)
    rintro D ⟨denom, b, hd', -⟩
    exact absurd (hd.symm.trans hd') (by simp)
  | some denom =>
    refine Alone.Spec.orThrow_bind (fun e he => absurd he (by simp)) fun n hn => ?_
    obtain rfl := Except.ok.inj hn
    refine Alone.Spec.transaction hc ?_
    cases hb : sh.db.accounts.lookup req.accountId with
    | none =>
      have hread : ∀ o, exec (.selectBalanceForUpdate req.accountId) o
          (Tx.empty.view (D := database) sh.db) = .read none :=
        fun o => by simp only [exec, Tx.view_empty, hb]
      refine Alone.Spec.read_bind_tx hread hc (Alone.Spec.throw ⟨rfl, rfl, ?_⟩)
      rintro D ⟨denom', b, -, hb', -⟩
      exact absurd (hb.symm.trans hb') (by simp)
    | some b =>
      have hlock : ∀ o, exec (.selectBalanceForUpdate req.accountId) o
          (Tx.empty.view (D := database) sh.db) = .write [.account req.accountId] (some b) [] :=
        fun o => by simp only [exec, Tx.view_empty, hb]
      refine Alone.Spec.write_bind_tx hlock hc ?_
      dsimp only
      split
      · rename_i hlt
        have hnot : ∀ D, ¬ Debited sh.db req D := by
          rintro D ⟨denom', b', hd', hb', hle, -⟩
          obtain rfl := Option.some.inj (hd.symm.trans hd')
          obtain rfl := Option.some.inj (hb.symm.trans hb')
          omega
        exact Alone.Spec.orThrow_bind (fun _ _ => ⟨rfl, rfl, hnot⟩)
          fun _ _ => Alone.Spec.throw ⟨rfl, rfl, hnot⟩
      · rename_i hle
        have h0 := i64TryFrom_nonneg hd
        have hmax := (hw.balance _ b hb).2
        have hdebit : addBalance sh.db req.accountId (-denom) =
            .write [] 1 [⟨.account req.accountId, some (b + -denom)⟩] :=
          addBalance_of_some hb (by omega) (by omega)
        refine Alone.Spec.write_bind_tx (fun o => hdebit) hc ?_
        refine Alone.Spec.write_bind_tx (fun o => insertPending_of_none (o := o) hfresh) hc ?_
        have hv : (debitOf req denom b).Valid κ sh.db :=
          ⟨hb, hfresh, h0, (i64TryFrom_eq_some hd).2, by omega⟩
        have hdebited : Debited sh.db req ((debitOf req denom b).apply sh.db) :=
          ⟨denom, b, hd, hb, by omega, rfl⟩
        exact Alone.Spec.ok ⟨_, rfl, hcommit denom b hv hdebited, rfl, denom, b, rfl, hv, rfl, hdebited⟩

theorem loadRecord_bind {α : Type} {C : State X → Prop}
    {Q : α → Option (Tx database) → State X → Prop}
    {E : BankError → Option (Tx database) → State X → Prop}
    {f : Option WithdrawalRecord → BankM α} (hc : C sh) (hw : sh.db.WellFormed)
    (hnone : sh.db.withdrawStates.lookup r = none → Alone.Spec Calm i op C Q E (f none) none sh)
    (hsome : ∀ row record, sh.db.withdrawStates.lookup r = some row → IsRecord row record →
      Alone.Spec Calm i op C Q E (f (some record)) none sh) :
    Alone.Spec Calm i op C Q E (loadRecord r >>= f) none sh := by
  refine Alone.Spec.bind (R := fun found tx sh' => sh' = sh ∧ tx = none ∧
    ((found = none ∧ sh.db.withdrawStates.lookup r = none) ∨ ∃ row record, found = some record ∧
      sh.db.withdrawStates.lookup r = some row ∧ IsRecord row record)) hc ?_
    fun found tx sh' _ hr => ?_
  · unfold loadRecord
    refine Alone.Spec.read_bind_calm (fun _ db => db.withdrawStates.lookup r) (fun _ _ => rfl) hc
      fun _ => ?_
    cases hl : sh.db.withdrawStates.lookup r with
    | none => exact Alone.Spec.ok ⟨rfl, rfl, Or.inl ⟨rfl, rfl⟩⟩
    | some row =>
      refine Alone.Spec.orThrow_bind (fun e he => ?_) fun record hrec => ?_
      · exact absurd he ((hw.row r row hl).toRecord_ne e)
      · exact Alone.Spec.ok ⟨rfl, rfl, Or.inr ⟨row, record, rfl, rfl, isRecord_of_ok hrec⟩⟩
  · obtain ⟨rfl, rfl, ⟨rfl, hl⟩ | ⟨row, record, rfl, hl, hrec⟩⟩ := hr
    · exact hnone hl
    · exact hsome row record hl hrec

/-- Where the withdrawal of `req` can be stopped: before its debit, or after it. -/
def Interrupted (κ : Config X) (db₀ : Tables) (req : WithdrawRequest) (sh : State X) : Prop :=
  sh.db = db₀ ∨ ∃ D, Debited db₀ req D ∧ Recovering κ D sh

/-- The request was debited and recorded as `row`, and its withdrawal is settled. -/
def Finished (κ : Config X) (db₀ : Tables) (req : WithdrawRequest) (row : WithdrawRow)
    (sh : State X) : Prop :=
  row.state = .pending ∧ ∃ D, Debited db₀ req D ∧ Recovering κ D sh ∧
    Drove κ req.requestId row D sh.db

/-- **A fresh withdrawal that is not interrupted**: it finds no money and changes nothing, or
    its withdrawal is settled, and it answers accordingly. -/
theorem withdraw_alone (hw : sh.db.WellFormed) (hr : sh.db.Refundable κ)
    (hfresh : sh.db.withdrawStates.lookup req.requestId = none) {keypair : Keypair X}
    (hk : κ.keys.get req.denominationCents schemeIdRsaDeterministic = some keypair) :
    Alone.Spec Calm i op (Interrupted κ sh.db req)
      (fun response tx sh' => tx = none ∧ ∃ row, Finished κ sh.db req row sh' ∧
        κ.sign row = some (.ok response.blindSignature))
      (fun e tx sh' => tx = none ∧ ((sh' = sh ∧ ∀ D, ¬ Debited sh.db req D) ∨
        ∃ row c, Finished κ sh.db req row sh' ∧ κ.sign row = some (.error c) ∧
          e = .withdrawFailed req.requestId c.toText))
      (withdraw κ req) none sh := by
  have hc : Interrupted κ sh.db req sh := Or.inl rfl
  have hcommit : ∀ denom b, (debitOf req denom b).Valid κ sh.db →
      Debited sh.db req ((debitOf req denom b).apply sh.db) →
      Recovering κ ((debitOf req denom b).apply sh.db)
        (sh.commit i op (debitOf req denom b).tx) := by
    intro denom b hv hdebited
    have hdb : (sh.commit i op (debitOf req denom b).tx).db = (debitOf req denom b).apply sh.db :=
      Ledger.commit_db (L := ledger X) _ sh
    exact ⟨hdb ▸ Entry.wellFormed hw hv, hdb ▸ .refl κ _, hdb ▸ hdebited.refundable hfresh hr⟩
  unfold withdraw
  refine loadRecord_bind hc hw (fun _ => ?_)
    fun row record hl _ => absurd (hfresh.symm.trans hl) (by simp)
  simp only [hk]
  have hdebit : Alone.Spec Calm i op _ _ _ _ _ _ := debitAndRecordPending_alone (κ := κ) hc hfresh hw
    fun denom b hv hdebited => Or.inr ⟨_, hdebited, hcommit denom b hv hdebited⟩
  refine Alone.Spec.bind hc (hdebit.mono hc (fun _ _ _ _ h => h)
    fun _ _ _ _ h => ⟨h.1, Or.inl h.2⟩) fun _ tx sh₁ hc₁ h₁ => ?_
  obtain ⟨rfl, denom, b, hd, hv, rfl, hdebited⟩ := h₁
  have hrec := hcommit denom b hv hdebited
  have hdb : (sh.commit i op (debitOf req denom b).tx).db = (debitOf req denom b).apply sh.db :=
    Ledger.commit_db (L := ledger X) _ sh
  have hl : (sh.commit i op (debitOf req denom b).tx).db.withdrawStates.lookup req.requestId =
      some (pendingRow req denom) := by
    rw [hdb]
    exact Table.lookup_put_self _ _ _
  have hsign : κ.sign (pendingRow req denom) ≠ none := by
    rw [Config.sign, pendingRow, u64TryFrom_i64TryFrom hd, Option.bind_some, hk]
    exact Option.some_ne_none _
  have hspec : Alone.Spec Calm i op _ _ _ _ _ _ := finalizeWithdraw_alone hrec hl rfl hd
  rw [hdb] at hspec
  have hfinished : ∀ {sh' : State X}, Recovering κ ((debitOf req denom b).apply sh.db) sh' →
      Drove κ req.requestId (pendingRow req denom) ((debitOf req denom b).apply sh.db) sh'.db →
      Finished κ sh.db req (pendingRow req denom) sh' :=
    fun hrec' hdrove => ⟨rfl, _, hdebited, hrec', hdrove⟩
  have hend : Alone.Spec Calm i op (Recovering κ ((debitOf req denom b).apply sh.db))
      (fun signature tx sh' => tx = none ∧ ∃ row, Finished κ sh.db req row sh' ∧
        κ.sign row = some (.ok signature))
      (fun e tx sh' => tx = none ∧ ((sh' = sh ∧ ∀ D, ¬ Debited sh.db req D) ∨
        ∃ row c, Finished κ sh.db req row sh' ∧ κ.sign row = some (.error c) ∧
          e = .withdrawFailed req.requestId c.toText))
      (finalizeWithdraw κ req.requestId req.accountId req.denominationCents req.blindedMessage)
      none (sh.commit i op (debitOf req denom b).tx) := by
    refine hspec.mono hrec (fun signature tx sh' hc' h => ?_) fun e tx sh' hc' h => ?_
    · exact ⟨h.1, _, hfinished hc' h.2.1, h.2.2⟩
    · obtain ⟨htx, hdrove, hnone | ⟨c, herr, he⟩⟩ := h
      · exact absurd hnone hsign
      · exact ⟨htx, Or.inr ⟨_, c, hfinished hc' hdrove, herr, he⟩⟩
  refine Alone.Spec.bind hc₁ (Alone.weaken (fun sh' h => Or.inr ⟨_, hdebited, h⟩) hend)
    fun signature tx sh₂ _ h₂ => Alone.Spec.ok h₂

/-- How a call ends and what it leaves where it runs by itself and nothing goes wrong. -/
def runAlone (κ : Config X) (i : CallId) (op : Op) (o : Oracle) (sh : State X) :
    Option Ans × State X × Option (Tx database) :=
  (code κ op).interp (calmly (S := service X) i op o) (sh, none)

theorem runExt_isSome (i : CallId) (ext : Ext) (o : Oracle) (m : Memory) :
    (runExt i ext o m).isSome = true := by
  cases ext <;> rfl

theorem runAlone_of_alone {C : State X → Prop} {Q : Ans → Option (Tx database) → State X → Prop}
    (op : Op) (o : Oracle) (hc : C sh) (h : Alone (S := service X) Calm i op C Q (code κ op) none sh) :
    ∃ a sh' tx, runAlone κ i op o sh = (some a, sh', tx) ∧ C sh' ∧ Q a tx sh' :=
  Alone.calmly (S := service X) runExt_isSome o hc h

/-! ## A retry, alone -/

/-- A withdrawal that carries a signature answers with it. -/
theorem withdraw_alone_released {signature : Bytes} (hw : sh.db.WellFormed)
    (h : sh.db.Released req.requestId signature) :
    Alone.Spec Calm i op (fun _ => True) (fun response _ _ => response = ⟨signature⟩)
      (fun _ _ _ => False) (withdraw κ req) none sh := by
  obtain ⟨row, hl, hsigned⟩ := h
  unfold withdraw
  refine loadRecord_bind trivial hw (fun hnone => absurd (hnone.symm.trans hl) (by simp))
    fun row' record hl' hrec => ?_
  obtain rfl := Option.some.inj (hl.symm.trans hl')
  simp only [resumeWithdraw, hrec.state, hrec.blindSignature, hsigned.blindSignature]
  rcases hsigned.state with hs | hs
  · rw [hs]
    refine Alone.Spec.bind trivial (R := fun _ _ _ => True) ?_
      fun _ _ _ _ _ => Alone.Spec.ok rfl
    exact Alone.Spec.write_bind_calm (fun o => updateWithdrawal_some hl _) (by simp) trivial
      trivial (Alone.Spec.ok trivial)
  · rw [hs]
    exact Alone.Spec.ok rfl

/-- A withdrawal that was given back is refused. -/
theorem withdraw_alone_givenBack (hw : sh.db.WellFormed) (h : sh.db.GivenBack req.requestId) :
    Alone.Spec Calm i op (fun _ => True) (fun _ _ _ => False)
      (fun e _ _ => e = .withdrawPreviouslyFailed req.requestId) (withdraw κ req) none sh := by
  obtain ⟨row, hl, hstate⟩ := h
  unfold withdraw
  refine loadRecord_bind trivial hw (fun hnone => absurd (hnone.symm.trans hl) (by simp))
    fun row' record hl' hrec => ?_
  obtain rfl := Option.some.inj (hl.symm.trans hl')
  simp only [resumeWithdraw, hrec.state, hstate]
  exact Alone.Spec.throw rfl

/-! ## Runs with crashes -/

variable {s s' s₁ : Sys (service X)} {e : Event (service X)}

/-- Nothing goes wrong but by a crash. A crash finds the debit of `r` committed and leaves the
    keys, and nothing begins but startup. -/
def Crashes (r : String) (s : Sys (service X)) (e : Event (service X)) (_ : Sys (service X)) :
    Prop :=
  match e with
  | .start op => op = .connect
  | .step _ fault _ => fault = .none
  | .drop _ => False
  | .crash κ' => κ'.keys = s.conf.keys ∧ s.shared.db.withdrawStates.lookup r ≠ none

/-- What settles a withdrawal is the keys. -/
theorem Recovering.keys {κ' : Config X} (hk : κ'.keys = κ.keys) (h : Recovering κ D sh) :
    Recovering κ' D sh := by
  have hsign : κ'.sign = κ.sign := funext fun row => by
    unfold Config.sign
    rw [hk]
  have hsettled : settled κ' = settled κ := funext fun row => by
    unfold settled
    rw [hsign]
  have hrefunds : Tables.refunds κ' = Tables.refunds κ := by
    unfold Tables.refunds refund
    rw [hsign]
  refine ⟨h.wellFormed, ⟨fun r => ?_, fun a => ?_⟩, fun a b hb => ?_⟩
  · rw [hsettled]
    exact h.settles.rows r
  · rw [hrefunds]
    exact h.settles.accounts a
  · rw [hrefunds]
    exact h.refundable a b hb

theorem AtRest.keys {κ' : Config X} {db : Tables} (hk : κ'.keys = κ.keys) (h : AtRest κ db) :
    AtRest κ' db := by
  intro r row hl
  have hsign : κ'.sign row = κ.sign row := by
    unfold Config.sign
    rw [hk]
  have hrow := h r row hl
  unfold settled at hrow ⊢
  rwa [hsign]

/-- Once the withdrawal is recorded, its debit has been made. -/
theorem Interrupted.debited (hfresh : db₀.withdrawStates.lookup req.requestId = none)
    (h : Interrupted κ db₀ req sh) (hl : sh.db.withdrawStates.lookup req.requestId ≠ none) :
    ∃ D, Debited db₀ req D ∧ Recovering κ D sh :=
  h.resolve_left fun heq => hl (heq ▸ hfresh)

theorem Interrupted.mem (h : Interrupted κ db₀ req sh) (m : Memory) :
    Interrupted κ db₀ req { sh with mem := m } :=
  h.imp id fun ⟨D, hd, hr⟩ => ⟨D, hd, hr.1, hr.2, hr.3⟩

/-- What `connect` promises when it returns. -/
def Resumed (κ : Config X) (db₀ : Tables) (req : WithdrawRequest) (_ : CallId) (op : Op) (a : Ans)
    (_ : Option (Tx database)) (sh : State X) : Prop :=
  op = .connect → a = .connect (.ok ()) →
    ∃ D, Debited db₀ req D ∧ Recovering κ D sh ∧ AtRest κ sh.db

/-- At every point of the run the withdrawal is in order, and where the process is down its
    debit has been made. -/
structure Resuming (κ : Config X) (db₀ : Tables) (req : WithdrawRequest)
    (s : Sys (service X)) : Prop where
  tended : s.Tended Calm (Interrupted κ db₀ req) (Resumed κ db₀ req)
  down : s.shared.mem.phase = .down →
    s.Idle ∧ ∃ D, Debited db₀ req D ∧ Recovering κ D s.shared
  keys : s.conf.keys = κ.keys

theorem runExt_phase {ext : Ext} {o : Oracle} {m m' : Memory} {reply : ext.Res}
    (h : runExt i ext o m = some (reply, m')) (hdown : m'.phase = .down) : m.phase = .down := by
  cases ext with
  | serve =>
    cases h
    exact absurd hdown (by simp)
  | _ =>
    cases h
    exact hdown

/-- A command never takes the process down. -/
theorem execCmd_phase {free : Row → Bool} {fault : Fault} {o : Oracle} {sh' : State X}
    {tx tx' : Option (Tx database)} {c : Cmd database} {reply : c.Reply}
    (h : execCmd free i op fault o sh tx c = some (reply, sh', tx'))
    (hdown : sh'.mem.phase = .down) : sh.mem.phase = .down := by
  rcases execCmd_mem h with heq | ⟨ext, reply', -, hext⟩
  · rw [← heq]
    exact hdown
  · exact runExt_phase hext hdown

theorem Resuming.step (h : Resuming κ db₀ req s)
    (hfresh : db₀.withdrawStates.lookup req.requestId = none) (hs : s.step e = some s')
    (he : Crashes req.requestId s e s') : Resuming κ db₀ req s' := by
  refine ⟨h.tended.step hs (fun i fault o heq => ?_) (fun op heq => ?_) fun κ' heq => ?_, ?_, ?_⟩
  · subst heq
    exact he
  · -- Only startup begins, and it finds the debit made.
    subst heq
    obtain rfl : op = .connect := he
    obtain ⟨m, hm, rfl⟩ := Option.map_eq_some_iff.mp hs
    have hphase : s.shared.mem.phase = .down := by
      by_contra hne
      exact absurd hm (by simp [enter, hne])
    obtain ⟨hidle, D, hdebited, hrec⟩ := h.down hphase
    refine ⟨hidle, h.tended.now.mem m, ?_⟩
    have hrec' : Recovering s.conf D { s.shared with mem := m } :=
      Recovering.keys h.keys ⟨hrec.1, hrec.2, hrec.3⟩
    have hspec : Alone.Spec Calm s.next Op.connect _ _ _ _ _ _ := connect_alone hrec'
    refine Alone.weaken (C := Recovering s.conf D)
      (fun sh' hc => Or.inr ⟨D, hdebited, hc.keys h.keys.symm⟩) ?_
    refine Alone.Spec.answer hrec' hspec (fun _ tx sh' hc hrest _ _ => ?_)
      fun _ _ _ _ _ _ hans => absurd hans (by simp)
    exact ⟨D, hdebited, hc.keys h.keys.symm, hrest.keys h.keys.symm⟩
  · subst heq
    obtain rfl := Option.some.inj hs
    exact h.tended.now.mem _
  · intro hdown
    cases e with
    | start op =>
      obtain rfl : op = .connect := he
      obtain ⟨m, hm, rfl⟩ := Option.map_eq_some_iff.mp hs
      have hm' : m.phase = .starting := by
        simp only [enter] at hm
        split at hm
        · exact congrArg Memory.phase (Option.some.inj hm).symm
        · exact absurd hm (by simp)
      exact absurd (hm'.symm.trans hdown) (by simp)
    | drop i => exact he.elim
    | crash κ' =>
      obtain ⟨D, hdebited, hrec⟩ := h.tended.now.debited hfresh he.2
      obtain rfl := Option.some.inj hs
      exact ⟨fun _ => rfl, D, hdebited, hrec.1, hrec.2, hrec.3⟩
    | step i fault o =>
      -- Nothing runs while the process is down.
      have hlive : s.live i ≠ none ∧ s.shared.mem.phase = .down := by
        simp only [Sys.step] at hs
        split at hs
        · exact absurd hs (by simp)
        · rename_i hl
          obtain rfl := Option.some.inj hs
          exact ⟨by simp [hl], hdown⟩
        · rename_i hl
          obtain ⟨⟨reply, sh, tx'⟩, hx, rfl⟩ := Option.map_eq_some_iff.mp hs
          exact ⟨by simp [hl], execCmd_phase hx hdown⟩
      exact absurd ((h.down hlive.2).1 i) hlive.1
  · cases e with
    | start op =>
      obtain ⟨m, -, rfl⟩ := Option.map_eq_some_iff.mp hs
      exact h.keys
    | drop i => exact he.elim
    | crash κ' =>
      obtain rfl := Option.some.inj hs
      exact he.1.trans h.keys
    | step i fault o =>
      simp only [Sys.step] at hs
      split at hs
      · exact absurd hs (by simp)
      · obtain rfl := Option.some.inj hs
        exact h.keys
      · obtain ⟨r, -, rfl⟩ := Option.map_eq_some_iff.mp hs
        exact h.keys

theorem Resuming.steps (h : Resuming κ db₀ req s)
    (hfresh : db₀.withdrawStates.lookup req.requestId = none)
    (hs : Sys.StepsIn (Crashes req.requestId) s s') : Resuming κ db₀ req s' := by
  induction hs with
  | refl => exact h
  | tail _ hstep ih =>
    obtain ⟨e, he, hG⟩ := hstep
    exact ih.step hfresh he hG

/-! ## Recovery refines the uninterrupted withdrawal -/

/-- `db'` is `db` with everything in flight settled. -/
structure SettledFrom (κ : Config X) (db db' : Tables) : Prop where
  rows : ∀ r, db'.withdrawStates.lookup r = (db.withdrawStates.lookup r).map (settled κ)
  accounts : ∀ a, db'.accounts.lookup a = (db.accounts.lookup a).map (· + db.refunds κ a)

/-- How a retry answers after the answer of the call itself: the same signature, or that the
    withdrawal failed before. -/
inductive AnswersAgain (r : String) : Ans → Ans → Prop where
  | signature (response : WithdrawResponse) :
    AnswersAgain r (.withdraw (.ok response)) (.withdraw (.ok response))
  | failed (message : String) :
    AnswersAgain r (.withdraw (.error (.withdrawFailed r message)))
      (.withdraw (.error (.withdrawPreviouslyFailed r)))

theorem SettlesAs.symm {db db' : Tables} (h : SettlesAs κ db db') : SettlesAs κ db' db :=
  ⟨fun r => (h.rows r).symm, fun a => (h.accounts a).symm⟩

theorem AtRest.map_settled {db : Tables} (h : AtRest κ db) (r : String) :
    (db.withdrawStates.lookup r).map (settled κ) = db.withdrawStates.lookup r := by
  cases hl : db.withdrawStates.lookup r with
  | none => rfl
  | some row => rw [Option.map_some, h r row hl]

/-- What is at rest gets nothing back. -/
theorem AtRest.refunds {db : Tables} (h : AtRest κ db) (a : String) : db.refunds κ a = 0 := by
  refine Table.total_eq_zero fun r row hl => ?_
  have hs := h r row hl
  unfold refund
  split
  · rename_i hp herr
    simp only [settled, hp, herr] at hs
    exact absurd ((congrArg WithdrawRow.state hs).trans hp) (by simp)
  · rfl

theorem SettlesAs.settledFrom {db db' : Tables} (h : SettlesAs κ db db') (hrest : AtRest κ db') :
    SettledFrom κ db db' := by
  refine ⟨fun r => (hrest.map_settled r).symm.trans (h.rows r), fun a => ?_⟩
  have ha := h.accounts a
  rw [hrest.refunds a] at ha
  simpa using ha

theorem SettledFrom.same {db db' : Tables} (h : SettledFrom κ db db') (hrest : AtRest κ db) :
    (∀ r, db'.withdrawStates.lookup r = db.withdrawStates.lookup r) ∧
      ∀ a, db'.accounts.lookup a = db.accounts.lookup a := by
  refine ⟨fun r => (h.rows r).trans (hrest.map_settled r), fun a => ?_⟩
  have ha := h.accounts a
  rw [hrest.refunds a] at ha
  simpa using ha

/-- Where nothing else was in flight, nothing is once the withdrawal is settled. -/
theorem Finished.atRest {row : WithdrawRow} (h : Finished κ db₀ req row sh)
    (hrest : AtRest κ db₀) : AtRest κ sh.db := by
  obtain ⟨-, D, ⟨denom, b, -, -, -, rfl⟩, -, hrow, hothers⟩ := h
  intro r row' hl
  by_cases hr : r = req.requestId
  · subst hr
    obtain rfl := Option.some.inj (hrow.symm.trans hl)
    exact settled_settled κ row
  · refine hrest r row' ?_
    rw [← hl, hothers r hr]
    exact (Table.lookup_put_ne hr).symm

theorem Entry.released {db : Tables} {e : Entry} {signature : Bytes} (hv : e.Valid κ db)
    (h : db.Released r signature) : (e.apply db).Released r signature := by
  obtain ⟨row, hl, hs⟩ := h
  have hmove := e.rowMove hv r
  rw [hl] at hmove
  obtain ⟨row', hl', -, hs'⟩ := hmove.signed hs
  exact ⟨row', hl', hs'⟩

/-- How a retry of the withdrawal `row` answers, now and later. -/
theorem retry {κ₀ : Config X} {row : WithdrawRow} {outcome : Except CoreError Bytes}
    (h : Sys.Steps .any (start κ₀) s) (hp : row.state = .pending)
    (hs : κ.sign row = some outcome)
    (hl : s.shared.db.withdrawStates.lookup req.requestId = some (settled κ row))
    (hlater : Sys.Steps .any s s') (i : CallId) (o : Oracle) :
    ∃ sh tx, runAlone s'.conf i (.withdraw req) o s'.shared =
      (some (.withdraw (match outcome with
        | .ok signature => .ok ⟨signature⟩
        | .error _ => .error (.withdrawPreviouslyFailed req.requestId))), sh, tx) := by
  have hw := (good (h.trans hlater)).inv
  cases outcome with
  | ok signature =>
    have hreleased : s'.shared.db.Released req.requestId signature :=
      db_keeps (J := fun db => Tables.Released db req.requestId signature) h hlater
        (fun hv h => Entry.released hv h)
        ⟨_, hl, by simp only [settled, hp, hs]; exact ⟨Or.inr rfl, rfl⟩⟩
    obtain ⟨a, sh, tx, hrun, -, ha⟩ := runAlone_of_alone (κ := s'.conf) (i := i)
      (Q := fun a _ _ => a = .withdraw (.ok ⟨signature⟩)) (.withdraw req) o trivial
      (Alone.Spec.answer trivial (withdraw_alone_released hw hreleased)
        (fun _ _ _ _ heq => congrArg (fun x => Ans.withdraw (.ok x)) heq) fun _ _ _ _ h => h.elim)
    exact ⟨sh, tx, ha ▸ hrun⟩
  | error c =>
    have hback : s'.shared.db.GivenBack req.requestId :=
      db_keeps (J := fun db => Tables.GivenBack db req.requestId) h hlater
        (fun hv h => Entry.givenBack hv h) ⟨_, hl, by simp only [settled, hp, hs]⟩
    obtain ⟨a, sh, tx, hrun, -, ha⟩ := runAlone_of_alone (κ := s'.conf) (i := i)
      (Q := fun a _ _ => a = .withdraw (.error (.withdrawPreviouslyFailed req.requestId)))
      (.withdraw req) o trivial
      (Alone.Spec.answer trivial (withdraw_alone_givenBack hw hback) (fun _ _ _ _ h => h.elim)
        fun _ _ _ _ heq => congrArg (fun x => Ans.withdraw (.error x)) heq)
    exact ⟨sh, tx, ha ▸ hrun⟩

/-- **Crash recovery refines the uninterrupted withdrawal.** A withdrawal with a fresh request id
    begins while no other call is in flight; crashes stop it and the recoveries anywhere once its
    debit is committed. When `connect` returns `Ok`, the withdrawals and the balances are those
    the uninterrupted call would have left with everything else in flight settled too: exactly
    those it would have left, where nothing else could be settled. And ever after a retry is
    answered as the uninterrupted call would have been. -/
theorem recovery_refines {κ₀ : Config X} {s₀ : Sys (service X)} {keypair : Keypair X}
    {a : Answer (service X)} (h₀ : Sys.Steps .any (start κ₀) s₀) (hidle : s₀.Idle)
    (hkey : s₀.conf.keys.get req.denominationCents schemeIdRsaDeterministic = some keypair)
    (hfresh : s₀.shared.db.withdrawStates.lookup req.requestId = none)
    (hrange : s₀.shared.db.Refundable s₀.conf)
    (h₁ : s₀.step (.start (.withdraw req)) = some s₁)
    (hrun : Sys.StepsIn (Crashes req.requestId) s₁ s) (hs : s.step e = some s')
    (ha : a ∈ s'.answers) (hnew : a ∉ s.answers) (hop : a.op = .connect) (hok : a.ans = .connect (.ok ())) (o : Oracle) :
    ∃ answer u tx,
      runAlone s₀.conf s₀.next (.withdraw req) o s₀.shared = (some answer, u, tx) ∧
      SettledFrom s₀.conf u.db s'.shared.db ∧
      (AtRest s₀.conf s₀.shared.db →
        (∀ r, s'.shared.db.withdrawStates.lookup r = u.db.withdrawStates.lookup r) ∧
        ∀ a, s'.shared.db.accounts.lookup a = u.db.accounts.lookup a) ∧
      ∀ s'', Sys.Steps .any s' s'' → ∀ i o, ∃ again sh tx,
        runAlone s''.conf i (.withdraw req) o s''.shared = (some again, sh, tx) ∧
        AnswersAgain req.requestId answer again := by
  have hw := (good h₀).inv
  have hc : ∀ m : Memory, Interrupted s₀.conf s₀.shared.db req ⟨s₀.shared.db, m, s₀.shared.hist⟩ :=
    fun m => Or.inl rfl
  -- The run, up to the answer of `connect`.
  have hbegun : Resuming s₀.conf s₀.shared.db req s₁ := by
    obtain ⟨m, hm, rfl⟩ := Option.map_eq_some_iff.mp h₁
    have hphase : m.phase = .up := by
      simp only [enter] at hm
      split at hm
      · rename_i hup
        exact (congrArg Memory.phase (Option.some.inj hm)).symm.trans hup
      · exact absurd hm (by simp)
    refine ⟨(Sys.Idle.tended hidle (hc _)).step h₁ (fun _ _ _ h => (by cases h)) (fun op h => ?_)
      fun _ h => (by cases h), fun hdown => absurd (hphase.symm.trans hdown) (by simp), rfl⟩
    cases h
    refine ⟨hidle, hc m, ?_⟩
    have hspec : Alone.Spec Calm s₀.next (Op.withdraw req) _ _ _ _ _
        (⟨s₀.shared.db, m, s₀.shared.hist⟩ : State X) := withdraw_alone hw hrange hfresh hkey
    exact Alone.Spec.answer (hc m) hspec (fun _ _ _ _ _ h => absurd h (by simp))
      fun _ _ _ _ _ h => absurd h (by simp)
  have hresuming := hbegun.steps hfresh hrun
  obtain ⟨hsh, -, tx, hpost⟩ := hresuming.tended.answer hs ha hnew
  obtain ⟨D, hdebited, hrec, hrest⟩ := hpost hop hok
  rw [← hsh] at hrec hrest
  -- The uninterrupted call.
  obtain ⟨answer, u, tx', halone, -, row, outcome, hfinished, hsign, hanswer⟩ :=
    runAlone_of_alone (κ := s₀.conf) (i := s₀.next)
      (Q := fun answer _ u => ∃ row outcome, Finished s₀.conf s₀.shared.db req row u ∧
        s₀.conf.sign row = some outcome ∧ answer = .withdraw ((outcome.map WithdrawResponse.mk).mapError
          fun c => .withdrawFailed req.requestId c.toText)) (.withdraw req) o
      (hc s₀.shared.mem)
      (Alone.Spec.answer (hc _) (withdraw_alone hw hrange hfresh hkey)
        (fun response _ _ _ h => by
          obtain ⟨-, row, hf, hs⟩ := h
          exact ⟨row, _, hf, hs, rfl⟩)
        fun _ _ _ _ h => by
          obtain ⟨-, ⟨-, hnot⟩ | ⟨row, c, hf, hs, rfl⟩⟩ := h
          · exact absurd hdebited (hnot D)
          · exact ⟨row, _, hf, hs, rfl⟩)
  obtain ⟨hpending, D', hdebited', hrec', hdrove⟩ := id hfinished
  obtain rfl := hdebited.unique hdebited'
  have hsettled := (hrec'.settles.symm.trans hrec.settles).settledFrom hrest
  refine ⟨answer, u, tx', halone, hsettled, fun h => hsettled.same (hfinished.atRest h),
    fun s'' hlater i o => ?_⟩
  have hl : s'.shared.db.withdrawStates.lookup req.requestId = some (settled s₀.conf row) := by
    rw [hsettled.rows, hdrove.row, Option.map_some, settled_settled]
  have hsteps : Sys.Steps .any (start κ₀) s' :=
    ((h₀.tail ⟨_, h₁, Policy.any_allows _ _ _⟩).trans (Sys.steps_of_stepsIn hrun)).tail
      ⟨_, hs, Policy.any_allows _ _ _⟩
  obtain ⟨sh, tx'', hagain⟩ := retry hsteps hpending hsign hl hlater i o
  refine ⟨_, sh, tx'', hagain, ?_⟩
  rw [hanswer]
  cases outcome with
  | ok signature => exact .signature _
  | error c => exact .failed _

/-! ## Two interrupted runs -/

/-- An event of `Crashes` that is no crash. -/
def undisturbed : Event (service X) → Bool
  | .start op => op = .connect
  | .step _ fault _ => fault = .none
  | .drop _ | .crash _ => false

theorem crashes_of_run : ∀ {es : List (Event (service X))} {s s' : Sys (service X)},
    es.all undisturbed = true → s.run es = some s' → Sys.StepsIn (Crashes r) s s'
  | [], s, s', _, h => by
    obtain rfl : s = s' := Option.some.inj h
    exact .refl
  | e :: es, s, s', hall, h => by
    rw [List.all_cons, Bool.and_eq_true] at hall
    rw [Sys.run, Option.bind_eq_some_iff] at h
    obtain ⟨s₁, h₁, h₂⟩ := h
    have he : Crashes r s e s₁ := by
      cases e with
      | start op => exact (of_decide_eq_true hall.1 : op = .connect)
      | step i fault o => exact (of_decide_eq_true hall.1 : fault = .none)
      | drop i => exact absurd hall.1 (by simp [undisturbed])
      | crash κ => exact absurd hall.1 (by simp [undisturbed])
    exact .head ⟨e, h₁, he⟩ (crashes_of_run hall.2 h₂)

/-- The withdrawal of `req` up to the commit of its debit, a crash, and a recovery of `n` steps. -/
def interrupt (s₀ : Sys (service .toy)) (req : WithdrawRequest) (n : Nat) :
    Option (Sys (service .toy)) :=
  ((s₀.step (call (.withdraw req))).bind fun s₁ => s₁.run (go s₀.next 6)).bind fun s₂ =>
    ((s₂.step (.crash s₂.conf)).filter fun _ =>
      (s₂.shared.db.withdrawStates.lookup req.requestId).isSome).bind fun s₃ =>
        s₃.run (call .connect :: go (s₀.next + 1) n)

theorem interrupt_steps {s₀ s : Sys (service .toy)} {req : WithdrawRequest} {n : Nat}
    (h : interrupt s₀ req n = some s) : ∃ s₁, s₀.step (.start (.withdraw req)) = some s₁ ∧
      Sys.StepsIn (Crashes req.requestId) s₁ s := by
  obtain ⟨s₂, hdebit, h⟩ := Option.bind_eq_some_iff.mp h
  obtain ⟨s₁, h₁, hgo⟩ := Option.bind_eq_some_iff.mp hdebit
  obtain ⟨s₃, hcrash, hconnect⟩ := Option.bind_eq_some_iff.mp h
  obtain ⟨hcrash, hrow⟩ := Option.filter_eq_some_iff.mp hcrash
  have hundisturbed : ∀ i m, (go (X := .toy) i m).all undisturbed = true := fun i m =>
    List.all_eq_true.mpr fun e he => by
      obtain ⟨-, rfl⟩ := List.mem_replicate.mp he
      rfl
  refine ⟨s₁, h₁, (crashes_of_run (hundisturbed _ _) hgo).trans (.head ⟨_, hcrash, rfl, ?_⟩
    (crashes_of_run ?_ hconnect))⟩
  · exact Option.isSome_iff_ne_none.mp hrow
  · rw [List.all_cons, hundisturbed]
    rfl

/-- `connect` returns `Ok` to call `i`. -/
abbrev Connects (s s' : Sys (service X)) (i : CallId) : Prop :=
  (∃ a ∈ s'.answers, a.call = i ∧ a.op = .connect ∧ a.ans = .connect (.ok ())) ∧
    ∀ a ∈ s.answers, a.call ≠ i

/-- A withdrawal that is interrupted after its debit. -/
theorem recovery_refines_interrupted : ∃ s₀ s' : Sys (service .toy), ∃ answer u tx,
    runAlone s₀.conf s₀.next (.withdraw ⟨"alice", "r", 100, [7]⟩) {} s₀.shared =
        (some answer, u, tx) ∧
      SettledFrom s₀.conf u.db s'.shared.db := by
  obtain ⟨s₀, h₀, hp⟩ := Sys.exists_of_run (s := start Config.toy) (l := opened)
    (p := fun s₀ => decide (∀ i < s₀.next, (s₀.live i).isNone = true) &&
      decide (s₀.shared.db.withdrawStates.lookup "r" = none) &&
      decide (s₀.shared.db.Refundable s₀.conf) && (s₀.conf.keys.get 100 0).isSome &&
      (interrupt s₀ ⟨"alice", "r", 100, [7]⟩ 6).any fun s =>
        (s.step (.step 3 .none {})).any fun s' => decide (Connects s s' 3)) (by decide)
  simp only [Bool.and_eq_true, decide_eq_true_eq] at hp
  obtain ⟨⟨⟨⟨hnone, hfresh⟩, hrange⟩, hkey⟩, hrun⟩ := hp
  obtain ⟨keypair, hkey⟩ := Option.isSome_iff_exists.mp hkey
  obtain ⟨s, hs, hrun⟩ := (Option.any_eq_true _ _).mp hrun
  obtain ⟨s', hs', hrun⟩ := (Option.any_eq_true _ _).mp hrun
  obtain ⟨⟨a, ha, hcall, hop, hok⟩, hnew⟩ := of_decide_eq_true hrun
  obtain ⟨s₁, h₁, hsteps⟩ := interrupt_steps hs
  obtain ⟨answer, u, tx, halone, hsettled, -⟩ := recovery_refines h₀
    ((Sys.calls_init.steps h₀).idle hnone) hkey hfresh hrange h₁ hsteps hs' ha
    (fun hold => hnew a hold hcall) hop hok {}
  exact ⟨s₀, s', answer, u, tx, halone, hsettled⟩

/-- A withdrawal whose signature could not be stored stays in flight. The next call is
    number 3. -/
def unstored : List (Event (service .toy)) :=
  opened ++ call (.withdraw ⟨"alice", "r0", 100, [7]⟩) :: go 2 6 ++
    [.step 2 .before {}, .step 2 .none {}]

/-- **Recovery settles other withdrawals too.** With `r0` in flight before, the tables after the
    recovery are not those of the uninterrupted call, which leaves `r0` where it is. -/
theorem other_withdrawal_settled : ∃ s₀ s₁ s s' : Sys (service .toy), ∃ keypair answer u tx,
    Sys.Steps .any (start Config.toy) s₀ ∧ s₀.Idle ∧ s₀.conf.keys.get 100 0 = some keypair ∧
      s₀.shared.db.withdrawStates.lookup "r1" = none ∧ s₀.shared.db.Refundable s₀.conf ∧
      s₀.step (.start (.withdraw ⟨"alice", "r1", 100, [8]⟩)) = some s₁ ∧
      Sys.StepsIn (Crashes "r1") s₁ s ∧ s.step (.step 4 .none {}) = some s' ∧ Connects s s' 4 ∧
      runAlone s₀.conf s₀.next (.withdraw ⟨"alice", "r1", 100, [8]⟩) {} s₀.shared =
        (some answer, u, tx) ∧
      u.db.withdrawStates.lookup "r0" ≠ s'.shared.db.withdrawStates.lookup "r0" := by
  obtain ⟨s₀, h₀, hp⟩ := Sys.exists_of_run (s := start Config.toy) (l := unstored)
    (p := fun s₀ => decide (∀ i < s₀.next, (s₀.live i).isNone = true) &&
      decide (s₀.shared.db.withdrawStates.lookup "r1" = none) &&
      decide (s₀.shared.db.Refundable s₀.conf) && (s₀.conf.keys.get 100 0).isSome &&
      (interrupt s₀ ⟨"alice", "r1", 100, [8]⟩ 8).any fun s =>
        (s.step (.step 4 .none {})).any fun s' => decide (Connects s s' 4) &&
          let alone := runAlone s₀.conf s₀.next (.withdraw ⟨"alice", "r1", 100, [8]⟩) {} s₀.shared
          alone.1.isSome && decide (alone.2.1.db.withdrawStates.lookup "r0" ≠
            s'.shared.db.withdrawStates.lookup "r0")) (by decide)
  simp only [Bool.and_eq_true, decide_eq_true_eq] at hp
  obtain ⟨⟨⟨⟨hnone, hfresh⟩, hrange⟩, hkey⟩, hrun⟩ := hp
  obtain ⟨keypair, hkey⟩ := Option.isSome_iff_exists.mp hkey
  obtain ⟨s, hs, hrun⟩ := (Option.any_eq_true _ _).mp hrun
  obtain ⟨s', hs', hrun⟩ := (Option.any_eq_true _ _).mp hrun
  simp only [Bool.and_eq_true, decide_eq_true_eq] at hrun
  obtain ⟨hconnects, hanswer, hdiffers⟩ := hrun
  obtain ⟨answer, hanswer⟩ := Option.isSome_iff_exists.mp hanswer
  obtain ⟨s₁, h₁, hsteps⟩ := interrupt_steps hs
  exact ⟨s₀, s₁, s, s', keypair, answer, _, _, h₀, (Sys.calls_init.steps h₀).idle hnone, hkey,
    hfresh, hrange, h₁, hsteps, hs', hconnects, Prod.ext hanswer rfl, hdiffers⟩

end Digicash.Bank
