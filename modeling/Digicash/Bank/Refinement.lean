import Digicash.Bank.Ledger
import Digicash.NonceKeeping

/-!
# The bank refines its ledger

Each function of the code gets one lemma that says what it relies on and what it leaves,
and `sound` puts them together: every transaction any call commits, in any interleaving, is
an entry that is valid where it is committed.
-/

namespace Digicash.Bank

open Lib Lib.Protocol

variable {X : Crypto} {κ : Config X} {i : CallId} {op : Op} {r : String} {sh sh' : State X}

/-! ## What the others may do -/

theorem move_rowMove (h : (protocol X).Move κ sh sh') (r : String) :
    RowMove κ (sh.db.withdrawStates.lookup r) (sh'.db.withdrawStates.lookup r) := by
  rcases Ledger.move_cases h with ⟨e, hv, hdb⟩ | hdb
  · rw [hdb]
    exact Entry.rowMove hv r
  · rw [hdb]
    exact .stay _

theorem move_wellFormed (hw : sh.db.WellFormed) (h : (protocol X).Move κ sh sh') :
    sh'.db.WellFormed :=
  Ledger.move_keeps h (fun hv hw => Entry.wellFormed hw hv) hw

/-- A finalizer's knowledge of the withdrawal `r`, which it first met as `row`. -/
def Owned (κ : Config X) (r : String) (row : WithdrawRow) (sh : State X) : Prop :=
  ∃ row', sh.db.withdrawStates.lookup r = some row' ∧ row.SameRequest row' ∧ Finalizing κ row'

theorem Owned.move {row : WithdrawRow} (h : Owned κ r row sh)
    (hm : (protocol X).Move κ sh sh') : Owned κ r row sh' := by
  obtain ⟨row', hr, hreq, hf⟩ := h
  have hmove := move_rowMove hm r
  rw [hr] at hmove
  obtain ⟨row'', hr', hreq', hf'⟩ := hmove.finalizing hf
  exact ⟨row'', hr', hreq.trans hreq', hf'⟩

theorem Owned.reaches {row : WithdrawRow} (h : Owned κ r row sh)
    (hm : (protocol X).Reaches κ sh sh') : Owned κ r row sh' :=
  hm.keeps (fun h hm => h.move hm) h

theorem released_move {signature : Bytes} (h : sh.db.Released r signature)
    (hm : (protocol X).Move κ sh sh') : sh'.db.Released r signature := by
  obtain ⟨row, hr, hs⟩ := h
  have hmove := move_rowMove hm r
  rw [hr] at hmove
  obtain ⟨row', hr', -, hs'⟩ := hmove.signed hs
  exact ⟨row', hr', hs'⟩

theorem released_reaches {signature : Bytes} (h : sh.db.Released r signature)
    (hm : (protocol X).Reaches κ sh sh') : sh'.db.Released r signature :=
  hm.keeps (fun h hm => released_move h hm) h

/-! ## Withdrawals -/

/-- The call failed with nothing left open, and not because a record was corrupt. -/
def NotMalformed (e : BankError) (tx : Option (Tx database)) (_ : State X) : Prop :=
  tx = none ∧ ∀ r m, e ≠ .malformedRecord r m

theorem notMalformed_sql (e : SqlError) : NotMalformed (fromSql e) none sh :=
  ⟨rfl, fun r m => by simp [fromSql]⟩

/-- The calls that finalize the withdrawal `r`: a `withdraw` that carries it, and startup. -/
def Finalizes (op : Op) (r : String) : Prop :=
  op = .connect ∨ ∃ req : WithdrawRequest, op = .withdraw req ∧ r = req.requestId

theorem Finalizes.from_sign (h : Finalizes op r) (mem : Memory) (row : WithdrawRow)
    (signature : Bytes) : (Entry.sign r row signature).From κ mem i op := by
  rcases h with rfl | ⟨req, rfl, rfl⟩
  · exact trivial
  · exact rfl

theorem Finalizes.from_complete (h : Finalizes op r) (mem : Memory) (row : WithdrawRow) :
    (Entry.complete r row).From κ mem i op := by
  rcases h with rfl | ⟨req, rfl, rfl⟩
  · exact trivial
  · exact rfl

theorem Finalizes.from_compensate (h : Finalizes op r) (mem : Memory) (row : WithdrawRow)
    (b : Int) : (Entry.compensate r row b).From κ mem i op := by
  rcases h with rfl | ⟨req, rfl, rfl⟩
  · exact trivial
  · exact rfl

/-- Updating a row that is there. -/
theorem updateWithdrawal_some {db : Tables} {row : WithdrawRow}
    (h : db.withdrawStates.lookup r = some row) (f : WithdrawRow → WithdrawRow) :
    updateWithdrawal db r f = .write [] 1 [⟨.withdrawal r, some (f row)⟩] := by
  rw [updateWithdrawal, h]

/-- A balance update that succeeds: either there is no such account, or the new balance is
    in range and written. -/
theorem addBalance_ok {t : Tables} {a : String} {delta : Int} {n : Nat}
    {ws : List (Write Cell)} (h : (addBalance t a delta).result = .ok (n, ws)) :
    (t.accounts.lookup a = none ∧ addBalance t a delta = .read 0) ∨
      ∃ b, t.accounts.lookup a = some b ∧ 0 ≤ b + delta ∧ b + delta ≤ i64Max ∧
        addBalance t a delta = .write [] 1 [⟨.account a, some (b + delta)⟩] := by
  unfold addBalance at h ⊢
  cases hb : t.accounts.lookup a with
  | none => exact Or.inl ⟨rfl, rfl⟩
  | some b =>
    simp only [hb] at h ⊢
    split at h
    · exact absurd h (by simp [Effect.fail])
    · split at h
      · exact absurd h (by simp [Effect.fail])
      · rename_i hover hneg
        refine Or.inr ⟨b, rfl, by omega, by omega, ?_⟩
        rw [if_neg hover, if_neg hneg]

theorem addBalance_of_some {db : Tables} {a : String} {b delta : Int}
    (h : db.accounts.lookup a = some b) (hmin : 0 ≤ b + delta) (hmax : b + delta ≤ i64Max) :
    addBalance db a delta = .write [] (1 : Nat) [⟨.account a, some (b + delta)⟩] := by
  have hlow : ¬ (b + delta < i64Min ∨ i64Max < b + delta) := by
    have : i64Min < 0 := by decide
    omega
  simp only [addBalance, h]
  rw [if_neg hlow, if_neg (by omega)]

theorem addBalance_overflow {db : Tables} {a : String} {b delta : Int}
    (h : db.accounts.lookup a = some b) (hover : i64Max < b + delta) :
    addBalance db a delta = .fail [.account a] .numericOverflow := by
  simp only [addBalance, h]
  rw [if_pos (Or.inr hover)]

/-- An insert into `withdraw_states` that succeeds met no row of that request. -/
theorem insertPending_ok {db : Tables} {a : String} {denom : Int} {m : Bytes} {o : Oracle}
    {n : Nat} {ws : List (Write Cell)}
    (h : (exec (.insertPending r a denom m) o db).result = .ok (n, ws)) :
    db.withdrawStates.lookup r = none ∧ exec (.insertPending r a denom m) o db =
      .write [] (1 : Nat) [⟨.withdrawal r, some ⟨.pending, a, denom, m, none⟩⟩] := by
  cases hl : db.withdrawStates.lookup r with
  | some row => exact absurd h (by simp [exec, hl, Effect.fail])
  | none => exact ⟨rfl, by simp only [exec, hl]⟩

theorem insertPending_of_none {db : Tables} {a : String} {denom : Int} {m : Bytes} {o : Oracle}
    (h : db.withdrawStates.lookup r = none) : exec (.insertPending r a denom m) o db =
      .write [] (1 : Nat) [⟨.withdrawal r, some ⟨.pending, a, denom, m, none⟩⟩] := by
  simp only [exec, h]

theorem insertSpent_of_none {db : Tables} {coin : CoinKey} {r : String} {o : Oracle}
    (h : db.spentSerials.lookup coin = none) :
    exec (.insertSpent coin r) o db = .write [] (1 : Nat) [⟨.spent coin, some r⟩] := by
  simp only [exec, h]

theorem insertDeposit_of_none {db : Tables} {coin : CoinKey} {r a : String} {o : Oracle}
    (h : db.deposits.lookup r = none) :
    exec (.insertDeposit r coin a) o db = .write [] (1 : Nat) [⟨.deposit r, some ⟨coin, a⟩⟩] := by
  simp only [exec, h]

theorem setState_completed_spec {signature : Bytes} (hop : Finalizes op r)
    (h : sh.db.Released r signature) :
    (protocol X).Spec κ i op (fun _ tx sh => tx = none ∧ sh.db.Released r signature)
      NotMalformed (setState r .completed) none sh := by
  unfold setState
  refine Spec.query_bind_none (fun e _ _ => notMalformed_sql e) ?_ ?_
  · intro sh₁ o n he _
    exact Spec.ok fun sh₂ h₂ => ⟨rfl, released_reaches (released_reaches h he.reaches) h₂.reaches⟩
  · intro sh₁ o n ws hws he hex
    obtain ⟨row, hr, hs⟩ := released_reaches h he.reaches
    have hx : exec (.setState r .completed) o sh₁.db = .write [] (1 : Nat)
        [⟨.withdrawal r, some { row with state := .completed }⟩] := updateWithdrawal_some hr _
    simp only [hx, Effect.write, Except.ok.injEq, Prod.mk.injEq] at hex ⊢
    obtain ⟨rfl, rfl⟩ := hex
    have hlegal : (protocol X).Legal κ sh₁ ⟨i, op, (Entry.complete r row).tx, sh₁.db⟩ :=
      ⟨.complete r row, rfl, ⟨hr, signature, hs⟩, hop.from_complete _ _⟩
    refine ⟨hlegal, fun hi => Spec.ok fun sh₂ h₂ => ⟨rfl, released_reaches ?_ h₂.reaches⟩⟩
    exact released_move ⟨row, hr, hs⟩ (.commit _ rfl hlegal)

theorem compensate_spec {row : WithdrawRow} {denom : UInt64} {e : CoreError}
    (hop : Finalizes op r) (hd : i64TryFrom denom = some row.denominationCents)
    (hs : κ.sign row = some (.error e)) (h : Owned κ r row sh) :
    (protocol X).Spec κ i op (fun _ tx _ => tx = none) NotMalformed
      (compensate r row.accountId denom) none sh := by
  unfold compensate
  refine Spec.orThrow_bind (fun e sh' he _ => ?_) (fun n hn => ?_)
  · rw [toI64, hd] at he
    exact absurd he (by simp)
  obtain rfl : row.denominationCents = n := by
    rw [toI64, hd] at hn
    exact Except.ok.inj hn
  refine Spec.transaction (fun _ _ _ h _ => h) (fun e _ _ => notMalformed_sql e) ?_
  intro sh₁ h₁
  refine Spec.query_bind_tx (fun e _ _ => notMalformed_sql e) ?_
  intro sh₂ o n ws h₂ hex
  obtain ⟨row₂, hr₂, hreq₂, -⟩ := (h.reaches h₁.reaches).reaches h₂.reaches
  obtain ⟨b, hb⟩ := (h₂.inv.row r row₂ hr₂).account
  rw [hreq₂.accountId] at hb
  have hx := addBalance_ok (t := sh₂.db) hex
  rcases hx with ⟨hnone, -⟩ | ⟨b', hb', -, hmax, hx⟩
  · exact absurd (hb.symm.trans hnone) (by simp)
  have hx' : exec (.credit row.denominationCents row.accountId) o
      (Tx.view (D := database) .empty sh₂.db) = _ := hx
  simp only [hx', Effect.write, Except.ok.injEq, Prod.mk.injEq] at hex ⊢
  obtain ⟨rfl, rfl⟩ := hex
  refine Spec.query_bind_tx (fun e _ _ => notMalformed_sql e) ?_
  intro sh₃ o n ws h₃ hex
  obtain ⟨row₃, hr₃, hreq₃, hf₃⟩ :=
    ((h.reaches h₁.reaches).reaches h₂.reaches).reaches h₃.reaches
  have hx₃ : exec (.setState r .compensated) o
      (Tx.view (D := database) (Tx.push .empty (.credit row.denominationCents row.accountId)
        (1 : Nat) [] [⟨.account row.accountId, some (b' + row.denominationCents)⟩]) sh₃.db) =
      .write [] (1 : Nat) [⟨.withdrawal r, some { row₃ with state := .compensated }⟩] :=
    updateWithdrawal_some hr₃ _
  simp only [hx₃, Effect.write, Except.ok.injEq, Prod.mk.injEq] at hex ⊢
  obtain ⟨rfl, rfl⟩ := hex
  refine Spec.ok fun sh₄ h₄ => ⟨_, rfl, ?_, fun _ _ => rfl⟩
  -- Both rows are locked by now, so they are still what the statements met.
  have hb₄ : sh₄.db.accounts.lookup row.accountId = some b' :=
    (h₄.frame (.account row.accountId) (by simp [Tx.locks, Tx.push])).trans
      ((h₃.frame (.account row.accountId) (by simp [Tx.locks, Tx.push])).trans hb')
  have hr₄ : sh₄.db.withdrawStates.lookup r = some row₃ :=
    (h₄.frame (.withdrawal r) (by simp [Tx.locks, Tx.push])).trans hr₃
  refine ⟨.compensate r row₃ b', ?_, ⟨hr₄, ⟨e, by rw [hreq₃.sign_eq, hs]⟩, hf₃, ?_, ?_⟩,
    hop.from_compensate _ _ _⟩
  · show _ = (Entry.compensate r row₃ b').tx
    rw [Entry.tx, hreq₃.accountId, hreq₃.denominationCents]
  · rw [hreq₃.accountId]
    exact hb₄
  · rw [hreq₃.denominationCents]
    exact hmax

theorem finalizeWithdraw_spec (row : WithdrawRow) {denom : UInt64} (hi : sh.db.WellFormed)
    (hop : Finalizes op r) (hd : i64TryFrom denom = some row.denominationCents)
    (h : Owned κ r row sh) :
    (protocol X).Spec κ i op (fun signature tx sh => tx = none ∧ sh.db.Released r signature)
      NotMalformed (finalizeWithdraw κ r row.accountId denom row.blindedMessage) none sh := by
  unfold finalizeWithdraw
  cases hk : κ.keys.get denom schemeIdRsaDeterministic with
  | none => exact Spec.throw fun _ _ => ⟨rfl, fun r m => by simp⟩
  | some keypair =>
    have hsign : κ.sign row = some (signBlinded keypair.sk row.blindedMessage) := by
      rw [Config.sign, u64TryFrom_i64TryFrom hd, Option.bind_some, hk]
      rfl
    cases hb : signBlinded keypair.sk row.blindedMessage with
    | error e =>
      rw [hb] at hsign
      simp only [hb]
      refine Spec.bind hi (compensate_spec hop hd hsign h) fun _ tx sh₁ _ htx => ?_
      exact Spec.throw fun _ _ => ⟨htx, fun r m => by simp⟩
    | ok signature =>
      rw [hb] at hsign
      simp only [hb]
      refine Spec.query_bind_none (fun e _ _ => notMalformed_sql e) ?_ ?_
      · intro sh₁ o n h₁ hex
        obtain ⟨row₁, hr₁, -, -⟩ := h.reaches h₁.reaches
        have hx : exec (.setSigned r signature) o sh₁.db = _ := updateWithdrawal_some hr₁ _
        simp only [hx, Effect.write, Except.ok.injEq, Prod.mk.injEq] at hex
        exact absurd hex.2 (by simp)
      · intro sh₁ o n ws _ h₁ hex
        obtain ⟨row₁, hr₁, hreq₁, hf₁⟩ := h.reaches h₁.reaches
        have hx : exec (.setSigned r signature) o sh₁.db = .write [] (1 : Nat)
            [⟨.withdrawal r, some
              { row₁ with state := .signed, blindSignature := some signature }⟩] :=
          updateWithdrawal_some hr₁ _
        simp only [hx, Effect.write, Except.ok.injEq, Prod.mk.injEq] at hex ⊢
        obtain ⟨rfl, rfl⟩ := hex
        have hlegal : (protocol X).Legal κ sh₁
            ⟨i, op, (Entry.sign r row₁ signature).tx, sh₁.db⟩ :=
          ⟨.sign r row₁ signature, rfl, ⟨hr₁, by rw [hreq₁.sign_eq, hsign], hf₁⟩,
            hop.from_sign _ _ _⟩
        refine ⟨hlegal, fun hi₂ => ?_⟩
        have hrel : (sh₁.commit i op (Entry.sign r row₁ signature).tx).db.Released r signature := by
          rw [Ledger.commit_db (L := ledger X) (.sign r row₁ signature)]
          exact ⟨_, Table.lookup_put_self _ _ _, Or.inl rfl, rfl⟩
        refine Spec.bind hi₂ (setState_completed_spec hop hrel) fun _ tx sh₂ _ h₂ => ?_
        obtain ⟨rfl, hrel₂⟩ := h₂
        exact Spec.ok fun sh₃ h₃ => ⟨rfl, released_reaches hrel₂ h₃.reaches⟩

/-- What a reader of the withdrawal `r` who found `row` knows from then on. -/
structure Seen (κ : Config X) (r : String) (row : WithdrawRow) (sh : State X) : Prop where
  range : 0 ≤ row.denominationCents ∧ row.denominationCents ≤ i64Max
  pending : row.state = .pending → Owned κ r row sh
  signed : row.state = .signed ∨ row.state = .completed →
    ∃ signature, row.blindSignature = some signature ∧ sh.db.Released r signature

theorem Seen.of_lookup {row : WithdrawRow} (hi : sh.db.WellFormed)
    (h : sh.db.withdrawStates.lookup r = some row) : Seen κ r row sh := by
  have hw := hi.row r row h
  refine ⟨⟨hw.denom_nonneg, hw.denom_le⟩, fun hp => ⟨row, h, .refl row, Or.inl hp⟩, fun hs => ?_⟩
  rcases hw.signature with ⟨signature, hsig⟩ | ⟨hstate, -⟩
  · exact ⟨signature, hsig.blindSignature, row, h, hsig⟩
  · rcases hstate with h1 | h1 <;> rcases hs with h2 | h2 <;> rw [h1] at h2 <;>
      exact absurd h2 (by decide)

theorem Seen.reaches {row : WithdrawRow} (h : Seen κ r row sh)
    (hm : (protocol X).Reaches κ sh sh') : Seen κ r row sh' := by
  refine ⟨h.range, fun hp => (h.pending hp).reaches hm, fun hs => ?_⟩
  obtain ⟨signature, hsig, hrel⟩ := h.signed hs
  exact ⟨signature, hsig, released_reaches hrel hm⟩

theorem toU64_eq_ok {n : Int} {what : String} {value : UInt64} (hn : n ≤ i64Max)
    (h : toU64 n what = .ok value) : i64TryFrom value = some n := by
  unfold toU64 at h
  cases hv : u64TryFrom n with
  | none =>
    rw [hv] at h
    exact absurd h (by simp)
  | some v =>
    rw [hv] at h
    obtain rfl := Except.ok.inj h
    exact u64TryFrom_eq_some hn hv

theorem toU64_ne_malformed {n : Int} {what : String} {e : BankError}
    (h : toU64 n what = .error e) (sh : State X) : NotMalformed e none sh := by
  unfold toU64 at h
  split at h
  · exact absurd h (by simp)
  · obtain rfl := Except.error.inj h
    exact ⟨rfl, fun r m => by simp⟩

theorem toI64_eq_ok {value : UInt64} {what : String} {n : Int} (h : toI64 value what = .ok n) :
    i64TryFrom value = some n := by
  unfold toI64 at h
  split at h
  · obtain rfl := Except.ok.inj h
    assumption
  · exact absurd h (by simp)

theorem toI64_ne_malformed {value : UInt64} {what : String} {e : BankError}
    (h : toI64 value what = .error e) (sh : State X) : NotMalformed e none sh := by
  unfold toI64 at h
  split at h
  · exact absurd h (by simp)
  · obtain rfl := Except.error.inj h
    exact ⟨rfl, fun r m => by simp⟩

/-- The record that `load_record` makes of a row. -/
structure IsRecord (row : WithdrawRow) (record : WithdrawalRecord) : Prop where
  state : record.state = row.state
  accountId : record.accountId = row.accountId
  denominationCents : toU64 row.denominationCents "denomination" = .ok record.denominationCents
  blindedMessage : record.blindedMessage = row.blindedMessage
  blindSignature : record.blindSignature = row.blindSignature

theorem isRecord_of_ok {row : WithdrawRow} {record : WithdrawalRecord}
    (h : toRecord row = .ok record) : IsRecord row record := by
  unfold toRecord at h
  cases hd : toU64 row.denominationCents "denomination" with
  | error e =>
    rw [hd] at h
    exact absurd h (by simp [Except.map])
  | ok denom =>
    rw [hd] at h
    obtain rfl := Except.ok.inj h
    exact ⟨rfl, rfl, hd, rfl, rfl⟩

/-- A row that is there can be read. -/
theorem WithdrawRow.WellFormed.toRecord_ne {db : Tables} {row : WithdrawRow}
    (h : row.WellFormed db) (e : BankError) : toRecord row ≠ .error e := by
  rw [toRecord, toU64, u64TryFrom, if_pos h.denom_nonneg]
  simp [Except.map]

theorem loadRecord_spec :
    (protocol X).Spec κ i op
      (fun found tx sh => tx = none ∧ ∀ record, found = some record →
        ∃ row, IsRecord row record ∧ Seen κ r row sh)
      NotMalformed (loadRecord r) none sh := by
  unfold loadRecord
  refine Spec.read_bind (fun _ db => db.withdrawStates.lookup r) (fun _ _ => rfl)
    (fun e _ _ => notMalformed_sql e) fun sh₁ o h₁ => ?_
  cases hl : sh₁.db.withdrawStates.lookup r with
  | none => exact Spec.ok fun sh₂ _ => ⟨rfl, fun _ h => absurd h (by simp)⟩
  | some row =>
    refine Spec.orThrow_bind (fun e sh₂ he _ => ?_) fun record hrec => ?_
    · unfold toRecord at he
      cases hd : toU64 row.denominationCents "denomination" with
      | ok denom =>
        rw [hd] at he
        exact absurd he (by simp [Except.map])
      | error e' =>
        rw [hd] at he
        obtain rfl := Except.error.inj he
        exact toU64_ne_malformed hd _
    · refine Spec.ok fun sh₂ h₂ => ⟨rfl, fun record' h => ?_⟩
      obtain rfl := Option.some.inj h
      exact ⟨row, isRecord_of_ok hrec, (Seen.of_lookup h₁.inv hl).reaches h₂.reaches⟩

theorem resumeWithdraw_spec {row : WithdrawRow} {record : WithdrawalRecord}
    (hi : sh.db.WellFormed) (hop : Finalizes op r) (hrec : IsRecord row record)
    (h : Seen κ r row sh) :
    (protocol X).Spec κ i op
      (fun response _ sh => sh.db.Released r response.blindSignature)
      NotMalformed (resumeWithdraw κ r record) none sh := by
  have hreleased : record.state = .signed ∨ record.state = .completed →
      ∃ signature, record.blindSignature = some signature ∧ sh.db.Released r signature := by
    rw [hrec.state, hrec.blindSignature]
    exact h.signed
  unfold resumeWithdraw
  cases hs : record.state with
  | completed =>
    obtain ⟨signature, hsig, hrel⟩ := hreleased (Or.inr hs)
    simp only [hsig, reduceCtorEq, if_false]
    exact Spec.ok fun sh₁ h₁ => released_reaches hrel h₁.reaches
  | signed =>
    obtain ⟨signature, hsig, hrel⟩ := hreleased (Or.inl hs)
    simp only [hsig, if_true]
    refine Spec.bind hi (setState_completed_spec hop hrel) fun _ tx sh₁ _ h₁ => ?_
    exact Spec.ok fun sh₂ h₂ => released_reaches h₁.2 h₂.reaches
  | pending =>
    simp only
    have hd := toU64_eq_ok h.range.2 hrec.denominationCents
    rw [hrec.accountId, hrec.blindedMessage]
    refine Spec.bind hi (finalizeWithdraw_spec row hi hop hd (h.pending (hrec.state ▸ hs)))
      fun signature tx sh₁ _ h₁ => ?_
    exact Spec.ok fun sh₂ h₂ => released_reaches h₁.2 h₂.reaches
  | compensated => exact Spec.throw fun _ _ => ⟨rfl, fun r m => by simp⟩

/-- The row a debit records. -/
def pendingRow (req : WithdrawRequest) (denom : Int) : WithdrawRow :=
  ⟨.pending, req.accountId, denom, req.blindedMessage, none⟩

theorem debitAndRecordPending_spec {req : WithdrawRequest} :
    (protocol X).Spec κ i (.withdraw req)
      (fun _ tx sh => tx = none ∧ ∃ denom, i64TryFrom req.denominationCents = some denom ∧
        Owned κ req.requestId (pendingRow req denom) sh)
      NotMalformed (debitAndRecordPending req) none sh := by
  unfold debitAndRecordPending
  refine Spec.orThrow_bind (fun e sh' he _ => toI64_ne_malformed he _) fun denom hdenom => ?_
  have hd := toI64_eq_ok hdenom
  refine Spec.transaction (fun _ _ _ h _ => h) (fun e _ _ => notMalformed_sql e) ?_
  intro sh₁ h₁
  refine Spec.query_bind_tx (fun e _ _ => notMalformed_sql e) ?_
  intro sh₂ o found ws h₂ hex
  cases hb : sh₂.db.accounts.lookup req.accountId with
  | none =>
    have hx : exec (.selectBalanceForUpdate req.accountId) o
        (Tx.view (D := database) .empty sh₂.db) = .read none := by
      simp only [exec, Tx.view_empty, hb]
    simp only [hx, Effect.read, Except.ok.injEq, Prod.mk.injEq] at hex ⊢
    obtain ⟨rfl, rfl⟩ := hex
    exact Spec.throw fun _ _ => ⟨rfl, fun r m => by simp⟩
  | some b =>
    have hx : exec (.selectBalanceForUpdate req.accountId) o
        (Tx.view (D := database) .empty sh₂.db) = .write [.account req.accountId] (some b) [] := by
      simp only [exec, Tx.view_empty, hb]
    simp only [hx, Effect.write, Except.ok.injEq, Prod.mk.injEq] at hex ⊢
    obtain ⟨rfl, rfl⟩ := hex
    dsimp only
    split
    · refine Spec.orThrow_bind (fun e sh' he _ => toU64_ne_malformed he _) fun _ _ => ?_
      exact Spec.throw fun _ _ => ⟨rfl, fun r m => by simp⟩
    rename_i hle
    refine Spec.query_bind_tx (fun e _ _ => notMalformed_sql e) ?_
    intro sh₃ o n ws h₃ hex
    have hb₃ : sh₃.db.accounts.lookup req.accountId = some b :=
      (h₃.frame (.account req.accountId) (by simp [Tx.locks, Tx.push])).trans hb
    rcases addBalance_ok (t := sh₃.db) hex with ⟨hnone, -⟩ | ⟨b', hb', -, -, hx⟩
    · exact absurd (hb₃.symm.trans hnone) (by simp)
    obtain rfl : b = b' := Option.some.inj (hb₃.symm.trans hb')
    have hx₃ : exec (.debit denom req.accountId) o
        (Tx.view (D := database) (Tx.push .empty (.selectBalanceForUpdate req.accountId)
          (some b) [.account req.accountId] []) sh₃.db) = _ := hx
    simp only [hx₃, Effect.write, Except.ok.injEq, Prod.mk.injEq] at hex ⊢
    obtain ⟨rfl, rfl⟩ := hex
    refine Spec.query_bind_tx (fun e _ _ => notMalformed_sql e) ?_
    intro sh₄ o n ws h₄ hex
    obtain ⟨hfree, hx₄⟩ := insertPending_ok (o := o) hex
    simp only [hx₄, Effect.write, Except.ok.injEq, Prod.mk.injEq] at hex ⊢
    obtain ⟨rfl, rfl⟩ := hex
    refine Spec.ok fun sh₅ h₅ => ⟨_, rfl, ?_, ?_⟩
    · -- The account is locked since the first statement, the new row since the last.
      have hb₅ : sh₅.db.accounts.lookup req.accountId = some b :=
        (h₅.frame (.account req.accountId) (by simp [Tx.locks, Tx.push])).trans
          ((h₄.frame (.account req.accountId) (by simp [Tx.locks, Tx.push])).trans hb₃)
      have hfree₅ : sh₅.db.withdrawStates.lookup req.requestId = none :=
        (h₅.frame (.withdrawal req.requestId) (by simp [Tx.locks, Tx.push])).trans hfree
      exact ⟨.debit req.requestId req.accountId denom req.blindedMessage b, rfl,
        ⟨hb₅, hfree₅, i64TryFrom_nonneg hd, (i64TryFrom_eq_some hd).2, by omega⟩,
        rfl, rfl, hd, rfl⟩
    · intro sh₆ h₆
      refine ⟨rfl, denom, hd, Owned.reaches ⟨pendingRow req denom, ?_, .refl _, Or.inl rfl⟩ h₆⟩
      exact Table.lookup_put_self _ _ _

theorem withdraw_spec {req : WithdrawRequest} (hi : sh.db.WellFormed) :
    (protocol X).Spec κ i (.withdraw req)
      (fun response _ sh => sh.db.Released req.requestId response.blindSignature)
      NotMalformed (withdraw κ req) none sh := by
  have hop : Finalizes (.withdraw req) req.requestId := Or.inr ⟨req, rfl, rfl⟩
  unfold withdraw
  refine Spec.bind hi loadRecord_spec fun found tx sh₁ hi₁ h₁ => ?_
  obtain ⟨rfl, hfound⟩ := h₁
  cases found with
  | some record =>
    obtain ⟨row, hrec, hseen⟩ := hfound record rfl
    exact resumeWithdraw_spec hi₁ hop hrec hseen
  | none =>
    cases hk : κ.keys.get req.denominationCents schemeIdRsaDeterministic with
    | none => exact Spec.throw fun _ _ => ⟨rfl, fun r m => by simp⟩
    | some keypair =>
      refine Spec.bind hi₁ debitAndRecordPending_spec fun _ tx sh₂ hi₂ h₂ => ?_
      obtain ⟨rfl, denom, hd, howned⟩ := h₂
      refine Spec.bind hi₂ (finalizeWithdraw_spec (pendingRow req denom) hi₂ hop hd howned)
        fun signature tx sh₃ _ h₃ => ?_
      exact Spec.ok fun sh₄ h₄ => released_reaches h₃.2 h₄.reaches

/-! ## Startup -/

theorem recoverOne_spec {row : WithdrawRow} {t : ToResume} (hi : sh.db.WellFormed)
    (ht : toResume (r, row) = .ok t) (h : Seen κ r row sh) :
    (protocol X).Spec κ i .connect (fun _ tx _ => tx = none) Closed (recoverOne κ t) none sh := by
  have hop : Finalizes .connect r := Or.inl rfl
  unfold toResume at ht
  cases hd : toU64 row.denominationCents "denomination" with
  | error e =>
    rw [hd] at ht
    exact absurd ht (by simp [Except.map])
  | ok denom =>
    rw [hd] at ht
    obtain rfl := Except.ok.inj ht
    unfold recoverOne
    cases hs : row.state with
    | pending =>
      simp only
      refine Spec.attempt_bind hi (finalizeWithdraw_spec row hi hop (toU64_eq_ok h.range.2 hd)
        (h.pending hs)) fun res tx sh₁ _ h₁ => ?_
      have htx : tx = none := by
        cases res with
        | ok signature => exact h₁.1
        | error e => exact h₁.1
      exact Spec.ok fun _ _ => htx
    | signed =>
      simp only
      obtain ⟨signature, -, hrel⟩ := h.signed (Or.inl hs)
      exact (setState_completed_spec hop hrel).mono (fun _ tx _ _ h => h.1) fun _ _ _ _ h => h.1
    | completed =>
      simp only
      exact Spec.ok fun _ _ => rfl
    | compensated =>
      simp only
      exact Spec.ok fun _ _ => rfl

theorem recoverAll_spec : ∀ {todo : List ToResume} {sh : State X}, sh.db.WellFormed →
    (∀ t ∈ todo, ∃ r row, toResume (r, row) = .ok t ∧ Seen κ r row sh) →
    (protocol X).Spec κ i .connect (fun _ tx _ => tx = none) Closed (recoverAll κ todo) none sh
  | [], _, _, _ => Spec.ok fun _ _ => rfl
  | t :: todo, sh, hi, h => by
    obtain ⟨r, row, ht, hseen⟩ := h t (List.mem_cons_self ..)
    -- What the scan saw of the others still holds when their turn comes.
    refine Spec.bind hi ((recoverOne_spec hi ht hseen).reaches ⟨.refl, hi⟩)
      fun _ tx sh₁ hi₁ h₁ => ?_
    obtain ⟨hreach, rfl⟩ := h₁
    exact recoverAll_spec hi₁ fun t' ht' => by
      obtain ⟨r', row', hr', hseen'⟩ := h t' (List.mem_cons_of_mem _ ht')
      exact ⟨r', row', hr', hseen'.reaches hreach⟩

/-- Every row that was read was a row of the scan. -/
theorem mem_of_mapM_ok {α β ε : Type} {f : α → Except ε β} : ∀ {l : List α} {bs : List β},
    l.mapM f = .ok bs → ∀ b ∈ bs, ∃ a ∈ l, f a = .ok b
  | [], bs, h, b, hb => by
    obtain rfl : [] = bs := Except.ok.inj h
    exact absurd hb (by simp)
  | a :: l, bs, h, b, hb => by
    rw [List.mapM_cons] at h
    cases ha : f a with
    | error e =>
      rw [ha] at h
      exact absurd h (by simp [bind, Except.bind])
    | ok b' =>
      rw [ha] at h
      cases hl : l.mapM f with
      | error e =>
        rw [hl] at h
        exact absurd h (by simp [bind, Except.bind])
      | ok bs' =>
        rw [hl] at h
        obtain rfl : b' :: bs' = bs := Except.ok.inj h
        rcases List.mem_cons.mp hb with rfl | hb
        · exact ⟨a, List.mem_cons_self .., ha⟩
        · obtain ⟨a', ha', hf⟩ := mem_of_mapM_ok hl b hb
          exact ⟨a', List.mem_cons_of_mem _ ha', hf⟩

theorem recoverWithdrawals_spec :
    (protocol X).Spec κ i .connect (fun _ tx _ => tx = none) Closed (recoverWithdrawals κ)
      none sh := by
  unfold recoverWithdrawals
  refine Spec.read_bind (fun o db =>
    arrange (db.withdrawStates.rows.filter fun r => r.2.state.inFlight) o.inFlight)
    (fun _ _ => rfl) (fun _ _ _ => rfl) fun sh₁ o h₁ => ?_
  refine Spec.orThrow_bind (fun _ _ _ _ => rfl) fun todo htodo => ?_
  refine recoverAll_spec h₁.inv fun t ht => ?_
  obtain ⟨⟨r, row⟩, hmem, ht⟩ := mem_of_mapM_ok htodo t ht
  have hrow := List.mem_of_mem_filter ((arrange_perm _ _).mem_iff.mp hmem)
  exact ⟨r, row, ht, Seen.of_lookup h₁.inv (Table.mem_rows.mp hrow)⟩

/-! ## Nonces -/

/-- The tables with another nonce store. -/
def Tables.withNonces (db : Tables) (store : Table String Int) : Tables :=
  { db with nonceStore := store }

/-- The bank purges by the time its check converted, which it converts back. -/
def nonces : NonceKeeping database BankError where
  store := Tables.nonceStore
  withStore := Tables.withNonces
  store_withStore _ _ := rfl
  withStore_withStore _ _ _ := rfl
  withStore_store _ := rfl
  row n v := ⟨.nonce n, v⟩
  put_row _ _ _ := rfl
  upsert := .upsertNonce
  affected _ _ _ n := n
  exec_upsert db n expiry now :=
    ⟨(1 : Nat), (0 : Nat), rfl, rfl, fun _ => Expiring.eq_ite_free
      (fun hl => by simp only [database, exec, hl]) fun _ hl => by simp only [database, exec, hl]⟩
  delete := .purgeNonces
  deleted _ n := n
  exec_delete _ _ _ := rfl
  count := .nonceOpsFetchAdd
  ops n := n
  toI64 := toI64
  toI64_eq _ h := by rw [toI64, h]
  again _ n := toU64 n "nonce timestamp"
  again_eq h := by rw [toU64, u64TryFrom_i64TryFrom h]

theorem purgeExpiredNonces_eq : purgeExpiredNonces = nonces.purge := rfl

theorem checkAndRecordNonce_eq : checkAndRecordNonce = nonces.check := rfl

/-- The calls that purge nonces. -/
def Purges (op : Op) : Prop := op = .connect ∨ ∃ request, op = .authenticate request

/-- What a purge does. -/
theorem exec_purgeNonces (db : Tables) (now : Int) : ∃ expired : List String,
    (∀ o, exec (.purgeNonces now) o db =
      .write [] expired.length (expired.map fun n => ⟨.nonce n, none⟩)) ∧
    ∀ n, n ∈ expired ↔ ∃ expiresAt ≤ now, db.nonceStore.lookup n = some expiresAt := by
  refine ⟨(db.nonceStore.rows.filter fun r => decide (r.2 ≤ now)).map Prod.fst, fun o => ?_,
    fun n => Expiring.mem_expired⟩
  simp only [exec, List.length_map, List.map_map]
  rfl

theorem mayPurge (hop : Purges op) : nonces.MayPurge (protocol X) κ i op := by
  intro sh now expired hvalid
  refine ⟨.purge now expired, rfl, hvalid, ?_⟩
  rcases hop with rfl | ⟨request, rfl⟩ <;> exact trivial

theorem connect_spec (hi : sh.db.WellFormed) :
    (protocol X).Spec κ i .connect (fun _ _ _ => True) Closed (connect κ) none sh := by
  unfold connect nowUnix
  refine Spec.bind hi recoverWithdrawals_spec fun _ tx sh₁ hi₁ h₁ => ?_
  subst h₁
  refine Spec.perform_bind fun sh₂ o now m h₂ hext hi₂ => ?_
  refine Spec.bind hi₂ (nonces.purge_spec (mayPurge (Or.inl rfl)) now) fun _ tx sh₃ hi₃ h₃ => ?_
  subst h₃
  exact Spec.perform fun _ _ _ _ _ _ _ _ _ => trivial

theorem recorded_reaches {request : Request} (h : Recorded i request sh)
    (hm : (protocol X).Reaches κ sh sh') : Recorded i request sh' := by
  obtain ⟨c, hc, hrest⟩ := h
  exact ⟨c, hm.mem_hist hc, hrest⟩

theorem checkAndRecordNonce_spec {request : Request} {auth : AuthHeaders} {clock : UInt64}
    (hauth : readHeaders request = .ok auth)
    (hwindow : outsideWindow auth.timestamp clock = false) :
    (protocol X).Spec κ i (.authenticate request)
      (fun fresh tx sh => tx = none ∧ (fresh = true → Recorded i request sh)) Closed
      (checkAndRecordNonce auth.nonce clock nonceTtlSecs) none sh := by
  refine nonces.check_spec recorded_reaches (mayPurge (Or.inr ⟨request, rfl⟩)) ?_
  intro sh expiry now hit hexpiry hnow hfree hhit
  obtain rfl : hit = (1 : Nat) := hhit
  refine ⟨⟨.recordNonce auth.nonce expiry now, rfl, fun _ => Expiring.le_of_free hfree, auth, clock,
    hauth, rfl, hwindow, toI64_eq_ok hnow, toI64_eq_ok hexpiry⟩, ?_⟩
  exact ⟨_, List.mem_cons_self .., rfl, rfl, auth.nonce, expiry, now, rfl⟩

theorem checkAndRecordNonce_alone {S : Service database} {i : CallId} {op : S.Op}
    {sh : Shared database S.Op} {n : String} {now ttl : UInt64} {nowI expiry : Int}
    (hnow : i64TryFrom now = some nowI)
    (hexpiry : i64TryFrom (saturatingAdd now ttl) = some expiry) :
    Alone.Spec (S := S) Calm i op (fun _ => True)
      (fun fresh tx sh' => tx = none ∧ fresh = Expiring.free sh.db.nonceStore n nowI ∧
        ∃ store, sh'.db = sh.db.withNonces store ∧
          Checked expiry nowI n sh.db.nonceStore store)
      (fun _ _ _ => False) (checkAndRecordNonce n now ttl) none sh :=
  nonces.check_alone hnow hexpiry

/-! ## Authentication -/

theorem identityPubkey_spec {accountId : String} :
    (protocol X).Spec κ i op (fun _ tx _ => tx = none) Closed (identityPubkey X accountId)
      none sh := by
  unfold identityPubkey
  refine Spec.read_bind (fun _ db => db.identities.lookup accountId) (fun _ _ => rfl)
    (fun _ _ _ => rfl) fun sh₁ o h₁ => ?_
  cases sh₁.db.identities.lookup accountId with
  | none => exact Spec.ok fun _ _ => rfl
  | some bytes =>
    dsimp only
    split
    · refine Spec.orThrow_bind (fun _ _ _ _ => rfl) fun key _ => ?_
      exact Spec.ok fun _ _ => rfl
    · exact Spec.throw fun _ _ => rfl

theorem authenticate_spec {request : Request} (hi : sh.db.WellFormed) :
    (protocol X).Spec κ i (.authenticate request) (fun _ _ sh => Recorded i request sh) Closed
      (authenticate X request) none sh :=
  Digicash.authenticate_spec hi recorded_reaches identityPubkey_spec
    (Spec.perform fun _ _ _ _ _ _ _ _ _ => rfl) checkAndRecordNonce_spec

/-! ## Accounts -/

/-- `ON CONFLICT DO NOTHING` did nothing, or it inserted. -/
theorem inserted_spec {α : Type} {e : BankError} {a : α} (inserted : Nat) :
    (protocol X).Spec κ i op (fun _ _ _ => True) (fun _ _ _ => True)
      (if inserted = 0 then throw e else pure a : BankM α) none sh := by
  split
  · exact Spec.throw fun _ _ => trivial
  · exact Spec.ok fun _ _ => trivial

theorem createAccount_spec {a : String} {b : UInt64} :
    (protocol X).Spec κ i (.createAccount a b) (fun _ _ _ => True) (fun _ _ _ => True)
      (createAccount a b) none sh := by
  unfold createAccount
  refine Spec.orThrow_bind (fun _ _ _ _ => trivial) fun n hn => ?_
  refine Spec.query_bind_none (fun _ _ _ => trivial) (fun _ _ inserted _ _ => inserted_spec inserted) ?_
  intro sh₁ o inserted ws hws h₁ hex
  have hrange := i64TryFrom_nonneg (toI64_eq_ok hn)
  cases hl : sh₁.db.accounts.lookup a with
  | some b' =>
    simp only [exec, hl, Effect.read, Except.ok.injEq, Prod.mk.injEq] at hex
    exact absurd hex.2.symm hws
  | none =>
    have hx : exec (.insertAccount a n) o sh₁.db = .write [] (1 : Nat) [⟨.account a, some n⟩] := by
      simp only [exec, hl, if_neg (Int.not_lt.mpr hrange)]
    simp only [hx, Effect.write, Except.ok.injEq, Prod.mk.injEq] at hex ⊢
    obtain ⟨rfl, rfl⟩ := hex
    exact ⟨⟨.openAccount a n, rfl,
      ⟨hl, hrange, (i64TryFrom_eq_some (toI64_eq_ok hn)).2⟩, rfl, toI64_eq_ok hn⟩,
      fun _ => inserted_spec _⟩

theorem balance_spec {a : String} :
    (protocol X).Spec κ i op (fun _ _ _ => True) (fun _ _ _ => True) (balance a) none sh := by
  unfold balance
  refine Spec.read_bind (fun _ db => db.accounts.lookup a) (fun _ _ => rfl)
    (fun _ _ _ => trivial) fun sh₁ o _ => ?_
  cases sh₁.db.accounts.lookup a with
  | none => exact Spec.ok fun _ _ => trivial
  | some n =>
    refine Spec.orThrow_bind (fun _ _ _ _ => trivial) fun b _ => ?_
    exact Spec.ok fun _ _ => trivial

theorem registerIdentity_spec {a : String} {k : Bytes} :
    (protocol X).Spec κ i (.registerIdentity a k) (fun _ _ _ => True) (fun _ _ _ => True)
      (registerIdentity a k) none sh := by
  unfold registerIdentity
  refine Spec.query_bind_none (fun _ _ _ => trivial) (fun _ _ inserted _ _ => inserted_spec inserted) ?_
  intro sh₁ o inserted ws hws h₁ hex
  cases hl : sh₁.db.identities.lookup a with
  | some k' =>
    simp only [exec, hl, Effect.read, Except.ok.injEq, Prod.mk.injEq] at hex
    exact absurd hex.2.symm hws
  | none =>
    have hx : exec (.insertIdentity a k) o sh₁.db = .write [] (1 : Nat) [⟨.identity a, some k⟩] := by
      simp only [exec, hl]
    simp only [hx, Effect.write, Except.ok.injEq, Prod.mk.injEq] at hex ⊢
    obtain ⟨rfl, rfl⟩ := hex
    exact ⟨⟨.register a k, rfl, hl, rfl, rfl⟩, fun _ => inserted_spec _⟩

/-! ## Deposits -/

theorem credited_move {req : DepositRequest} (h : sh.db.Credited req)
    (hm : (protocol X).Move κ sh sh') : sh'.db.Credited req := by
  obtain ⟨row, denom, hr, hrest⟩ := h
  exact ⟨row, denom, Ledger.move_keeps hm (fun hv h => Entry.deposit_stays hv h) hr, hrest⟩

theorem credited_reaches {req : DepositRequest} (h : sh.db.Credited req)
    (hm : (protocol X).Reaches κ sh sh') : sh'.db.Credited req :=
  hm.keeps (fun h hm => credited_move h hm) h

/-- What has been asked stays asked. -/
theorem memStep_asked {m m' : Memory} (h : (service X).MemStep m m') {a : Asked}
    (ha : a ∈ m.asked) : a ∈ m'.asked := by
  rcases h with ⟨i, e, o, r, hext⟩ | ⟨op, hent⟩
  · cases e <;> obtain ⟨-, rfl⟩ := by simpa [runExt] using hext
    · exact ha
    · exact ha
    · exact List.mem_cons_of_mem _ ha
    · exact ha
  · cases op <;> simp only [enter, Option.ite_none_right_eq_some, Option.some.injEq] at hent <;>
      obtain ⟨-, rfl⟩ := hent <;> exact ha

theorem Cleared.move {κ₀ : Config X} {req : DepositRequest} (h : Cleared κ₀ sh.mem i req)
    (hm : (protocol X).Move κ sh sh') : Cleared κ₀ sh'.mem i req := by
  intro client hclient
  obtain ⟨now, response, hmem, hacc⟩ := h client hclient
  cases hm with
  | commit _ _ _ => exact ⟨now, response, hmem, hacc⟩
  | mem m hm => exact ⟨now, response, memStep_asked hm hmem, hacc⟩

theorem Cleared.reaches {req : DepositRequest} (h : Cleared κ sh.mem i req)
    (hm : (protocol X).Reaches κ sh sh') : Cleared κ sh'.mem i req :=
  hm.keeps (J := fun sh => Cleared κ sh.mem i req) (fun h hm => h.move hm) h

/-- An insert into `deposits` that succeeds met no row of that request. -/
theorem insertDeposit_ok {db : Tables} {c : CoinKey} {a : String} {o : Oracle} {n : Nat}
    {ws : List (Write Cell)} (h : (exec (.insertDeposit r c a) o db).result = .ok (n, ws)) :
    db.deposits.lookup r = none ∧ exec (.insertDeposit r c a) o db =
      .write [] (1 : Nat) [⟨.deposit r, some ⟨c, a⟩⟩] := by
  cases hl : db.deposits.lookup r with
  | some row => exact absurd h (by simp [exec, hl, Effect.fail])
  | none => exact ⟨rfl, by simp only [exec, hl]⟩

/-- `ON CONFLICT DO NOTHING` on the coin: spent already, or inserted. -/
theorem insertSpent_cases (db : Tables) (c : CoinKey) (r : String) (o : Oracle) :
    exec (.insertSpent c r) o db = .read (0 : Nat) ∨ db.spentSerials.lookup c = none ∧
      exec (.insertSpent c r) o db = .write [] (1 : Nat) [⟨.spent c, some r⟩] := by
  cases hl : db.spentSerials.lookup c with
  | some r' => exact Or.inl (by simp only [exec, hl])
  | none => exact Or.inr ⟨rfl, by simp only [exec, hl]⟩

/-- What an accepted deposit has left. -/
def DepositPost (κ : Config X) (i : CallId) (req : DepositRequest) (response : DepositResponse)
    (sh : State X) : Prop :=
  response.accepted = true → sh.db.Credited req ∧ Cleared κ sh.mem i req

theorem DepositPost.reaches {req : DepositRequest} {response : DepositResponse}
    (h : DepositPost κ i req response sh) (hm : (protocol X).Reaches κ sh sh') :
    DepositPost κ i req response sh' :=
  fun hacc => ⟨credited_reaches (h hacc).1 hm, (h hacc).2.reaches hm⟩

theorem commitDeposit_spec {req : DepositRequest} (h : Cleared κ sh.mem i req) :
    (protocol X).Spec κ i (.deposit req)
      (fun outcome _ sh => DepositPost κ i req outcome.response sh)
      (fun _ _ _ => True) (commitDeposit req) none sh := by
  unfold commitDeposit
  refine Spec.orThrow_bind (fun _ _ _ _ => trivial) fun denom hdenom => ?_
  have hd := toI64_eq_ok hdenom
  refine Spec.transaction (fun _ _ _ _ _ => trivial) (fun _ _ _ => trivial) ?_
  intro sh₁ h₁
  refine Spec.query_bind_tx (fun _ _ _ => trivial) ?_
  intro sh₂ o found ws h₂ hex
  obtain ⟨rfl, rfl⟩ : sh₂.db.deposits.lookup req.requestId = found ∧ ws = [] := by
    simpa [exec, Effect.read, eq_comm] using hex
  cases hl : sh₂.db.deposits.lookup req.requestId with
  | some prior =>
    dsimp only
    split
    · rename_i hcoin
      have hcl : Cleared κ sh₂.mem i req := (h.reaches h₁.reaches).reaches h₂.reaches
      have hpost : DepositPost κ i req DepositOutcome.replay.response sh₂ := fun _ =>
        ⟨⟨prior, denom, hl, hd, hcoin⟩, hcl⟩
      exact Spec.ok fun sh₃ h₃ sh₄ h₄ => hpost.reaches (h₃.reaches.trans h₄)
    · exact Spec.ok fun _ _ _ _ hacc => absurd hacc (by decide)
  | none =>
    have hx₂ : (exec (.selectDeposit req.requestId) o (Tx.view (D := database) .empty sh₂.db)).waits
        = [] := rfl
    simp only [hx₂]
    refine Spec.query_bind_tx (fun _ _ _ => trivial) ?_
    intro sh₃ o n ws h₃ hex
    rcases insertSpent_cases sh₃.db (coinKey req.coin denom) req.requestId o with hx | ⟨hfresh, hx⟩
    · have hx₃ : exec (.insertSpent (coinKey req.coin denom) req.requestId) o
          (Tx.view (D := database) (Tx.push .empty (.selectDeposit req.requestId) none [] [])
            sh₃.db) = .read (0 : Nat) := hx
      simp only [hx₃, Effect.read, Except.ok.injEq, Prod.mk.injEq] at hex ⊢
      obtain ⟨rfl, rfl⟩ := hex
      exact Spec.ok fun _ _ _ _ hacc => absurd hacc (by decide)
    have hx₃ : exec (.insertSpent (coinKey req.coin denom) req.requestId) o
        (Tx.view (D := database) (Tx.push .empty (.selectDeposit req.requestId) none [] [])
          sh₃.db) = .write [] (1 : Nat) [⟨.spent (coinKey req.coin denom), some req.requestId⟩] :=
      hx
    simp only [hx₃, Effect.write, Except.ok.injEq, Prod.mk.injEq] at hex ⊢
    obtain ⟨rfl, rfl⟩ := hex
    rw [if_neg Nat.one_ne_zero]
    refine Spec.query_bind_tx (fun _ _ _ => trivial) ?_
    intro sh₄ o n ws h₄ hex
    rcases addBalance_ok (t := sh₄.db) hex with ⟨-, hx⟩ | ⟨b, hb, -, hmax, hx⟩
    · have hx₄ : exec (.credit denom req.accountId) o (Tx.view (D := database) (Tx.push
          (Tx.push .empty (.selectDeposit req.requestId) none [] [])
          (.insertSpent (coinKey req.coin denom) req.requestId) (1 : Nat) []
          [⟨.spent (coinKey req.coin denom), some req.requestId⟩]) sh₄.db) = .read (0 : Nat) := hx
      simp only [hx₄, Effect.read, Except.ok.injEq, Prod.mk.injEq] at hex ⊢
      obtain ⟨rfl, rfl⟩ := hex
      exact Spec.ok fun _ _ _ _ hacc => absurd hacc (by decide)
    have hx₄ : exec (.credit denom req.accountId) o (Tx.view (D := database) (Tx.push
        (Tx.push .empty (.selectDeposit req.requestId) none [] [])
        (.insertSpent (coinKey req.coin denom) req.requestId) (1 : Nat) []
        [⟨.spent (coinKey req.coin denom), some req.requestId⟩]) sh₄.db) =
        .write [] (1 : Nat) [⟨.account req.accountId, some (b + denom)⟩] := hx
    simp only [hx₄, Effect.write, Except.ok.injEq, Prod.mk.injEq] at hex ⊢
    obtain ⟨rfl, rfl⟩ := hex
    rw [if_neg Nat.one_ne_zero]
    refine Spec.query_bind_tx (fun _ _ _ => trivial) ?_
    intro sh₅ o n ws h₅ hex
    obtain ⟨hnew, hx₅⟩ := insertDeposit_ok (o := o) hex
    simp only [hx₅, Effect.write, Except.ok.injEq, Prod.mk.injEq] at hex ⊢
    obtain ⟨rfl, rfl⟩ := hex
    have hcl : Cleared κ sh₅.mem i req :=
      ((((h.reaches h₁.reaches).reaches h₂.reaches).reaches h₃.reaches).reaches
        h₄.reaches).reaches h₅.reaches
    refine Spec.ok fun sh₆ h₆ => ⟨_, rfl, ?_, fun sh₇ h₇ => ?_⟩
    · -- The coin is locked since its insert, the account since the credit.
      have hb₆ : sh₆.db.accounts.lookup req.accountId = some b :=
        (h₆.frame (.account req.accountId) (by simp [Tx.locks, Tx.push])).trans
          ((h₅.frame (.account req.accountId) (by simp [Tx.locks, Tx.push])).trans hb)
      have hfresh₆ : sh₆.db.spentSerials.lookup (coinKey req.coin denom) = none :=
        (h₆.frame (.spent (coinKey req.coin denom)) (by simp [Tx.locks, Tx.push])).trans
          ((h₅.frame (.spent (coinKey req.coin denom)) (by simp [Tx.locks, Tx.push])).trans
            ((h₄.frame (.spent (coinKey req.coin denom)) (by simp [Tx.locks, Tx.push])).trans
              hfresh))
      have hnew₆ : sh₆.db.deposits.lookup req.requestId = none :=
        (h₆.frame (.deposit req.requestId) (by simp [Tx.locks, Tx.push])).trans hnew
      exact ⟨.deposit req.requestId ⟨coinKey req.coin denom, req.accountId⟩ b, rfl,
        ⟨hnew₆, hfresh₆, hb₆, i64TryFrom_nonneg hd, hmax⟩, rfl, rfl, ⟨denom, hd, rfl⟩,
        hcl.reaches h₆.reaches⟩
    · refine DepositPost.reaches ?_ h₇
      have hcl₆ : Cleared κ sh₆.mem i req := hcl.reaches h₆.reaches
      exact fun _ => ⟨⟨⟨coinKey req.coin denom, req.accountId⟩, denom,
        Table.lookup_put_self _ _ _, hd, rfl⟩, hcl₆⟩

theorem depositLocally_spec {req : DepositRequest} (hi : sh.db.WellFormed)
    (h : Cleared κ sh.mem i req) :
    (protocol X).Spec κ i (.deposit req)
      (fun response _ sh => DepositPost κ i req response sh)
      (fun _ _ _ => True) (depositLocally req) none sh := by
  unfold depositLocally
  refine Spec.bind hi (commitDeposit_spec h) fun outcome tx sh₁ _ h₁ => ?_
  exact Spec.ok fun sh₂ h₂ => h₁.reaches h₂.reaches

/-- What the registry answered is on record. -/
theorem submitSerial_spec {client : RegistryClient} {req : DepositRequest} {now : UInt64}
    (hclient : κ.registryClient = some client) :
    (protocol X).Spec κ i (.deposit req)
      (fun outcome tx sh => tx = none ∧ (outcome = .accepted → Cleared κ sh.mem i req))
      (fun _ _ _ => True)
      (client.submitSerial X req.coin.denominationCents req.coin.schemeId req.coin.serialNumber
        now) none sh := by
  unfold RegistryClient.submitSerial
  refine Spec.perform_bind fun sh₁ o reply m h₁ hext hi₁ => ?_
  obtain ⟨rfl, rfl⟩ := by simpa [runExt] using hext
  refine Spec.orThrow_bind (fun _ _ _ _ => trivial) fun response hreply => ?_
  refine Spec.ok fun sh₂ h₂ => ⟨rfl, fun hacc => Cleared.reaches ?_ h₂.reaches⟩
  intro client' hclient'
  obtain rfl : client = client' := Option.some.inj (hclient.symm.trans hclient')
  cases hr : o.reply with
  | error e =>
    rw [hr] at hreply
    exact absurd hreply (by simp [Except.mapError])
  | ok response' =>
    rw [hr] at hreply
    obtain rfl : response' = response := Except.ok.inj hreply
    exact ⟨now, response', List.mem_cons_self .., hacc⟩

theorem deposit_spec {req : DepositRequest} (hi : sh.db.WellFormed) :
    (protocol X).Spec κ i (.deposit req)
      (fun response _ sh => DepositPost κ i req response sh)
      (fun _ _ _ => True) (deposit κ req) none sh := by
  have hreject : ∀ {reason : DepositRejection} {tx : Option (Tx database)} {sh : State X},
      (protocol X).Spec κ i (.deposit req)
        (fun response _ sh => DepositPost κ i req response sh)
        (fun _ _ _ => True) (pure (reject reason) : BankM DepositResponse) tx sh :=
    fun {_ _ _} => Spec.ok fun _ _ hacc => absurd hacc (by simp [reject])
  unfold deposit
  dsimp only
  split
  · exact hreject
  split
  · exact hreject
  split
  · exact hreject
  cases hclient : κ.registryClient with
  | none =>
    exact depositLocally_spec hi fun client h => absurd (hclient.symm.trans h) (by simp)
  | some client =>
    refine Spec.bind (R := fun _ tx _ => tx = none) hi
      (Spec.perform fun _ _ _ _ _ _ _ _ _ => rfl) fun now tx sh₁ hi₁ h₁ => ?_
    subst h₁
    refine Spec.bind hi₁ (submitSerial_spec hclient) fun outcome tx sh₂ hi₂ h₂ => ?_
    obtain ⟨rfl, hcl⟩ := h₂
    cases outcome with
    | accepted => exact depositLocally_spec hi₂ (hcl rfl)
    | doubleSpend => exact hreject
    | exposureCapExceeded => exact hreject

/-! ## The bank -/

theorem post_move {κ₀ : Config X} {a : Ans} (hi : sh.db.WellFormed) (h : Post κ₀ i op a sh)
    (hm : (protocol X).Move κ sh sh') : Post κ₀ i op a sh' := by
  have hreach : (protocol X).Reaches κ sh sh' := ⟨.single hm, move_wellFormed hi hm⟩
  unfold Post at h ⊢
  split at h
  · exact released_move h hm
  · exact h
  · exact h
  · exact fun hacc => ⟨credited_move (h hacc).1 hm, (h hacc).2.move hm⟩
  · exact recorded_reaches h hreach
  · trivial

/-- No promise is about the process's memory. -/
theorem post_reboot {a : Ans} (h : Post κ i op a sh) :
    Post κ i op a ({ sh with mem := reboot sh.mem } : State X) := by
  unfold Post at h ⊢
  split at h <;> exact h

/-- **Every call of the bank, in every interleaving, commits only entries of its ledger, and
    every answer keeps its promise.** -/
theorem sound : (protocol X).Sound where
  inv_move := move_wellFormed
  inv_reboot h := h
  post_move hi h hm := post_move hi h hm
  post_reboot _ h := post_reboot h
  code {κ i op sh} hi := by
    cases op with
    | connect => exact Spec.answer hi (connect_spec hi) (fun _ _ _ _ => trivial) fun _ _ _ _ => trivial
    | createAccount a b =>
      exact Spec.answer hi createAccount_spec (fun _ _ _ _ => trivial) fun _ _ _ _ => trivial
    | balance a =>
      exact Spec.answer hi balance_spec (fun _ _ _ _ => trivial) fun _ _ _ _ => trivial
    | registerIdentity a k =>
      exact Spec.answer hi registerIdentity_spec (fun _ _ _ _ => trivial) fun _ _ _ _ => trivial
    | authenticate r =>
      exact Spec.answer hi (authenticate_spec hi) (fun _ _ _ h => h) fun _ _ _ _ => trivial
    | withdraw req =>
      exact Spec.answer hi (withdraw_spec hi) (fun _ _ _ h => h) fun _ _ _ h => h.2
    | deposit req =>
      exact Spec.answer hi (deposit_spec hi) (fun _ _ _ h => h) fun _ _ _ _ => trivial

/-! ## Runs -/

theorem wellFormed_empty : Tables.empty.WellFormed :=
  ⟨fun _ _ h => absurd h (by simp [Tables.empty]),
    fun _ _ h => absurd h (by simp [Tables.empty])⟩

variable {π : Policy (service X)} {s : Sys (service X)}

theorem good (h : Sys.Steps π (start κ) s) : s.Good (protocol X) :=
  ((Sys.good_init wellFormed_empty).steps sound h).1

/-- **The invariant rule of the bank.** What holds at the start, and is kept by every entry
    that may be committed, by the process's memory and by restarts, holds in every state of
    every run. -/
theorem invariant {J : Config X → State X → Prop} (h : Sys.Steps π (start κ) s)
    (h0 : J κ ⟨.empty, .fresh, []⟩)
    (hentry : ∀ {κ : Config X} {sh : State X} {call : CallId} {op : Op} {e : Entry},
      sh.db.WellFormed → J κ sh → e.Valid κ sh.db → e.From κ sh.mem call op →
        π.commit sh ⟨call, op, e.tx, sh.db⟩ →
          J κ ⟨e.apply sh.db, sh.mem, ⟨call, op, e.tx, sh.db⟩ :: sh.hist⟩)
    (hmem : ∀ {κ : Config X} {sh : State X} {m : Memory}, J κ sh →
      (service X).MemStep sh.mem m → J κ { sh with mem := m })
    (hreboot : ∀ {κ κ' : Config X} {sh : State X}, J κ sh → π.reboot κ κ' →
      J κ' { sh with mem := reboot sh.mem }) :
    J s.conf s.shared := by
  have hinit : Sys.Good (protocol X) (start κ) := Sys.good_init wellFormed_empty
  exact Ledger.invariant sound hinit h h0 hentry hmem hreboot

/-- What is so of every entry that may be committed is so of every commit there is. -/
theorem of_commits {P : Commit database Op → Prop} (h : Sys.Steps π (start κ) s)
    (hentry : ∀ {κ : Config X} {db : Tables} {mem : Memory} {call : CallId} {op : Op} {e : Entry},
      e.Valid κ db → e.From κ mem call op → P ⟨call, op, e.tx, db⟩) :
    ∀ c ∈ s.shared.hist, P c :=
  Ledger.commits sound (Sys.good_init wellFormed_empty) h
    (fun _ hc => absurd hc List.not_mem_nil) hentry

/-- What every entry keeps of the tables, every later state has. -/
theorem db_keeps {s' : Sys (service X)} {J : Tables → Prop} (h : Sys.Steps .any (start κ) s)
    (hs : Sys.Steps .any s s') (hJ : ∀ {κ : Config X} {e db}, Entry.Valid κ db e → J db →
      J (e.apply db)) (h0 : J s.shared.db) : J s'.shared.db := by
  induction hs with
  | refl => exact h0
  | tail hrun hstep ih =>
    obtain ⟨e, he, -⟩ := hstep
    exact Ledger.step_keeps (J := J) sound (good (h.trans hrun)) he hJ ih

end Digicash.Bank
