import Digicash.Lib.Ledger
import Digicash.Bank.Server

/-!
# The ledger

What the bank is for, one committed transaction at a time. An `Entry` is a transaction the
code can commit: the statements it runs (`tx`), what it does to the tables (`apply`), under
which conditions (`Valid`) and for which calls (`From`). There are nine.

`protocol` says that the code commits nothing else. Proving that is the business of
`Refinement`; everything said about a bank's money is proved about entries.
-/

namespace Digicash.Bank

open Lib

variable {X : Crypto}

/-! ## Entries -/

/-- A committed transaction. A `row` or `balance` is the one the transaction met. -/
inductive Entry where
  | openAccount (accountId : String) (balance : Int)
  | register (accountId : String) (pubkey : Bytes)
  | recordNonce (nonce : String) (expiry now : Int)
  | purge (now : Int) (expired : List String)
  | debit (requestId accountId : String) (denom : Int) (blindedMessage : Bytes) (balance : Int)
  | sign (requestId : String) (row : WithdrawRow) (signature : Bytes)
  | complete (requestId : String) (row : WithdrawRow)
  | compensate (requestId : String) (row : WithdrawRow) (balance : Int)
  | deposit (requestId : String) (row : DepositRow) (balance : Int)

namespace Entry

/-- The transaction `t` after one more statement. -/
abbrev ran (t : Tx database) (s : Stmt) (r : s.Res) (waits : List Row)
    (ws : List (Write Cell)) : Tx database := t.push s r waits ws

def tx : Entry → Tx database
  | openAccount a b => ran .empty (.insertAccount a b) (1 : Nat) [] [⟨.account a, some b⟩]
  | register a k => ran .empty (.insertIdentity a k) (1 : Nat) [] [⟨.identity a, some k⟩]
  | recordNonce n expiry now =>
    ran .empty (.upsertNonce n expiry now) (1 : Nat) [] [⟨.nonce n, some expiry⟩]
  | purge now expired =>
    ran .empty (.purgeNonces now) expired.length [] (expired.map fun n => ⟨.nonce n, none⟩)
  | debit r a denom m b =>
    let t := ran .empty (.selectBalanceForUpdate a) (some b) [.account a] []
    let t := ran t (.debit denom a) (1 : Nat) [] [⟨.account a, some (b + -denom)⟩]
    ran t (.insertPending r a denom m) (1 : Nat) []
      [⟨.withdrawal r, some ⟨.pending, a, denom, m, none⟩⟩]
  | sign r row signature =>
    ran .empty (.setSigned r signature) (1 : Nat) []
      [⟨.withdrawal r, some { row with state := .signed, blindSignature := some signature }⟩]
  | complete r row =>
    ran .empty (.setState r .completed) (1 : Nat) []
      [⟨.withdrawal r, some { row with state := .completed }⟩]
  | compensate r row b =>
    let t := ran .empty (.credit row.denominationCents row.accountId) (1 : Nat) []
      [⟨.account row.accountId, some (b + row.denominationCents)⟩]
    ran t (.setState r .compensated) (1 : Nat) []
      [⟨.withdrawal r, some { row with state := .compensated }⟩]
  | deposit r row b =>
    let t := ran .empty (.selectDeposit r) none [] []
    let t := ran t (.insertSpent row.coin r) (1 : Nat) [] [⟨.spent row.coin, some r⟩]
    let t := ran t (.credit row.coin.denominationCents row.accountId) (1 : Nat) []
      [⟨.account row.accountId, some (b + row.coin.denominationCents)⟩]
    ran t (.insertDeposit r row.coin row.accountId) (1 : Nat) [] [⟨.deposit r, some row⟩]

/-- What an entry does to the tables. -/
def apply : Entry → Tables → Tables
  | openAccount a b, db => { db with accounts := db.accounts.put a (some b) }
  | register a k, db => { db with identities := db.identities.put a (some k) }
  | recordNonce n expiry _, db => { db with nonceStore := db.nonceStore.put n (some expiry) }
  | purge _ expired, db =>
    { db with nonceStore := expired.foldl (fun t n => t.put n none) db.nonceStore }
  | debit r a denom m b, db =>
    { db with
      accounts := db.accounts.put a (some (b + -denom))
      withdrawStates := db.withdrawStates.put r (some ⟨.pending, a, denom, m, none⟩) }
  | sign r row signature, db =>
    { db with
      withdrawStates := db.withdrawStates.put r
        (some { row with state := .signed, blindSignature := some signature }) }
  | complete r row, db =>
    { db with
      withdrawStates := db.withdrawStates.put r (some { row with state := .completed }) }
  | compensate r row b, db =>
    { db with
      accounts := db.accounts.put row.accountId (some (b + row.denominationCents))
      withdrawStates := db.withdrawStates.put r (some { row with state := .compensated }) }
  | deposit r row b, db =>
    { db with
      accounts := db.accounts.put row.accountId (some (b + row.coin.denominationCents))
      spentSerials := db.spentSerials.put row.coin (some r)
      deposits := db.deposits.put r (some row) }

/-- **The statements of an entry do to the tables what the entry does.** -/
theorem applyWrites_tx (e : Entry) (db : Tables) :
    applyWrites (D := database) db e.tx.writes = e.apply db := by
  cases e with
  | purge now expired =>
    have key : ∀ (l : List String) (db : Tables),
        applyWrites (D := database) db (l.map fun n => ⟨.nonce n, none⟩) =
          { db with nonceStore := l.foldl (fun t n => t.put n none) db.nonceStore } := by
      intro l
      induction l with
      | nil => exact fun _ => rfl
      | cons n l ih => exact fun db => ih _
    exact key expired db
  | _ => rfl

end Entry

/-! ## When an entry may be committed -/

/-- What signing this row's message under `κ` gives; `none` without a key. -/
def Config.sign (κ : Config X) (row : WithdrawRow) : Option (Except CoreError Bytes) :=
  (u64TryFrom row.denominationCents).bind fun denom =>
    (κ.keys.get denom schemeIdRsaDeterministic).map fun keypair =>
      signBlinded keypair.sk row.blindedMessage

/-- The row carries `signature` as its result. -/
structure WithdrawRow.Signed (row : WithdrawRow) (signature : Bytes) : Prop where
  state : row.state = .signed ∨ row.state = .completed
  blindSignature : row.blindSignature = some signature

/-- What a row can be once somebody who runs under `κ` has seen it `pending`: still pending,
    or finalized the one way `κ` finalizes it. -/
def Finalizing (κ : Config X) (row : WithdrawRow) : Prop :=
  row.state = .pending ∨
    match κ.sign row with
    | none => False
    | some (.ok signature) => row.Signed signature
    | some (.error _) => row.state = .compensated

/-- What an entry asks of the tables it meets. -/
def Entry.Valid (κ : Config X) (db : Tables) : Entry → Prop
  | openAccount a b => db.accounts.lookup a = none ∧ 0 ≤ b ∧ b ≤ i64Max
  | register a _ => db.identities.lookup a = none
  | recordNonce n _ now => ∀ expiresAt, db.nonceStore.lookup n = some expiresAt → expiresAt ≤ now
  | purge now expired =>
    ∀ n, n ∈ expired ↔ ∃ expiresAt ≤ now, db.nonceStore.lookup n = some expiresAt
  | debit r a denom _ b =>
    db.accounts.lookup a = some b ∧ db.withdrawStates.lookup r = none ∧
      0 ≤ denom ∧ denom ≤ i64Max ∧ denom ≤ b
  | sign r row signature =>
    db.withdrawStates.lookup r = some row ∧ κ.sign row = some (.ok signature) ∧
      Finalizing κ row
  | complete r row => db.withdrawStates.lookup r = some row ∧ ∃ signature, row.Signed signature
  | compensate r row b =>
    db.withdrawStates.lookup r = some row ∧ (∃ e, κ.sign row = some (.error e)) ∧
      Finalizing κ row ∧ db.accounts.lookup row.accountId = some b ∧
      b + row.denominationCents ≤ i64Max
  | deposit r row b =>
    db.deposits.lookup r = none ∧ db.spentSerials.lookup row.coin = none ∧
      db.accounts.lookup row.accountId = some b ∧ 0 ≤ row.coin.denominationCents ∧
      b + row.coin.denominationCents ≤ i64Max

/-- The registry accepted the coin of `req` for this call, if there is a registry. -/
def Cleared (κ : Config X) (mem : Memory) (call : CallId) (req : DepositRequest) : Prop :=
  ∀ client, κ.registryClient = some client → ∃ now response,
    ⟨call, client.submission X req.coin.denominationCents req.coin.schemeId
      req.coin.serialNumber now, .ok response⟩ ∈ mem.asked ∧ response.outcome = .accepted

/-- The calls that may commit an entry. -/
def Entry.From (κ : Config X) (mem : Memory) (call : CallId) : Op → Entry → Prop
  | .createAccount a b, openAccount a' b' => a' = a ∧ i64TryFrom b = some b'
  | .registerIdentity a k, register a' k' => a' = a ∧ k' = k
  | .authenticate request, recordNonce n expiry now =>
    ∃ auth clock, readHeaders request = .ok auth ∧ auth.nonce = n ∧
      outsideWindow auth.timestamp clock = false ∧ i64TryFrom clock = some now ∧
      i64TryFrom (saturatingAdd clock nonceTtlSecs) = some expiry
  | .authenticate _, purge _ _ => True
  | .connect, purge _ _ => True
  | .withdraw req, debit r a denom m _ =>
    r = req.requestId ∧ a = req.accountId ∧ i64TryFrom req.denominationCents = some denom ∧
      m = req.blindedMessage
  | .withdraw req, sign r _ _ => r = req.requestId
  | .withdraw req, complete r _ => r = req.requestId
  | .withdraw req, compensate r _ _ => r = req.requestId
  | .connect, sign _ _ _ => True
  | .connect, complete _ _ => True
  | .connect, compensate _ _ _ => True
  | .deposit req, deposit r row _ =>
    r = req.requestId ∧ row.accountId = req.accountId ∧
      (∃ denom, i64TryFrom req.coin.denominationCents = some denom ∧
        row.coin = coinKey req.coin denom) ∧
      Cleared κ mem call req
  | _, _ => False

/-! ## Well-formed tables -/

structure WithdrawRow.WellFormed (db : Tables) (row : WithdrawRow) : Prop where
  denom_nonneg : 0 ≤ row.denominationCents
  denom_le : row.denominationCents ≤ i64Max
  /-- Its account is never deleted, so a credit always finds it. -/
  account : ∃ balance, db.accounts.lookup row.accountId = some balance
  signature : (∃ signature, row.Signed signature) ∨
    (row.state = .pending ∨ row.state = .compensated) ∧ row.blindSignature = none

structure Tables.WellFormed (db : Tables) : Prop where
  balance : ∀ a b, db.accounts.lookup a = some b → 0 ≤ b ∧ b ≤ i64Max
  row : ∀ r row, db.withdrawStates.lookup r = some row → row.WellFormed db

/-! ## What an entry does to one row -/

/-- The two rows are of one request: a withdrawal never changes what it is for. -/
structure WithdrawRow.SameRequest (row row' : WithdrawRow) : Prop where
  accountId : row'.accountId = row.accountId
  denominationCents : row'.denominationCents = row.denominationCents
  blindedMessage : row'.blindedMessage = row.blindedMessage

theorem WithdrawRow.SameRequest.refl (row : WithdrawRow) : row.SameRequest row := ⟨rfl, rfl, rfl⟩

theorem WithdrawRow.SameRequest.trans {row row' row'' : WithdrawRow}
    (h : row.SameRequest row') (h' : row'.SameRequest row'') : row.SameRequest row'' :=
  ⟨h'.accountId.trans h.accountId, h'.denominationCents.trans h.denominationCents,
    h'.blindedMessage.trans h.blindedMessage⟩

theorem WithdrawRow.SameRequest.sign_eq {row row' : WithdrawRow} (h : row.SameRequest row')
    (κ : Config X) : κ.sign row' = κ.sign row := by
  unfold Config.sign
  rw [h.denominationCents, h.blindedMessage]

/-- **The moves of one row of `withdraw_states`**, `none` before its debit. -/
inductive RowMove (κ : Config X) : Option WithdrawRow → Option WithdrawRow → Prop where
  | stay (v : Option WithdrawRow) : RowMove κ v v
  | debit {a : String} {denom : Int} {m : Bytes} (h0 : 0 ≤ denom) (h1 : denom ≤ i64Max) :
      RowMove κ none (some ⟨.pending, a, denom, m, none⟩)
  | sign {row : WithdrawRow} {signature : Bytes} (hs : κ.sign row = some (.ok signature))
      (hf : Finalizing κ row) :
      RowMove κ (some row)
        (some { row with state := .signed, blindSignature := some signature })
  | complete {row : WithdrawRow} {signature : Bytes} (hs : row.Signed signature) :
      RowMove κ (some row) (some { row with state := .completed })
  | compensate {row : WithdrawRow} {e : CoreError} (hs : κ.sign row = some (.error e))
      (hf : Finalizing κ row) :
      RowMove κ (some row) (some { row with state := .compensated })

theorem Entry.rowMove {κ : Config X} {db : Tables} {e : Entry} (h : e.Valid κ db) (r : String) :
    RowMove κ (db.withdrawStates.lookup r) ((e.apply db).withdrawStates.lookup r) := by
  cases e with
  | debit r' a denom m b =>
    obtain ⟨-, hr, h0, h1, -⟩ := h
    rw [apply, Table.lookup_put]
    split
    · subst r
      rw [hr]
      exact .debit h0 h1
    · exact .stay _
  | sign r' row signature =>
    obtain ⟨hr, hs, hf⟩ := h
    rw [apply, Table.lookup_put]
    split
    · subst r
      rw [hr]
      exact .sign hs hf
    · exact .stay _
  | complete r' row =>
    obtain ⟨hr, signature, hs⟩ := h
    rw [apply, Table.lookup_put]
    split
    · subst r
      rw [hr]
      exact .complete hs
    · exact .stay _
  | compensate r' row b =>
    obtain ⟨hr, ⟨e, hs⟩, hf, -⟩ := h
    rw [apply, Table.lookup_put]
    split
    · subst r
      rw [hr]
      exact .compensate hs hf
    · exact .stay _
  | _ => exact .stay _

/-- A row that was finalized the one way `κ` finalizes it was signed with this signature. -/
theorem Finalizing.signed {κ : Config X} {row : WithdrawRow} {signature signature' : Bytes}
    (hf : Finalizing κ row) (hs : κ.sign row = some (.ok signature))
    (hr : row.Signed signature') : row.Signed signature := by
  unfold Finalizing at hf
  rw [hs] at hf
  rcases hf with hp | hf
  · rcases hr.state with h | h <;> rw [hp] at h <;> exact absurd h (by decide)
  · exact hf

/-- A signed row was not finalized by compensating. -/
theorem Finalizing.not_signed {κ : Config X} {row : WithdrawRow} {signature : Bytes}
    {e : CoreError} (hf : Finalizing κ row) (hs : κ.sign row = some (.error e)) :
    ¬ row.Signed signature := by
  unfold Finalizing at hf
  rw [hs] at hf
  intro hr
  rcases hf with hp | hp <;> rcases hr.state with h | h <;> rw [hp] at h <;>
    exact absurd h (by decide)

/-- A signature once released stays. -/
theorem RowMove.signed {κ : Config X} {row : WithdrawRow} {v : Option WithdrawRow}
    {signature : Bytes} (hr : row.Signed signature) (h : RowMove κ (some row) v) :
    ∃ row', v = some row' ∧ row.SameRequest row' ∧ row'.Signed signature := by
  cases h with
  | stay => exact ⟨row, rfl, .refl row, hr⟩
  | sign hs hf =>
    have heq := (hf.signed hs hr).blindSignature
    rw [hr.blindSignature] at heq
    exact ⟨_, rfl, ⟨rfl, rfl, rfl⟩, Or.inl rfl, heq.symm⟩
  | complete _ => exact ⟨_, rfl, ⟨rfl, rfl, rfl⟩, Or.inr rfl, hr.blindSignature⟩
  | compensate hs hf => exact absurd hr (hf.not_signed hs)

/-- What a finalizer knows about its row stays true while the others go on. -/
theorem RowMove.finalizing {κ : Config X} {row : WithdrawRow} {v : Option WithdrawRow}
    (hf : Finalizing κ row) (h : RowMove κ (some row) v) :
    ∃ row', v = some row' ∧ row.SameRequest row' ∧ Finalizing κ row' := by
  cases h with
  | stay => exact ⟨row, rfl, .refl row, hf⟩
  | @sign _ signature hs _ =>
    have hreq : row.SameRequest
        { row with state := .signed, blindSignature := some signature } := ⟨rfl, rfl, rfl⟩
    refine ⟨_, rfl, hreq, Or.inr ?_⟩
    rw [hreq.sign_eq, hs]
    exact ⟨Or.inl rfl, rfl⟩
  | @complete _ signature hs =>
    have hreq : row.SameRequest { row with state := .completed } := ⟨rfl, rfl, rfl⟩
    refine ⟨_, rfl, hreq, Or.inr ?_⟩
    rw [hreq.sign_eq]
    cases hk : κ.sign row with
    | none =>
      unfold Finalizing at hf
      rw [hk] at hf
      rcases hf with hp | hf
      · rcases hs.state with h | h <;> rw [hp] at h <;> exact absurd h (by decide)
      · exact hf
    | some outcome =>
      cases outcome with
      | ok signature' => exact ⟨Or.inr rfl, (hf.signed hk hs).blindSignature⟩
      | error e => exact absurd hs (hf.not_signed hk)
  | compensate hs _ =>
    have hreq : row.SameRequest { row with state := .compensated } := ⟨rfl, rfl, rfl⟩
    refine ⟨_, rfl, hreq, Or.inr ?_⟩
    rw [hreq.sign_eq, hs]

/-! ## Entries keep the tables well formed -/

theorem Entry.account_stays {κ : Config X} {db : Tables} {e : Entry} (h : e.Valid κ db)
    {a : String} (ha : ∃ b, db.accounts.lookup a = some b) :
    ∃ b, (e.apply db).accounts.lookup a = some b := by
  have hput : ∀ (t : Table String Int) (a' : String) (b : Int),
      (∃ b, t.lookup a = some b) → ∃ b', (t.put a' (some b)).lookup a = some b' := by
    intro t a' b ht
    rw [Table.lookup_put]
    split
    · exact ⟨b, rfl⟩
    · exact ht
  cases e with
  | openAccount a' b => exact hput _ _ _ ha
  | debit _ a' _ _ b => exact hput _ _ _ ha
  | compensate _ row b => exact hput _ _ _ ha
  | deposit _ row b => exact hput _ _ _ ha
  | _ => exact ha

/-- Every balance stays in its column's range. -/
theorem Entry.balance_wellFormed {κ : Config X} {db : Tables} {e : Entry} (hw : db.WellFormed)
    (h : e.Valid κ db) {a : String} {b : Int} (ha : (e.apply db).accounts.lookup a = some b) :
    0 ≤ b ∧ b ≤ i64Max := by
  have hput : ∀ (a' : String) (b' : Int), 0 ≤ b' ∧ b' ≤ i64Max →
      (db.accounts.put a' (some b')).lookup a = some b → 0 ≤ b ∧ b ≤ i64Max := by
    intro a' b' hb' hl
    rw [Table.lookup_put] at hl
    split at hl
    · obtain rfl := Option.some.inj hl
      exact hb'
    · exact hw.balance a b hl
  cases e with
  | openAccount a' b' => exact hput _ _ h.2 ha
  | debit r a' denom m b' =>
    obtain ⟨hb, -, h0, -, hle⟩ := h
    have := hw.balance a' b' hb
    exact hput _ _ ⟨by omega, by omega⟩ ha
  | compensate r row b' =>
    obtain ⟨hr, -, -, hb, hle⟩ := h
    have := hw.balance _ b' hb
    have := (hw.row r row hr).denom_nonneg
    exact hput _ _ ⟨by omega, hle⟩ ha
  | deposit r row b' =>
    obtain ⟨-, -, hb, h0, hle⟩ := h
    have := hw.balance _ b' hb
    exact hput _ _ ⟨by omega, hle⟩ ha
  | _ => exact hw.balance a b ha

/-- A withdrawal that was not there before is that of a debit. -/
theorem Entry.new_row {κ : Config X} {db : Tables} {e : Entry} (h : e.Valid κ db)
    {r : String} {row : WithdrawRow} (hn : db.withdrawStates.lookup r = none)
    (hr : (e.apply db).withdrawStates.lookup r = some row) :
    ∃ a denom m b, e = .debit r a denom m b ∧ row = ⟨.pending, a, denom, m, none⟩ := by
  have hput : ∀ (r' : String) (old new : WithdrawRow), db.withdrawStates.lookup r' = some old →
      (db.withdrawStates.put r' (some new)).lookup r ≠ some row := by
    intro r' old new hold hl
    rw [Table.lookup_put] at hl
    split at hl
    · subst r
      rw [hn] at hold
      exact absurd hold (by simp)
    · rw [hn] at hl
      exact absurd hl (by simp)
  cases e with
  | debit r' a denom m b =>
    simp only [apply, Table.lookup_put] at hr
    split at hr
    · rename_i heq
      obtain rfl := Option.some.inj hr
      exact ⟨a, denom, m, b, by rw [heq], rfl⟩
    · rw [hn] at hr
      exact absurd hr (by simp)
  | sign r' old signature => exact absurd hr (hput _ _ _ h.1)
  | complete r' old => exact absurd hr (hput _ _ _ h.1)
  | compensate r' old b => exact absurd hr (hput _ _ _ h.1)
  | _ => exact absurd hr (by simp [apply, hn])

/-- And it is recorded for an account that is there. -/
theorem Entry.new_account {κ : Config X} {db : Tables} {e : Entry} (h : e.Valid κ db)
    {r : String} {row : WithdrawRow} (hn : db.withdrawStates.lookup r = none)
    (hr : (e.apply db).withdrawStates.lookup r = some row) :
    ∃ b, (e.apply db).accounts.lookup row.accountId = some b := by
  obtain ⟨a, denom, m, b, rfl, rfl⟩ := new_row h hn hr
  exact ⟨_, Table.lookup_put_self _ _ _⟩

theorem Entry.wellFormed {κ : Config X} {db : Tables} {e : Entry} (hw : db.WellFormed)
    (h : e.Valid κ db) : (e.apply db).WellFormed := by
  refine ⟨fun a b ha => balance_wellFormed hw h ha, fun r row' hr' => ?_⟩
  have hmove := rowMove h r
  rw [hr'] at hmove
  generalize hv : db.withdrawStates.lookup r = v at hmove
  have hold : ∀ row, v = some row → row.WellFormed db := fun row hrow => hw.row r row (hv.trans hrow)
  cases hmove with
  | stay =>
    have := hold row' rfl
    exact { this with account := account_stays h this.account }
  | debit h0 h1 =>
    exact ⟨h0, h1, new_account h hv hr', Or.inr ⟨Or.inl rfl, rfl⟩⟩
  | sign hs hf =>
    have := hold _ rfl
    exact ⟨this.denom_nonneg, this.denom_le, account_stays h this.account,
      Or.inl ⟨_, Or.inl rfl, rfl⟩⟩
  | complete hs =>
    have := hold _ rfl
    exact ⟨this.denom_nonneg, this.denom_le, account_stays h this.account,
      Or.inl ⟨_, Or.inr rfl, hs.blindSignature⟩⟩
  | compensate hs hf =>
    have := hold _ rfl
    refine ⟨this.denom_nonneg, this.denom_le, account_stays h this.account, Or.inr ⟨Or.inr rfl, ?_⟩⟩
    rcases this.signature with ⟨signature, hsig⟩ | hnone
    · exact absurd hsig (hf.not_signed hs)
    · exact hnone.2

/-- A row of `deposits` is never changed or removed. -/
theorem Entry.deposit_stays {κ : Config X} {db : Tables} {e : Entry} (h : e.Valid κ db)
    {r : String} {row : DepositRow} (hr : db.deposits.lookup r = some row) :
    (e.apply db).deposits.lookup r = some row := by
  cases e with
  | deposit r' row' b =>
    have hne : r ≠ r' := fun he => by
      subst he
      rw [h.1] at hr
      exact absurd hr (by simp)
    rw [apply, Table.lookup_put_ne hne, hr]
  | _ => exact hr

/-! ## The protocol -/

abbrev State (X : Crypto) := Shared database (service X).Op

/-- The request's withdrawal carries `signature`. -/
def Tables.Released (db : Tables) (requestId : String) (signature : Bytes) : Prop :=
  ∃ row, db.withdrawStates.lookup requestId = some row ∧ row.Signed signature

/-- The call recorded the nonce of its request. -/
def Recorded (call : CallId) (request : Request) (sh : State X) : Prop :=
  ∃ c ∈ sh.hist, c.call = call ∧ c.op = .authenticate request ∧
    ∃ n expiry now, c.tx = (Entry.recordNonce n expiry now).tx

/-- A deposit of this request's coin stands under its request id. -/
def Tables.Credited (db : Tables) (req : DepositRequest) : Prop :=
  ∃ row denom, db.deposits.lookup req.requestId = some row ∧
    i64TryFrom req.coin.denominationCents = some denom ∧ row.coin = coinKey req.coin denom

/-- What an answer promises. -/
def Post (κ : Config X) (call : CallId) : Op → Ans → State X → Prop
  | .withdraw req, .withdraw (.ok response), sh =>
    sh.db.Released req.requestId response.blindSignature
  | .withdraw _, .withdraw (.error e), _ => ∀ r m, e ≠ .malformedRecord r m
  | _, .withdraw _, _ => False
  | .deposit req, .deposit (.ok response), sh =>
    response.accepted = true → sh.db.Credited req ∧ Cleared κ sh.mem call req
  | .authenticate request, .authenticate (.ok _), sh => Recorded call request sh
  | _, _, _ => True

@[reducible] def ledger (X : Crypto) : Ledger (service X) where
  Entry := Entry
  tx := Entry.tx
  apply := Entry.apply
  applyWrites_tx := Entry.applyWrites_tx
  Valid κ db e := e.Valid κ db
  From κ mem call op e := e.From κ mem call op

@[reducible] def protocol (X : Crypto) : Protocol (service X) :=
  (ledger X).protocol Tables.WellFormed Post

end Digicash.Bank
