import Digicash.Lib.Service
import Digicash.Proto

/-!
# The bank's database

The six tables of the bank's schema, and each SQL statement of the bank as what it does to
them. A column with a `CHECK` on a closed list of texts is the enumeration; a `BIGINT` is an
`Int`, and a statement whose result leaves the range fails as Postgres fails it.

`INSERT … ON CONFLICT DO NOTHING` waits where the conflicting row is somebody's uncommitted
insert, since the row is then one it would write; on a committed row it does nothing at once.
-/

namespace Digicash.Bank

open Lib

/-- State of a withdrawal, keyed by `request_id`. -/
inductive WithdrawState where
  | pending
  | signed
  | completed
  | compensated
deriving DecidableEq, Repr

/-- The primary key of `spent_serials`. -/
structure CoinKey where
  schemeId : Int
  denominationCents : Int
  serialNumber : Bytes
deriving DecidableEq, Repr

structure WithdrawRow where
  state : WithdrawState
  accountId : String
  denominationCents : Int
  blindedMessage : Bytes
  blindSignature : Option Bytes
deriving DecidableEq, Repr

/-- A row of `deposits`; `coin` is its columns `scheme_id`, `denomination_cents` and
    `serial_number`. -/
structure DepositRow where
  coin : CoinKey
  accountId : String
deriving DecidableEq, Repr

structure Tables where
  /-- `account_id` to `balance_cents`. -/
  accounts : Table String Int
  /-- `account_id` to `pubkey`. -/
  identities : Table String Bytes
  /-- The coin to the `request_id` that spent it. -/
  spentSerials : Table CoinKey String
  withdrawStates : Table String WithdrawRow
  deposits : Table String DepositRow
  /-- `nonce` to `expires_at`. -/
  nonceStore : Table String Int

def Tables.empty : Tables := ⟨∅, ∅, ∅, ∅, ∅, ∅⟩

/-! ## Rows -/

inductive Row where
  | account (accountId : String)
  | identity (accountId : String)
  | spent (coin : CoinKey)
  | withdrawal (requestId : String)
  | deposit (requestId : String)
  | nonce (nonce : String)
deriving DecidableEq, Repr

@[reducible] def Cell : Row → Type
  | .account _ => Int
  | .identity _ => Bytes
  | .spent _ => String
  | .withdrawal _ => WithdrawRow
  | .deposit _ => DepositRow
  | .nonce _ => Int

def Tables.get (db : Tables) : (r : Row) → Option (Cell r)
  | .account a => db.accounts.lookup a
  | .identity a => db.identities.lookup a
  | .spent c => db.spentSerials.lookup c
  | .withdrawal r => db.withdrawStates.lookup r
  | .deposit r => db.deposits.lookup r
  | .nonce n => db.nonceStore.lookup n

def Tables.put (db : Tables) : (r : Row) → Option (Cell r) → Tables
  | .account a, v => { db with accounts := db.accounts.put a v }
  | .identity a, v => { db with identities := db.identities.put a v }
  | .spent c, v => { db with spentSerials := db.spentSerials.put c v }
  | .withdrawal r, v => { db with withdrawStates := db.withdrawStates.put r v }
  | .deposit r, v => { db with deposits := db.deposits.put r v }
  | .nonce n, v => { db with nonceStore := db.nonceStore.put n v }

theorem Tables.get_put_self (db : Tables) (r : Row) (v : Option (Cell r)) :
    (db.put r v).get r = v := by
  cases r <;> exact Table.lookup_put_self _ _ _

theorem Tables.get_put_ne (db : Tables) (r : Row) (v : Option (Cell r)) (r' : Row)
    (h : r' ≠ r) : (db.put r v).get r' = db.get r' := by
  cases r <;> cases r' <;> first
    | rfl
    | exact Table.lookup_put_ne fun he => h (he ▸ rfl)

/-! ## Statements -/

inductive Stmt where
  /-- The startup scan for `pending` and `signed` withdrawals. -/
  | selectInFlight
  | insertAccount (accountId : String) (balance : Int)
  | selectBalance (accountId : String)
  | insertIdentity (accountId : String) (pubkey : Bytes)
  | selectPubkey (accountId : String)
  | upsertNonce (nonce : String) (expiry now : Int)
  | purgeNonces (now : Int)
  | selectSpent (coin : CoinKey)
  | selectWithdrawal (requestId : String)
  | setSigned (requestId : String) (signature : Bytes)
  | setState (requestId : String) (state : WithdrawState)
  | selectBalanceForUpdate (accountId : String)
  | debit (denom : Int) (accountId : String)
  | credit (denom : Int) (accountId : String)
  | insertPending (requestId accountId : String) (denom : Int) (blindedMessage : Bytes)
  | selectDeposit (requestId : String)
  | insertSpent (coin : CoinKey) (requestId : String)
  | insertDeposit (requestId : String) (coin : CoinKey) (accountId : String)
deriving DecidableEq, Repr

/-- What a statement returns: rows for a `SELECT`, the number of rows otherwise. -/
@[reducible] def Stmt.Res : Stmt → Type
  | .selectInFlight => List (String × WithdrawRow)
  | .selectBalance _ => Option Int
  | .selectPubkey _ => Option Bytes
  | .selectSpent _ => Option String
  | .selectWithdrawal _ => Option WithdrawRow
  | .selectBalanceForUpdate _ => Option Int
  | .selectDeposit _ => Option DepositRow
  | _ => Nat

/-- What is decided outside the program: the clock, the order of an unordered result, the
    registry's reply. -/
structure Oracle where
  clock : UInt64 := 0
  inFlight : List (String × WithdrawRow) := []
  reply : Except String SerialResponse := .error ""

instance : Inhabited Oracle := ⟨{}⟩

abbrev Eff (s : Stmt) := Effect Cell s.Res

/-- `UPDATE accounts SET balance_cents = balance_cents + delta`, under the column's range and
    its `CHECK (balance_cents >= 0)`. -/
def addBalance (db : Tables) (accountId : String) (delta : Int) : Effect Cell Nat :=
  match db.accounts.lookup accountId with
  | none => .read 0
  | some balance =>
    if balance + delta < i64Min ∨ i64Max < balance + delta then
      .fail [.account accountId] .numericOverflow
    else if balance + delta < 0 then .fail [.account accountId] .checkViolation
    else .write [] 1 [⟨.account accountId, some (balance + delta)⟩]

/-- `UPDATE withdraw_states … WHERE request_id`. -/
def updateWithdrawal (db : Tables) (requestId : String) (f : WithdrawRow → WithdrawRow) :
    Effect Cell Nat :=
  match db.withdrawStates.lookup requestId with
  | none => .read 0
  | some row => .write [] 1 [⟨.withdrawal requestId, some (f row)⟩]

def WithdrawState.inFlight : WithdrawState → Bool
  | .pending | .signed => true
  | .completed | .compensated => false

def exec : (s : Stmt) → Oracle → Tables → Eff s
  | .selectInFlight, o, db =>
    .read (arrange (db.withdrawStates.rows.filter fun r => r.2.state.inFlight) o.inFlight)
  | .insertAccount a balance, _, db =>
    match db.accounts.lookup a with
    | some _ => .read (0 : Nat)
    | none =>
      if balance < 0 then .fail [] .checkViolation
      else .write [] (1 : Nat) [⟨.account a, some balance⟩]
  | .selectBalance a, _, db => .read (db.accounts.lookup a)
  | .insertIdentity a pubkey, _, db =>
    match db.identities.lookup a with
    | some _ => .read (0 : Nat)
    | none => .write [] (1 : Nat) [⟨.identity a, some pubkey⟩]
  | .selectPubkey a, _, db => .read (db.identities.lookup a)
  | .upsertNonce n expiry now, _, db =>
    match db.nonceStore.lookup n with
    | some expiresAt =>
      if expiresAt ≤ now then .write [] (1 : Nat) [⟨.nonce n, some expiry⟩] else .read (0 : Nat)
    | none => .write [] (1 : Nat) [⟨.nonce n, some expiry⟩]
  | .purgeNonces now, _, db =>
    let expired := db.nonceStore.rows.filter fun r => r.2 ≤ now
    .write [] expired.length (expired.map fun r => ⟨.nonce r.1, none⟩)
  | .selectSpent c, _, db => .read (db.spentSerials.lookup c)
  | .selectWithdrawal r, _, db => .read (db.withdrawStates.lookup r)
  | .setSigned r signature, _, db =>
    updateWithdrawal db r fun row =>
      { row with state := .signed, blindSignature := some signature }
  | .setState r state, _, db => updateWithdrawal db r fun row => { row with state := state }
  | .selectBalanceForUpdate a, _, db =>
    match db.accounts.lookup a with
    | none => .read none
    | some balance => .write [.account a] (some balance) []
  | .debit denom a, _, db => addBalance db a (-denom)
  | .credit denom a, _, db => addBalance db a denom
  | .insertPending r a denom blindedMessage, _, db =>
    match db.withdrawStates.lookup r with
    | some _ => .fail [.withdrawal r] .uniqueViolation
    | none => .write [] (1 : Nat) [⟨.withdrawal r, some ⟨.pending, a, denom, blindedMessage, none⟩⟩]
  | .selectDeposit r, _, db => .read (db.deposits.lookup r)
  | .insertSpent c r, _, db =>
    match db.spentSerials.lookup c with
    | some _ => .read (0 : Nat)
    | none => .write [] (1 : Nat) [⟨.spent c, some r⟩]
  | .insertDeposit r c a, _, db =>
    match db.deposits.lookup r with
    | some _ => .fail [.deposit r] .uniqueViolation
    | none => .write [] (1 : Nat) [⟨.deposit r, some ⟨c, a⟩⟩]

/-! ## The process -/

/-- One submission to the registry and what came back. -/
structure Asked where
  call : CallId
  submission : SerialSubmission
  reply : Except String SerialResponse

structure Memory where
  phase : Phase
  nonceOps : UInt64
  /-- Every clock reading, newest first. A ghost. -/
  readings : List UInt64
  /-- Every answered submission, newest first. A ghost. -/
  asked : List Asked

def Memory.fresh : Memory := ⟨.down, 0, [], []⟩

inductive Ext where
  | nowUnix
  /-- `nonce_ops.fetch_add(1)`, which returns the old value. -/
  | nonceOpsFetchAdd
  /-- `POST /serials` to the registry. -/
  | postSerials (submission : SerialSubmission)
  /-- `connect` returned and the server starts. -/
  | serve

@[reducible] def Ext.Res : Ext → Type
  | .nowUnix => UInt64
  | .nonceOpsFetchAdd => UInt64
  | .postSerials _ => Except String SerialResponse
  | .serve => Unit

def runExt (i : CallId) : (e : Ext) → Oracle → Memory → Option (e.Res × Memory)
  | .nowUnix, o, m => some (o.clock, { m with readings := o.clock :: m.readings })
  | .nonceOpsFetchAdd, _, m => some (m.nonceOps, { m with nonceOps := m.nonceOps + 1 })
  | .postSerials submission, o, m =>
    some (o.reply, { m with asked := ⟨i, submission, o.reply⟩ :: m.asked })
  | .serve, _, m => some ((), { m with phase := .up })

@[reducible] def database : Database where
  Db := Tables
  Row := Row
  Cell := Cell
  get := Tables.get
  put := Tables.put
  get_put_self := Tables.get_put_self
  get_put_ne := Tables.get_put_ne
  Stmt := Stmt
  Res := Stmt.Res
  Oracle := Oracle
  exec := exec
  Mem := Memory
  Ext := Ext
  ExtRes := Ext.Res
  ext := runExt

end Digicash.Bank
