import Mathlib.Data.List.Sort
import Digicash.Lib.Service
import Digicash.Proto

/-!
# The registry's database

The seven tables of the registry's schema and its SQL statements, as for the bank. Two of the
tables are append-only with a `BIGSERIAL` key.

A `SELECT` over `receivables` locks nothing; the `DELETE` without a predicate locks every row
it finds when it runs. What lands between the two is not in what was read and is in what is
deleted.
-/

namespace Digicash.Registry

open Lib

structure MemberRow where
  pubkey : Bytes
  isAdmin : Bool
deriving DecidableEq, Repr

/-- The primary key of `serials`. -/
structure SerialKey where
  denominationCents : Int
  schemeId : Int
  serialHex : String
deriving DecidableEq, Repr

structure SerialRow where
  firstBankId : String
  firstTranscript : String
  firstSeenAt : Int
deriving DecidableEq, Repr

/-- A row of `transcripts`; `serial` is its columns `denomination_cents`, `scheme_id` and
    `serial_hex`. -/
structure TranscriptRow where
  serial : SerialKey
  bankId : String
  transcript : String
  seenAt : Int
deriving DecidableEq, Repr

/-- The primary key of `exposure_caps` and of `receivables`: who issued, who deposits. -/
structure Pair where
  issuingBankId : String
  depositingBankId : String
deriving DecidableEq, Repr

/-- The pair the other way round. -/
def Pair.swap (p : Pair) : Pair := ⟨p.depositingBankId, p.issuingBankId⟩

@[simp] theorem Pair.swap_swap (p : Pair) : p.swap.swap = p := rfl

/-- A row of `settlement_claims`; in `pair` the issuing bank owes the depositing one. -/
structure ClaimRow where
  pair : Pair
  netAmountCents : Int
  windowEnd : Int
  createdAt : Int
deriving DecidableEq, Repr

structure Tables where
  members : Table String MemberRow
  serials : Table SerialKey SerialRow
  transcripts : Table Nat TranscriptRow
  /-- The pair to `cap_cents`. -/
  exposureCaps : Table Pair Int
  /-- The pair to `amount_cents`. -/
  receivables : Table Pair Int
  settlementClaims : Table Nat ClaimRow
  /-- `nonce` to `expires_at`. -/
  nonceStore : Table String Int

def Tables.empty : Tables := ⟨∅, ∅, ∅, ∅, ∅, ∅, ∅⟩

/-! ## Rows -/

inductive Row where
  | member (bankId : String)
  | serial (key : SerialKey)
  | transcript (id : Nat)
  | exposureCap (pair : Pair)
  | receivable (pair : Pair)
  | claim (id : Nat)
  | nonce (nonce : String)
deriving DecidableEq, Repr

@[reducible] def Cell : Row → Type
  | .member _ => MemberRow
  | .serial _ => SerialRow
  | .transcript _ => TranscriptRow
  | .exposureCap _ => Int
  | .receivable _ => Int
  | .claim _ => ClaimRow
  | .nonce _ => Int

def Tables.get (db : Tables) : (r : Row) → Option (Cell r)
  | .member b => db.members.lookup b
  | .serial k => db.serials.lookup k
  | .transcript id => db.transcripts.lookup id
  | .exposureCap p => db.exposureCaps.lookup p
  | .receivable p => db.receivables.lookup p
  | .claim id => db.settlementClaims.lookup id
  | .nonce n => db.nonceStore.lookup n

def Tables.put (db : Tables) : (r : Row) → Option (Cell r) → Tables
  | .member b, v => { db with members := db.members.put b v }
  | .serial k, v => { db with serials := db.serials.put k v }
  | .transcript id, v => { db with transcripts := db.transcripts.put id v }
  | .exposureCap p, v => { db with exposureCaps := db.exposureCaps.put p v }
  | .receivable p, v => { db with receivables := db.receivables.put p v }
  | .claim id, v => { db with settlementClaims := db.settlementClaims.put id v }
  | .nonce n, v => { db with nonceStore := db.nonceStore.put n v }

theorem Tables.get_put_self (db : Tables) (r : Row) (v : Option (Cell r)) :
    (db.put r v).get r = v := by
  cases r <;> exact Table.lookup_put_self _ _ _

theorem Tables.get_put_ne (db : Tables) (r : Row) (v : Option (Cell r)) (r' : Row)
    (h : r' ≠ r) : (db.put r v).get r' = db.get r' := by
  cases r <;> cases r' <;> first
    | rfl
    | exact Table.lookup_put_ne fun he => h (he ▸ rfl)

/-! ## Statements -/

inductive Stmt where
  | insertMember (bankId : String) (pubkey : Bytes) (isAdmin : Bool)
  | selectMemberPubkey (bankId : String)
  | selectIsAdmin (bankId : String)
  | selectCap (pair : Pair)
  | selectReceivable (pair : Pair)
  | insertTranscript (row : TranscriptRow)
  | insertSerial (key : SerialKey) (row : SerialRow)
  | addReceivable (pair : Pair) (denom : Int)
  | selectTranscripts (key : SerialKey)
  /-- The receivables with `amount_cents > 0`. -/
  | selectReceivables
  | insertClaim (row : ClaimRow)
  | deleteReceivables
  | upsertCap (pair : Pair) (cap : Int)
  | upsertNonce (nonce : String) (expiry now : Int)
  | purgeNonces (now : Int)
deriving DecidableEq, Repr

/-- What a statement returns: rows for a `SELECT`, the number of rows otherwise. -/
@[reducible] def Stmt.Res : Stmt → Type
  | .selectMemberPubkey _ => Option Bytes
  | .selectIsAdmin _ => Option Bool
  | .selectCap _ => Option Int
  | .selectReceivable _ => Option Int
  | .selectTranscripts _ => List TranscriptRow
  | .selectReceivables => List (Pair × Int)
  | _ => Nat

/-- What is decided outside the program: the clock, the order of an unordered result, the
    next value of a sequence. -/
structure Oracle where
  clock : UInt64 := 0
  receivables : List (Pair × Int) := []
  nextval : Nat := 0

instance : Inhabited Oracle := ⟨{}⟩

abbrev Eff (s : Stmt) := Effect Cell s.Res

/-- `ORDER BY seen_at, id`, on rows with their ids. -/
def seenBefore (a b : Nat × TranscriptRow) : Prop :=
  a.2.seenAt < b.2.seenAt ∨ a.2.seenAt = b.2.seenAt ∧ a.1 ≤ b.1

instance : DecidableRel seenBefore := fun _ _ => inferInstanceAs (Decidable (_ ∨ _ ∧ _))

/-- The transcripts of one serial in the order they were seen. -/
def Tables.transcriptsOf (db : Tables) (key : SerialKey) : List TranscriptRow :=
  ((db.transcripts.rows.filter fun r => r.2.serial = key).insertionSort seenBefore).map Prod.snd

def exec : (s : Stmt) → Oracle → Tables → Eff s
  | .insertMember b pubkey isAdmin, _, db =>
    match db.members.lookup b with
    | some _ => .read (0 : Nat)
    | none => .write [] (1 : Nat) [⟨.member b, some ⟨pubkey, isAdmin⟩⟩]
  | .selectMemberPubkey b, _, db => .read ((db.members.lookup b).map MemberRow.pubkey)
  | .selectIsAdmin b, _, db => .read ((db.members.lookup b).map MemberRow.isAdmin)
  | .selectCap p, _, db => .read (db.exposureCaps.lookup p)
  | .selectReceivable p, _, db => .read (db.receivables.lookup p)
  | .insertTranscript row, o, db =>
    .write [] (1 : Nat) [⟨.transcript (db.transcripts.nextKey o.nextval), some row⟩]
  | .insertSerial k row, _, db =>
    match db.serials.lookup k with
    | some _ => .read (0 : Nat)
    | none => .write [] (1 : Nat) [⟨.serial k, some row⟩]
  | .addReceivable p denom, _, db =>
    match db.receivables.lookup p with
    | none =>
      if denom < 0 then .fail [] .checkViolation
      else .write [] (1 : Nat) [⟨.receivable p, some denom⟩]
    | some amount =>
      if amount + denom < i64Min ∨ i64Max < amount + denom then
        .fail [.receivable p] .numericOverflow
      else if amount + denom < 0 then .fail [.receivable p] .checkViolation
      else .write [] (1 : Nat) [⟨.receivable p, some (amount + denom)⟩]
  | .selectTranscripts k, _, db => .read (db.transcriptsOf k)
  | .selectReceivables, o, db =>
    .read (arrange (db.receivables.rows.filter fun r => 0 < r.2) o.receivables)
  | .insertClaim row, o, db =>
    .write [] (1 : Nat) [⟨.claim (db.settlementClaims.nextKey o.nextval), some row⟩]
  | .deleteReceivables, _, db =>
    .write [] db.receivables.rows.length
      (db.receivables.rows.map fun r => ⟨.receivable r.1, none⟩)
  | .upsertCap p cap, _, _ =>
    if cap < 0 then .fail [] .checkViolation
    else .write [] (1 : Nat) [⟨.exposureCap p, some cap⟩]
  | .upsertNonce n expiry now, _, db =>
    match db.nonceStore.lookup n with
    | some expiresAt =>
      if expiresAt ≤ now then .write [] (1 : Nat) [⟨.nonce n, some expiry⟩] else .read (0 : Nat)
    | none => .write [] (1 : Nat) [⟨.nonce n, some expiry⟩]
  | .purgeNonces now, _, db =>
    let expired := db.nonceStore.rows.filter fun r => r.2 ≤ now
    .write [] expired.length (expired.map fun r => ⟨.nonce r.1, none⟩)

/-! ## The process -/

structure Memory where
  phase : Phase
  nonceOps : UInt64
  /-- Every clock reading, newest first. A ghost. -/
  readings : List UInt64

def Memory.fresh : Memory := ⟨.down, 0, []⟩

inductive Ext where
  | nowUnix
  /-- `nonce_ops.fetch_add(1)`, which returns the old value. -/
  | nonceOpsFetchAdd
  /-- `connect` returned and the server starts. -/
  | serve

@[reducible] def Ext.Res : Ext → Type
  | .nowUnix => UInt64
  | .nonceOpsFetchAdd => UInt64
  | .serve => Unit

def runExt (_ : CallId) : (e : Ext) → Oracle → Memory → Option (e.Res × Memory)
  | .nowUnix, o, m => some (o.clock, { m with readings := o.clock :: m.readings })
  | .nonceOpsFetchAdd, _, m => some (m.nonceOps, { m with nonceOps := m.nonceOps + 1 })
  | .serve, _, m => some ((), { m with phase := .up })

@[reducible] def database : Database where
  Db := Tables
  Row := Row
  Cell := Cell
  get := Tables.get
  put := Tables.put
  get_put_self := Tables.get_put_self
  get_put_ne := Tables.get_put_ne
  Stmt := Stmt
  Res := Stmt.Res
  Oracle := Oracle
  exec := exec
  Mem := Memory
  Ext := Ext
  ExtRes := Ext.Res
  ext := runExt

end Digicash.Registry
