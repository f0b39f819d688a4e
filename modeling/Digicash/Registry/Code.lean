import Digicash.Auth
import Digicash.Registry.Schema

/-!
# The registry's code

`Registry`'s operations, statement by statement, and over them the handlers of its API, each
of which is reached only by a caller that `authenticate` has named.
-/

namespace Digicash.Registry

open Lib

/-! ## Errors and conversions -/

inductive RegistryError where
  | db (e : SqlError)
  | core (e : CoreError)
  | valueRange (message : String)
  | malformedMember (bankId message : String)
  | memberExists (bankId : String)
deriving DecidableEq, Repr

instance : FromSql RegistryError := ⟨.db⟩

/-- The `Display` text. -/
def RegistryError.toText : RegistryError → String
  | .db e => "database error: " ++ e.toText
  | .core e => "cryptographic error: " ++ e.toText
  | .valueRange message => "database value out of range: " ++ message
  | .malformedMember b message => "corrupt member key for " ++ b ++ ": " ++ message
  | .memberExists b => "bank " ++ b ++ " is already a registered member"

/-- The code of the registry: database commands, failing with a `RegistryError`. -/
abbrev RegistryM (α : Type) := Fallible database RegistryError α

def toI64 (value : UInt64) (what : String) : Except RegistryError Int :=
  match i64TryFrom value with
  | some n => .ok n
  | none => .error (.valueRange (what ++ " " ++ toString value ++ " exceeds the i64 range"))

def toU64 (value : Int) (what : String) : Except RegistryError UInt64 :=
  match u64TryFrom value with
  | some n => .ok n
  | none => .error (.valueRange (what ++ " is negative: " ++ toString value))

/-- Run one SQL statement. -/
abbrev sql (s : Stmt) : RegistryM s.Res := query (D := database) s

/-- Issue one command that is not SQL. -/
abbrev ask (e : Ext) : RegistryM e.Res := perform (D := database) e

def nowUnix : RegistryM UInt64 := ask .nowUnix

/-! ## Members -/

def registerMember (bankId : String) (publicKey : Bytes) (isAdmin : Bool) : RegistryM Unit := do
  let inserted ← sql (.insertMember bankId publicKey isAdmin)
  if inserted = 0 then throw (.memberExists bankId) else pure ()

/-- The Ed25519 public key registered for the bank, in its 32-byte encoding. -/
def memberPubkey (X : Crypto) (bankId : String) : RegistryM (Option Bytes) := do
  match ← sql (.selectMemberPubkey bankId) with
  | some bytes =>
    if bytes.length = identityPublicKeyLen then
      let key ← orThrow ((X.ed25519FromBytes bytes).mapError fun e =>
        RegistryError.core (.identityPublicKeyInvalid e))
      pure (some key)
    else
      throw (.malformedMember bankId
        ("key is " ++ toString bytes.length ++ " bytes, expected 32"))
  | none => pure none

/-- Whether the bank is the governance admin. -/
def isAdmin (bankId : String) : RegistryM Bool := do
  let row ← sql (.selectIsAdmin bankId)
  pure (row.getD false)

/-! ## Serials -/

/-- Whether a cap is set for the pair and its receivable has reached it. -/
def capReached (pair : Pair) : RegistryM Bool := do
  match ← sql (.selectCap pair) with
  | none => pure false
  | some cap =>
    let outstanding ← sql (.selectReceivable pair)
    pure (decide (cap ≤ outstanding.getD 0))

def toEntry (row : TranscriptRow) : Except RegistryError TranscriptEntry :=
  (toU64 row.seenAt "seen_at").map fun seenAt => ⟨row.bankId, row.transcript, seenAt⟩

/-- The receivable a submission is about. -/
def submissionPair (depositingBankId : String) (submission : SerialSubmission) : Pair :=
  ⟨submission.issuingBankId, depositingBankId⟩

/-- The key of a submitted serial in the database, its denomination already converted. -/
def serialKey (submission : SerialSubmission) (denom : Int) : SerialKey :=
  ⟨denom, submission.schemeId.toNat, submission.serialHex⟩

/-- Submit a coin serial and a transcript digest to the shared spent-serial store. -/
def submitSerial (depositingBankId : String) (submission : SerialSubmission) (now : UInt64) :
    RegistryM SerialResponse := do
  let denom ← orThrow (toI64 submission.denominationCents "denomination")
  let seen ← orThrow (toI64 now "timestamp")
  let pair := submissionPair depositingBankId submission
  let key := serialKey submission denom
  transaction do
    if ← capReached pair then pure (.drop ⟨.exposureCapExceeded, []⟩)
    else
      let _ ← sql (.insertTranscript ⟨key, depositingBankId, submission.transcript, seen⟩)
      let inserted ← sql (.insertSerial key ⟨depositingBankId, submission.transcript, seen⟩)
      if inserted = 1 then
        let _ ← sql (.addReceivable pair denom)
        pure (.commit ⟨.accepted, []⟩)
      else
        let rows ← sql (.selectTranscripts key)
        let entries ← orThrow (rows.mapM toEntry)
        pure (.commit ⟨.doubleSpend, entries⟩)

/-! ## Settlement -/

/-- Who owes whom how much when `forward` is receivable one way and `reverse` the other. -/
def netOf (pair : Pair) (forward reverse : Int) : Option (Pair × Int) :=
  let net := forward - reverse
  if 0 < net then some (pair, net)
  else if net < 0 then some (pair.swap, -net)
  else none

/-- The loop of `settle`: net every pair of `todo` that is not done yet. -/
def settlePairs (amounts : List (Pair × Int)) (windowEnd : Int) (now : UInt64) :
    List (Pair × Int) → List Pair → RegistryM (List SettlementClaimInfo)
  | [], _ => pure []
  | (pair, forward) :: todo, done => do
    if pair ∈ done then settlePairs amounts windowEnd now todo done
    else
      let reverse := (amounts.lookup pair.swap).getD 0
      match netOf pair forward reverse with
      | none => settlePairs amounts windowEnd now todo (pair.swap :: pair :: done)
      | some (owes, amount) =>
        let _ ← sql (.insertClaim ⟨owes, amount, windowEnd, windowEnd⟩)
        let net ← orThrow (toU64 amount "net")
        let claims ← settlePairs amounts windowEnd now todo (pair.swap :: pair :: done)
        pure (⟨owes.issuingBankId, owes.depositingBankId, net, now⟩ :: claims)

/-- Ascending `(issuing_bank_id, depositing_bank_id)`. -/
def claimLe (a b : SettlementClaimInfo) : Prop :=
  a.issuingBankId < b.issuingBankId ∨
    a.issuingBankId = b.issuingBankId ∧ a.depositingBankId ≤ b.depositingBankId

instance : DecidableRel claimLe := fun _ _ => inferInstanceAs (Decidable (_ ∨ _ ∧ _))

/-- Net the accumulated receivables into settlement claims, and clear them. The rows come in
    no particular order; that order stands for the one a `HashMap` iterates in too. -/
def settle (now : UInt64) : RegistryM (List SettlementClaimInfo) := do
  let windowEnd ← orThrow (toI64 now "window end")
  transaction do
    let amounts ← sql .selectReceivables
    let claims ← settlePairs amounts windowEnd now amounts []
    let _ ← sql .deleteReceivables
    pure (.commit (claims.insertionSort claimLe))

/-- Set the exposure cap of a pair of banks. -/
def setCap (pair : Pair) (capCents : UInt64) : RegistryM Unit := do
  let cap ← orThrow (toI64 capCents "cap")
  let _ ← sql (.upsertCap pair cap)

/-! ## Nonces and authentication -/

/-- Delete every nonce whose window closed at or before `now`. -/
def purgeExpiredNonces (now : UInt64) : RegistryM Unit := do
  let now ← orThrow (toI64 now "nonce timestamp")
  let _ ← sql (.purgeNonces now)

/-- Record `nonce` as seen at `now`; whether it was fresh. -/
def checkAndRecordNonce (nonce : String) (now ttlSecs : UInt64) : RegistryM Bool := do
  let expiry ← orThrow (toI64 (saturatingAdd now ttlSecs) "nonce expiry")
  let nowI ← orThrow (toI64 now "nonce timestamp")
  let affected ← sql (.upsertNonce nonce expiry nowI)
  let ops ← ask .nonceOpsFetchAdd
  if ops % noncePruneInterval = noncePruneInterval - 1 then
    purgeExpiredNonces now
    pure (affected = 1)
  else pure (affected = 1)

def authenticate (X : Crypto) : Request → Fallible database AuthRejection String :=
  Digicash.authenticate X (fun e : RegistryError => .internal e.toText)
    "bank is not a registered member" (memberPubkey X) nowUnix checkAndRecordNonce

/-- What `connect` does once the schema is there, up to the server's start. -/
def connect : RegistryM Unit := do
  let now ← nowUnix
  purgeExpiredNonces now
  ask .serve

/-! ## The API -/

/-- An error response: the HTTP status and the message. -/
structure ApiError where
  status : Nat
  message : String
deriving DecidableEq, Repr

def ApiError.ofRegistry (e : RegistryError) : ApiError :=
  match e with
  | .memberExists _ => ⟨409, e.toText⟩
  | _ => ⟨500, e.toText⟩

/-- A handler: an operation, its errors turned into responses. -/
abbrev ApiM (α : Type) := Fallible database ApiError α

namespace Api

def lift {α : Type} (x : RegistryM α) : ApiM α := mapErr .ofRegistry x

def ensureAdmin (caller : String) : ApiM Unit := do
  if ← lift (isAdmin caller) then pure ()
  else throw ⟨403, caller ++ " is not the registry admin"⟩

def parsePubkey (X : Crypto) (pubkeyHex : String) : Except ApiError Bytes :=
  match Hex.decode pubkeyHex with
  | none => .error ⟨400, "pubkey_hex is not valid hex"⟩
  | some raw =>
    if raw.length = identityPublicKeyLen then
      (X.ed25519FromBytes raw).mapError fun e => ⟨400, (CoreError.identityPublicKeyInvalid e).toText⟩
    else .error ⟨400, "pubkey must be 32 bytes"⟩

def registerMember (X : Crypto) (caller : String) (req : RegisterMemberRequest) : ApiM Unit := do
  ensureAdmin caller
  let pubkey ← orThrow (parsePubkey X req.pubkeyHex)
  lift (Registry.registerMember req.bankId pubkey false)

def postSerial (caller : String) (submission : SerialSubmission) : ApiM SerialResponse := do
  let now ← lift nowUnix
  lift (submitSerial caller submission now)

def setCap (caller : String) (req : SetCapRequest) : ApiM Unit := do
  ensureAdmin caller
  lift (Registry.setCap ⟨req.issuingBankId, req.depositingBankId⟩ req.capCents)

def postSettle (caller : String) : ApiM (List SettlementClaimInfo) := do
  ensureAdmin caller
  let now ← lift nowUnix
  lift (settle now)

end Api

end Digicash.Registry
