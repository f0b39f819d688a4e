import Digicash.Auth
import Digicash.Bank.Schema
import Mathlib.Data.List.Sort

/-!
# The bank's code

`Bank`'s operations, statement by statement, each under its own name. Checking a connection
out of the pool has no command of its own here: a checkout that fails is a failure of the first
statement on that connection, and what waiting for one comes to is the matter of `Pooling`.
-/

namespace Digicash.Bank

open Lib

/-! ## Errors and conversions -/

inductive BankError where
  | db (e : SqlError)
  | valueRange (message : String)
  | core (e : CoreError)
  | key (denom : UInt64) (scheme : UInt8) (message : String)
  | accountExists (accountId : String)
  | accountNotFound (accountId : String)
  | insufficientBalance (accountId : String) (balance requested : UInt64)
  | unknownDenomination (denominationCents : UInt64)
  | malformedRecord (requestId message : String)
  | withdrawFailed (requestId message : String)
  | withdrawPreviouslyFailed (requestId : String)
  | malformedIdentity (accountId message : String)
  | identityExists (accountId : String)
  | registryHttp (message : String)
deriving DecidableEq, Repr

instance : FromSql BankError := ⟨.db⟩

/-- The `Display` text. -/
def BankError.toText : BankError → String
  | .db e => "database error: " ++ e.toText
  | .valueRange message => "database value out of range: " ++ message
  | .core e => "cryptographic error: " ++ e.toText
  | .key denom scheme message =>
    "denomination key error for denomination " ++ toString denom ++ " scheme " ++
      toString scheme ++ ": " ++ message
  | .accountExists a => "account " ++ a ++ " already exists"
  | .accountNotFound a => "account " ++ a ++ " not found"
  | .insufficientBalance a balance requested =>
    "account " ++ a ++ " has " ++ toString balance ++ " cents, cannot withdraw " ++
      toString requested
  | .unknownDenomination denom => "no key for denomination " ++ toString denom ++ " scheme 0"
  | .malformedRecord r message => "withdrawal record for " ++ r ++ " is corrupt: " ++ message
  | .withdrawFailed r message =>
    "withdrawal " ++ r ++ " failed and was rolled back: " ++ message
  | .withdrawPreviouslyFailed r =>
    "withdrawal " ++ r ++ " previously failed and was rolled back; use a new request_id"
  | .malformedIdentity a message =>
    "corrupt identity key for account " ++ a ++ ": " ++ message
  | .identityExists a => "account " ++ a ++ " already has a registered identity key"
  | .registryHttp message => "registry request failed: " ++ message

/-- The code of the bank: database commands, failing with a `BankError`. -/
abbrev BankM (α : Type) := Fallible database BankError α

def toI64 (value : UInt64) (what : String) : Except BankError Int :=
  match i64TryFrom value with
  | some n => .ok n
  | none =>
    .error (.valueRange (what ++ " " ++ toString value ++ " exceeds the i64 column range"))

def toU64 (value : Int) (what : String) : Except BankError UInt64 :=
  match u64TryFrom value with
  | some n => .ok n
  | none => .error (.valueRange (what ++ " is negative: " ++ toString value))

/-- Run one SQL statement. -/
abbrev sql (s : Stmt) : BankM s.Res := query (D := database) s

/-- Issue one command that is not SQL. -/
abbrev ask (e : Ext) : BankM e.Res := perform (D := database) e

def nowUnix : BankM UInt64 := ask .nowUnix

/-! ## Configuration -/

/-- The denomination keys in memory, by `(denomination_cents, scheme_id)`. -/
structure KeyStore (X : Crypto) where
  keys : Table (UInt64 × UInt8) (Keypair X)

def KeyStore.get {X : Crypto} (store : KeyStore X) (denom : UInt64) (scheme : UInt8) :
    Option (Keypair X) :=
  store.keys.lookup (denom, scheme)

/-- The client to the registry: who this bank is there, and which issuer it reports. -/
structure RegistryClient where
  bankId : String
  issuerId : String
deriving DecidableEq, Repr

structure Config (X : Crypto) where
  keys : KeyStore X
  registryClient : Option RegistryClient

variable {X : Crypto}

/-- Every key with its denomination and scheme, in ascending order of these. -/
def KeyStore.publicKeys (store : KeyStore X) : List ((UInt64 × UInt8) × Keypair X) :=
  store.keys.rows.insertionSort fun a b => a.1.1 < b.1.1 ∨ a.1.1 = b.1.1 ∧ a.1.2 ≤ b.1.2

/-- The public keys as SubjectPublicKeyInfo DER. -/
def publishedKeys (κ : Config X) : Except BankError (List DenominationKey) :=
  κ.keys.publicKeys.mapM fun key =>
    match X.toSpki key.2.pk with
    | .ok spki => .ok ⟨key.1.1, key.1.2, spki⟩
    | .error e => .error (.key key.1.1 key.1.2 ("encode SPKI: " ++ e))

/-! ## Withdrawals -/

structure WithdrawalRecord where
  state : WithdrawState
  accountId : String
  denominationCents : UInt64
  blindedMessage : Bytes
  blindSignature : Option Bytes
deriving DecidableEq, Repr

/-- A row as `load_record` reads it. -/
def toRecord (row : WithdrawRow) : Except BankError WithdrawalRecord :=
  (toU64 row.denominationCents "denomination").map fun denom =>
    ⟨row.state, row.accountId, denom, row.blindedMessage, row.blindSignature⟩

def setState (requestId : String) (state : WithdrawState) : BankM Unit := do
  let _ ← sql (.setState requestId state)

def loadRecord (requestId : String) : BankM (Option WithdrawalRecord) := do
  match ← sql (.selectWithdrawal requestId) with
  | some row =>
    let record ← orThrow (toRecord row)
    pure (some record)
  | none => pure none

/-- Debit the account and write the `pending` record, in one transaction. -/
def debitAndRecordPending (req : WithdrawRequest) : BankM Unit := do
  let denom ← orThrow (toI64 req.denominationCents "denomination")
  transaction do
    match ← sql (.selectBalanceForUpdate req.accountId) with
    | none => throw (.accountNotFound req.accountId)
    | some balance =>
      if balance < denom then
        let balance ← orThrow (toU64 balance "balance")
        throw (.insufficientBalance req.accountId balance req.denominationCents)
      else
        let _ ← sql (.debit denom req.accountId)
        let _ ← sql (.insertPending req.requestId req.accountId denom req.blindedMessage)
        pure (.commit ())

/-- Reverse the debit and mark the withdrawal `compensated`, in one transaction. -/
def compensate (requestId accountId : String) (denominationCents : UInt64) : BankM Unit := do
  let denom ← orThrow (toI64 denominationCents "denomination")
  transaction do
    let _ ← sql (.credit denom accountId)
    let _ ← sql (.setState requestId .compensated)
    pure (.commit ())

/-- Sign the blinded message and drive the record `signed` then `completed`; where signing
    fails, compensate the debit and report it. -/
def finalizeWithdraw (κ : Config X) (requestId accountId : String) (denominationCents : UInt64)
    (blindedMessage : Bytes) : BankM Bytes := do
  match κ.keys.get denominationCents schemeIdRsaDeterministic with
  | none => throw (.unknownDenomination denominationCents)
  | some keypair =>
    match signBlinded keypair.sk blindedMessage with
    | .ok signature =>
      let _ ← sql (.setSigned requestId signature)
      setState requestId .completed
      pure signature
    | .error e =>
      compensate requestId accountId denominationCents
      throw (.withdrawFailed requestId e.toText)

def resumeWithdraw (κ : Config X) (requestId : String) (record : WithdrawalRecord) :
    BankM WithdrawResponse := do
  match record.state with
  | .completed | .signed =>
    match record.blindSignature with
    | none => throw (.malformedRecord requestId "signed record has no signature")
    | some signature =>
      if record.state = .signed then
        setState requestId .completed
        pure ⟨signature⟩
      else pure ⟨signature⟩
  | .pending =>
    let signature ← finalizeWithdraw κ requestId record.accountId record.denominationCents
      record.blindedMessage
    pure ⟨signature⟩
  | .compensated => throw (.withdrawPreviouslyFailed requestId)

def withdraw (κ : Config X) (req : WithdrawRequest) : BankM WithdrawResponse := do
  match ← loadRecord req.requestId with
  | some record => resumeWithdraw κ req.requestId record
  | none =>
    match κ.keys.get req.denominationCents schemeIdRsaDeterministic with
    | none => throw (.unknownDenomination req.denominationCents)
    | some _ =>
      debitAndRecordPending req
      let signature ← finalizeWithdraw κ req.requestId req.accountId req.denominationCents
        req.blindedMessage
      pure ⟨signature⟩

/-! ## Startup -/

/-- A row of the startup scan: the request id and the record without its signature. -/
structure ToResume where
  requestId : String
  state : WithdrawState
  accountId : String
  denominationCents : UInt64
  blindedMessage : Bytes

def toResume (row : String × WithdrawRow) : Except BankError ToResume :=
  (toU64 row.2.denominationCents "denomination").map fun denom =>
    ⟨row.1, row.2.state, row.2.accountId, denom, row.2.blindedMessage⟩

/-- One withdrawal of the scan. A failure to finalize is logged and passed over. -/
def recoverOne (κ : Config X) (r : ToResume) : BankM Unit := do
  match r.state with
  | .pending =>
    let _ ← attempt
      (finalizeWithdraw κ r.requestId r.accountId r.denominationCents r.blindedMessage)
    pure ()
  | .signed => setState r.requestId .completed
  | .completed | .compensated => pure ()

def recoverAll (κ : Config X) : List ToResume → BankM Unit
  | [] => pure ()
  | r :: rs => do
    recoverOne κ r
    recoverAll κ rs

/-- Drive every withdrawal in flight forward. -/
def recoverWithdrawals (κ : Config X) : BankM Unit := do
  let rows ← sql .selectInFlight
  let todo ← orThrow (rows.mapM toResume)
  recoverAll κ todo

/-- Delete every nonce whose window closed at or before `now`. -/
def purgeExpiredNonces (now : UInt64) : BankM Unit := do
  let now ← orThrow (toI64 now "nonce timestamp")
  let _ ← sql (.purgeNonces now)

/-- What `connect` does once the schema and the keys are there, up to the server's start. -/
def connect (κ : Config X) : BankM Unit := do
  recoverWithdrawals κ
  let now ← nowUnix
  purgeExpiredNonces now
  ask .serve

/-! ## Accounts and identities -/

def createAccount (accountId : String) (initialBalanceCents : UInt64) : BankM BalanceResponse := do
  let balance ← orThrow (toI64 initialBalanceCents "initial balance")
  let inserted ← sql (.insertAccount accountId balance)
  if inserted = 0 then throw (.accountExists accountId)
  else pure ⟨accountId, initialBalanceCents⟩

def balance (accountId : String) : BankM (Option UInt64) := do
  match ← sql (.selectBalance accountId) with
  | some n =>
    let b ← orThrow (toU64 n "balance")
    pure (some b)
  | none => pure none

def registerIdentity (accountId : String) (pubkey : Bytes) : BankM Unit := do
  let inserted ← sql (.insertIdentity accountId pubkey)
  if inserted = 0 then throw (.identityExists accountId) else pure ()

/-- The Ed25519 public key registered for the account, in its 32-byte encoding. -/
def identityPubkey (X : Crypto) (accountId : String) : BankM (Option Bytes) := do
  match ← sql (.selectPubkey accountId) with
  | some bytes =>
    if bytes.length = identityPublicKeyLen then
      let key ← orThrow ((X.ed25519FromBytes bytes).mapError fun e =>
        BankError.core (.identityPublicKeyInvalid e))
      pure (some key)
    else
      throw (.malformedIdentity accountId
        ("registered key is " ++ toString bytes.length ++ " bytes, expected 32"))
  | none => pure none

/-! ## Nonces and authentication -/

/-- Record `nonce` as seen at `now`; whether it was fresh. -/
def checkAndRecordNonce (nonce : String) (now ttlSecs : UInt64) : BankM Bool := do
  let expiry ← orThrow (toI64 (saturatingAdd now ttlSecs) "nonce expiry")
  let now ← orThrow (toI64 now "nonce timestamp")
  let affected ← sql (.upsertNonce nonce expiry now)
  let ops ← ask .nonceOpsFetchAdd
  if ops % noncePruneInterval = noncePruneInterval - 1 then
    let now ← orThrow (toU64 now "nonce timestamp")
    purgeExpiredNonces now
    pure (affected = 1)
  else pure (affected = 1)

def authenticate (X : Crypto) : Request → Fallible database AuthRejection String :=
  Digicash.authenticate X (fun e : BankError => .internal e.toText)
    "account has no registered signing key" (identityPubkey X) nowUnix checkAndRecordNonce

/-! ## Deposits -/

/-- Outcome of the deposit transaction. -/
inductive DepositOutcome where
  | accepted
  | replay
  | doubleSpend
  | requestIdReuse
  | unknownAccount
deriving DecidableEq, Repr

def reject (reason : DepositRejection) : DepositResponse := ⟨false, some reason⟩

/-- The key of a coin in the database, its denomination already converted. -/
def coinKey (coin : Coin) (denom : Int) : CoinKey :=
  ⟨coin.schemeId.toNat, denom, coin.serialNumber.1⟩

def commitDeposit (req : DepositRequest) : BankM DepositOutcome := do
  let denom ← orThrow (toI64 req.coin.denominationCents "denomination")
  transaction do
    match ← sql (.selectDeposit req.requestId) with
    | some prior =>
      if prior.coin = coinKey req.coin denom then pure (.drop .replay)
      else pure (.drop .requestIdReuse)
    | none =>
      let inserted ← sql (.insertSpent (coinKey req.coin denom) req.requestId)
      if inserted = 0 then pure (.drop .doubleSpend)
      else
        let credited ← sql (.credit denom req.accountId)
        if credited = 0 then pure (.drop .unknownAccount)
        else
          let _ ← sql (.insertDeposit req.requestId (coinKey req.coin denom) req.accountId)
          pure (.commit .accepted)

/-- `H(coin_serial || depositing_bank_id || timestamp)`, lowercase hex. -/
def RegistryClient.transcript (X : Crypto) (client : RegistryClient) (serialHex : String)
    (now : UInt64) : String :=
  Hex.encode (X.sha256 (utf8 serialHex ++ utf8 client.bankId ++ utf8 (toString now)))

/-- What the client posts for a coin. -/
def RegistryClient.submission (X : Crypto) (client : RegistryClient)
    (denominationCents : UInt64) (schemeId : UInt8) (serial : Serial) (now : UInt64) :
    SerialSubmission :=
  let serialHex := Hex.encode serial.1
  ⟨client.issuerId, denominationCents, schemeId, serialHex,
    client.transcript X serialHex now⟩

/-- Submit a coin serial to the registry and return the outcome. -/
def RegistryClient.submitSerial (X : Crypto) (client : RegistryClient)
    (denominationCents : UInt64) (schemeId : UInt8) (serial : Serial) (now : UInt64) :
    BankM SerialOutcome := do
  let reply ← ask (.postSerials (client.submission X denominationCents schemeId serial now))
  let response ← orThrow (reply.mapError BankError.registryHttp)
  pure response.outcome

/-- What `deposit` answers for an outcome of the transaction. -/
def DepositOutcome.response : DepositOutcome → DepositResponse
  | .accepted | .replay => ⟨true, none⟩
  | .doubleSpend => reject .doubleSpend
  | .requestIdReuse => reject .requestIdReuse
  | .unknownAccount => reject .unknownAccount

/-- The local half of a deposit. -/
def depositLocally (req : DepositRequest) : BankM DepositResponse := do
  let outcome ← commitDeposit req
  pure outcome.response

def deposit (κ : Config X) (req : DepositRequest) : BankM DepositResponse := do
  let coin := req.coin
  match ensureSupportedScheme coin.schemeId with
  | .error _ => pure (reject .unknownScheme)
  | .ok () =>
    match κ.keys.get coin.denominationCents coin.schemeId with
    | none => pure (reject .unknownDenomination)
    | some keypair =>
      match verify keypair.pk coin.serialNumber coin.signature with
      | .error _ => pure (reject .invalidSignature)
      | .ok () =>
        match κ.registryClient with
        | none => depositLocally req
        | some client =>
          let now ← nowUnix
          match ← client.submitSerial X coin.denominationCents coin.schemeId
              coin.serialNumber now with
          | .accepted => depositLocally req
          | .doubleSpend => pure (reject .registryDoubleSpend)
          | .exposureCapExceeded => pure (reject .exposureCapExceeded)

end Digicash.Bank
