import Digicash.Core

/-!
# Wire types

The messages of the bank, the wallet and the registry. Data only; who validates what is in
the modules of each party.
-/

namespace Digicash

/-! ## Coins and the bank's messages -/

/-- The coin set, in cents, ascending. -/
def denominations : List UInt64 :=
  [1, 2, 4, 8, 16, 32, 64, 128, 256, 512, 1024, 2048, 4096, 8192]

/-- A bearer instrument: whoever holds it can deposit it. -/
structure Coin where
  schemeId : UInt8
  denominationCents : UInt64
  serialNumber : Serial
  signature : Bytes
deriving DecidableEq

/-- A published key: its denomination, scheme and encoding. -/
structure DenominationKey where
  denominationCents : UInt64
  schemeId : UInt8
  publicKeySpki : Bytes
deriving DecidableEq, Repr

structure WithdrawRequest where
  accountId : String
  requestId : String
  denominationCents : UInt64
  blindedMessage : Bytes
deriving DecidableEq, Repr

structure WithdrawResponse where
  blindSignature : Bytes
deriving DecidableEq, Repr

structure DepositRequest where
  coin : Coin
  accountId : String
  requestId : String
deriving DecidableEq

inductive DepositRejection where
  | doubleSpend
  | invalidSignature
  | unknownDenomination
  | unknownScheme
  | unknownAccount
  | requestIdReuse
  | registryDoubleSpend
  | exposureCapExceeded
deriving DecidableEq, Repr

structure DepositResponse where
  accepted : Bool
  reason : Option DepositRejection
deriving DecidableEq, Repr

structure BalanceResponse where
  accountId : String
  balanceCents : UInt64
deriving DecidableEq, Repr

/-! ## The registry's messages -/

structure SerialSubmission where
  issuingBankId : String
  denominationCents : UInt64
  schemeId : UInt8
  serialHex : String
  transcript : String
deriving DecidableEq, Repr

inductive SerialOutcome where
  | accepted
  | doubleSpend
  | exposureCapExceeded
deriving DecidableEq, Repr

structure TranscriptEntry where
  bankId : String
  transcript : String
  seenAt : UInt64
deriving DecidableEq, Repr

structure SerialResponse where
  outcome : SerialOutcome
  transcripts : List TranscriptEntry
deriving DecidableEq, Repr

structure SettlementClaimInfo where
  issuingBankId : String
  depositingBankId : String
  netAmountCents : UInt64
  windowEnd : UInt64
deriving DecidableEq, Repr

structure RegisterMemberRequest where
  bankId : String
  pubkeyHex : String
deriving DecidableEq, Repr

structure SetCapRequest where
  issuingBankId : String
  depositingBankId : String
  capCents : UInt64
deriving DecidableEq, Repr

/-! ## Authentication headers -/

def headerAccount : String := "x-digicash-account"

def headerTimestamp : String := "x-digicash-timestamp"

def headerNonce : String := "x-digicash-nonce"

def headerSignature : String := "x-digicash-signature"

structure AuthHeaders where
  accountId : String
  timestamp : UInt64
  nonce : String
  signature : String
deriving DecidableEq, Repr

inductive AuthHeaderError where
  | missing (header : String)
  | malformed (header : String)
deriving DecidableEq, Repr

/-- `str::parse::<u64>`: digits, one `+` before them allowed, and no overflow. -/
def parseU64 (s : String) : Option UInt64 :=
  let digits := match s.toList with
    | '+' :: cs => cs
    | cs => cs
  if digits = [] ∨ digits.any (fun c => !c.isDigit) then none
  else
    let n := digits.foldl (fun acc c => acc * 10 + (c.toNat - 48)) 0
    if n ≤ u64Max then some (UInt64.ofNat n) else none

/-- A header that has to be there and not be empty. -/
def require (lookup : String → Option String) (header : String) :
    Except AuthHeaderError String :=
  match (lookup header).filter fun v => v ≠ "" with
  | some v => .ok v
  | none => .error (.missing header)

def AuthHeaders.fromLookup (lookup : String → Option String) :
    Except AuthHeaderError AuthHeaders := do
  let accountId ← require lookup headerAccount
  let text ← require lookup headerTimestamp
  let timestamp ← match parseU64 text with
    | some t => .ok t
    | none => .error (.malformed headerTimestamp)
  let nonce ← require lookup headerNonce
  let signature ← require lookup headerSignature
  return { accountId, timestamp, nonce, signature }

/-! ## Requests -/

/-- An HTTP request as the servers read it. Header names are lowercase already. -/
structure Request where
  method : String
  path : String
  headers : List (String × Bytes)
  body : Bytes
deriving DecidableEq

/-- `HeaderValue::to_str`: visible ASCII and tabs, or nothing. -/
def headerToStr (value : Bytes) : Option String :=
  if value.all fun b => (32 ≤ b && b < 127) || b = 9 then
    some (String.ofList (value.map fun b => Char.ofNat b.toNat))
  else none

/-- The lookup the servers hand to `AuthHeaders.fromLookup`. -/
def Request.header (r : Request) (name : String) : Option String :=
  (r.headers.lookup name).bind headerToStr

end Digicash
