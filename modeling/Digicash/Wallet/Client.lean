import Digicash.Bank.Api
import Digicash.Wallet.Code

/-!
# The wallet's client

`BankClient` signs a request and sends it. It writes the account into a header and a path into
the URL, each as it is, and signs the path as it wrote it. What the server makes of a header and
of a path is up to what carries them: `Http`.
-/

namespace Digicash.Wallet

open Lib

variable {X : Crypto}

/-- An Ed25519 keypair, with what the crate underneath promises of it. -/
structure IdentityKeypair (X : Crypto) where
  publicKey : Bytes
  sign : Bytes → Bytes
  length_publicKey : publicKey.length = identityPublicKeyLen
  publicKey_valid : X.ed25519FromBytes publicKey = .ok publicKey
  length_sign : ∀ message, (sign message).length = identitySignatureLen
  verify_sign : ∀ message, X.ed25519Verify publicKey message (sign message) = .ok ()

/-- 128 random bits. -/
abbrev Nonce := { b : Bytes // b.length = 16 }

structure SignedAuth where
  timestamp : String
  nonce : String
  signature : String

/-- A request as it is handed to HTTP, its URL without the bank's. -/
structure Outgoing where
  method : String
  path : String
  headers : List (String × String)
  body : Bytes

def headerContentType : String := "content-type"

structure BankClient (X : Crypto) where
  accountId : String
  keypair : IdentityKeypair X

namespace BankClient

def sign (c : BankClient X) (method path : String) (body : Bytes) (now : UInt64) (nonce : Nonce) :
    SignedAuth :=
  let payload := canonicalPayload X method path body now (Hex.encode nonce.1)
  ⟨toString now, Hex.encode nonce.1, Hex.encode (c.keypair.sign (utf8 payload))⟩

def authHeaders (c : BankClient X) (auth : SignedAuth) : List (String × String) :=
  [(headerAccount, c.accountId), (headerTimestamp, auth.timestamp), (headerNonce, auth.nonce),
    (headerSignature, auth.signature)]

def signedPost (c : BankClient X) (path : String) (body : Bytes) (now : UInt64) (nonce : Nonce) :
    Outgoing :=
  ⟨"POST", path, (headerContentType, "application/json") ::
    c.authHeaders (c.sign "POST" path body now nonce), body⟩

def signedGet (c : BankClient X) (path : String) (now : UInt64) (nonce : Nonce) : Outgoing :=
  ⟨"GET", path, c.authHeaders (c.sign "GET" path [] now nonce), []⟩

/-- `body` is what `serde_json` makes of the request; likewise below. -/
def createAccount (c : BankClient X) (body : Bytes) : UInt64 → Nonce → Outgoing :=
  c.signedPost "/accounts" body

def balance (c : BankClient X) (accountId : String) : UInt64 → Nonce → Outgoing :=
  c.signedGet ("/accounts/" ++ accountId ++ "/balance")

def withdraw (c : BankClient X) (body : Bytes) : UInt64 → Nonce → Outgoing :=
  c.signedPost "/withdraw" body

def deposit (c : BankClient X) (body : Bytes) : UInt64 → Nonce → Outgoing :=
  c.signedPost "/deposit" body

end BankClient

/-! ## HTTP -/

/-- What the HTTP client and the server's parser make of what is sent. -/
structure Http where
  /-- The bytes of a header value that come in, unless the client refuses it. -/
  header : String → Option Bytes
  /-- The path of the URI that comes in. -/
  path : String → String

/-- The request that comes in, unless the client refuses it. -/
def Http.deliver (H : Http) (o : Outgoing) : Option Request :=
  (o.headers.mapM fun h => (H.header h.2).map fun value => (h.1, value)).map fun headers =>
    ⟨o.method, H.path o.path, headers, o.body⟩

/-- The server reads the account from its header as the client wrote it, and it is not empty. -/
def Http.Hears (H : Http) (accountId : String) : Prop :=
  accountId ≠ "" ∧ (H.header accountId).bind headerToStr = some accountId

/-- A visible ASCII character. -/
def visible (c : Char) : Bool := 32 < c.toNat && c.toNat < 127

/-- A character that a URL has as it is in a segment of its path, and nothing decodes. -/
def plainChar (c : Char) : Bool :=
  c.isAlphanum || "-._~!$&'()*+,;=:@".toList.contains c

/-- A segment of such characters, and neither the directory itself nor the one above. -/
def plainSegment (s : String) : Bool :=
  s ≠ "" && s ≠ "." && s ≠ ".." && s.toList.all plainChar

/-- The path with these segments. -/
def pathOf (segments : List String) : String := String.join (segments.map ("/" ++ ·))

/-- HTTP does as documented: it delivers visible ASCII in a header and a path of plain segments
    unchanged, and the server's framework reads a content type of JSON and the segment of a
    balance's path. -/
structure Http.Documented (H : Http) (ex : Bank.Extractors) : Prop where
  header : ∀ v : String, v ≠ "" → v.toList.all visible = true → H.header v = some (utf8 v)
  path : ∀ segments, (∀ s ∈ segments, plainSegment s = true) →
    H.path (pathOf segments) = pathOf segments
  contentType : ∀ r, r.header headerContentType = some "application/json" → ex.contentType r = .ok ()
  balanceId : ∀ id, plainSegment id = true →
    ex.balanceId ("/accounts/" ++ id ++ "/balance") = some id

end Digicash.Wallet
