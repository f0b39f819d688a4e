import Digicash.Lib.Hex

/-!
# The core crate

Bytes, serials, errors and the primitives underneath. RSA, Ed25519 and SHA-256 are crates
the code calls; `Crypto` is what it uses of them, a function each, and everything about a
bank, a registry or a wallet is stated for every `Crypto`.

A `u64` is a `UInt64`, a Postgres `BIGINT` an `Int` that the code keeps in range by
converting (`toI64`) and Postgres by failing the statement.
-/

namespace Digicash

open Lib

abbrev Bytes := List UInt8

/-- The bytes of a text, as `str::as_bytes` gives them. -/
def utf8 (s : String) : Bytes := s.toUTF8.data.toList

theorem ok_of_bind {ε α β : Type} {x : Except ε α} {f : α → Except ε β} {b : β}
    (h : x >>= f = .ok b) : ∃ a, x = .ok a ∧ f a = .ok b := by
  cases x with
  | ok a => exact ⟨a, rfl, h⟩
  | error e => cases h

/-! ## Integers -/

def i64Max : Int := 9223372036854775807

def i64Min : Int := -9223372036854775808

def u64Max : Nat := 18446744073709551615

/-- `i64::try_from(u64)`. -/
def i64TryFrom (value : UInt64) : Option Int :=
  if (value.toNat : Int) ≤ i64Max then some value.toNat else none

/-- `u64::try_from(i64)`. -/
def u64TryFrom (value : Int) : Option UInt64 :=
  if 0 ≤ value then some (UInt64.ofNat value.toNat) else none

/-- `u64::saturating_add`. -/
def saturatingAdd (a b : UInt64) : UInt64 := UInt64.ofNat (min (a.toNat + b.toNat) u64Max)

theorem i64TryFrom_eq_some {value : UInt64} {n : Int} (h : i64TryFrom value = some n) :
    n = value.toNat ∧ n ≤ i64Max := by
  unfold i64TryFrom at h
  split at h
  · obtain rfl := Option.some.inj h
    exact ⟨rfl, ‹_›⟩
  · exact absurd h (by simp)

theorem i64TryFrom_nonneg {value : UInt64} {n : Int} (h : i64TryFrom value = some n) : 0 ≤ n := by
  obtain ⟨rfl, -⟩ := i64TryFrom_eq_some h
  exact Int.natCast_nonneg _

/-- Back and forth. -/
theorem u64TryFrom_i64TryFrom {value : UInt64} {n : Int} (h : i64TryFrom value = some n) :
    u64TryFrom n = some value := by
  obtain ⟨rfl, -⟩ := i64TryFrom_eq_some h
  simp [u64TryFrom]

theorem u64TryFrom_eq_some {n : Int} {value : UInt64} (hn : n ≤ i64Max)
    (h : u64TryFrom n = some value) : i64TryFrom value = some n := by
  unfold u64TryFrom at h
  split at h
  · obtain rfl := Option.some.inj h
    unfold i64Max at hn
    have hlt : n.toNat < 2 ^ 64 := by omega
    rw [i64TryFrom, UInt64.toNat_ofNat_of_lt' hlt, if_pos (by unfold i64Max; omega)]
    exact congrArg some (by omega)
  · exact absurd h (by simp)

theorem toNat_saturatingAdd (a b : UInt64) :
    (saturatingAdd a b).toNat = min (a.toNat + b.toNat) u64Max := by
  have hlt : min (a.toNat + b.toNat) u64Max < 2 ^ 64 := by unfold u64Max; omega
  rw [saturatingAdd, UInt64.toNat_ofNat_of_lt' hlt]

/-! ## Errors -/

/-- What a core operation fails with; each carries the text of the underlying error. -/
inductive CoreError where
  | serialGeneration (e : String)
  | keyGeneration (e : String)
  | blinding (e : String)
  | signing (e : String)
  | unblinding (e : String)
  | verification (e : String)
  | unsupportedScheme (id : UInt8)
  | identityKeyGeneration (e : String)
  | identityPublicKeyInvalid (e : String)
  | identitySignatureInvalid (e : String)
deriving DecidableEq, Repr

/-- The `Display` text. -/
def CoreError.toText : CoreError → String
  | .serialGeneration e => "failed to generate a serial from the OS CSPRNG: " ++ e
  | .keyGeneration e => "failed to generate a denomination keypair: " ++ e
  | .blinding e => "failed to blind a serial for signing: " ++ e
  | .signing e => "failed to blind-sign a blinded message: " ++ e
  | .unblinding e => "failed to unblind a blind signature: " ++ e
  | .verification e => "coin signature did not verify under the denomination key: " ++ e
  | .unsupportedScheme id =>
    "unsupported scheme_id " ++ toString id ++ "; this crate implements only scheme 0"
  | .identityKeyGeneration e =>
    "failed to generate an Ed25519 identity key from the OS CSPRNG: " ++ e
  | .identityPublicKeyInvalid e => "invalid Ed25519 identity public key: " ++ e
  | .identitySignatureInvalid e => "Ed25519 request signature did not verify: " ++ e

/-! ## Primitives -/

/-- A 256-bit coin serial. -/
abbrev Serial := { b : Bytes // b.length = 32 }

/-- The primitives of the crates underneath, each failing with its error's text. -/
structure Crypto where
  /-- RSABSSA-SHA384-PSS-Deterministic. -/
  SecretKey : Type
  PublicKey : Type
  Blinding : Type
  blindMessage : Blinding → Bytes
  /-- The last argument is what the generator is asked for. -/
  rsaBlind : PublicKey → Serial → Nat → Except String Blinding
  rsaBlindSign : SecretKey → Bytes → Except String Bytes
  rsaFinalize : PublicKey → Bytes → Blinding → Serial → Except String Bytes
  rsaVerify : PublicKey → Bytes → Serial → Except String Unit
  toSpki : PublicKey → Except String Bytes
  fromSpki : Bytes → Except String PublicKey
  /-- Ed25519, with keys in their 32-byte encoding. -/
  ed25519FromBytes : Bytes → Except String Bytes
  ed25519Verify : Bytes → Bytes → Bytes → Except String Unit
  sha256 : Bytes → Bytes

/-- A serial made of one byte. -/
def toySerial (b : UInt8) : Serial := ⟨List.replicate 32 b, rfl⟩

/-- The smallest primitives there are: everything verifies, blinding is the identity, and
    the one message that cannot be signed is the empty one. For evaluating on. -/
def Crypto.toy : Crypto where
  SecretKey := Unit
  PublicKey := Unit
  Blinding := Bytes
  blindMessage b := b
  rsaBlind _ serial _ := .ok serial.1
  rsaBlindSign _ m := if m = [] then .error "unsupported parameters" else .ok m
  rsaFinalize _ sig _ _ := .ok sig
  rsaVerify _ _ _ := .ok ()
  toSpki _ := .ok []
  fromSpki _ := .ok ()
  ed25519FromBytes b := .ok b
  ed25519Verify _ _ _ := .ok ()
  sha256 b := b

/-- `scheme_id` of the online RSA coin. -/
def schemeIdRsaDeterministic : UInt8 := 0

def identityPublicKeyLen : Nat := 32

def identitySignatureLen : Nat := 64

/-- Accept only the one scheme the crate implements. -/
def ensureSupportedScheme (schemeId : UInt8) : Except CoreError Unit :=
  if schemeId = schemeIdRsaDeterministic then .ok () else .error (.unsupportedScheme schemeId)

variable {X : Crypto}

structure Keypair (X : Crypto) where
  pk : X.PublicKey
  sk : X.SecretKey

def blind (pk : X.PublicKey) (rng : Nat) (serial : Serial) : Except CoreError X.Blinding :=
  (X.rsaBlind pk serial rng).mapError .blinding

def signBlinded (sk : X.SecretKey) (blinded : Bytes) : Except CoreError Bytes :=
  (X.rsaBlindSign sk blinded).mapError .signing

def unblind (pk : X.PublicKey) (blindSig : Bytes) (blinding : X.Blinding) (serial : Serial) :
    Except CoreError Bytes :=
  (X.rsaFinalize pk blindSig blinding serial).mapError .unblinding

def verify (pk : X.PublicKey) (serial : Serial) (sig : Bytes) : Except CoreError Unit :=
  (X.rsaVerify pk sig serial).mapError .verification

/-! ## Signed requests -/

/-- The five signed fields of a request, joined by `|`. -/
def canonicalPayload (X : Crypto) (method path : String) (body : Bytes) (timestamp : UInt64)
    (nonce : String) : String :=
  method.map Char.toUpper ++ "|" ++ path ++ "|" ++ Hex.encode (X.sha256 body) ++ "|" ++
    toString timestamp ++ "|" ++ nonce

end Digicash
