import Digicash.Lib.Torn
import Digicash.Proto

/-!
# The stored identity

`set_identity` writes the five parts of an identity to five keys of the store, one insert after
the other, over whatever is there. `identity` reads them back, and refuses what is incomplete; it
does not see whose parts they are. A crash may come between any two inserts.
-/

namespace Digicash.Wallet

open Lib

def identitySecretKeyLen : Nat := 32

structure StoredIdentity where
  accountId : String
  secret : { b : Bytes // b.length = identitySecretKeyLen }
  clientCertPem : String
  clientKeyPem : String
  caCertPem : String
deriving DecidableEq

/-- The keys of the `meta` tree. -/
inductive MetaKey where
  | accountId
  | identitySecret
  | clientCertPem
  | clientKeyPem
  | caCertPem
deriving DecidableEq

inductive StoreError where
  | corruptAccountId
  | corruptIdentity (message : String)
deriving DecidableEq, Repr

/-- The `Display` text. -/
def StoreError.toText : StoreError → String
  | .corruptAccountId => "stored account id is corrupt (not UTF-8)"
  | .corruptIdentity message => "stored wallet identity is corrupt: " ++ message

/-- `String::from_utf8`. -/
def fromUtf8 (bytes : Bytes) : Option String := String.fromUTF8? ⟨bytes.toArray⟩

abbrev Meta := Table MetaKey Bytes

namespace Store

/-- The inserts of `set_identity`, in order. -/
def setIdentity (identity : StoredIdentity) : List (MetaKey × Bytes) :=
  [(.accountId, utf8 identity.accountId), (.identitySecret, identity.secret.1),
    (.clientCertPem, utf8 identity.clientCertPem), (.clientKeyPem, utf8 identity.clientKeyPem),
    (.caCertPem, utf8 identity.caCertPem)]

def accountId (t : Meta) : Except StoreError (Option String) :=
  match t.lookup .accountId with
  | some bytes =>
    match fromUtf8 bytes with
    | some text => .ok (some text)
    | none => .error .corruptAccountId
  | none => .ok none

def metaString (t : Meta) (key : MetaKey) : Except StoreError String :=
  match t.lookup key with
  | some bytes =>
    match fromUtf8 bytes with
    | some text => .ok text
    | none => .error (.corruptIdentity "identity record is not UTF-8")
  | none => .error (.corruptIdentity "identity record is incomplete")

/-- The identity in the store, if the wallet has registered. -/
def identity (t : Meta) : Except StoreError (Option StoredIdentity) := do
  match ← accountId t with
  | none => return none
  | some accountId =>
    match t.lookup .identitySecret with
    | none => return none
    | some bytes =>
      if h : bytes.length = identitySecretKeyLen then
        let clientCertPem ← metaString t .clientCertPem
        let clientKeyPem ← metaString t .clientKeyPem
        let caCertPem ← metaString t .caCertPem
        return some ⟨accountId, ⟨bytes, h⟩, clientCertPem, clientKeyPem, caCertPem⟩
      else throw (.corruptIdentity "secret key is the wrong length")

/-- The store after these calls of `set_identity`, newest first, each with as many of its inserts
    as came before a crash. -/
def reopened : List (StoredIdentity × Nat) → Meta
  | [] => ∅
  | call :: older => (reopened older).insertAll ((setIdentity call.1).take call.2)

/-! ## Its keys -/

def identityKeys : List MetaKey :=
  [.accountId, .identitySecret, .clientCertPem, .clientKeyPem, .caCertPem]

/-- What an identity writes to a key. -/
def part (identity : StoredIdentity) : MetaKey → Bytes
  | .accountId => utf8 identity.accountId
  | .identitySecret => identity.secret.1
  | .clientCertPem => utf8 identity.clientCertPem
  | .clientKeyPem => utf8 identity.clientKeyPem
  | .caCertPem => utf8 identity.caCertPem

theorem reopened_eq (calls : List (StoredIdentity × Nat)) :
    reopened calls = Torn.contents identityKeys part calls := by
  induction calls with
  | nil => rfl
  | cons call older ih =>
    rw [reopened, ih]
    rfl

theorem mem_identityKeys (k : MetaKey) : k ∈ identityKeys := by
  cases k <;> decide

theorem fromUtf8_utf8 (s : String) : fromUtf8 (utf8 s) = some s := by
  have hbytes : (⟨(utf8 s).toArray⟩ : ByteArray) = s.toByteArray := by simp [utf8]
  rw [fromUtf8, hbytes, String.fromUTF8?, dif_pos s.isValidUTF8]
  rfl

theorem accountId_eq {t : Meta} {a : String} (h : t.lookup .accountId = some (utf8 a)) :
    accountId t = .ok (some a) := by
  simp only [accountId, h, fromUtf8_utf8]

theorem metaString_eq {t : Meta} {key : MetaKey} {text : String}
    (h : t.lookup key = some (utf8 text)) : metaString t key = .ok text := by
  simp only [metaString, h, fromUtf8_utf8]

/-- **What is read back**, whoever wrote which part. -/
theorem identity_eq {t : Meta} {id : StoredIdentity}
    (h : ∀ k, t.lookup k = some (part id k)) : identity t = .ok (some id) := by
  have hsecret : t.lookup .identitySecret = some id.secret.1 := h .identitySecret
  unfold identity
  rw [accountId_eq (h .accountId)]
  simp only [hsecret]
  show (if h : id.secret.1.length = identitySecretKeyLen then _ else _) = _
  rw [dif_pos id.secret.2, metaString_eq (h .clientCertPem), metaString_eq (h .clientKeyPem),
    metaString_eq (h .caCertPem)]
  rfl

theorem lookup_of_metaString {t : Meta} {key : MetaKey} {text : String}
    (h : metaString t key = .ok text) : t.lookup key ≠ none := by
  intro hnone
  rw [metaString, hnone] at h
  cases h

/-- A store whose keys are not all there has no identity. -/
theorem lookup_of_identity {t : Meta} {id : StoredIdentity} (h : identity t = .ok (some id)) :
    ∀ k, t.lookup k ≠ none := by
  unfold identity at h
  obtain ⟨found, haccount, h⟩ := ok_of_bind h
  cases found with
  | none => cases h
  | some a =>
    have hid : t.lookup .accountId ≠ none := by
      intro hnone
      rw [accountId, hnone] at haccount
      cases haccount
    cases hsecret : t.lookup .identitySecret with
    | none =>
      rw [hsecret] at h
      cases h
    | some bytes =>
      rw [hsecret] at h
      dsimp only at h
      split at h
      · obtain ⟨cert, hcert, h⟩ := ok_of_bind h
        obtain ⟨key, hkey, h⟩ := ok_of_bind h
        obtain ⟨ca, hca, h⟩ := ok_of_bind h
        intro k
        cases k with
        | accountId => exact hid
        | identitySecret => exact hsecret ▸ Option.some_ne_none _
        | clientCertPem => exact lookup_of_metaString hcert
        | clientKeyPem => exact lookup_of_metaString hkey
        | caCertPem => exact lookup_of_metaString hca
      · cases h

/-! ## Crashes -/

/-- An identity of its own for every number of inserts. -/
def numbered (n : Nat) : StoredIdentity :=
  ⟨String.ofList (.replicate n 'a'), ⟨.replicate 32 0, rfl⟩, "", "", String.ofList (.replicate n 'a')⟩

theorem numbered_injective {n n' : Nat}
    (h : String.ofList (.replicate n 'a') = String.ofList (.replicate n' 'a')) : n = n' := by
  have hlen := congrArg (fun s => s.toList.length) h
  simpa using hlen

/-- **When the stored identity can be a mixture.** For every sequence of calls of `set_identity`,
    newest first, with the number of inserts each one came to: whoever's the identities are,
    what is read back afterwards is nothing, an error or the identity of one of the calls, if and
    only if no call came to its last insert or the latest one that made any did. -/
theorem identity_unmixed_iff (cuts : List Nat) :
    (∀ calls : List (StoredIdentity × Nat), calls.map Prod.snd = cuts →
      ∀ id, identity (reopened calls) = .ok (some id) → ∃ call ∈ calls, call.1 = id) ↔
    Torn.Untorn 5 cuts := by
  have hnd : identityKeys.Nodup := by decide
  have hkeys : identityKeys ≠ [] := by decide
  constructor
  · intro h
    by_contra htorn
    have hcuts : (cuts.map fun n => (numbered n, n)).map Prod.snd = cuts := by
      rw [List.map_map]
      exact List.map_id cuts
    have hnumbered : ∀ w ∈ cuts.map (fun n => (numbered n, n)), w.1 = numbered w.2 := by
      intro w hw
      obtain ⟨n, -, rfl⟩ := List.mem_map.mp hw
      rfl
    obtain ⟨hall, w, hw, w', hw', hlt, hge, hfirst, hlast⟩ :=
      @Torn.mixed _ _ _ _ identityKeys part _ hnd hkeys (hcuts.symm ▸ htorn)
    rw [hnumbered w hw] at hfirst
    rw [hnumbered w' hw'] at hlast
    -- The first part is of one call, the last of another; the others are the same in all.
    have hread : identity (Torn.contents identityKeys part (cuts.map fun n => (numbered n, n))) =
        .ok (some { numbered w'.2 with accountId := (numbered w.2).accountId }) := by
      refine identity_eq fun k => ?_
      obtain ⟨v, hv, hpart⟩ := hall k (mem_identityKeys k)
      rw [hnumbered v hv] at hpart
      cases k with
      | accountId => exact hfirst
      | caCertPem => exact hlast
      | identitySecret | clientCertPem | clientKeyPem => exact hpart
    rw [← reopened_eq] at hread
    obtain ⟨call, hcall, hid⟩ := h _ hcuts _ hread
    rw [hnumbered call hcall] at hid
    have haccount : call.2 = w.2 := numbered_injective (congrArg StoredIdentity.accountId hid)
    have hca : call.2 = w'.2 := numbered_injective (congrArg StoredIdentity.caCertPem hid)
    have hlength : identityKeys.length = 5 := rfl
    omega
  · rintro h calls rfl id hid
    have hall := lookup_of_identity hid
    rw [reopened_eq] at hid hall
    obtain ⟨call, hmem, hparts⟩ := Torn.whole hnd hkeys h fun k _ => hall k
    rw [identity_eq fun k => hparts k (mem_identityKeys k)] at hid
    exact ⟨call, hmem, Option.some.inj (Except.ok.inj hid)⟩

/-- A wallet that was registered as `alice` and is being registered as `bob`, with a crash after
    the second insert. -/
def registeredAgain : List (StoredIdentity × Nat) :=
  [(⟨"bob", ⟨.replicate 32 2, rfl⟩, "bob's cert", "bob's key", "ca"⟩, 2),
    (⟨"alice", ⟨.replicate 32 1, rfl⟩, "alice's cert", "alice's key", "ca"⟩, 5)]

/-- **`bob`'s secret with `alice`'s certificate.** -/
theorem identity_mixed : ∃ id, identity (reopened registeredAgain) = .ok (some id) ∧
    ∀ call ∈ registeredAgain, call.1 ≠ id := by
  refine ⟨⟨"bob", ⟨.replicate 32 2, rfl⟩, "alice's cert", "alice's key", "ca"⟩, ?_, by decide⟩
  refine identity_eq fun k => ?_
  cases k <;> rfl

end Store

end Digicash.Wallet
