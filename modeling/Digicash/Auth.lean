import Digicash.Lib.Deeds
import Digicash.Proto

/-!
# Authenticating a request

The bank and the registry run the same checks in the same order before any handler: headers,
key, timestamp window, signature, nonce. Each has its own copy of the function; the copies
differ in where they look the key up, in one message and in their nonce store. `authenticate`
here is that function with those as parameters.
-/

namespace Digicash

open Lib

/-- Largest request body the servers buffer. -/
def maxBodyBytes : Nat := 1048576

/-- A request whose timestamp is further than this from the server's clock is rejected. -/
def maxTimestampSkewSecs : UInt64 := 60

/-- How long a nonce is remembered. -/
def nonceTtlSecs : UInt64 := 120

/-- Purge expired nonces once every this many recorded nonces. -/
def noncePruneInterval : UInt64 := 1024

/-- A rejected request: the HTTP status and the message. -/
structure AuthRejection where
  status : Nat
  message : String
deriving DecidableEq, Repr

namespace AuthRejection

def unauthorized (message : String) : AuthRejection := ⟨401, message⟩

def badRequest (message : String) : AuthRejection := ⟨400, message⟩

def headers : AuthHeaderError → AuthRejection
  | .missing header => ⟨400, "missing or empty authentication header: " ++ header⟩
  | .malformed header => ⟨400, "malformed authentication header: " ++ header⟩

def internal (message : String) : AuthRejection := ⟨500, message⟩

end AuthRejection

/-- The timestamp is too old or too new for the clock. -/
def outsideWindow (timestamp now : UInt64) : Bool :=
  saturatingAdd timestamp maxTimestampSkewSecs < now ||
    saturatingAdd now maxTimestampSkewSecs < timestamp

def decodeSignature (hexSignature : String) : Except AuthRejection Bytes :=
  match Hex.decode hexSignature with
  | none => .error (.unauthorized "signature is not valid hex")
  | some bytes =>
    if bytes.length = identitySignatureLen then .ok bytes
    else .error (.unauthorized "signature is not 64 bytes")

/-- The string a request's signature is over. -/
def Request.payload (X : Crypto) (r : Request) (auth : AuthHeaders) : String :=
  canonicalPayload X r.method r.path r.body auth.timestamp auth.nonce

/-- Some signature of the message verifies under the key. -/
def Verifies (X : Crypto) (key message : Bytes) : Prop :=
  ∃ signature, X.ed25519Verify key message signature = .ok ()

/-- Everything up to the key: the body's size and the headers. -/
def readHeaders (r : Request) : Except AuthRejection AuthHeaders :=
  if maxBodyBytes < r.body.length then
    .error (.badRequest "request body too large or unreadable")
  else (AuthHeaders.fromLookup r.header).mapError .headers

variable {D : Database} {ε : Type}

/-- Returns the account the request is authenticated as. -/
def authenticate (X : Crypto) (internal : ε → AuthRejection) (noKey : String)
    (pubkeyOf : String → Fallible D ε (Option Bytes)) (nowUnix : Fallible D ε UInt64)
    (checkAndRecordNonce : String → UInt64 → UInt64 → Fallible D ε Bool) (r : Request) :
    Fallible D AuthRejection String := do
  let auth ← orThrow (readHeaders r)
  match ← mapErr internal (pubkeyOf auth.accountId) with
  | none => throw (.unauthorized noKey)
  | some pubkey =>
    let now ← mapErr internal nowUnix
    if outsideWindow auth.timestamp now then
      throw (.unauthorized "request timestamp outside the accepted window")
    else
      let signature ← orThrow (decodeSignature auth.signature)
      match X.ed25519Verify pubkey (utf8 (r.payload X auth)) signature with
      | .error _ => throw (.unauthorized "signature verification failed")
      | .ok () =>
        let fresh ← mapErr internal (checkAndRecordNonce auth.nonce now nonceTtlSecs)
        if fresh then pure auth.accountId
        else throw (.unauthorized "nonce already used (replay)")

/-- **An accepted request had its nonce recorded**, inside the window of its timestamp. `R` is
    whatever the nonce check leaves behind when the nonce was fresh. -/
theorem authenticate_spec {S : Service D} {P : Protocol S} {κ : S.Conf} {i : CallId} {op : S.Op}
    {X : Crypto} {internal : ε → AuthRejection} {noKey : String}
    {pubkeyOf : String → Fallible D ε (Option Bytes)} {nowUnix : Fallible D ε UInt64}
    {checkAndRecordNonce : String → UInt64 → UInt64 → Fallible D ε Bool} {r : Request}
    {R : Shared D S.Op → Prop} {sh : Shared D S.Op} (hi : P.Inv sh)
    (hR : ∀ {sh sh'}, R sh → P.Reaches κ sh sh' → R sh')
    (hkey : ∀ {a sh}, P.Spec κ i op (fun _ tx _ => tx = none) Protocol.Closed (pubkeyOf a) none sh)
    (hnow : ∀ {sh}, P.Spec κ i op (fun _ tx _ => tx = none) Protocol.Closed nowUnix none sh)
    (hnonce : ∀ {auth clock sh}, readHeaders r = .ok auth →
      outsideWindow auth.timestamp clock = false →
        P.Spec κ i op (fun fresh tx sh => tx = none ∧ (fresh = true → R sh)) Protocol.Closed
          (checkAndRecordNonce auth.nonce clock nonceTtlSecs) none sh) :
    P.Spec κ i op (fun _ _ sh => R sh) Protocol.Closed
      (authenticate X internal noKey pubkeyOf nowUnix checkAndRecordNonce r) none sh := by
  unfold authenticate
  refine Protocol.Spec.orThrow_bind (fun _ _ _ _ => rfl) fun auth hauth => ?_
  refine Protocol.Spec.bind hi (.mapErr hi hkey) fun found tx sh₁ hi₁ h₁ => ?_
  subst h₁
  cases found with
  | none => exact Protocol.Spec.throw fun _ _ => rfl
  | some pubkey =>
    refine Protocol.Spec.bind hi₁ (.mapErr hi₁ hnow) fun now tx sh₂ hi₂ h₂ => ?_
    subst h₂
    split
    · exact Protocol.Spec.throw fun _ _ => rfl
    rename_i hwindow
    refine Protocol.Spec.orThrow_bind (fun _ _ _ _ => rfl) fun signature _ => ?_
    split
    · exact Protocol.Spec.throw fun _ _ => rfl
    · refine Protocol.Spec.bind hi₂ (.mapErr hi₂ (hnonce hauth (by simpa using hwindow)))
        fun fresh tx sh₃ hi₃ h₃ => ?_
      obtain ⟨rfl, hrec⟩ := h₃
      split
      · rename_i hfresh
        exact Protocol.Spec.ok fun sh₄ h₄ => hR (hrec hfresh) h₄.reaches
      · exact Protocol.Spec.throw fun _ _ => rfl

/-- **An accepted request passed every check** under the key that was found for it. `F a key ds`
    says that the deeds `ds` found `key` for `a`. -/
theorem accepted_along {X : Crypto} {internal : ε → AuthRejection} {noKey : String}
    {pubkeyOf : String → Fallible D ε (Option Bytes)} {nowUnix : Fallible D ε UInt64}
    {checkAndRecordNonce : String → UInt64 → UInt64 → Fallible D ε Bool} {r : Request}
    {F : String → Bytes → Deeds D → Prop}
    (hkey : ∀ a, Prog.Along (fun _ _ => True)
      (fun ds found => ∀ key, found = .ok (some key) → F a key ds) [] (pubkeyOf a).run) :
    Prog.Along (fun _ _ => True)
      (fun ds result => ∀ account, result = .ok account → ∃ auth key signature ds₀,
        readHeaders r = .ok auth ∧ auth.accountId = account ∧ F account key ds₀ ∧ ds₀ <:+ ds ∧
          decodeSignature auth.signature = .ok signature ∧
          X.ed25519Verify key (utf8 (r.payload X auth)) signature = .ok ())
      [] (authenticate X internal noKey pubkeyOf nowUnix checkAndRecordNonce r).run := by
  unfold authenticate
  refine Prog.Along.orThrow_bind (fun _ _ _ h => by cases h) fun auth hauth => ?_
  refine Prog.Along.bind_ok (M := fun ds found => ∀ key, found = .ok (some key) →
      F auth.accountId key ds) (Prog.Along.mapErr ?_ (hkey auth.accountId))
    (fun ds found hfound => ?_) fun _ _ _ _ h => by cases h
  · intro ds found hfound key hkey
    cases found with
    | ok found => exact hfound key (congrArg Except.ok (Except.ok.inj hkey))
    | error e => cases hkey
  cases found with
  | none => exact fun _ h => by cases h
  | some key =>
    refine Prog.Along.bind_ok (M := fun ds' _ => ds <:+ ds')
      (Prog.Along.mapErr (fun _ _ h => h) Prog.Along.grows) (fun ds₁ now hnow => ?_)
      fun _ _ _ _ h => by cases h
    split
    · exact fun _ h => by cases h
    refine Prog.Along.orThrow_bind (fun _ _ _ h => by cases h) fun signature hsig => ?_
    split
    · exact fun _ h => by cases h
    rename_i hverify
    refine Prog.Along.bind_ok (M := fun ds' _ => ds₁ <:+ ds')
      (Prog.Along.mapErr (fun _ _ h => h) Prog.Along.grows) (fun ds₂ fresh hfresh => ?_)
      fun _ _ _ _ h => by cases h
    split
    · intro account haccount
      obtain rfl := Except.ok.inj haccount
      exact ⟨auth, key, signature, ds, hauth, rfl, hfound key rfl, hnow.trans hfresh, hsig, hverify⟩
    · exact fun _ h => by cases h

end Digicash
