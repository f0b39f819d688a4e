import Digicash.Bank.Server

/-!
# The bank's front

`authenticated_router`: every value-bearing route is reached through `verify_signed_request`,
and its handler compares the account that was authenticated with the one the request names.
Enrollment is a router of its own, and the only way to a registered key.

A `Router` is a bank whose calls come from there and from nowhere else. Anybody may send any
request, the same one as often as they like; what a handler calls runs beside everything else,
and is lost with the process.
-/

namespace Digicash.Bank

open Lib

variable {X : Crypto}

/-! ## Handlers -/

/-- An error response: the HTTP status and the message. -/
structure ApiError where
  status : Nat
  message : String
deriving DecidableEq, Repr

structure CreateAccountRequest where
  accountId : String
  initialBalanceCents : UInt64
deriving DecidableEq, Repr

/-- What axum and serde read of a request, or the answer they refuse it with. -/
structure Extractors where
  /-- `Json` looks at the content type before the body. -/
  contentType : Request → Except ApiError Unit
  createAccount : Bytes → Except ApiError CreateAccountRequest
  withdraw : Bytes → Except ApiError WithdrawRequest
  deposit : Bytes → Except ApiError DepositRequest
  /-- The `{id}` of a path that matches `/accounts/{id}/balance`. -/
  balanceId : String → Option String

/-- Reject a request whose signed identity does not match the account it targets. -/
def ensureAccount (authenticated target : String) : Except ApiError Unit :=
  if authenticated = target then .ok ()
  else .error ⟨403, "authenticated account " ++ authenticated ++ " may not act on account " ++
    target⟩

/-- A handler that reads its request from the body: what it calls. -/
def Extractors.act {α : Type} (ex : Extractors) (decode : Bytes → Except ApiError α)
    (target : α → String) (op : α → Op) (authenticated : String) (r : Request) :
    Except ApiError Op := do
  ex.contentType r
  let req ← decode r.body
  ensureAccount authenticated (target req)
  return op req

def createAccountAuthenticated (ex : Extractors) : String → Request → Except ApiError Op :=
  ex.act ex.createAccount (·.accountId) fun req =>
    .createAccount req.accountId req.initialBalanceCents

def getBalanceAuthenticated (accountId authenticated : String) : Except ApiError Op := do
  ensureAccount authenticated accountId
  return .balance accountId

def withdrawAuthenticated (ex : Extractors) : String → Request → Except ApiError Op :=
  ex.act ex.withdraw (·.accountId) .withdraw

def depositAuthenticated (ex : Extractors) : String → Request → Except ApiError Op :=
  ex.act ex.deposit (·.accountId) .deposit

/-- The routes that `verify_signed_request` wraps. -/
inductive Route where
  | accounts
  | balance (id : String)
  | withdraw
  | deposit
deriving DecidableEq, Repr

def Extractors.route (ex : Extractors) (path : String) : Option Route :=
  if path = "/accounts" then some .accounts
  else if path = "/withdraw" then some .withdraw
  else if path = "/deposit" then some .deposit
  else (ex.balanceId path).map .balance

/-- The handler of a request that was authenticated. `get` answers `HEAD` too. -/
def Extractors.handler (ex : Extractors) (authenticated : String) (r : Request) :
    Except ApiError Op :=
  match ex.route r.path with
  | some .accounts =>
    if r.method = "POST" then createAccountAuthenticated ex authenticated r else .error ⟨405, ""⟩
  | some (.balance id) =>
    if r.method = "GET" ∨ r.method = "HEAD" then getBalanceAuthenticated id authenticated
    else .error ⟨405, ""⟩
  | some .withdraw =>
    if r.method = "POST" then withdrawAuthenticated ex authenticated r else .error ⟨405, ""⟩
  | some .deposit =>
    if r.method = "POST" then depositAuthenticated ex authenticated r else .error ⟨405, ""⟩
  | none => .error ⟨404, ""⟩

/-- `POST /register`, on the enrollment port. -/
def register (X : Crypto) (accountId publicKeyHex : String) : Except ApiError Op :=
  match Hex.decode publicKeyHex with
  | none => .error ⟨400, "public_key_hex is not valid hex"⟩
  | some raw =>
    if raw.length = identityPublicKeyLen then
      match X.ed25519FromBytes raw with
      | .ok key => .ok (.registerIdentity accountId key)
      | .error e => .error ⟨400, (CoreError.identityPublicKeyInvalid e).toText⟩
    else .error ⟨400, "public key must be 32 bytes"⟩

/-! ## The router -/

structure Router (X : Crypto) where
  bank : Sys (service X)
  /-- The requests that have gone on to their handler, or were lost with the process: the
      calls that authenticated them. -/
  passed : List CallId

inductive RouterEvent (X : Crypto) where
  | connect
  | register (accountId publicKeyHex : String)
  /-- A request comes in. -/
  | request (r : Request)
  /-- `next.run`: the request that call `i` authenticated goes on to its handler. -/
  | next (i : CallId)
  /-- A call goes on, is dropped, or the process ends. -/
  | bank (e : Event (service X))

namespace Router

/-- The request that call `i` authenticated, and as which account. -/
def authenticated (s : Router X) (i : CallId) : Option (Request × String) :=
  s.bank.answers.findSome? fun a =>
    match a.op, a.ans with
    | .authenticate r, .authenticate (.ok account) =>
      if a.call = i then some (r, account) else none
    | _, _ => none

/-- Begin a call that no handler makes. -/
def begin (s : Router X) (op : Op) : Option (Router X) :=
  (s.bank.step (.start op)).map fun t => { s with bank := t }

def step (ex : Extractors) (s : Router X) : RouterEvent X → Option (Router X)
  | .connect => s.begin .connect
  | .register accountId publicKeyHex =>
    match Bank.register X accountId publicKeyHex with
    | .ok op => s.begin op
    | .error _ => some s
  | .request r => if (ex.route r.path).isSome then s.begin (.authenticate r) else some s
  | .next i =>
    if i ∈ s.passed then none
    else (s.authenticated i).bind fun request =>
      match ex.handler request.2 request.1 with
      | .ok op => (s.bank.step (.start op)).map fun t => ⟨t, i :: s.passed⟩
      | .error _ => some { s with passed := i :: s.passed }
  | .bank (.start _) => none
  | .bank (.crash κ) => (s.bank.step (.crash κ)).map fun t =>
      { s with bank := t, passed := List.range s.bank.next }
  | .bank e => (s.bank.step e).map fun t => { s with bank := t }

/-- A bank that has never run. -/
def start (κ : Config X) : Router X := ⟨Bank.start κ, []⟩

def Step (ex : Extractors) (s s' : Router X) : Prop := ∃ e, s.step ex e = some s'

abbrev Steps (ex : Extractors) : Router X → Router X → Prop := Relation.ReflTransGen (Step ex)

/-- Run a list of events; `none` as soon as one is not enabled. -/
def run (ex : Extractors) (s : Router X) : List (RouterEvent X) → Option (Router X)
  | [] => some s
  | e :: es => (s.step ex e).bind fun s' => s'.run ex es

theorem steps_of_run {ex : Extractors} : ∀ {es : List (RouterEvent X)} {s s' : Router X},
    s.run ex es = some s' → Steps ex s s'
  | [], s, s', h => by
    obtain rfl : s = s' := Option.some.inj h
    exact .refl
  | e :: es, s, s', h => by
    obtain ⟨s₁, h₁, h₂⟩ := Option.bind_eq_some_iff.mp h
    exact .head ⟨e, h₁⟩ (steps_of_run h₂)

end Router

end Digicash.Bank
