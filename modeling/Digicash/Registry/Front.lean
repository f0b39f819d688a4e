import Digicash.Auth
import Digicash.Registry.Server

/-!
# The registry's front

`router`: every route but `/health` is reached through `verify_signed_request`, and a handler is
given whom the request was authenticated as. `main` seeds the governance admin with the key it
is configured with, before it serves; a key that is there already is left alone.

A `Router` is a registry whose calls come from there and from nowhere else. Anybody may send any
request, the same one as often as they like; the configuration may be another one at each start.
-/

namespace Digicash.Registry

open Lib

variable {X : Crypto}

/-! ## Handlers -/

/-- What axum and serde read of a request, or the answer they refuse it with. -/
structure Extractors where
  /-- `Json` looks at the content type before the body. -/
  contentType : Request → Except ApiError Unit
  registerMember : Bytes → Except ApiError RegisterMemberRequest
  submission : Bytes → Except ApiError SerialSubmission
  setCap : Bytes → Except ApiError SetCapRequest

/-- A handler that reads its request from the body: what it calls. -/
def Extractors.act {α : Type} (ex : Extractors) (decode : Bytes → Except ApiError α) (op : α → Op)
    (r : Request) : Except ApiError (Option Op) := do
  ex.contentType r
  let req ← decode r.body
  return some (op req)

/-- The handler of a request that was authenticated. `list_members` and `get_caps` only read,
    and call nothing that is followed here. `get` answers `HEAD` too. -/
def Extractors.handler (ex : Extractors) (authenticated : String) (r : Request) :
    Except ApiError (Option Op) :=
  if r.path = "/members" then
    if r.method = "POST" then ex.act ex.registerMember (.postMember authenticated) r
    else if r.method = "GET" ∨ r.method = "HEAD" then .ok none
    else .error ⟨405, ""⟩
  else if r.path = "/serials" then
    if r.method = "POST" then ex.act ex.submission (.postSerial authenticated) r
    else .error ⟨405, ""⟩
  else if r.path = "/caps" then
    if r.method = "POST" then ex.act ex.setCap (.postCap authenticated) r
    else if r.method = "GET" ∨ r.method = "HEAD" then .ok none
    else .error ⟨405, ""⟩
  else if r.path = "/settle" then
    if r.method = "POST" then .ok (some (.postSettle authenticated)) else .error ⟨405, ""⟩
  else .error ⟨404, ""⟩

/-- The routes that `verify_signed_request` wraps. -/
def routed (path : String) : Bool :=
  path = "/members" || path = "/serials" || path = "/caps" || path = "/settle"

/-! ## The program -/

/-- What `str::trim` takes for white space. -/
def isWhitespace (c : Char) : Bool :=
  (9 ≤ c.toNat && c.toNat ≤ 13) || (8192 ≤ c.toNat && c.toNat ≤ 8202) ||
    [32, 133, 160, 5760, 8232, 8233, 8239, 8287, 12288].contains c.toNat

def trim (s : String) : String :=
  String.ofList ((s.toList.dropWhile isWhitespace).reverse.dropWhile isWhitespace).reverse

/-- The admin's key, as `main` reads `DIGICASH_REGISTRY_ADMIN_PUBKEY`; where it cannot, it
    returns an error. -/
def adminKey (X : Crypto) (configured : String) : Option Bytes :=
  match Hex.decode (trim configured) with
  | none => none
  | some raw =>
    if raw.length = identityPublicKeyLen then (X.ed25519FromBytes raw).toOption else none

/-- How far `main` has come. -/
inductive Stage where
  | down
  /-- In `Registry::connect`, by this call; the admin's key is configured as given. -/
  | connecting (call : CallId) (configured : Option String)
  /-- In `register_member`, by this call. -/
  | seeding (call : CallId)
  | serving
deriving DecidableEq, Repr

structure Router (X : Crypto) where
  registry : Sys (service X)
  stage : Stage
  /-- The requests that have gone on to their handler, or were lost with the process: the
      calls that authenticated them. -/
  passed : List CallId

inductive RouterEvent (X : Crypto) where
  /-- The program is started. -/
  | main (configured : Option String)
  /-- `connect` has returned. -/
  | seed
  /-- `register_member` has returned. -/
  | serve
  /-- A request comes in. -/
  | request (r : Request)
  /-- `next.run`: the request that call `i` authenticated goes on to its handler. -/
  | next (i : CallId)
  /-- A call goes on, is dropped, or the process ends. -/
  | registry (e : Event (service X))

namespace Router

/-- What call `i` was answered. -/
def answerOf (s : Router X) (i : CallId) : Option Ans :=
  s.registry.answers.findSome? fun a => if a.call = i then some a.ans else none

/-- The request that call `i` authenticated, and as which bank. -/
def authenticated (s : Router X) (i : CallId) : Option (Request × String) :=
  s.registry.answers.findSome? fun a =>
    match a.op, a.ans with
    | .authenticate r, .authenticate (.ok bank) => if a.call = i then some (r, bank) else none
    | _, _ => none

/-- Begin a call. -/
def begin (s : Router X) (op : Op) (stage : Stage) : Option (Router X) :=
  (s.registry.step (.start op)).map fun t => { s with registry := t, stage := stage }

/-- The process ends. -/
def exit (s : Router X) : Option (Router X) :=
  (s.registry.step (.crash ())).map fun t => ⟨t, .down, List.range s.registry.next⟩

def step (ex : Extractors) (s : Router X) : RouterEvent X → Option (Router X)
  | .main configured =>
    if s.stage = .down then s.begin .connect (.connecting s.registry.next configured) else none
  | .seed =>
    match s.stage with
    | .connecting i configured =>
      match s.answerOf i with
      | some (.connect (.ok ())) =>
        match configured with
        | none => some { s with stage := .serving }
        | some configured =>
          match adminKey X configured with
          | some key => s.begin (.registerMember "admin" key true) (.seeding s.registry.next)
          | none => s.exit
      | some _ => s.exit
      | none => none
    | _ => none
  | .serve =>
    match s.stage with
    | .seeding i =>
      match s.answerOf i with
      | some (.registerMember (.ok ())) => some { s with stage := .serving }
      | some (.registerMember (.error (.memberExists _))) => some { s with stage := .serving }
      | some _ => s.exit
      | none => none
    | _ => none
  | .request r =>
    if s.stage = .serving ∧ routed r.path then s.begin (.authenticate r) s.stage else some s
  | .next i =>
    if i ∈ s.passed then none
    else (s.authenticated i).bind fun request =>
      match ex.handler request.2 request.1 with
      | .ok (some op) =>
        (s.registry.step (.start op)).map fun t => { s with registry := t, passed := i :: s.passed }
      | _ => some { s with passed := i :: s.passed }
  | .registry (.start _) => none
  | .registry (.crash _) => s.exit
  | .registry e => (s.registry.step e).map fun t => { s with registry := t }

/-- A registry that has never run. -/
def start (X : Crypto) : Router X := ⟨Registry.start X, .down, []⟩

/-- A step where only the configurations `A` are ever given to `main`. -/
def Step (ex : Extractors) (A : Option String → Prop) (s s' : Router X) : Prop :=
  ∃ e, s.step ex e = some s' ∧ ∀ configured, e = .main configured → A configured

abbrev Steps (ex : Extractors) (A : Option String → Prop) : Router X → Router X → Prop :=
  Relation.ReflTransGen (Step ex A)

/-- Run a list of events; `none` as soon as one is not enabled. -/
def run (ex : Extractors) (s : Router X) : List (RouterEvent X) → Option (Router X)
  | [] => some s
  | e :: es => (s.step ex e).bind fun s' => s'.run ex es

theorem steps_of_run {ex : Extractors} {A : Option String → Prop} :
    ∀ {es : List (RouterEvent X)} {s s' : Router X}, s.run ex es = some s' →
      (∀ configured, RouterEvent.main configured ∈ es → A configured) → Steps ex A s s'
  | [], s, s', h, _ => by
    obtain rfl : s = s' := Option.some.inj h
    exact .refl
  | e :: es, s, s', h, hA => by
    obtain ⟨s₁, h₁, h₂⟩ := Option.bind_eq_some_iff.mp h
    refine .head ⟨e, h₁, fun configured he => hA configured (he ▸ List.mem_cons_self ..)⟩ ?_
    exact steps_of_run h₂ fun configured hmem => hA configured (List.mem_cons_of_mem _ hmem)

end Router

end Digicash.Registry
