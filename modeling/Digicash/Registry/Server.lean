import Digicash.Registry.Code

/-!
# The running registry

The registry as a service. Its process starts with `connect`; the program that starts it then
seeds the admin with `registerMember` and serves the API.
-/

namespace Digicash.Registry

open Lib

inductive Op where
  | connect
  | registerMember (bankId : String) (publicKey : Bytes) (isAdmin : Bool)
  | authenticate (request : Request)
  | postMember (caller : String) (req : RegisterMemberRequest)
  | postSerial (caller : String) (submission : SerialSubmission)
  | postCap (caller : String) (req : SetCapRequest)
  | postSettle (caller : String)
deriving DecidableEq

inductive Ans where
  | connect (r : Except RegistryError Unit)
  | registerMember (r : Except RegistryError Unit)
  | authenticate (r : Except AuthRejection String)
  | postMember (r : Except ApiError Unit)
  | postSerial (r : Except ApiError SerialResponse)
  | postCap (r : Except ApiError Unit)
  | postSettle (r : Except ApiError (List SettlementClaimInfo))
deriving DecidableEq

def code (X : Crypto) : Op → Code database Ans
  | .connect => .connect <$> connect.run
  | .registerMember b k a => .registerMember <$> (registerMember b k a).run
  | .authenticate r => .authenticate <$> (authenticate X r).run
  | .postMember caller req => .postMember <$> (Api.registerMember X caller req).run
  | .postSerial caller submission => .postSerial <$> (Api.postSerial caller submission).run
  | .postCap caller req => .postCap <$> (Api.setCap caller req).run
  | .postSettle caller => .postSettle <$> (Api.postSettle caller).run

/-- `connect` begins a process that is not there yet; everything else needs one that
    serves. -/
def enter : Op → Memory → Option Memory
  | .connect, m => if m.phase = .down then some { m with phase := .starting } else none
  | _, m => if m.phase = .up then some m else none

def reboot (m : Memory) : Memory := { m with phase := .down, nonceOps := 0 }

@[reducible] def service (X : Crypto) : Service database where
  Conf := Unit
  Op := Op
  Ans := Ans
  code _ := code X
  enter := enter
  reboot := reboot

/-- A registry that has never run. -/
def start (X : Crypto) : Sys (service X) := .init () .empty .fresh

/-- Begin a call. -/
abbrev call (op : Op) : Event (service .toy) := .start op

/-- `n` steps of call `i` in which nothing goes wrong. -/
abbrev go (i : CallId) (n : Nat) : List (Event (service .toy)) := Event.steps i n

/-- It starts, and the admin is seeded. The next call is number 2. -/
def opened : List (Event (service .toy)) :=
  call .connect :: go 0 4 ++ call (.registerMember "admin" (.replicate 32 0) true) :: go 1 2

end Digicash.Registry
