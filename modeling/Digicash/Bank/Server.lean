import Digicash.Bank.Code

/-!
# The running bank

The bank as a service: the calls it answers, the code of each, and its life. The process
starts with `connect`, which nothing else runs beside, and serves once `connect` returned. A
crash takes the process down, whatever it was doing, and the next one starts from what the
database holds.
-/

namespace Digicash.Bank

open Lib

inductive Op where
  | connect
  | createAccount (accountId : String) (initialBalanceCents : UInt64)
  | balance (accountId : String)
  | registerIdentity (accountId : String) (pubkey : Bytes)
  | authenticate (request : Request)
  | withdraw (req : WithdrawRequest)
  | deposit (req : DepositRequest)
deriving DecidableEq

inductive Ans where
  | connect (r : Except BankError Unit)
  | createAccount (r : Except BankError BalanceResponse)
  | balance (r : Except BankError (Option UInt64))
  | registerIdentity (r : Except BankError Unit)
  | authenticate (r : Except AuthRejection String)
  | withdraw (r : Except BankError WithdrawResponse)
  | deposit (r : Except BankError DepositResponse)
deriving DecidableEq

/-- The HTTP status an error is answered with. -/
def BankError.status : BankError → Nat
  | .accountExists _ | .withdrawPreviouslyFailed _ | .identityExists _ => 409
  | .accountNotFound _ => 404
  | .insufficientBalance _ _ _ => 422
  | .unknownDenomination _ => 400
  | _ => 500

def Op.isDeposit : Op → Bool
  | .deposit _ => true
  | _ => false

variable {X : Crypto}

def code (κ : Config X) : Op → Code database Ans
  | .connect => .connect <$> (connect κ).run
  | .createAccount a b => .createAccount <$> (createAccount a b).run
  | .balance a => .balance <$> (balance a).run
  | .registerIdentity a k => .registerIdentity <$> (registerIdentity a k).run
  | .authenticate r => .authenticate <$> (authenticate X r).run
  | .withdraw req => .withdraw <$> (withdraw κ req).run
  | .deposit req => .deposit <$> (deposit κ req).run

/-- `connect` begins a process that is not there yet; everything else needs one that
    serves. -/
def enter : Op → Memory → Option Memory
  | .connect, m => if m.phase = .down then some { m with phase := .starting } else none
  | _, m => if m.phase = .up then some m else none

def reboot (m : Memory) : Memory := { m with phase := .down, nonceOps := 0 }

@[reducible] def service (X : Crypto) : Service database where
  Conf := Config X
  Op := Op
  Ans := Ans
  code := code
  enter := enter
  reboot := reboot

/-- A bank that has never run. -/
def start (κ : Config X) : Sys (service X) := .init κ .empty .fresh

/-- Begin a call. -/
abbrev call (op : Op) : Event (service X) := .start op

/-- `n` steps of call `i` in which nothing goes wrong. -/
abbrev go (i : CallId) (n : Nat) : List (Event (service X)) := Event.steps i n

/-- A bank over the toy primitives with a key for 100 cents and no registry. -/
def Config.toy : Config .toy :=
  ⟨⟨(∅ : Table (UInt64 × UInt8) (Keypair .toy)).put (100, 0) (some ⟨(), ()⟩)⟩, none⟩

/-- It starts, and opens an account with 500 cents. The next call is number 2. -/
def opened : List (Event (service .toy)) :=
  call .connect :: go 0 5 ++ call (.createAccount "alice" 500) :: go 1 2

end Digicash.Bank
