import Digicash.Bank.Server
import Digicash.Lib.Pooled
import Digicash.Registry.Server

/-!
# The servers behind their pools

The code of both servers with its connections: where a function checks one out, and how long it
keeps it. Two functions of the bank keep theirs while they call another one that needs its own:
`finalize_withdraw` while it calls `set_state`, and `check_and_record_nonce` while it calls
`purge_expired_nonces`. The registry has no such function.

Without the connections it is the code of `Bank.Code` and `Registry.Code` (`erase_code`). So
behind its pool a server does nothing that it could not do without one (`runs_unpooled`): what
is known of the runs without a pool holds of these too.
-/

namespace Digicash

open Lib

namespace Bank

/-- The maximum number of pooled connections. A checkout has no time limit. -/
def poolMaxSize : ℕ := 16

variable {X : Crypto}

namespace Pooled

/-- The bank's code with the commands of the pool. -/
abbrev PoolM (α : Type) := Fallible database.pooled BankError α

/-- Run one SQL statement on the connection there is. -/
abbrev sql (s : Stmt) : PoolM s.Res := query (D := database.pooled) s

abbrev ask (e : Ext) : PoolM e.Res := performOutside (D := database) e

def nowUnix : PoolM UInt64 := ask .nowUnix

/-! ## Withdrawals -/

def setState (requestId : String) (state : WithdrawState) : PoolM Unit :=
  borrowing (Bank.setState requestId state)

def loadRecord (requestId : String) : PoolM (Option WithdrawalRecord) :=
  borrowing (Bank.loadRecord requestId)

def debitAndRecordPending (req : WithdrawRequest) : PoolM Unit :=
  borrowing (Bank.debitAndRecordPending req)

def compensate (requestId accountId : String) (denominationCents : UInt64) : PoolM Unit :=
  borrowing (Bank.compensate requestId accountId denominationCents)

/-- The connection that stored the signature is still there when `set_state` wants one. -/
def finalizeWithdraw (κ : Config X) (requestId accountId : String) (denominationCents : UInt64)
    (blindedMessage : Bytes) : PoolM Bytes := do
  match κ.keys.get denominationCents schemeIdRsaDeterministic with
  | none => throw (.unknownDenomination denominationCents)
  | some keypair =>
    match signBlinded keypair.sk blindedMessage with
    | .ok signature =>
      holding do
        let _ ← sql (.setSigned requestId signature)
        setState requestId .completed
        pure signature
    | .error e =>
      compensate requestId accountId denominationCents
      throw (.withdrawFailed requestId e.toText)

def resumeWithdraw (κ : Config X) (requestId : String) (record : WithdrawalRecord) :
    PoolM WithdrawResponse := do
  match record.state with
  | .completed | .signed =>
    match record.blindSignature with
    | none => throw (.malformedRecord requestId "signed record has no signature")
    | some signature =>
      if record.state = .signed then
        setState requestId .completed
        pure ⟨signature⟩
      else pure ⟨signature⟩
  | .pending =>
    let signature ← finalizeWithdraw κ requestId record.accountId record.denominationCents
      record.blindedMessage
    pure ⟨signature⟩
  | .compensated => throw (.withdrawPreviouslyFailed requestId)

def withdraw (κ : Config X) (req : WithdrawRequest) : PoolM WithdrawResponse := do
  match ← loadRecord req.requestId with
  | some record => resumeWithdraw κ req.requestId record
  | none =>
    match κ.keys.get req.denominationCents schemeIdRsaDeterministic with
    | none => throw (.unknownDenomination req.denominationCents)
    | some _ =>
      debitAndRecordPending req
      let signature ← finalizeWithdraw κ req.requestId req.accountId req.denominationCents
        req.blindedMessage
      pure ⟨signature⟩

/-! ## Startup -/

def recoverOne (κ : Config X) (r : ToResume) : PoolM Unit := do
  match r.state with
  | .pending =>
    let _ ← attempt
      (finalizeWithdraw κ r.requestId r.accountId r.denominationCents r.blindedMessage)
    pure ()
  | .signed => setState r.requestId .completed
  | .completed | .compensated => pure ()

def recoverAll (κ : Config X) : List ToResume → PoolM Unit
  | [] => pure ()
  | r :: rs => do
    recoverOne κ r
    recoverAll κ rs

/-- The connection of the scan is dropped before the loop. -/
def recoverWithdrawals (κ : Config X) : PoolM Unit := do
  let rows ← borrowing (Bank.sql .selectInFlight)
  let todo ← orThrow (rows.mapM toResume)
  recoverAll κ todo

def purgeExpiredNonces (now : UInt64) : PoolM Unit := borrowing (Bank.purgeExpiredNonces now)

def connect (κ : Config X) : PoolM Unit := do
  recoverWithdrawals κ
  let now ← nowUnix
  purgeExpiredNonces now
  ask .serve

/-! ## Nonces and authentication -/

def identityPubkey (X : Crypto) (accountId : String) : PoolM (Option Bytes) :=
  borrowing (Bank.identityPubkey X accountId)

/-- The connection that recorded the nonce is still there when the purge wants one. -/
def checkAndRecordNonce (nonce : String) (now ttlSecs : UInt64) : PoolM Bool := do
  let expiry ← orThrow (toI64 (saturatingAdd now ttlSecs) "nonce expiry")
  let now ← orThrow (toI64 now "nonce timestamp")
  holding do
    let affected ← sql (.upsertNonce nonce expiry now)
    let ops ← ask .nonceOpsFetchAdd
    if ops % noncePruneInterval = noncePruneInterval - 1 then
      let now ← orThrow (toU64 now "nonce timestamp")
      purgeExpiredNonces now
      pure (affected = 1)
    else pure (affected = 1)

def authenticate (X : Crypto) : Request → Fallible database.pooled AuthRejection String :=
  Digicash.authenticate X (fun e : BankError => .internal e.toText)
    "account has no registered signing key" (identityPubkey X) nowUnix checkAndRecordNonce

def code (κ : Config X) : Op → Code database.pooled Ans
  | .connect => .connect <$> (connect κ).run
  | .createAccount a b => .createAccount <$> (borrowing (createAccount a b)).run
  | .balance a => .balance <$> (borrowing (balance a)).run
  | .registerIdentity a k => .registerIdentity <$> (borrowing (registerIdentity a k)).run
  | .authenticate r => .authenticate <$> (authenticate X r).run
  | .withdraw req => .withdraw <$> (withdraw κ req).run
  | .deposit req => .deposit <$> (borrowing (deposit κ req)).run

/-! ## Without the connections -/

section Erase

variable {κ : Config X}

@[simp] theorem erase_setState (requestId : String) (state : WithdrawState) :
    erase (setState requestId state) = Bank.setState requestId state := erase_borrowing _

@[simp] theorem erase_finalizeWithdraw (requestId accountId : String) (denominationCents : UInt64)
    (blindedMessage : Bytes) :
    erase (finalizeWithdraw κ requestId accountId denominationCents blindedMessage) =
      Bank.finalizeWithdraw κ requestId accountId denominationCents blindedMessage := by
  unfold finalizeWithdraw Bank.finalizeWithdraw
  cases κ.keys.get denominationCents schemeIdRsaDeterministic with
  | none => rfl
  | some keypair =>
    dsimp only
    cases signBlinded keypair.sk blindedMessage with
    | ok signature =>
      simp only [erase_holding, erase_bind, erase_setState, erase_pure]
      rfl
    | error e => simp [compensate]

theorem erase_resumeWithdraw (requestId : String) (record : WithdrawalRecord) :
    erase (resumeWithdraw κ requestId record) = Bank.resumeWithdraw κ requestId record := by
  obtain ⟨state, accountId, denominationCents, blindedMessage, signature⟩ := record
  cases state with
  | pending => simp [resumeWithdraw, Bank.resumeWithdraw]
  | compensated => rfl
  | completed | signed =>
    cases signature with
    | none => rfl
    | some signature => simp [resumeWithdraw, Bank.resumeWithdraw]

theorem erase_withdraw (req : WithdrawRequest) :
    erase (withdraw κ req) = Bank.withdraw κ req := by
  unfold withdraw Bank.withdraw
  rw [erase_bind, loadRecord, erase_borrowing]
  refine congrArg (Bank.loadRecord req.requestId >>= ·) (funext fun record => ?_)
  cases record with
  | some record => exact erase_resumeWithdraw ..
  | none =>
    dsimp only
    cases κ.keys.get req.denominationCents schemeIdRsaDeterministic with
    | none => rfl
    | some keypair => simp [debitAndRecordPending]

theorem erase_recoverOne (r : ToResume) : erase (recoverOne κ r) = Bank.recoverOne κ r := by
  obtain ⟨requestId, state, accountId, denominationCents, blindedMessage⟩ := r
  cases state <;> simp [recoverOne, Bank.recoverOne]

theorem erase_recoverAll (rs : List ToResume) : erase (recoverAll κ rs) = Bank.recoverAll κ rs := by
  induction rs with
  | nil => rfl
  | cons r rs ih => simp [recoverAll, Bank.recoverAll, ih, erase_recoverOne]

theorem erase_connect : erase (connect κ) = Bank.connect κ := by
  simp only [connect, recoverWithdrawals, purgeExpiredNonces, erase_bind, erase_borrowing,
    erase_orThrow, erase_recoverAll]
  rfl

theorem erase_checkAndRecordNonce (nonce : String) (now ttlSecs : UInt64) :
    erase (checkAndRecordNonce nonce now ttlSecs) = Bank.checkAndRecordNonce nonce now ttlSecs := by
  simp only [checkAndRecordNonce, purgeExpiredNonces, erase_bind, erase_orThrow, erase_holding,
    apply_ite erase, erase_borrowing, erase_pure]
  rfl

theorem erase_authenticate (r : Request) :
    erase (authenticate X r) = Bank.authenticate X r := by
  unfold authenticate Bank.authenticate Digicash.authenticate
  rw [erase_bind, erase_orThrow]
  refine congrArg (orThrow (readHeaders r) >>= ·) (funext fun auth => ?_)
  rw [erase_bind, erase_mapErr, identityPubkey, erase_borrowing]
  refine congrArg (mapErr _ (Bank.identityPubkey X auth.accountId) >>= ·) (funext fun found => ?_)
  cases found with
  | none => rfl
  | some pubkey =>
    dsimp only
    rw [erase_bind, erase_mapErr]
    refine congrArg (mapErr _ Bank.nowUnix >>= ·) (funext fun now => ?_)
    rw [apply_ite erase]
    refine congrArg (ite _ _) ?_
    rw [erase_bind, erase_orThrow]
    refine congrArg (orThrow (decodeSignature auth.signature) >>= ·) (funext fun signature => ?_)
    cases X.ed25519Verify pubkey (utf8 (r.payload X auth)) signature with
    | error e => rfl
    | ok u =>
      dsimp only
      rw [erase_bind, erase_mapErr, erase_checkAndRecordNonce]
      refine congrArg (mapErr _ _ >>= ·) (funext fun fresh => ?_)
      cases fresh <;> rfl

/-- **Without its connections it is the bank's code.** -/
theorem erase_code (κ : Config X) (op : Op) : (code κ op).erase = Bank.code κ op := by
  cases op with
  | connect => exact erase_answer erase_connect
  | createAccount a b => exact erase_answer (erase_borrowing _)
  | balance a => exact erase_answer (erase_borrowing _)
  | registerIdentity a k => exact erase_answer (erase_borrowing _)
  | authenticate r => exact erase_answer (erase_authenticate r)
  | withdraw req => exact erase_answer (erase_withdraw req)
  | deposit req => exact erase_answer (erase_borrowing _)

end Erase

/-! ## The service -/

/-- The bank behind its pool. -/
abbrev service (X : Crypto) : Service database.pooled := (Bank.service X).pooled code

/-- A bank that has never run. -/
def start (κ : Config X) : Sys (service X) := .init κ .empty (.fresh, fun _ => 0)

/-- Begin a call. -/
abbrev call (op : Op) : Event (service X) := .start op

/-- `n` steps of call `i` in which nothing goes wrong. -/
abbrev go (i : CallId) (n : ℕ) : List (Event (service X)) := Event.steps i n

/-- It starts, and opens an account with so many cents. The next call is number 2. -/
def opened (cents : UInt64) : List (Event (service .toy)) :=
  call .connect :: go 0 9 ++ call (.createAccount "alice" cents) :: go 1 4

/-- **Behind its pool the bank does nothing that it could not do without.** -/
theorem runs_unpooled {κ : Config X} {s : Sys (service X)}
    (h : Sys.Runs poolMaxSize (start κ) s) : Sys.Steps .any (Bank.start κ) s.unpool :=
  Sys.Runs.unpool erase_code h

end Pooled

end Bank

namespace Registry

/-- The maximum number of pooled connections. A checkout has no time limit. -/
def poolMaxSize : ℕ := 16

variable {X : Crypto}

namespace Pooled

/-- The registry's code with its connections: no function has one while it calls another that
    needs one. -/
def code (X : Crypto) (op : Op) : Code database.pooled Ans := Prog.single false (Registry.code X op)

/-- The registry behind its pool. -/
abbrev service (X : Crypto) : Service database.pooled :=
  (Registry.service X).pooled fun _ => code X

/-- A registry that has never run. -/
def start (X : Crypto) : Sys (service X) := .init () .empty (.fresh, fun _ => 0)

/-- Without its connections it is the registry's code. -/
theorem erase_code (op : Op) : (code X op).erase = Registry.code X op :=
  Prog.erase_single false (Registry.code X op)

/-- Begin a call. -/
abbrev call (op : Op) : Event (service X) := .start op

/-- `n` steps of call `i` in which nothing goes wrong. -/
abbrev go (i : CallId) (n : ℕ) : List (Event (service X)) := Event.steps i n

theorem runs_unpooled {s : Sys (service X)} (h : Sys.Runs poolMaxSize (start X) s) :
    Sys.Steps .any (Registry.start X) s.unpool :=
  Sys.Runs.unpool (fun _ => erase_code) h

end Pooled

end Registry

end Digicash
