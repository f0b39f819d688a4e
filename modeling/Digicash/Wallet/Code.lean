import Digicash.Lib.Alone
import Digicash.Wallet.Schema
import Mathlib.Data.List.Sort

/-!
# The wallet's code

`Wallet`'s operations, each under its own name, and the two pieces of arithmetic under them: how
an amount is decomposed into denominations, and how coins are selected for one.
-/

namespace Digicash.Wallet

open Lib

instance : FromSql WalletError := ⟨.store⟩

abbrev WalletM := Fallible database WalletError

abbrev sql (s : Stmt) : WalletM s.Res := query (D := database) s

abbrev ask (e : Ext) : WalletM e.Res := perform (D := database) e

/-! ## Amounts -/

/-- The `while` loop for one denomination, at most `fuel` times: the coins pushed, and what
    remains. -/
def pushWhile (denomination : UInt64) : Nat → UInt64 → List UInt64 × UInt64
  | 0, remaining => ([], remaining)
  | fuel + 1, remaining =>
    if denomination ≤ remaining then
      let rest := pushWhile denomination fuel (remaining - denomination)
      (denomination :: rest.1, rest.2)
    else ([], remaining)

def decomposeFrom : List UInt64 → UInt64 → List UInt64
  | [], _ => []
  | denomination :: smaller, remaining =>
    -- A denomination is at least 1, so it goes into `remaining` at most that often.
    let pushed := pushWhile denomination remaining.toNat remaining
    pushed.1 ++ decomposeFrom smaller pushed.2

/-- Greedy decomposition, largest denomination first. -/
def decompose (amountCents : UInt64) : List UInt64 :=
  decomposeFrom denominations.reverse amountCents

/-- The loop of `selectExact`: the coins selected, and what remains. -/
def selectFrom : List Coin → UInt64 → List Coin × UInt64
  | [], remaining => ([], remaining)
  | coin :: coins, remaining =>
    if coin.denominationCents ≤ remaining then
      if remaining - coin.denominationCents = 0 then ([coin], 0)
      else
        let rest := selectFrom coins (remaining - coin.denominationCents)
        (coin :: rest.1, rest.2)
    else selectFrom coins remaining

/-- `coins.sort_unstable_by_key(|c| Reverse(c.denomination_cents))`. -/
def sortByDenomination (coins : List Coin) : List Coin :=
  coins.insertionSort fun a b => b.denominationCents ≤ a.denominationCents

/-- Coins summing to exactly `amount`, greedily largest first. -/
def selectExact (coins : List Coin) (amount : UInt64) : Option (List Coin) :=
  let selected := selectFrom (sortByDenomination coins) amount
  if selected.2 = 0 then some selected.1 else none

/-! ## Operations -/

variable {X : Crypto}

/-- The account a signed client is built for. -/
def client : WalletM String := do
  match ← sql .identity with
  | none => throw .notRegistered
  | some accountId =>
    let built ← ask .client
    orThrow built
    pure accountId

/-- The keys of the one scheme, by denomination. A later key for a denomination wins. -/
def parseKeys (X : Crypto) : List DenominationKey → Except WalletError (Table UInt64 X.PublicKey)
  | keys => keys.foldlM (fun table key =>
      if key.schemeId = schemeIdRsaDeterministic then
        ((X.fromSpki key.publicKeySpki).mapError .keyParse).map fun pk =>
          table.put key.denominationCents (some pk)
      else .ok table) ∅

def bankPublicKeys (X : Crypto) : WalletM (Table UInt64 X.PublicKey) := do
  let reply ← ask .denominations
  let published ← orThrow reply
  let keys ← orThrow (parseKeys X published)
  pure keys

/-- 128 random bits, hex-encoded. -/
def newRequestId : WalletM String := do
  let bytes ← ask .requestId
  let bytes ← orThrow (bytes.mapError .random)
  pure (Hex.encode bytes.1)

/-- One coin of a withdrawal: blinded, signed by the bank, unblinded, verified and stored. -/
def withdrawCoin (accountId : String) (keys : Table UInt64 X.PublicKey)
    (denominationCents : UInt64) : WalletM Coin := do
  match keys.lookup denominationCents with
  | none => throw (.unknownDenomination denominationCents)
  | some pk =>
    let serial ← ask .serial
    let serial ← orThrow (serial.mapError .core)
    let rng ← ask .rng
    let blinding ← orThrow ((blind pk rng serial).mapError .core)
    let requestId ← newRequestId
    let reply ← ask (.withdraw ⟨accountId, requestId, denominationCents, X.blindMessage blinding⟩)
    let response ← orThrow reply
    let signature ← orThrow ((unblind pk response.blindSignature blinding serial).mapError .core)
    orThrow ((verify pk serial signature).mapError .core)
    let coin : Coin := ⟨schemeIdRsaDeterministic, denominationCents, serial, signature⟩
    let _ ← sql (.putCoin coin)
    pure coin

def withdrawCoins (accountId : String) (keys : Table UInt64 X.PublicKey) :
    List UInt64 → WalletM (List Coin)
  | [] => pure []
  | denominationCents :: rest => do
    let coin ← withdrawCoin accountId keys denominationCents
    let coins ← withdrawCoins accountId keys rest
    pure (coin :: coins)

def withdraw (X : Crypto) (amountCents : UInt64) : WalletM (List Coin) := do
  let accountId ← client
  let keys ← bankPublicKeys X
  withdrawCoins accountId keys (decompose amountCents)

def removeCoins : List Coin → WalletM Unit
  | [] => pure ()
  | coin :: coins => do
    let _ ← sql (.removeCoin coin.serialNumber)
    removeCoins coins

/-- Write the bundle first, then remove its coins from the store. -/
def spend (amountCents : UInt64) (outPath : String) : WalletM (List Coin) := do
  let held ← sql .listCoins
  match selectExact held amountCents with
  | none =>
    let heldTotal := held.foldl (fun total c => saturatingAdd total c.denominationCents) 0
    throw (.insufficientCoins amountCents heldTotal)
  | some selected =>
    let _ ← sql (.writeFile outPath selected)
    removeCoins selected
    pure selected

/-- The result of depositing one coin from a bundle. -/
structure DepositOutcome where
  denominationCents : UInt64
  accepted : Bool
  reason : Option DepositRejection
deriving DecidableEq, Repr

def depositCoin (accountId : String) (coin : Coin) : WalletM DepositOutcome := do
  let requestId ← newRequestId
  let reply ← ask (.deposit ⟨coin, accountId, requestId⟩)
  let response ← orThrow reply
  pure ⟨coin.denominationCents, response.accepted, response.reason⟩

def depositCoins (accountId : String) : List Coin → WalletM (List DepositOutcome)
  | [] => pure []
  | coin :: coins => do
    let outcome ← depositCoin accountId coin
    let outcomes ← depositCoins accountId coins
    pure (outcome :: outcomes)

def deposit (bundlePath : String) : WalletM (List DepositOutcome) := do
  let accountId ← client
  match ← sql (.readFile bundlePath) with
  | none => throw (.io "No such file or directory")
  | some file =>
    let coins ← orThrow (file.mapError .json)
    depositCoins accountId coins

def storedCoins : WalletM (List Coin) := do
  let coins ← sql .listCoins
  pure coins

/-- `Store::put_coin`, called by somebody who uses the store without a wallet. -/
def putCoin (coin : Coin) : WalletM Unit := do
  let _ ← sql (.putCoin coin)
  pure ()

/-! ## The running wallet -/

inductive Op where
  | withdraw (amountCents : UInt64)
  | storedCoins
  | spend (amountCents : UInt64) (outPath : String)
  | deposit (bundlePath : String)
  | putCoin (coin : Coin)
deriving DecidableEq

inductive Ans where
  | withdraw (r : Except WalletError (List Coin))
  | storedCoins (r : Except WalletError (List Coin))
  | spend (r : Except WalletError (List Coin))
  | deposit (r : Except WalletError (List DepositOutcome))
  | putCoin (r : Except WalletError Unit)
deriving DecidableEq

def code (X : Crypto) : Op → Code database Ans
  | .withdraw amount => .withdraw <$> (withdraw X amount).run
  | .storedCoins => .storedCoins <$> Wallet.storedCoins.run
  | .spend amount path => .spend <$> (spend amount path).run
  | .deposit path => .deposit <$> (deposit path).run
  | .putCoin coin => .putCoin <$> (putCoin coin).run

/-- A process opens the store, runs one command and exits. The store's lock keeps a second
    process out until then. -/
def enter (_ : Op) (m : Memory) : Option Memory :=
  if m.running then none else some { m with running := true }

def reboot (m : Memory) : Memory := { m with running := false }

@[reducible] def service (X : Crypto) : Service database where
  Conf := Unit
  Op := Op
  Ans := Ans
  code _ op := code X op
  enter := enter
  reboot := reboot

/-- A wallet with an empty store beside some files. -/
def start (X : Crypto) (accountId : Option String) (files : Table String File) : Sys (service X) :=
  .init () ⟨accountId, ∅, files⟩ .fresh

theorem exclusive : (service X).Exclusive Memory.running where
  enter op m m' h := by
    change (if m.running then none else some { m with running := true }) = some m' at h
    cases hr : m.running with
    | true => simp [hr] at h
    | false =>
      simp only [hr, Bool.false_eq_true, if_false, Option.some.injEq] at h
      exact ⟨rfl, h ▸ rfl⟩
  ext i e o m r m' h := by
    cases e <;> exact (congrArg (fun x => Memory.running x.2) (Option.some.inj h)).symm

/-- Run one command. -/
abbrev call (op : Op) : Event (service X) := .start op

/-- The process ends, by itself or by a crash. -/
abbrev exit : Event (service X) := .crash ()

/-- `n` steps of call `i` in which nothing goes wrong. -/
abbrev go (i : CallId) (n : Nat) : List (Event (service X)) := Event.steps i n

end Digicash.Wallet
