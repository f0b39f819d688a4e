import Digicash.Lib.Service
import Digicash.Proto

/-!
# What a wallet keeps

The wallet's store, with its tree of coins and the account it is registered for, and the files
beside it. Each of them is a row, and each operation on one is a statement of its own: there are
no transactions.

A bundle is written and read with `serde_json`, which reads back what it wrote. So a file is kept
as what `serde_json` makes of it: coins, or the text of its error.
-/

namespace Digicash.Wallet

open Lib

abbrev File := Except String (List Coin)

structure Disk where
  /-- The `account_id` of the identity, once there is one. -/
  accountId : Option String
  /-- `serial_number` to the coin. -/
  coins : Table Serial Coin
  /-- A path to what is there. -/
  files : Table String File

/-! ## Rows -/

inductive Row where
  | identity
  | coin (serial : Serial)
  | file (path : String)
deriving DecidableEq

@[reducible] def Cell : Row → Type
  | .identity => String
  | .coin _ => Coin
  | .file _ => File

def Disk.get (d : Disk) : (r : Row) → Option (Cell r)
  | .identity => d.accountId
  | .coin serial => d.coins.lookup serial
  | .file path => d.files.lookup path

def Disk.put (d : Disk) : (r : Row) → Option (Cell r) → Disk
  | .identity, v => { d with accountId := v }
  | .coin serial, v => { d with coins := d.coins.put serial v }
  | .file path, v => { d with files := d.files.put path v }

theorem Disk.get_put_self (d : Disk) (r : Row) (v : Option (Cell r)) : (d.put r v).get r = v := by
  cases r with
  | identity => rfl
  | coin serial => exact Table.lookup_put_self _ _ _
  | file path => exact Table.lookup_put_self _ _ _

theorem Disk.get_put_ne (d : Disk) (r : Row) (v : Option (Cell r)) (r' : Row) (h : r' ≠ r) :
    (d.put r v).get r' = d.get r' := by
  cases r <;> cases r' <;> first
    | rfl
    | exact absurd rfl h
    | exact Table.lookup_put_ne fun he => h (he ▸ rfl)

/-! ## Statements -/

inductive Stmt where
  | identity
  | putCoin (coin : Coin)
  | listCoins
  | removeCoin (serial : Serial)
  /-- `fs::write` of a bundle. -/
  | writeFile (path : String) (bundle : List Coin)
  /-- `fs::read` of a bundle. -/
  | readFile (path : String)
deriving DecidableEq

@[reducible] def Stmt.Res : Stmt → Type
  | .identity => Option String
  | .putCoin _ => Unit
  | .listCoins => List Coin
  | .removeCoin _ => Bool
  | .writeFile _ _ => Unit
  | .readFile _ => Option File

/-! ## Errors -/

inductive WalletError where
  /-- The store or a file failed. -/
  | store (e : SqlError)
  | json (message : String)
  | http (url message : String)
  | io (message : String)
  | core (e : CoreError)
  | keyParse (message : String)
  | random (message : String)
  | unknownDenomination (denominationCents : UInt64)
  | insufficientCoins (requested held : UInt64)
  | tls (message : String)
  | pem (message : String)
  | notRegistered
  | clock
deriving DecidableEq, Repr

/-- The `Display` text. -/
def WalletError.toText : WalletError → String
  | .store e => "wallet store error: " ++ e.toText
  | .json message => "coin serialization error: " ++ message
  | .http url message => "bank request to " ++ url ++ " failed: " ++ message
  | .io message => "bank response error: " ++ message
  | .core e => "cryptographic error: " ++ e.toText
  | .keyParse message => "could not parse a bank public key: " ++ message
  | .random message => "randomness error: " ++ message
  | .unknownDenomination d => "the bank does not serve denomination " ++ toString d ++ " cents"
  | .insufficientCoins requested held =>
    "cannot spend " ++ toString requested ++ " cents exactly from local coins (holding " ++
      toString held ++ " cents); re-withdraw the exact denominations"
  | .tls message => "TLS configuration error: " ++ message
  | .pem message => message
  | .notRegistered => "wallet is not registered; run \x60account create <id>\x60 first"
  | .clock => "system clock is before the Unix epoch"

/-! ## The outside -/

/-- What is decided outside the program: random numbers, what a signed request to the bank came
    back with, and in which order coins are listed. The last matters where two coins have one
    denomination, since they are sorted by a sort that is not stable. -/
structure Oracle where
  client : Except WalletError Unit := .ok ()
  denominations : Except WalletError (List DenominationKey) := .error .clock
  serial : Except CoreError Serial := .error (.serialGeneration "")
  rng : Nat := 0
  requestId : Except String { b : Bytes // b.length = 16 } := .error ""
  withdraw : Except WalletError WithdrawResponse := .error .clock
  deposit : Except WalletError DepositResponse := .error .clock
  order : List Coin := []

instance : Inhabited Oracle := ⟨{}⟩

def exec : (s : Stmt) → Oracle → Disk → Effect Cell s.Res
  | .identity, _, d => .read d.accountId
  | .putCoin coin, _, _ => .write [] () [⟨.coin coin.serialNumber, some coin⟩]
  | .listCoins, o, d => .read (arrange (d.coins.rows.map Prod.snd) o.order)
  | .removeCoin serial, _, d =>
    match d.coins.lookup serial with
    | some _ => .write [] true [⟨.coin serial, none⟩]
    | none => .read false
  | .writeFile path bundle, _, _ => .write [] () [⟨.file path, some (.ok bundle)⟩]
  | .readFile path, _, d => .read (d.files.lookup path)

/-! ## The process -/

/-- A withdrawal that was asked for, and what came back. -/
structure Drawn where
  call : CallId
  request : WithdrawRequest
  reply : Except WalletError WithdrawResponse

/-- A deposit that was asked for, and what came back. -/
structure Tendered where
  call : CallId
  request : DepositRequest
  reply : Except WalletError DepositResponse

structure Memory where
  /-- A process has the store open. -/
  running : Bool
  /-- Newest first. A ghost. -/
  drawn : List Drawn
  /-- Newest first. A ghost. -/
  tendered : List Tendered

def Memory.fresh : Memory := ⟨false, [], []⟩

inductive Ext where
  /-- `BankClient::new`. -/
  | client
  /-- `GET /denominations`. -/
  | denominations
  /-- `Serial::generate`. -/
  | serial
  /-- What `blind` takes from `DefaultRng`. -/
  | rng
  /-- The random bytes of a request id. -/
  | requestId
  /-- `POST /withdraw`. -/
  | withdraw (request : WithdrawRequest)
  /-- `POST /deposit`. -/
  | deposit (request : DepositRequest)

@[reducible] def Ext.Res : Ext → Type
  | .client => Except WalletError Unit
  | .denominations => Except WalletError (List DenominationKey)
  | .serial => Except CoreError Serial
  | .rng => Nat
  | .requestId => Except String { b : Bytes // b.length = 16 }
  | .withdraw _ => Except WalletError WithdrawResponse
  | .deposit _ => Except WalletError DepositResponse

def runExt (i : CallId) : (e : Ext) → Oracle → Memory → Option (e.Res × Memory)
  | .client, o, m => some (o.client, m)
  | .denominations, o, m => some (o.denominations, m)
  | .serial, o, m => some (o.serial, m)
  | .rng, o, m => some (o.rng, m)
  | .requestId, o, m => some (o.requestId, m)
  | .withdraw request, o, m =>
    some (o.withdraw, { m with drawn := ⟨i, request, o.withdraw⟩ :: m.drawn })
  | .deposit request, o, m =>
    some (o.deposit, { m with tendered := ⟨i, request, o.deposit⟩ :: m.tendered })

@[reducible] def database : Database where
  Db := Disk
  Row := Row
  Cell := Cell
  get := Disk.get
  put := Disk.put
  get_put_self := Disk.get_put_self
  get_put_ne := Disk.get_put_ne
  Stmt := Stmt
  Res := Stmt.Res
  Oracle := Oracle
  exec := exec
  Mem := Memory
  Ext := Ext
  ExtRes := Ext.Res
  ext := runExt

end Digicash.Wallet
