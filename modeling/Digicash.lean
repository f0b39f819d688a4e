import Digicash.Lib.Table
import Digicash.Lib.Prog
import Digicash.Lib.Database
import Digicash.Lib.Service
import Digicash.Lib.RelyGuarantee
import Digicash.Lib.Fallible
import Digicash.Lib.Ledger
import Digicash.Lib.Progress
import Digicash.Lib.Replay
import Digicash.Lib.Alone
import Digicash.Lib.Change
import Digicash.Lib.Hex
import Digicash.Lib.Joined
import Digicash.Lib.Expiring
import Digicash.Lib.Torn
import Digicash.Lib.Coupled
import Digicash.Lib.Telling
import Digicash.Core
import Digicash.Proto
import Digicash.Auth
import Digicash.Nonces
import Digicash.NonceKeeping
import Digicash.Bank.Schema
import Digicash.Bank.Code
import Digicash.Bank.Server
import Digicash.Bank.Ledger
import Digicash.Bank.Refinement
import Digicash.Bank.Conservation
import Digicash.Bank.Deposits
import Digicash.Bank.Withdrawals
import Digicash.Bank.Requests
import Digicash.Bank.Recovery
import Digicash.Registry.Schema
import Digicash.Registry.Code
import Digicash.Registry.Server
import Digicash.Registry.Ledger
import Digicash.Registry.Refinement
import Digicash.Registry.Settlement
import Digicash.Registry.Exposure
import Digicash.Registry.Serials
import Digicash.Registry.Attribution
import Digicash.AntiReplay
import Digicash.CrossBank
import Digicash.Agreement
import Digicash.Wallet.Schema
import Digicash.Wallet.Code
import Digicash.Wallet.Amounts
import Digicash.Wallet.Operations
import Digicash.Wallet.Spending
import Digicash.Wallet.Identity
import Digicash.Bank.Crediting
import Digicash.Bank.Undisturbed
import Digicash.Market
import Digicash.Trade
import Digicash.Withdrawing
import Digicash.Reports
import Digicash.Bank.Debits
import Digicash.Bank.Duplicates
import Digicash.Bank.Headroom
import Digicash.Bank.Interference
import Digicash.Bank.Outcomes
import Digicash.Bank.Startup
import Digicash.Bindings
import Digicash.Bank.Api
import Digicash.Bank.Authorised
import Digicash.Registry.Netting
import Digicash.Registry.Transcripts
import Digicash.Registry.Outcomes
import Digicash.Registry.Collisions
import Digicash.Registry.Members
import Digicash.Purging
import Digicash.Wallet.Client
import Digicash.Signing
import Digicash.Enrolling
import Digicash.Wallet.Blinding
import Digicash.Unlinkable
import Digicash.Lib.LockOrder
import Digicash.Lib.Pool
import Digicash.Lib.Pooled
import Digicash.Pooling
import Digicash.Completion
import Digicash.Registry.Front
import Digicash.Registry.Governance
import Digicash.Solvency
import Digicash.Refusals
import Digicash.Lib.Files
import Digicash.Bank.KeyFiles
import Digicash.Bank.Restarts
import Digicash.Coverage
import Digicash.Registry.Hearing
import Digicash.Across
