import Digicash.Signing
import Digicash.Wallet.Identity

/-!
# Creating an account

`account create` registers a new key, stores it, and has the account opened under it. Each of the
three can fail, and the bank keeps the first key it was given for an account. So the command can be
run again if and only if the bank was not given a key: a second key is refused before anything is
written, whatever became of the first.
-/

namespace Digicash

open Lib

variable {X : Crypto}

namespace Bank

/-! ## The bank's answers -/

structure RegisterResponse where
  clientCertPem : String
  clientKeyPem : String
  caCertPem : String

def BankError.toApi (e : BankError) : ApiError := ⟨e.status, e.toText⟩

def Ans.registerIdentity? : Ans → Option (Except BankError Unit)
  | .registerIdentity r => some r
  | _ => none

def Ans.createAccount? : Ans → Option (Except BankError BalanceResponse)
  | .createAccount r => some r
  | _ => none

/-- `POST /register`, where the authority issues `certificate`. -/
def postRegister (accountId publicKeyHex : String) (certificate : Except ApiError RegisterResponse)
    (s : Sys (service X)) : Option (Except ApiError RegisterResponse × Sys (service X)) :=
  match register X accountId publicKeyHex with
  | .error e => some (.error e, s)
  | .ok op => (serve s op).bind fun r =>
    r.1.registerIdentity?.map fun result =>
      ((result.mapError BankError.toApi).bind fun _ => certificate, r.2)

/-- A signed request, authenticated and handled. -/
def respond (ex : Extractors) (clock : UInt64) (r : Request) (s : Sys (service X)) :
    Option (Except ApiError Ans × Sys (service X)) :=
  if (ex.route r.path).isSome then
    (judge s r clock).bind fun judged =>
      match judged.1 with
      | .error rejection => some (.error ⟨rejection.status, rejection.message⟩, judged.2)
      | .ok account =>
        match ex.handler account r with
        | .error e => some (.error e, judged.2)
        | .ok op => (serve judged.2 op).map fun served => (.ok served.1, served.2)
  else some (.error ⟨404, ""⟩, s)

/-- `POST /accounts`. -/
def postAccounts (ex : Extractors) (clock : UInt64) (r : Request) (s : Sys (service X)) :
    Option (Except ApiError BalanceResponse × Sys (service X)) :=
  (respond ex clock r s).bind fun responded =>
    match responded.1 with
    | .error e => some (.error e, responded.2)
    | .ok a => a.createAccount?.map fun result => (result.mapError BankError.toApi, responded.2)

variable {s : Sys (service X)} {a : String}

/-- What code promises alone, it does when it is served, and the bank goes on serving. -/
theorem serve_of_spec {α : Type} {x : BankM α} {g : Except BankError α → Ans}
    {Q : α → State X → Prop} {E : BankError → State X → Prop} (op : Op) (hop : op ≠ .connect)
    (hup : s.shared.mem.phase = .up) (hcode : code s.conf op = g <$> x.run)
    (h : Alone.Spec (S := service X) Calm s.next op (fun _ => True) (fun r _ sh => Q r sh)
      (fun e _ sh => E e sh) x none s.shared) :
    ∃ r s', serve s op = some (g r, s') ∧ s'.shared.mem.phase = .up ∧
      (∀ a, r = .ok a → Q a s'.shared) ∧ ∀ e, r = .error e → E e s'.shared := by
  have hanswer : Alone (S := service X) Calm s.next op (fun _ => True)
      (fun ans _ sh => ∃ r, ans = g r ∧ (∀ a, r = .ok a → Q a sh) ∧ ∀ e, r = .error e → E e sh)
      (code s.conf op) none s.shared := by
    rw [hcode]
    refine Alone.Spec.answer trivial h (fun a tx sh _ hq => ?_) fun e tx sh _ he => ?_
    · exact ⟨.ok a, rfl, fun _ h => Except.ok.inj h ▸ hq, fun _ h => by (cases h)⟩
    · exact ⟨.error e, rfl, fun _ h => by (cases h), fun _ h => Except.error.inj h ▸ he⟩
  have hkept := Alone.keeping (K := fun sh : State X => sh.mem.phase = .up) execCmd_up hup hanswer
  obtain ⟨ans, s', hserve, -, ⟨r, rfl, hq⟩, hup'⟩ := serve_of_alone (Q := fun ans sh =>
    (∃ r, ans = g r ∧ (∀ a, r = .ok a → Q a sh) ∧ ∀ e, r = .error e → E e sh) ∧
      sh.mem.phase = .up) op hop hup hkept
  exact ⟨r, s', hserve, hup', hq⟩

theorem registerIdentity_served {k : Bytes} (hup : s.shared.mem.phase = .up)
    (hnone : s.shared.db.identities.lookup a = none) :
    ∃ s', serve s (.registerIdentity a k) = some (.registerIdentity (.ok ()), s') ∧
      s'.shared.mem.phase = .up ∧
      s'.shared.db = { s.shared.db with identities := s.shared.db.identities.put a (some k) } := by
  have hexec : ∀ o, exec (.insertIdentity a k) o s.shared.db =
      .write [] (1 : Nat) [⟨.identity a, some k⟩] := fun o => by simp only [exec, hnone]
  have hspec : Alone.Spec (S := service X) Calm s.next (.registerIdentity a k) (fun _ => True)
      (fun _ _ sh' => sh'.db = applyWrites (D := database) s.shared.db [⟨.identity a, some k⟩])
      (fun _ _ _ => False) (registerIdentity a k) none s.shared := by
    unfold registerIdentity
    refine Alone.Spec.effect_bind_calm hexec trivial fun sh' _ hdb => ⟨trivial, ?_⟩
    rw [if_neg Nat.one_ne_zero]
    exact Alone.Spec.ok hdb
  obtain ⟨r, s', hserve, hup', hok, herr⟩ := serve_of_spec _ (by simp) hup rfl hspec
  cases r with
  | ok => exact ⟨s', hserve, hup', hok _ rfl⟩
  | error e => exact (herr e rfl).elim

/-- **The first key stays.** -/
theorem registerIdentity_served_again {k k' : Bytes} (hup : s.shared.mem.phase = .up)
    (hsome : s.shared.db.identities.lookup a = some k') :
    ∃ s', serve s (.registerIdentity a k) = some (.registerIdentity (.error (.identityExists a)), s') ∧
      s'.shared.mem.phase = .up ∧ s'.shared.db = s.shared.db := by
  have hexec : ∀ o, exec (.insertIdentity a k) o s.shared.db = .write [] (0 : Nat) [] := fun o => by
    simp only [exec, hsome]
    rfl
  have hspec : Alone.Spec (S := service X) Calm s.next (.registerIdentity a k) (fun _ => True)
      (fun _ _ _ => False) (fun e _ sh' => e = .identityExists a ∧ sh'.db = s.shared.db)
      (registerIdentity a k) none s.shared := by
    unfold registerIdentity
    refine Alone.Spec.effect_bind_calm hexec trivial fun sh' _ hdb => ⟨trivial, ?_⟩
    rw [if_pos rfl]
    exact Alone.Spec.throw ⟨rfl, hdb⟩
  obtain ⟨r, s', hserve, hup', hok, herr⟩ := serve_of_spec _ (by simp) hup rfl hspec
  cases r with
  | ok => exact (hok _ rfl).elim
  | error e =>
    obtain ⟨rfl, hdb⟩ := herr e rfl
    exact ⟨s', hserve, hup', hdb⟩

theorem createAccount_served {b : UInt64} {n : Int} (hup : s.shared.mem.phase = .up)
    (hnone : s.shared.db.accounts.lookup a = none) (hb : i64TryFrom b = some n) :
    ∃ s', serve s (.createAccount a b) = some (.createAccount (.ok ⟨a, b⟩), s') ∧
      s'.shared.mem.phase = .up ∧
      s'.shared.db = { s.shared.db with accounts := s.shared.db.accounts.put a (some n) } := by
  have hexec : ∀ o, exec (.insertAccount a n) o s.shared.db =
      .write [] (1 : Nat) [⟨.account a, some n⟩] := fun o => by
    simp only [exec, hnone]
    exact if_neg (Int.not_lt.mpr (i64TryFrom_nonneg hb))
  have hspec : Alone.Spec (S := service X) Calm s.next (.createAccount a b) (fun _ => True)
      (fun r _ sh' => r = ⟨a, b⟩ ∧
        sh'.db = applyWrites (D := database) s.shared.db [⟨.account a, some n⟩])
      (fun _ _ _ => False) (createAccount a b) none s.shared := by
    unfold createAccount toI64
    simp only [hb]
    refine Alone.Spec.orThrow_bind (fun e he => absurd he (by simp)) fun n' hn => ?_
    obtain rfl := Except.ok.inj hn
    refine Alone.Spec.effect_bind_calm hexec trivial fun sh' _ hdb => ⟨trivial, ?_⟩
    rw [if_neg Nat.one_ne_zero]
    exact Alone.Spec.ok ⟨rfl, hdb⟩
  obtain ⟨r, s', hserve, hup', hok, herr⟩ := serve_of_spec _ (by simp) hup rfl hspec
  cases r with
  | ok r =>
    obtain ⟨rfl, hdb⟩ := hok r rfl
    exact ⟨s', hserve, hup', hdb⟩
  | error e => exact (herr e rfl).elim

theorem createAccount_keeps {b : UInt64} (hup : s.shared.mem.phase = .up) :
    ∃ r s', serve s (.createAccount a b) = some (.createAccount r, s') ∧
      s'.shared.db.identities = s.shared.db.identities := by
  have hspec : Alone.Spec (S := service X) Calm s.next (.createAccount a b) (fun _ => True)
      (fun _ _ sh' => sh'.db.identities = s.shared.db.identities)
      (fun _ _ sh' => sh'.db.identities = s.shared.db.identities)
      (createAccount a b) none s.shared := by
    unfold createAccount
    refine Alone.Spec.orThrow_bind (fun e _ => rfl) fun n hn => ?_
    cases hlookup : s.shared.db.accounts.lookup a with
    | some balance =>
      have hexec : ∀ o, exec (.insertAccount a n) o s.shared.db = .write [] (0 : Nat) [] :=
        fun o => by
          simp only [exec, hlookup]
          rfl
      refine Alone.Spec.effect_bind_calm hexec trivial fun sh' _ hdb => ⟨trivial, ?_⟩
      exact Alone.Spec.throw (congrArg Tables.identities hdb)
    | none =>
      have hexec : ∀ o, exec (.insertAccount a n) o s.shared.db =
          .write [] (1 : Nat) [⟨.account a, some n⟩] := fun o => by
        simp only [exec, hlookup]
        exact if_neg (Int.not_lt.mpr (i64TryFrom_nonneg (toI64_eq_ok hn)))
      refine Alone.Spec.effect_bind_calm hexec trivial fun sh' _ hdb => ⟨trivial, ?_⟩
      exact Alone.Spec.ok (by rw [hdb]; rfl)
  obtain ⟨r, s', hserve, -, hok, herr⟩ := serve_of_spec _ (by simp) hup rfl hspec
  cases r with
  | ok r => exact ⟨_, s', hserve, hok r rfl⟩
  | error e => exact ⟨_, s', hserve, herr e rfl⟩

theorem serve_down {op : Op} (hop : op ≠ .connect) (hdown : s.shared.mem.phase ≠ .up) :
    serve s op = none := by
  have henter : (service X).enter op s.shared.mem = none := by
    cases op with
    | connect => exact absurd rfl hop
    | _ => exact if_neg hdown
  rw [serve, Sys.serve, henter]
  rfl

section

variable {pk : Bytes} (certificate : Except ApiError RegisterResponse)

theorem register_encode (hlength : pk.length = identityPublicKeyLen)
    (hvalid : X.ed25519FromBytes pk = .ok pk) :
    register X a (Hex.encode pk) = .ok (.registerIdentity a pk) := by
  rw [register, Hex.decode_encode]
  dsimp only
  rw [if_pos hlength, hvalid]

theorem postRegister_new (hlength : pk.length = identityPublicKeyLen)
    (hvalid : X.ed25519FromBytes pk = .ok pk) (hup : s.shared.mem.phase = .up)
    (hnone : s.shared.db.identities.lookup a = none) :
    ∃ s', postRegister a (Hex.encode pk) certificate s = some (certificate, s') ∧
      s'.shared.mem.phase = .up ∧
      s'.shared.db = { s.shared.db with identities := s.shared.db.identities.put a (some pk) } := by
  obtain ⟨s', hserve, hup', hdb⟩ := registerIdentity_served (k := pk) hup hnone
  refine ⟨s', ?_, hup', hdb⟩
  rw [postRegister, register_encode hlength hvalid]
  dsimp only
  rw [hserve]
  rfl

theorem postRegister_again (hlength : pk.length = identityPublicKeyLen)
    (hvalid : X.ed25519FromBytes pk = .ok pk) (hup : s.shared.mem.phase = .up)
    (hsome : s.shared.db.identities.lookup a ≠ none) :
    ∃ s', postRegister a (Hex.encode pk) certificate s =
        some (.error (BankError.identityExists a).toApi, s') ∧
      s'.shared.mem.phase = .up ∧ s'.shared.db = s.shared.db := by
  obtain ⟨k', hk'⟩ := Option.ne_none_iff_exists'.mp hsome
  obtain ⟨s', hserve, hup', hdb⟩ := registerIdentity_served_again (k := pk) hup hk'
  refine ⟨s', ?_, hup', hdb⟩
  rw [postRegister, register_encode hlength hvalid]
  dsimp only
  rw [hserve]
  rfl

/-- The bank has a key for the account then, this one or one before. -/
theorem postRegister_up (hlength : pk.length = identityPublicKeyLen)
    (hvalid : X.ed25519FromBytes pk = .ok pk) (hup : s.shared.mem.phase = .up) :
    ∃ reply s', postRegister a (Hex.encode pk) certificate s = some (reply, s') ∧
      s'.shared.db.identities.lookup a ≠ none := by
  by_cases hnone : s.shared.db.identities.lookup a = none
  · obtain ⟨s', hpost, -, hdb⟩ := postRegister_new certificate hlength hvalid hup hnone
    refine ⟨_, s', hpost, ?_⟩
    rw [hdb]
    show (s.shared.db.identities.put a (some pk)).lookup a ≠ none
    rw [Table.lookup_put_self]
    exact Option.some_ne_none pk
  · obtain ⟨s', hpost, -, hdb⟩ := postRegister_again certificate hlength hvalid hup hnone
    exact ⟨_, s', hpost, hdb ▸ hnone⟩

theorem postRegister_down (hlength : pk.length = identityPublicKeyLen)
    (hvalid : X.ed25519FromBytes pk = .ok pk) (hdown : s.shared.mem.phase ≠ .up) :
    postRegister a (Hex.encode pk) certificate s = none := by
  rw [postRegister, register_encode hlength hvalid]
  dsimp only
  rw [serve_down (by simp) hdown]
  rfl

end

section

variable {ex : Extractors} {clock : UInt64} {r : Request}

theorem handler_accounts {account : String} {op : Op} (hpath : r.path = "/accounts")
    (h : ex.handler account r = .ok op) : ∃ a b, op = .createAccount a b := by
  have hroute : ex.route r.path = some .accounts := by rw [hpath]; rfl
  rw [Extractors.handler, hroute] at h
  dsimp only at h
  split at h
  · obtain ⟨req, -, -, rfl⟩ := act_ok h
    exact ⟨_, _, rfl⟩
  · cases h

theorem judge_keeps {result : Except AuthRejection String} {s' : Sys (service X)}
    (h : judge s r clock = some (result, s')) :
    s'.shared.mem.phase = .up ∧ ∃ store, s'.shared.db = s.shared.db.withNonces store := by
  by_cases hup : s.shared.mem.phase = .up
  · obtain ⟨result', s₁, hjudge, hup', hdb⟩ := judge_some hup r clock
    obtain ⟨-, rfl⟩ := Prod.mk.inj (Option.some.inj (hjudge.symm.trans h))
    exact ⟨hup', hdb⟩
  · have henter : (service X).enter (.authenticate r) s.shared.mem = none := if_neg hup
    rw [judge, Sys.serve, henter] at h
    cases h

theorem respond_keeps {s' : Sys (service X)} {answer : Except ApiError Ans}
    (hpath : r.path = "/accounts") (h : respond ex clock r s = some (answer, s')) :
    s'.shared.db.identities = s.shared.db.identities := by
  have hroute : (ex.route r.path).isSome = true := by rw [hpath]; rfl
  rw [respond, if_pos hroute] at h
  obtain ⟨⟨result, s₁⟩, hjudge, h⟩ := Option.bind_eq_some_iff.mp h
  obtain ⟨hup, store, hdb⟩ := judge_keeps hjudge
  have hkept : s₁.shared.db.identities = s.shared.db.identities := by rw [hdb]; rfl
  cases result with
  | error rejection =>
    obtain ⟨-, rfl⟩ := Prod.mk.inj (Option.some.inj h)
    exact hkept
  | ok account =>
    dsimp only at h
    cases hhandler : ex.handler account r with
    | error e =>
      rw [hhandler] at h
      obtain ⟨-, rfl⟩ := Prod.mk.inj (Option.some.inj h)
      exact hkept
    | ok op =>
      obtain ⟨a, b, rfl⟩ := handler_accounts hpath hhandler
      obtain ⟨result, s₂, hserve, hserved⟩ := createAccount_keeps (a := a) (b := b) hup
      rw [hhandler] at h
      dsimp only at h
      rw [hserve] at h
      obtain ⟨-, rfl⟩ := Prod.mk.inj (Option.some.inj h)
      exact hserved.trans hkept

/-- The keys stay. -/
theorem postAccounts_keeps {s' : Sys (service X)} {reply : Except ApiError BalanceResponse}
    (hpath : r.path = "/accounts") (h : postAccounts ex clock r s = some (reply, s')) :
    s'.shared.db.identities = s.shared.db.identities := by
  obtain ⟨⟨answer, s₁⟩, hrespond, h⟩ := Option.bind_eq_some_iff.mp h
  have hkept := respond_keeps hpath hrespond
  cases answer with
  | error e =>
    obtain ⟨-, rfl⟩ := Prod.mk.inj (Option.some.inj h)
    exact hkept
  | ok answer =>
    obtain ⟨result, -, heq⟩ := Option.map_eq_some_iff.mp h
    obtain ⟨-, rfl⟩ := Prod.mk.inj heq
    exact hkept

theorem postAccounts_new {s₁ : Sys (service X)} {b : UInt64} {n : Int}
    (hpath : r.path = "/accounts") (hjudge : judge s r clock = some (.ok a, s₁))
    (hhandler : ex.handler a r = .ok (.createAccount a b))
    (hnone : s.shared.db.accounts.lookup a = none) (hb : i64TryFrom b = some n) :
    ∃ s', postAccounts ex clock r s = some (.ok ⟨a, b⟩, s') ∧
      s'.shared.db.identities = s.shared.db.identities ∧
      s'.shared.db.accounts.lookup a = some n := by
  have hroute : (ex.route r.path).isSome = true := by rw [hpath]; rfl
  obtain ⟨hup, store, hdb⟩ := judge_keeps hjudge
  obtain ⟨s', hserve, -, hdb'⟩ := createAccount_served (s := s₁) (a := a) hup (by rw [hdb]; exact hnone) hb
  refine ⟨s', ?_, by rw [hdb', hdb]; rfl, by rw [hdb']; exact Table.lookup_put_self _ _ _⟩
  rw [postAccounts, respond, if_pos hroute, hjudge]
  dsimp only [Option.bind]
  rw [hhandler]
  dsimp only
  rw [hserve]
  rfl

end

end Bank

namespace Wallet

/-! ## The command -/

/-- The bank, and the store of a wallet. -/
structure World (X : Crypto) where
  bank : Sys (Bank.service X)
  store : Meta

/-- What is the same in every run: the two addresses, the primitives underneath, and HTTP. -/
structure Setting (X : Crypto) where
  bankUrl : String
  enrollUrl : String
  keypairOf : { b : Bytes // b.length = identitySecretKeyLen } → IdentityKeypair X
  json : Bank.CreateAccountRequest → Bytes
  http : Http
  ex : Bank.Extractors

/-- What becomes of a request and of its answer. -/
inductive Carriage where
  | fine
  | lost (e : WalletError)
  /-- The bank has answered. -/
  | answerLost (e : WalletError)
deriving DecidableEq

/-- What is decided outside in one run. -/
structure Surroundings (X : Crypto) where
  /-- The store and the CA certificate. -/
  opened : Except WalletError Unit
  secret : Except CoreError { b : Bytes // b.length = identitySecretKeyLen }
  enrollClient : Except WalletError Unit
  register : Carriage
  certificate : Except Bank.ApiError Bank.RegisterResponse
  /-- Or how many inserts of `set_identity` there were before it failed. -/
  written : Except (Nat × WalletError) Unit
  client : Except WalletError Unit
  now : Except WalletError UInt64
  nonce : Except WalletError Nonce
  creation : Carriage
  printed : Except WalletError Unit
  /-- The bank's clock. -/
  clock : UInt64
  /-- What becomes of the bank, before it gets a request, without the wallet. -/
  elsewhere : Sys (Bank.service X) → Sys (Bank.service X)

inductive CommandError where
  | wallet (e : WalletError)
  | store (e : StoreError)
deriving DecidableEq

/-- A command that may fail, and what it has done by then stays done. -/
abbrev CommandM (X : Crypto) := ExceptT CommandError (StateM (World X))

def CommandM.exec {α : Type} (x : CommandM X α) (w : World X) : Except CommandError α × World X :=
  Id.run (x.run.run w)

def orFail {α : Type} (x : Except WalletError α) : CommandM X α := ExceptT.mk (pure (x.mapError .wallet))

/-- An answer that is not a success is an error to `ureq`. -/
def statusError (url : String) (e : Bank.ApiError) : WalletError :=
  .http url (url ++ ": status code " ++ toString e.status)

/-- What the client gets of the bank's answer. -/
def Carriage.answer {α : Type} (how : Carriage) (url : String) (reply : Except Bank.ApiError α) :
    Except WalletError α :=
  match how with
  | .fine => reply.mapError (statusError url)
  | .lost e | .answerLost e => .error e

/-- Send the bank a request, which it answers by `call` if it serves. -/
def send {α : Type} (o : Surroundings X) (how : Carriage) (url : String)
    (call : Sys (Bank.service X) → Option (Except Bank.ApiError α × Sys (Bank.service X))) :
    CommandM X α := do
  match how with
  | .lost e => throw (.wallet e)
  | how =>
    modify fun w => { w with bank := o.elsewhere w.bank }
    let w ← get
    match call w.bank with
    | none => throw (.wallet (.http url "connection refused"))
    | some (reply, bank) =>
      set { w with bank := bank }
      orFail (how.answer url reply)

def setIdentity (written : Except (Nat × WalletError) Unit) (identity : StoredIdentity) :
    CommandM X Unit :=
  match written with
  | .ok () => modify fun w => { w with store := w.store.insertAll (Store.setIdentity identity) }
  | .error (n, e) => do
    modify fun w => { w with store := w.store.insertAll ((Store.setIdentity identity).take n) }
    throw (.wallet e)

/-- `Wallet::register`. -/
def register (S : Setting X) (o : Surroundings X) (accountId : String) : CommandM X Unit := do
  let secret ← orFail (o.secret.mapError .core)
  orFail o.enrollClient
  let response ← send o o.register (S.enrollUrl ++ "/register")
    (Bank.postRegister accountId (Hex.encode (S.keypairOf secret).publicKey) o.certificate)
  setIdentity o.written ⟨accountId, secret, response.clientCertPem, response.clientKeyPem,
    response.caCertPem⟩

/-- `Wallet::create_account`. -/
def createAccount (S : Setting X) (o : Surroundings X) (initialBalanceCents : UInt64) :
    CommandM X BalanceResponse := do
  let w ← get
  match ← ExceptT.mk (pure ((Store.identity w.store).mapError .store)) with
  | none => throw (.wallet .notRegistered)
  | some identity =>
    orFail o.client
    let now ← orFail o.now
    let nonce ← orFail o.nonce
    let client : BankClient X := ⟨identity.accountId, S.keypairOf identity.secret⟩
    let request := client.createAccount (S.json ⟨identity.accountId, initialBalanceCents⟩) now nonce
    send o o.creation (S.bankUrl ++ "/accounts") fun s =>
      (S.http.deliver request).bind fun r => Bank.postAccounts S.ex o.clock r s

/-- `account create`. -/
def accountCreate (S : Setting X) (o : Surroundings X) (accountId : String)
    (initialBalanceCents : UInt64) : CommandM X BalanceResponse := do
  orFail o.opened
  register S o accountId
  let response ← createAccount S o initialBalanceCents
  orFail o.printed
  return response

/-! ## What its parts do -/

section

variable {α β : Type} {w v : World X} {o : Surroundings X} {how : Carriage} {url : String}
  {call : Sys (Bank.service X) → Option (Except Bank.ApiError α × Sys (Bank.service X))}

theorem exec_bind_ok {x : CommandM X α} {f : α → CommandM X β} {a : α}
    (h : x.exec w = (.ok a, v)) : (x >>= f).exec w = (f a).exec v := by
  show (ExceptT.bindCont f (x.exec w).1).run (x.exec w).2 = _
  rw [h]
  rfl

theorem exec_bind_error {x : CommandM X α} {f : α → CommandM X β} {e : CommandError}
    (h : x.exec w = (.error e, v)) : (x >>= f).exec w = (.error e, v) := by
  show (ExceptT.bindCont f (x.exec w).1).run (x.exec w).2 = _
  rw [h]
  rfl

theorem exec_get_bind {f : World X → CommandM X β} : (get >>= f).exec w = (f w).exec w := rfl

theorem exec_orFail_bind {x : Except WalletError α} {a : α} {f : α → CommandM X β}
    (h : x = .ok a) : (orFail x >>= f).exec w = (f a).exec w := by
  rw [h]
  exact exec_bind_ok rfl

theorem exec_orFail_bind_error {x : Except WalletError α} {e : WalletError} {f : α → CommandM X β}
    (h : x = .error e) : (orFail x >>= f).exec w = (.error (.wallet e), w) := by
  rw [h]
  exact exec_bind_error rfl

theorem exec_send (hhow : ∀ e, how ≠ .lost e) {reply : Except Bank.ApiError α}
    {bank : Sys (Bank.service X)} (h : call (o.elsewhere w.bank) = some (reply, bank)) :
    (send o how url call).exec w =
      ((how.answer url reply).mapError .wallet, { w with bank := bank }) := by
  cases how with
  | lost e => exact absurd rfl (hhow e)
  | _ =>
    unfold send
    refine (exec_bind_ok (v := { w with bank := o.elsewhere w.bank }) rfl).trans ?_
    refine (exec_bind_ok (v := { w with bank := o.elsewhere w.bank }) rfl).trans ?_
    rw [h]
    rfl

theorem exec_send_down (hhow : ∀ e, how ≠ .lost e) (h : call (o.elsewhere w.bank) = none) :
    (send o how url call).exec w =
      (.error (.wallet (.http url "connection refused")), { w with bank := o.elsewhere w.bank }) := by
  cases how with
  | lost e => exact absurd rfl (hhow e)
  | _ =>
    unfold send
    refine (exec_bind_ok (v := { w with bank := o.elsewhere w.bank }) rfl).trans ?_
    refine (exec_bind_ok (v := { w with bank := o.elsewhere w.bank }) rfl).trans ?_
    rw [h]
    rfl

theorem exec_send_fine (hhow : how = .fine) {r : α} {bank : Sys (Bank.service X)}
    (h : call (o.elsewhere w.bank) = some (.ok r, bank)) :
    (send o how url call).exec w = (.ok r, { w with bank := bank }) := by
  rw [exec_send (fun e he => by simp [hhow] at he) h, hhow]
  rfl

theorem exec_send_refused (hhow : how = .fine) {e : Bank.ApiError} {bank : Sys (Bank.service X)}
    (h : call (o.elsewhere w.bank) = some (.error e, bank)) :
    (send o how url call).exec w =
      (.error (.wallet (statusError url e)), { w with bank := bank }) := by
  rw [exec_send (fun e he => by simp [hhow] at he) h, hhow]
  rfl

theorem exec_setIdentity {written : Except (Nat × WalletError) Unit} {identity : StoredIdentity} :
    ((setIdentity written identity).exec w).2.bank = w.bank := by
  cases written with
  | ok => rfl
  | error e => rfl

end

/-! ## What the bank keeps -/

variable {S : Setting X} {o : Surroundings X} {a : String} {balance : UInt64}
  {s s' s'' : Sys (Bank.service X)} {w : World X}

/-- The bank has a key for the account. -/
def Recorded (a : String) (w : World X) : Prop :=
  w.bank.shared.db.identities.lookup a ≠ none

/-- The account is neither registered nor opened between the two. -/
structure Leaves (a : String) (s s' : Sys (Bank.service X)) : Prop where
  key : s'.shared.db.identities.lookup a = s.shared.db.identities.lookup a
  account : s'.shared.db.accounts.lookup a = none ↔ s.shared.db.accounts.lookup a = none

theorem Leaves.refl : Leaves a s s := ⟨rfl, .rfl⟩

theorem Leaves.trans (h : Leaves a s s') (h' : Leaves a s' s'') : Leaves a s s'' :=
  ⟨h'.key.trans h.key, h'.account.trans h.account⟩

/-- Nobody else registers or opens the account during the run. -/
def Surroundings.Apart (o : Surroundings X) (a : String) : Prop := ∀ s, Leaves a s (o.elsewhere s)

/-- The bank's key for the account is not lost. -/
def Retains {α : Type} (a : String) (x : CommandM X α) : Prop :=
  ∀ w, Recorded a w → Recorded a (x.exec w).2

section

variable {α β : Type}

theorem recorded_bind {x : CommandM X α} {f : α → CommandM X β}
    (hx : Recorded a (x.exec w).2) (hf : ∀ r, Retains a (f r)) : Recorded a ((x >>= f).exec w).2 := by
  rcases hexec : x.exec w with ⟨result, w'⟩
  rw [hexec] at hx
  cases result with
  | ok r =>
    rw [exec_bind_ok hexec]
    exact hf r w' hx
  | error e =>
    rw [exec_bind_error hexec]
    exact hx

theorem Retains.bind {x : CommandM X α} {f : α → CommandM X β} (hx : Retains a x)
    (hf : ∀ r, Retains a (f r)) : Retains a (x >>= f) :=
  fun w hw => recorded_bind (hx w hw) hf

theorem Retains.result (x : Except CommandError α) : Retains a (ExceptT.mk (pure x) : CommandM X α) :=
  fun _ hw => hw

theorem Retains.get : Retains a (get : CommandM X (World X)) := fun _ hw => hw

theorem Retains.setIdentity {written : Except (Nat × WalletError) Unit} {identity : StoredIdentity} :
    Retains a (setIdentity written identity : CommandM X Unit) := by
  intro w hw
  rw [Recorded, exec_setIdentity]
  exact hw

theorem Retains.send {how : Carriage} {url : String}
    {call : Sys (Bank.service X) → Option (Except Bank.ApiError α × Sys (Bank.service X))}
    (hapart : o.Apart a) (hcall : ∀ s reply s', call s = some (reply, s') →
      s'.shared.db.identities.lookup a = s.shared.db.identities.lookup a) :
    Retains a (send o how url call) := by
  intro w hw
  have hmoved : (o.elsewhere w.bank).shared.db.identities.lookup a ≠ none := by
    rw [(hapart w.bank).key]
    exact hw
  by_cases hlost : ∃ e, how = .lost e
  · obtain ⟨e, rfl⟩ := hlost
    exact hw
  · have hhow : ∀ e, how ≠ .lost e := fun e he => hlost ⟨e, he⟩
    cases h : call (o.elsewhere w.bank) with
    | none =>
      rw [exec_send_down hhow h]
      exact hmoved
    | some answered =>
      rw [exec_send hhow h]
      show answered.2.shared.db.identities.lookup a ≠ none
      rw [hcall _ _ _ h]
      exact hmoved

end

theorem deliver_path {H : Http} {out : Outgoing} {r : Request} (h : H.deliver out = some r) :
    r.path = H.path out.path := by
  obtain ⟨headers, -, rfl⟩ := Option.map_eq_some_iff.mp h
  rfl

theorem createAccount_keeps (hH : S.http.Documented S.ex) (hapart : o.Apart a) :
    Retains a (createAccount S o balance) := by
  refine .bind .get fun w => .bind (.result _) fun found => ?_
  cases found with
  | none => exact .result _
  | some identity =>
    refine .bind (.result _) fun _ => .bind (.result _) fun now => .bind (.result _) fun nonce => ?_
    refine .send hapart fun s reply s' h => ?_
    obtain ⟨r, hr, h⟩ := Option.bind_eq_some_iff.mp h
    have hpath : r.path = "/accounts" :=
      (deliver_path hr).trans (path_post hH "accounts" (by simp))
    rw [Bank.postAccounts_keeps hpath h]

/-! ## How far a run comes -/

/-- The run comes to the bank with its key. -/
structure Surroundings.Reaches (o : Surroundings X) (w : World X) : Prop where
  opened : o.opened = .ok ()
  secret : ∃ secret, o.secret = .ok secret
  enrollClient : o.enrollClient = .ok ()
  register : ∀ e, o.register ≠ .lost e
  up : (o.elsewhere w.bank).shared.mem.phase = .up

/-- A run that does not come to the bank fails, and has done nothing. -/
theorem accountCreate_stopped (hapart : o.Apart a) (h : ¬ o.Reaches w) :
    ∃ e w', (accountCreate S o a balance).exec w = (.error e, w') ∧ Leaves a w.bank w'.bank := by
  cases hopened : o.opened with
  | error e => exact ⟨_, _, exec_orFail_bind_error hopened, .refl⟩
  | ok =>
    suffices hregister : ∃ e w', (register S o a).exec w = (.error e, w') ∧
        Leaves a w.bank w'.bank by
      obtain ⟨e, w', hexec, hleaves⟩ := hregister
      exact ⟨e, w', (exec_orFail_bind hopened).trans (exec_bind_error hexec), hleaves⟩
    cases hsecret : o.secret with
    | error e =>
      exact ⟨_, _, exec_orFail_bind_error (congrArg (Except.mapError WalletError.core) hsecret), .refl⟩
    | ok secret =>
      have hfound := congrArg (Except.mapError WalletError.core) hsecret
      cases hclient : o.enrollClient with
      | error e =>
        exact ⟨_, _, (exec_orFail_bind hfound).trans (exec_orFail_bind_error hclient), .refl⟩
      | ok =>
        suffices hsend : ∀ certificate, ∃ e w', (send o o.register (S.enrollUrl ++ "/register")
            (Bank.postRegister a (Hex.encode (S.keypairOf secret).publicKey) certificate)).exec w =
              (.error e, w') ∧ Leaves a w.bank w'.bank by
          obtain ⟨e, w', hexec, hleaves⟩ := hsend o.certificate
          exact ⟨e, w', (exec_orFail_bind hfound).trans
            ((exec_orFail_bind hclient).trans (exec_bind_error hexec)), hleaves⟩
        intro certificate
        by_cases hlost : ∃ e, o.register = .lost e
        · obtain ⟨e, he⟩ := hlost
          exact ⟨_, _, by rw [he]; rfl, .refl⟩
        · have hhow : ∀ e, o.register ≠ .lost e := fun e he => hlost ⟨e, he⟩
          have hdown : (o.elsewhere w.bank).shared.mem.phase ≠ .up := fun hup =>
            h ⟨hopened, ⟨secret, hsecret⟩, hclient, hhow, hup⟩
          exact ⟨_, _, exec_send_down hhow (Bank.postRegister_down certificate
            (S.keypairOf secret).length_publicKey (S.keypairOf secret).publicKey_valid hdown), hapart w.bank⟩

/-- What comes to the bank first, it keeps. -/
theorem accountCreate_recorded (hH : S.http.Documented S.ex) (hapart : o.Apart a)
    (h : o.Reaches w) : Recorded a ((accountCreate S o a balance).exec w).2 := by
  obtain ⟨secret, hsecret⟩ := h.secret
  have hregister : Recorded a ((register S o a).exec w).2 := by
    rw [register, exec_orFail_bind (congrArg (Except.mapError WalletError.core) hsecret),
      exec_orFail_bind h.enrollClient]
    refine recorded_bind ?_ fun _ => .setIdentity
    obtain ⟨reply, bank, hpost, hkey⟩ := Bank.postRegister_up o.certificate
      (S.keypairOf secret).length_publicKey (S.keypairOf secret).publicKey_valid h.up
    rw [exec_send h.register hpost]
    exact hkey
  rw [accountCreate, exec_orFail_bind h.opened]
  exact recorded_bind hregister fun _ => .bind (createAccount_keeps hH hapart) fun _ =>
    .bind (.result _) fun _ => .result _

/-! ## Running it again -/

/-- The account can authenticate, and what is asked for it fits. -/
structure Creatable (S : Setting X) (a : String) (balance : UInt64) : Prop where
  http : S.http.Documented S.ex
  hears : S.http.Hears a
  json : S.ex.createAccount (S.json ⟨a, balance⟩) = .ok ⟨a, balance⟩
  size : (S.json ⟨a, balance⟩).length ≤ maxBodyBytes
  fits : (i64TryFrom balance).isSome = true

/-- Nothing fails in the run. -/
structure Surroundings.Fine (o : Surroundings X) (w : World X) : Prop where
  opened : o.opened = .ok ()
  secret : ∃ secret, o.secret = .ok secret
  enrollClient : o.enrollClient = .ok ()
  register : o.register = .fine
  certificate : ∃ certificate, o.certificate = .ok certificate
  written : o.written = .ok ()
  client : o.client = .ok ()
  now : ∃ now, o.now = .ok now ∧ outsideWindow now o.clock = false
  nonce : ∃ nonce, o.nonce = .ok nonce ∧
    ∀ s, s = w.bank ∨ Expiring.free s.shared.db.nonceStore (Hex.encode nonce.1) o.clock.toNat = true →
      Expiring.free (o.elsewhere s).shared.db.nonceStore (Hex.encode nonce.1) o.clock.toNat = true
  creation : o.creation = .fine
  printed : o.printed = .ok ()
  inRange : (o.clock.toNat : Int) + nonceTtlSecs.toNat ≤ i64Max
  up : ∀ s, s = w.bank ∨ s.shared.mem.phase = .up → (o.elsewhere s).shared.mem.phase = .up

/-- The bank has the wallet's key for the account, and the account. -/
def Enrolled (S : Setting X) (a : String) (w : World X) : Prop :=
  ∃ identity, Store.identity w.store = .ok (some identity) ∧ identity.accountId = a ∧
    w.bank.shared.db.identities.lookup a = some (S.keypairOf identity.secret).publicKey ∧
    w.bank.shared.db.accounts.lookup a ≠ none

theorem identity_setIdentity {t : Meta} {identity : StoredIdentity} :
    Store.identity (t.insertAll (Store.setIdentity identity)) = .ok (some identity) := by
  refine Store.identity_eq fun k => ?_
  cases k <;> simp [Table.insertAll, Store.setIdentity, Store.part, Table.lookup_put]

theorem Surroundings.Fine.reaches (h : o.Fine w) : o.Reaches w :=
  ⟨h.opened, h.secret, h.enrollClient, fun e he => by simp [h.register] at he, h.up _ (.inl rfl)⟩

theorem register_fine (hfine : o.Fine w) (hapart : o.Apart a) (hnew : ¬ Recorded a w) :
    ∃ identity bank, identity.accountId = a ∧
      (register S o a).exec w = (.ok (), ⟨bank, w.store.insertAll (Store.setIdentity identity)⟩) ∧
      bank.shared.mem.phase = .up ∧
      bank.shared.db = { (o.elsewhere w.bank).shared.db with
        identities := (o.elsewhere w.bank).shared.db.identities.put a
          (some (S.keypairOf identity.secret).publicKey) } := by
  obtain ⟨secret, hsecret⟩ := hfine.secret
  obtain ⟨certificate, hcertificate⟩ := hfine.certificate
  have hnone : (o.elsewhere w.bank).shared.db.identities.lookup a = none := by
    rw [(hapart w.bank).key]
    exact not_not.mp hnew
  obtain ⟨bank, hpost, hup, hdb⟩ := Bank.postRegister_new o.certificate
    (S.keypairOf secret).length_publicKey (S.keypairOf secret).publicKey_valid
    (hfine.up _ (.inl rfl)) hnone
  refine ⟨⟨a, secret, certificate.clientCertPem, certificate.clientKeyPem, certificate.caCertPem⟩,
    bank, rfl, ?_, hup, hdb⟩
  rw [register, exec_orFail_bind (congrArg (Except.mapError WalletError.core) hsecret),
    exec_orFail_bind hfine.enrollClient,
    exec_bind_ok (exec_send_fine hfine.register (by rw [hpost, hcertificate])), hfine.written]
  rfl

theorem createAccount_fine {v : World X} {identity : StoredIdentity}
    (hfine : o.Fine w) (hapart : o.Apart a) (hS : Creatable S a balance)
    (hidentity : Store.identity v.store = .ok (some identity)) (haccount : identity.accountId = a)
    (hkey : v.bank.shared.db.identities.lookup a = some (S.keypairOf identity.secret).publicKey)
    (hup : v.bank.shared.mem.phase = .up)
    (hnonces : v.bank.shared.db.nonceStore = (o.elsewhere w.bank).shared.db.nonceStore)
    (hnone : v.bank.shared.db.accounts.lookup a = none) :
    ∃ bank, (createAccount S o balance).exec v = (.ok ⟨a, balance⟩, { v with bank := bank }) ∧
      Enrolled S a { v with bank := bank } := by
  obtain ⟨now, hnow, hwindow⟩ := hfine.now
  obtain ⟨nonce, hnonce, hfree⟩ := hfine.nonce
  obtain ⟨n, hn⟩ := Option.isSome_iff_exists.mp hS.fits
  have hready : Ready (o.elsewhere v.bank) ⟨a, S.keypairOf identity.secret⟩ now o.clock nonce :=
    { up := hfine.up _ (.inr hup)
      registered := (hapart _).key.trans hkey
      window := hwindow
      inRange := hfine.inRange
      fresh := hfree _ (.inr (hnonces ▸ hfree _ (.inl rfl))) }
  obtain ⟨r, s', hr, hjudge, hhandler⟩ :=
    (taken_createAccount hS.http hready hS.json).mpr ⟨hS.hears, hS.size⟩
  have hpath : r.path = "/accounts" :=
    (deliver_path hr).trans (path_post hS.http "accounts" (by simp))
  obtain ⟨bank, hpost, hkeys, hbalance⟩ := Bank.postAccounts_new hpath hjudge hhandler
    ((hapart _).account.mpr hnone) hn
  refine ⟨bank, ?_, identity, hidentity, haccount, ?_, ?_⟩
  · have hfound : (Store.identity v.store).mapError CommandError.store = .ok (some identity) := by
      rw [hidentity]
      rfl
    rw [createAccount, exec_get_bind, hfound]
    refine (exec_bind_ok (a := some identity) (v := v) rfl).trans ?_
    dsimp only
    rw [exec_orFail_bind hfine.client, exec_orFail_bind hnow, exec_orFail_bind hnonce, haccount]
    refine exec_send_fine hfine.creation ?_
    rw [hr]
    exact hpost
  · show bank.shared.db.identities.lookup a = _
    rw [hkeys, (hapart _).key, hkey]
  · show bank.shared.db.accounts.lookup a ≠ none
    rw [hbalance]
    exact Option.some_ne_none n

/-- Where the bank has no key for the account, the run does everything. -/
theorem accountCreate_fine (hfine : o.Fine w) (hapart : o.Apart a) (hS : Creatable S a balance)
    (hnew : ¬ Recorded a w) (hnone : w.bank.shared.db.accounts.lookup a = none) :
    ∃ w', (accountCreate S o a balance).exec w = (.ok ⟨a, balance⟩, w') ∧ Enrolled S a w' := by
  obtain ⟨identity, bank, haccount, hregister, hup, hdb⟩ := register_fine (S := S) hfine hapart hnew
  have hmoved := (hapart w.bank).account.mpr hnone
  obtain ⟨bank', hcreate, henrolled⟩ := createAccount_fine
    (v := ⟨bank, w.store.insertAll (Store.setIdentity identity)⟩) hfine hapart hS
    identity_setIdentity haccount (by rw [hdb]; exact Table.lookup_put_self _ _ _) hup
    (by rw [hdb]) (by rw [hdb]; exact hmoved)
  refine ⟨_, ?_, henrolled⟩
  rw [accountCreate, exec_orFail_bind hfine.opened, exec_bind_ok hregister, exec_bind_ok hcreate,
    exec_orFail_bind hfine.printed]
  rfl

/-- Where it has one, the run is refused before anything is written. -/
theorem accountCreate_refused (hfine : o.Fine w) (hapart : o.Apart a) (hold : Recorded a w) :
    ∃ bank, (accountCreate S o a balance).exec w =
        (.error (.wallet (statusError (S.enrollUrl ++ "/register")
          (Bank.BankError.identityExists a).toApi)), ⟨bank, w.store⟩) ∧
      bank.shared.db = (o.elsewhere w.bank).shared.db := by
  obtain ⟨secret, hsecret⟩ := hfine.secret
  have hsome : (o.elsewhere w.bank).shared.db.identities.lookup a ≠ none := by
    rw [(hapart w.bank).key]
    exact hold
  obtain ⟨bank, hpost, -, hdb⟩ := Bank.postRegister_again o.certificate
    (S.keypairOf secret).length_publicKey (S.keypairOf secret).publicKey_valid
    (hfine.up _ (.inl rfl)) hsome
  refine ⟨bank, ?_, hdb⟩
  have hregister : (register S o a).exec w = _ :=
    (exec_orFail_bind (congrArg (Except.mapError WalletError.core) hsecret)).trans
      ((exec_orFail_bind hfine.enrollClient).trans
        (exec_bind_error (exec_send_refused hfine.register hpost)))
  rw [accountCreate, exec_orFail_bind hfine.opened, exec_bind_error hregister]

/-- **When `account create` can be run again.** If and only if the first run did not come to the
    bank with its key: then a run in which nothing fails does everything. Otherwise it is refused,
    and nothing is written. -/
theorem create_retried {o₁ o₂ : Surroundings X} {w₀ w₁ w₂ : World X}
    {result : Except CommandError BalanceResponse} (hS : Creatable S a balance)
    (hapart₁ : o₁.Apart a) (hapart₂ : o₂.Apart a) (hkey : ¬ Recorded a w₀)
    (haccount : w₀.bank.shared.db.accounts.lookup a = none)
    (hfirst : (accountCreate S o₁ a balance).exec w₀ = (result, w₁))
    (hbank : Leaves a w₁.bank w₂.bank) (hfine : o₂.Fine w₂) :
    (Recorded a w₁ ↔ o₁.Reaches w₀) ∧
    (¬ Recorded a w₁ → ∃ w₃, (accountCreate S o₂ a balance).exec w₂ = (.ok ⟨a, balance⟩, w₃) ∧
      Enrolled S a w₃) ∧
    (Recorded a w₁ → ∃ bank, (accountCreate S o₂ a balance).exec w₂ =
        (.error (.wallet (statusError (S.enrollUrl ++ "/register")
          (Bank.BankError.identityExists a).toApi)), ⟨bank, w₂.store⟩) ∧
      bank.shared.db = (o₂.elsewhere w₂.bank).shared.db) := by
  have hrecorded : o₁.Reaches w₀ → Recorded a w₁ := by
    intro hreaches
    have hafter : Recorded a ((accountCreate S o₁ a balance).exec w₀).2 :=
      accountCreate_recorded hS.http hapart₁ hreaches
    rwa [hfirst] at hafter
  have hstopped : ¬ o₁.Reaches w₀ → Leaves a w₀.bank w₁.bank := by
    intro hnot
    have hstop : ∃ e w', (accountCreate S o₁ a balance).exec w₀ = (.error e, w') ∧
        Leaves a w₀.bank w'.bank := accountCreate_stopped hapart₁ hnot
    obtain ⟨e, w', hexec, hleaves⟩ := hstop
    obtain ⟨-, rfl⟩ := Prod.mk.inj (hexec.symm.trans hfirst)
    exact hleaves
  have hreaches : Recorded a w₁ → o₁.Reaches w₀ := by
    intro hafter
    by_contra hnot
    rw [Recorded, (hstopped hnot).key] at hafter
    exact hkey hafter
  have hnow : Recorded a w₂ ↔ Recorded a w₁ := by rw [Recorded, hbank.key, Recorded]
  refine ⟨⟨hreaches, hrecorded⟩, fun hnot => ?_, fun hafter => ?_⟩
  · have hleaves := (hstopped fun h => hnot (hrecorded h)).trans hbank
    exact accountCreate_fine hfine hapart₂ hS (fun h => hnot (hnow.mp h))
      (hleaves.account.mpr haccount)
  · exact accountCreate_refused hfine hapart₂ (hnow.mpr hafter)

/-- The wallet as it is by default, with toy primitives. -/
def toySetting : Setting signing where
  bankUrl := "https://127.0.0.1:3000"
  enrollUrl := "https://127.0.0.1:3001"
  keypairOf secret :=
    { toyKeypair with
      publicKey := secret.1
      length_publicKey := secret.2
      publicKey_valid := rfl
      verify_sign := toyKeypair.verify_sign }
  json _ := utf8 Bank.Router.toyOpening
  http := toyHttp
  ex := toyRouter

/-- A run with a secret of `b`s, in which at most the request to register fails. -/
def toySurroundings (b : UInt8) (register : Carriage) : Surroundings signing where
  opened := .ok ()
  secret := .ok ⟨.replicate identitySecretKeyLen b, List.length_replicate⟩
  enrollClient := .ok ()
  register := register
  certificate := .ok ⟨"certificate", "key", "ca"⟩
  written := .ok ()
  client := .ok ()
  now := .ok 60
  nonce := .ok toyNonce
  creation := .fine
  printed := .ok ()
  clock := 60
  elsewhere := id

theorem toySetting_creatable : Creatable toySetting "alice" 500 where
  http := toyHttp_documented
  hears := toyHttp_documented.hears (by decide) (by decide)
  json := by decide +kernel
  size := by decide
  fits := by decide

theorem toySurroundings_apart {b : UInt8} {register : Carriage} :
    (toySurroundings b register).Apart a := fun _ => .refl

theorem toySurroundings_fine {b : UInt8} {w : World signing} (hup : w.bank.shared.mem.phase = .up)
    (hfree : Expiring.free w.bank.shared.db.nonceStore (Hex.encode toyNonce.1) 60 = true) :
    (toySurroundings b .fine).Fine w where
  opened := rfl
  secret := ⟨_, rfl⟩
  enrollClient := rfl
  register := rfl
  certificate := ⟨_, rfl⟩
  written := rfl
  client := rfl
  now := ⟨60, rfl, by show outsideWindow 60 60 = false; decide⟩
  nonce := ⟨toyNonce, rfl, fun _ hs => hs.elim (fun h => h ▸ hfree) id⟩
  creation := rfl
  printed := rfl
  inRange := by show ((60 : UInt64).toNat : Int) + _ ≤ _; decide
  up := fun _ hs => hs.elim (fun h => h ▸ hup) id

/-- The first time the request is lost, the second time nothing is. -/
theorem create_retried_alice : ∃ w₁ w₃ : World signing,
    (accountCreate toySetting (toySurroundings 1 (.lost (.io "reset"))) "alice" 500).exec
      ⟨idleBank, ∅⟩ = (.error (.wallet (.io "reset")), w₁) ∧
    (accountCreate toySetting (toySurroundings 2 .fine) "alice" 500).exec w₁ =
      (.ok ⟨"alice", 500⟩, w₃) ∧ Enrolled toySetting "alice" w₃ := by
  have hfirst : (accountCreate toySetting (toySurroundings 1 (.lost (.io "reset"))) "alice" 500).exec
      ⟨idleBank, ∅⟩ = (.error (.wallet (.io "reset")), ⟨idleBank, ∅⟩) := rfl
  have hnew : ¬ Recorded "alice" (⟨idleBank, ∅⟩ : World signing) := fun h => h rfl
  have hretried := create_retried toySetting_creatable toySurroundings_apart toySurroundings_apart
    hnew rfl hfirst .refl (toySurroundings_fine (b := 2) rfl rfl)
  obtain ⟨w₃, hagain, henrolled⟩ := hretried.2.1 hnew
  exact ⟨_, w₃, hfirst, hagain, henrolled⟩

/-- The answer to the first key is lost: the account cannot be created any more. -/
theorem create_stuck : ∃ w₁ w₂ : World signing,
    (accountCreate toySetting (toySurroundings 1 (.answerLost (.io "reset"))) "alice" 500).exec
      ⟨idleBank, ∅⟩ = (.error (.wallet (.io "reset")), w₁) ∧
    (toySurroundings 2 .fine).Apart "alice" ∧ (toySurroundings 2 .fine).Fine w₁ ∧
    (accountCreate toySetting (toySurroundings 2 .fine) "alice" 500).exec w₁ =
      (.error (.wallet (.http "https://127.0.0.1:3001/register"
        "https://127.0.0.1:3001/register: status code 409")), w₂) ∧
    w₂.bank.shared.db.accounts.lookup "alice" = none := by
  refine ⟨_, _, rfl, toySurroundings_apart, toySurroundings_fine rfl rfl, rfl, rfl⟩

end Wallet

end Digicash
