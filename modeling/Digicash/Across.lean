import Digicash.Bank.Outcomes
import Digicash.Registry.Hearing
import Digicash.Signing

/-!
# A deposit across the registry

A bank that has a registry asks it before it credits. Its client signs the submission as a wallet
signs its requests, HTTP carries it, the registry's router hears it, and what the client reads in
the answer decides how the deposit goes on. `across` is that outside of a bank, made of the
registry's own code, and `deposit_across` says what the two programs are for together: one
operation on two ledgers. It makes the checks of the coin, then those of the registry, then those
of the bank's transaction. The registry records before the bank looks at its own tables, so a
deposit that the bank refuses last has its coin on the registry's books all the same.
-/

namespace Digicash

open Lib

variable {X : Crypto}

/-! ## The client -/

/-- A client of the registry, and what lies between the two. -/
structure Link (X : Crypto) where
  client : Bank.RegistryClient
  keypair : Wallet.IdentityKeypair X
  url : String
  /-- What `serde_json` makes of a submission. -/
  encode : SerialSubmission → Bytes
  http : Wallet.Http
  /-- What the HTTP client says of a request that it got no answer to. -/
  unanswered : String
  extractors : Registry.Extractors

namespace Link

variable (L : Link X)

/-- What `submit_serial` hands to HTTP. -/
def post (submission : SerialSubmission) (now : UInt64) (nonce : Wallet.Nonce) : Wallet.Outgoing :=
  let body := L.encode submission
  let nonce := Hex.encode nonce.1
  let payload := canonicalPayload X "POST" "/serials" body now nonce
  let signature := Hex.encode (L.keypair.sign (utf8 payload))
  ⟨"POST", "/serials", [(Wallet.headerContentType, "application/json"),
    (headerAccount, L.client.bankId), (headerTimestamp, toString now), (headerNonce, nonce),
    (headerSignature, signature)], body⟩

/-- An error that `send_bytes` returns. -/
def failed (e : String) : String := "POST " ++ L.url ++ "/serials: " ++ e

/-- A status that is an error comes out of `send_bytes` as one. -/
def refused (e : Registry.ApiError) : String :=
  L.failed (L.url ++ "/serials: status code " ++ toString e.status)

/-- What the client reads in the registry's answer. -/
def read : Except Registry.ApiError (Option Registry.Ans) → Except String SerialResponse
  | .ok (some (.postSerial (.ok response))) => .ok response
  | .ok (some (.postSerial (.error e))) | .error e => .error (L.refused e)
  -- Nothing else is answered to a submission.
  | .ok _ => .error "decode registry response"

/-- One submission, from the client to the registry and back. -/
def ask (clock : UInt64) (submission : SerialSubmission) (now : UInt64) (nonce : Wallet.Nonce)
    (s : Sys (Registry.service X)) : Except String SerialResponse × Sys (Registry.service X) :=
  match (L.http.deliver (L.post submission now nonce)).bind
      (Registry.hear L.extractors clock s) with
  | none => (.error (L.failed L.unanswered), s)
  | some (result, s') => (L.read result, s')

/-- What is outside a bank whose clock says `now`: a registry whose clock says `clock`. -/
def across (now clock : UInt64) (nonce : Wallet.Nonce) :
    Outside Bank.database (Sys (Registry.service X)) :=
  fun c s =>
    match c with
    | .ext (.postSerials submission) =>
      let answer := L.ask clock submission now nonce s
      some ({ (default : Bank.Oracle) with clock := now, reply := answer.1 }, answer.2)
    | _ => some ({ (default : Bank.Oracle) with clock := now }, s)

/-- The bank is a member that the registry reads and understands, the two clocks agree, and the
    nonce is not in use. HTTP does as documented, and the body is read as what was written. -/
structure Connected (ex : Bank.Extractors) (s : Sys (Registry.service X)) (now clock : UInt64)
    (nonce : Wallet.Nonce) (submission : SerialSubmission) : Prop where
  documented : L.http.Documented ex
  contentType : ∀ r, r.header Wallet.headerContentType = some "application/json" →
    L.extractors.contentType r = .ok ()
  decoded : L.extractors.submission (L.encode submission) = .ok submission
  small : (L.encode submission).length ≤ maxBodyBytes
  hears : L.http.Hears L.client.bankId
  up : s.shared.mem.phase = .up
  registered : ∃ row, s.shared.db.members.lookup L.client.bankId = some row ∧
    row.pubkey = L.keypair.publicKey
  window : outsideWindow now clock = false
  /-- The nonce's expiry fits the column. -/
  inRange : (clock.toNat : Int) + nonceTtlSecs.toNat ≤ i64Max
  fresh : Expiring.free s.shared.db.nonceStore (Hex.encode nonce.1) clock.toNat = true

variable {L} {ex : Bank.Extractors} {s : Sys (Registry.service X)} {now clock : UInt64}
  {nonce : Wallet.Nonce} {submission : SerialSubmission}

/-! ## What becomes of a submission -/

theorem handler_serials {ex : Registry.Extractors} {account : String} {r : Request}
    (hmethod : r.method = "POST") (hpath : r.path = "/serials") (htype : ex.contentType r = .ok ())
    (hbody : ex.submission r.body = .ok submission) :
    ex.handler account r = .ok (some (.postSerial account submission)) := by
  have hmembers : r.path ≠ "/members" := by
    rw [hpath]
    decide
  rw [Registry.Extractors.handler, if_neg hmembers, if_pos hpath, if_pos hmethod,
    Registry.Extractors.act, htype, hbody]
  rfl

/-- The client, as one of the wallet's. -/
def sender (L : Link X) : Wallet.BankClient X := ⟨L.client.bankId, L.keypair⟩

/-- It signs what the wallet's client would sign. -/
theorem post_eq : L.post submission now nonce =
    L.sender.signedPost "/serials" (L.encode submission) now nonce := rfl

theorem Connected.path (h : L.Connected ex s now clock nonce submission) :
    L.http.path "/serials" = "/serials" :=
  h.documented.path ["serials"] (by decide)

/-- The submission comes in as it was sent, signed by the bank. -/
theorem Connected.delivered (h : L.Connected ex s now clock nonce submission) :
    ∃ r auth, L.http.deliver (L.post submission now nonce) = some r ∧
      auth.accountId = L.client.bankId ∧ auth.nonce = Hex.encode nonce.1 ∧
      Registry.Passes X s.shared.db clock r auth ∧ Registry.routed r.path = true ∧
      L.extractors.handler auth.accountId r = .ok (some (.postSerial auth.accountId submission)) := by
  obtain ⟨hne, account, haccount, hread⟩ := Wallet.hears_iff (c := L.sender).mp h.hears
  have hextra : ∀ e ∈ [(Wallet.headerContentType, utf8 "application/json")],
      e.1 = Wallet.headerContentType := by simp
  have hdeliver : L.http.deliver (L.post submission now nonce) =
      (L.http.header L.sender.accountId).map (Wallet.incoming L.http L.sender
        [(Wallet.headerContentType, utf8 "application/json")] "POST" "/serials"
        (L.encode submission) now nonce) := by
    rw [post_eq]
    exact Wallet.deliver_signedPost h.documented
  rw [haccount, Option.map_some] at hdeliver
  refine ⟨_, _, hdeliver, rfl, rfl,
    ⟨(Wallet.readHeaders_incoming hextra).mpr ⟨h.small, L.sender.accountId, hread, hne, rfl⟩,
      h.window, ?_, h.inRange, h.fresh⟩, ?_, ?_⟩
  · obtain ⟨row, hrow, hkey⟩ := h.registered
    have hsigned : Wallet.StillSigned L.http L.sender "POST" "/serials" (L.encode submission) now
        nonce := .of_path h.path
    refine ⟨_, _, ⟨row, hrow, ?_, hkey ▸ L.keypair.publicKey_valid⟩, ?_, hsigned⟩
    · rw [hkey]
      exact L.keypair.length_publicKey
    · rw [decodeSignature, Wallet.BankClient.sign, Hex.decode_encode]
      exact if_pos (L.keypair.length_sign _)
  · rw [Wallet.incoming, h.path]
    rfl
  · have htype := h.contentType (Wallet.incoming L.http L.sender
      [(Wallet.headerContentType, utf8 "application/json")] "POST" "/serials" (L.encode submission)
      now nonce account) (Wallet.read_visible (by decide) (by decide)).1
    exact handler_serials (by rfl) h.path htype h.decoded

/-- **A bank's submission is decided as the registry decides it.** -/
theorem ask_submission (hs : Sys.Steps .any (Registry.start X) s)
    (h : L.Connected ex s now clock nonce submission) :
    ∃ r s' db, L.ask clock submission now nonce s =
        (r.mapError fun e => L.refused (.ofRegistry e), s') ∧
      Registry.Looked clock (Hex.encode nonce.1) s.shared.db db ∧
        Registry.EndsSubmission db L.client.bankId submission clock r s'.shared.db := by
  obtain ⟨request, auth, hdeliver, haccount, hnonce, hpasses, hrouted, hhandler⟩ := h.delivered
  obtain ⟨r, s', db, hhear, -, hlooked, hends⟩ :=
    Registry.hear_submission hs h.up hrouted hpasses hhandler
  refine ⟨r, s', db, ?_, hnonce ▸ hlooked, haccount ▸ hends⟩
  rw [ask, hdeliver, Option.bind_some, hhear]
  cases r <;> rfl

end Link

/-! ## The bank -/

namespace Bank

variable {κ : Config X} {coin : Coin} {req : DepositRequest} {client : RegistryClient}
  {db : Tables}

/-- What is checked of the coin itself. -/
def coinChecks (κ : Config X) (coin : Coin) : List (Prop × Except BankError DepositResponse) :=
  [(coin.schemeId = schemeIdRsaDeterministic, .ok (reject .unknownScheme)),
    (∃ keypair, κ.keys.get coin.denominationCents coin.schemeId = some keypair,
      .ok (reject .unknownDenomination)),
    (Genuine κ coin, .ok (reject .invalidSignature))]

/-- Without a registry, the transaction's checks follow at once. -/
theorem depositChecks_eq : depositChecks κ db req = coinChecks κ req.coin ++ localChecks db req :=
  rfl

theorem coinChecks_iff : (∀ c ∈ coinChecks κ coin, c.1) ↔ Genuine κ coin := by
  simp only [coinChecks, List.forall_mem_cons, List.not_mem_nil, false_implies, implies_true,
    and_true]
  refine ⟨fun h => h.2.2, fun h => ?_⟩
  obtain ⟨keypair, hk, -⟩ := h.verifies
  exact ⟨h.scheme, ⟨keypair, h.scheme ▸ hk⟩, h⟩

/-- A coin that is not genuine is refused on the spot. -/
theorem deposit_refused {ok : Except BankError DepositResponse} (h : ¬ Genuine κ req.coin) :
    ∃ response, deposit κ req = pure response ∧
      Decides (coinChecks κ req.coin) ok (.ok response) := by
  unfold deposit
  dsimp only
  split
  · rename_i hscheme
    refine ⟨_, rfl, Decides.stop fun heq => ?_⟩
    rw [ensureSupportedScheme, if_pos heq] at hscheme
    cases hscheme
  rename_i hscheme
  have hscheme : req.coin.schemeId = schemeIdRsaDeterministic := by
    by_contra hne
    rw [ensureSupportedScheme, if_neg hne] at hscheme
    cases hscheme
  split
  · rename_i hnone
    refine ⟨_, rfl, (Decides.stop fun hkey => ?_).pass hscheme⟩
    obtain ⟨keypair, hsome⟩ := hkey
    exact absurd (hnone.symm.trans hsome) (by simp)
  rename_i keypair hkey
  split
  · exact ⟨_, rfl, ((Decides.stop h).pass ⟨keypair, hkey⟩).pass hscheme⟩
  · rename_i hverify
    exact absurd ⟨hscheme, keypair, hscheme ▸ hkey, hverify⟩ h

/-- How a deposit goes on with what the client read. -/
def goOn (req : DepositRequest) : Except String SerialResponse → BankM DepositResponse
  | .error e => throw (.registryHttp e)
  | .ok response =>
    match response.outcome with
    | .accepted => depositLocally req
    | .doubleSpend => pure (reject .registryDoubleSpend)
    | .exposureCapExceeded => pure (reject .exposureCapExceeded)

/-- For a genuine coin, the registry is asked first. -/
theorem deposit_asks (h : Genuine κ req.coin) (hregistry : κ.registryClient = some client) :
    (deposit κ req).run = .cmd (.ext .nowUnix) fun now =>
      .cmd (.ext (.postSerials (client.submission X req.coin.denominationCents req.coin.schemeId
        req.coin.serialNumber now))) fun reply => (goOn req reply).run := by
  obtain ⟨keypair, hk, hv⟩ := h.verifies
  have hs : ensureSupportedScheme req.coin.schemeId = .ok () := by
    rw [ensureSupportedScheme, if_pos h.scheme]
  rw [← h.scheme] at hk
  simp only [deposit, hs, hk, hv, hregistry]
  refine congrArg (Prog.cmd _) (funext fun now => congrArg (Prog.cmd _) (funext fun reply => ?_))
  cases reply with
  | error e => rfl
  | ok response =>
    obtain ⟨outcome, transcripts⟩ := response
    cases outcome <;> rfl

/-- The transaction asks nobody. -/
theorem depositLocally_only (req : DepositRequest) :
    (depositLocally req).run.Only fun c => ∀ e, c ≠ .ext e := by
  have hsql : ∀ s : Stmt, (sql s).run.Only fun c => ∀ e, c ≠ .ext e :=
    fun s => only_query fun _ h => by cases h
  unfold depositLocally commitDeposit
  refine only_bind (only_bind trivial fun denom => ?_) fun outcome => trivial
  refine only_transaction (fun _ h => by cases h) (fun _ h => by cases h) (fun _ h => by cases h) ?_
  refine only_bind (hsql _) fun prior => ?_
  cases prior with
  | some prior =>
    dsimp only
    split <;> trivial
  | none =>
    refine only_bind (hsql _) fun inserted => ?_
    split
    · trivial
    · refine only_bind (hsql _) fun credited => ?_
      split
      · trivial
      · exact only_bind (hsql _) fun _ => trivial

variable {L : Link X} {now clock : UInt64} {nonce : Wallet.Nonce} {s : Sys (Registry.service X)}
  {i : CallId} {op : Op} {sh : State X}

/-- The transaction is decided by its own checks, and the registry does not move. -/
theorem depositLocally_across (hw : sh.db.WellFormed) : ∃ r sh',
    (depositLocally req).run.interp (answering (S := service X) (L.across now clock nonce) i op)
      (s, sh, none) = (some r, s, sh', none) ∧
    Settles (localChecks sh.db req) sh.db req r sh'.db := by
  have hcommit : Alone.Spec (S := service X) Calm i op _ _ _ (commitDeposit req) none sh :=
    commitDeposit_alone (F := False) req hw fun _ _ _ hne hcalm => absurd hcalm hne
  have hspec : Alone (S := service X) Calm i op (fun _ => True)
      (fun r tx sh' => tx = none ∧ Settles (localChecks sh.db req) sh.db req r sh'.db)
      (depositLocally req).run none sh := by
    refine Alone.bind (fun r tx sh' _ hr => ?_) trivial hcommit
    cases r with
    | ok outcome => exact hr
    | error e => exact ⟨hr.1, hr.2.resolve_right fun h => h.1⟩
  have htotal : ∀ c s, (L.across now clock nonce c s).isSome = true := by
    intro c s
    cases c with
    | ext e => cases e <;> rfl
    | _ => rfl
  obtain ⟨r, s', sh', tx, hrun, rfl, hsettles⟩ := Alone.answering runExt_isSome htotal
    (fun _ _ _ _ _ _ _ => rfl) s hspec
  have hsame : s' = s := by
    refine interp_outside (fun c env o env' hc hw => ?_) (depositLocally_only req) hrun
    cases c with
    | ext e => exact absurd rfl (hc e)
    | _ =>
      cases hw
      rfl
  exact ⟨r, sh', hsame ▸ hrun, hsettles⟩

end Bank

/-! ## The operation -/

namespace Link

variable (L : Link X)

/-- What is submitted for a coin. -/
def submission (coin : Coin) (now : UInt64) : SerialSubmission :=
  L.client.submission X coin.denominationCents coin.schemeId coin.serialNumber now

/-- What the deposit is answered where the registry does not accept. -/
def told : Except Registry.RegistryError SerialResponse → Except Bank.BankError DepositResponse
  | .error e => .error (.registryHttp (L.refused (.ofRegistry e)))
  | .ok response =>
    match response.outcome with
    | .accepted => .ok ⟨true, none⟩
    | .doubleSpend => .ok (Bank.reject .registryDoubleSpend)
    | .exposureCapExceeded => .ok (Bank.reject .exposureCapExceeded)

/-- The checks of a deposit across the registry in order, each with what is answered and what both
    ledgers are where it fails. The registry's tables are `before` until it is asked, and `heard`
    once it has looked at the nonce. -/
def checks (κ : Bank.Config X) (req : DepositRequest) (now clock : UInt64) (id : Nat)
    (db : Bank.Tables) (before heard : Registry.Tables) :
    List (Prop × Except Bank.BankError DepositResponse × Bank.Tables × Registry.Tables) :=
  let submission := L.submission req.coin now
  (Bank.coinChecks κ req.coin).map (fun c => (c.1, c.2, db, before)) ++
    ((Registry.submissionChecks heard id L.client.bankId submission clock).map
        (fun c => (c.1, L.told c.2.1, db, c.2.2)) ++
      (Bank.localChecks db req).map fun c =>
        (c.1, c.2, db, heard.afterSubmission id L.client.bankId submission clock))

/-- The checks decide the answer and both ledgers. Where all pass, the coin is recorded at the
    registry and credited at the bank. -/
def Settles (κ : Bank.Config X) (req : DepositRequest) (now clock : UInt64) (nonce : Wallet.Nonce)
    (db : Bank.Tables) (before : Registry.Tables) (r : Except Bank.BankError DepositResponse)
    (db' : Bank.Tables) (after : Registry.Tables) : Prop :=
  ∃ heard id, Registry.Looked clock (Hex.encode nonce.1) before heard ∧
    heard.transcripts.lookup id = none ∧
    Decides (L.checks κ req now clock id db before heard)
      (.ok ⟨true, none⟩, db.afterDeposit req,
        heard.afterSubmission id L.client.bankId (L.submission req.coin now) clock) (r, db', after)

variable {L} {κ : Bank.Config X} {req : DepositRequest} {now clock : UInt64} {nonce : Wallet.Nonce}
  {id : Nat} {db db' : Bank.Tables} {before heard after : Registry.Tables}
  {r : Except Bank.BankError DepositResponse}

theorem checks_iff : (∀ c ∈ L.checks κ req now clock id db before heard, c.1) ↔
    Bank.Genuine κ req.coin ∧
      Registry.Acceptable heard L.client.bankId (L.submission req.coin now) clock ∧
      ∀ c ∈ Bank.localChecks db req, c.1 := by
  simp only [checks, List.forall_mem_append, List.forall_mem_map]
  rw [Bank.coinChecks_iff, ← Registry.acceptable_iff id]

/-- The registry's checks do not look at its nonces. -/
theorem acceptable_looked {n : String} {caller : String} {submission : SerialSubmission}
    (h : Registry.Looked clock n before heard) :
    Registry.Acceptable heard caller submission clock ↔
      Registry.Acceptable before caller submission clock := by
  obtain ⟨store, rfl, -⟩ := h
  exact ⟨fun h => ⟨h.denomination, h.clock, h.underCap, h.fresh, h.fits⟩,
    fun h => ⟨h.denomination, h.clock, h.underCap, h.fresh, h.fits⟩⟩

/-- A deposit is accepted afresh if and only if both would accept it. -/
theorem Settles.accepted_iff (hw : db.WellFormed)
    (h : L.Settles κ req now clock nonce db before r db' after) :
    (r = .ok ⟨true, none⟩ ∧ db.deposits.lookup req.requestId = none) ↔
      Bank.Depositable κ db req ∧
        Registry.Acceptable before L.client.bankId (L.submission req.coin now) clock := by
  obtain ⟨heard, id, hlooked, -, hdecides⟩ := h
  have hall : (∀ c ∈ L.checks κ req now clock id db before heard, c.1) ↔
      Bank.Depositable κ db req ∧
        Registry.Acceptable before L.client.bankId (L.submission req.coin now) clock := by
    rw [checks_iff, Bank.depositable_iff hw, Bank.depositChecks_eq, List.forall_mem_append,
      Bank.coinChecks_iff, acceptable_looked hlooked]
    exact ⟨fun h => ⟨⟨h.1, h.2.2⟩, h.2.1⟩, fun h => ⟨h.1.1, h.2, h.1.2⟩⟩
  rw [← hall]
  constructor
  · rintro ⟨rfl, hunused⟩
    by_contra hnot
    obtain ⟨c, hc, hfails, heq⟩ := hdecides.eq_failed hnot
    have hanswer : c.2.1 = .ok ⟨true, none⟩ := by rw [← heq]
    simp only [checks, List.mem_append, List.mem_map] at hc
    -- Of all checks that can fail, only the one for a replay is answered so.
    rcases hc with ⟨c, hc, rfl⟩ | ⟨c, hc, rfl⟩ | ⟨c, hc, rfl⟩
    · simp only [Bank.coinChecks, List.mem_cons, List.not_mem_nil, or_false] at hc
      rcases hc with rfl | rfl | rfl <;> cases hanswer
    · simp only [Registry.submissionChecks, List.mem_cons, List.not_mem_nil, or_false] at hc
      rcases hc with rfl | rfl | rfl | rfl | rfl <;> cases hanswer
    · simp only [Bank.localChecks, List.mem_cons, List.not_mem_nil, or_false] at hc
      rcases hc with rfl | rfl | rfl | rfl | rfl | rfl
      · cases hanswer
      · exact hfails fun row hrow => absurd (hunused.symm.trans hrow) (by simp)
      all_goals cases hanswer
  · intro h
    exact ⟨(Prod.mk.inj (hdecides.eq_ok h)).1, (hall.mp h).1.unused⟩

/-! ## The two programs are this operation -/

variable {ex : Bank.Extractors} {b : Sys (Bank.service X)} {s : Sys (Registry.service X)}

/-- The deposit of a genuine coin goes on with what the registry's router answered. Asking leaves a
    trace in the bank's memory, and nothing in its tables. -/
theorem deposit_goesOn (i : CallId) (op : Bank.Op) (sh : Bank.State X)
    {reply : Except String SerialResponse} {s' : Sys (Registry.service X)}
    (hgenuine : Bank.Genuine κ req.coin) (hclient : κ.registryClient = some L.client)
    (hask : L.ask clock (L.submission req.coin now) now nonce s = (reply, s')) :
    ∃ sh' : Bank.State X, sh'.db = sh.db ∧ (Bank.deposit κ req).run.interp
        (answering (S := Bank.service X) (L.across now clock nonce) i op) (s, sh, none) =
      (Bank.goOn req reply).run.interp
        (answering (S := Bank.service X) (L.across now clock nonce) i op) (s', sh', none) := by
  obtain ⟨rfl, rfl⟩ := Prod.mk.inj hask
  refine ⟨{ sh with mem := { sh.mem with
    readings := now :: sh.mem.readings
    asked := ⟨i, L.submission req.coin now,
      (L.ask clock (L.submission req.coin now) now nonce s).1⟩ :: sh.mem.asked } }, rfl, ?_⟩
  rw [Bank.deposit_asks hgenuine hclient]
  rfl

/-- Whichever check of the registry fails, the bank only passes it on. -/
theorem goOn_of_check {caller : String} {submission : SerialSubmission}
    {c : Prop × Except Registry.RegistryError SerialResponse × Registry.Tables}
    (hc : c ∈ Registry.submissionChecks heard id caller submission clock) :
    (Bank.goOn req (c.2.1.mapError fun e => L.refused (.ofRegistry e))).run =
      .pure (L.told c.2.1) := by
  simp only [Registry.submissionChecks, List.mem_cons, List.not_mem_nil, or_false] at hc
  rcases hc with rfl | rfl | rfl | rfl | rfl <;> rfl

/-- The code of a deposit, over a registry that is asked by `across`. -/
theorem deposit_interp (hb : Sys.Steps .any (Bank.start κ) b)
    (hs : Sys.Steps .any (Registry.start X) s) (hclient : b.conf.registryClient = some L.client)
    (h : L.Connected ex s now clock nonce (L.submission req.coin now)) (i : CallId) (op : Bank.Op) :
    ∃ r s' sh', (Bank.deposit b.conf req).run.interp
        (answering (S := Bank.service X) (L.across now clock nonce) i op)
        (s, b.shared, none) = (some r, s', sh', none) ∧
      L.Settles b.conf req now clock nonce b.shared.db s.shared.db r sh'.db s'.shared.db := by
  obtain ⟨answer, s', heard, hask, hlooked, id, hid, hdecides⟩ := ask_submission hs h
  by_cases hgenuine : Bank.Genuine b.conf req.coin
  swap
  · -- The registry is not asked.
    obtain ⟨response, hdeposit, hcoin⟩ := @Bank.deposit_refused _ _ _ (.ok ⟨true, none⟩) hgenuine
    refine ⟨.ok response, s, b.shared, by rw [hdeposit]; rfl, heard, id, hlooked, hid, ?_⟩
    refine (hcoin.map fun r => (r, b.shared.db, s.shared.db)).append_stop fun hall => ?_
    exact hgenuine (Bank.coinChecks_iff.mp fun c hc => hall _ (List.mem_map_of_mem hc))
  obtain ⟨sh, hdb, hasks⟩ := deposit_goesOn i op b.shared hgenuine hclient hask
  have hcoin : ∀ c ∈ (Bank.coinChecks b.conf req.coin).map fun c =>
      (c.1, c.2, b.shared.db, s.shared.db), c.1 :=
    List.forall_mem_map.mpr (Bank.coinChecks_iff.mpr hgenuine)
  by_cases hacceptable : Registry.Acceptable heard L.client.bankId (L.submission req.coin now) clock
  · -- The registry has recorded the coin, and the transaction decides.
    have hpasses := (Registry.acceptable_iff id).mp hacceptable
    obtain ⟨rfl, hafter⟩ := Prod.mk.inj (hdecides.eq_ok hpasses)
    have hw : sh.db.WellFormed := hdb ▸ (Bank.good hb).inv
    obtain ⟨r, sh', hrun, hsettles⟩ := Bank.depositLocally_across hw
    rw [hdb] at hsettles
    refine ⟨r, s', sh', hasks.trans hrun, heard, id, hlooked, hid, ?_⟩
    rw [hafter]
    have hlocal := hsettles.map fun p =>
      (p.1, p.2, heard.afterSubmission id L.client.bankId (L.submission req.coin now) clock)
    rw [List.map_map] at hlocal
    exact (hlocal.append (List.forall_mem_map.mpr hpasses)).append hcoin
  · -- The registry refuses, and the bank says so.
    have hfails : ¬ ∀ c ∈ Registry.submissionChecks heard id L.client.bankId
        (L.submission req.coin now) clock, c.1 := fun hall =>
      hacceptable ((Registry.acceptable_iff id).mpr hall)
    obtain ⟨c, hc, -, heq⟩ := hdecides.eq_failed hfails
    obtain ⟨rfl, -⟩ := Prod.mk.inj heq
    refine ⟨L.told c.2.1, s', sh, ?_, heard, id, hlooked, hid, ?_⟩
    · rw [hasks, goOn_of_check hc]
      rfl
    rw [hdb]
    have hsaid := hdecides.map fun p => (L.told p.1, b.shared.db, p.2)
    refine (hsaid.append_stop fun hall => hfails fun c hc => ?_).append hcoin
    exact hall _ (List.mem_map_of_mem hc)

/-- What the registry does for a submission is a run of it. -/
theorem ask_steps {submission : SerialSubmission} (hidle : s.Idle) :
    Sys.Steps .any s (L.ask clock submission now nonce s).2 ∧
      (L.ask clock submission now nonce s).2.Idle := by
  unfold ask
  cases hreply : (L.http.deliver (L.post submission now nonce)).bind
      (Registry.hear L.extractors clock s) with
  | none => exact ⟨.refl, hidle⟩
  | some heard =>
    obtain ⟨r, -, hhear⟩ := Option.bind_eq_some_iff.mp hreply
    exact Registry.hear_steps hidle hhear

theorem across_steps {c : Cmd Bank.database} {o : Bank.Oracle} {s' : Sys (Registry.service X)}
    (h : L.across now clock nonce c s = some (o, s')) :
    Relation.ReflTransGen (fun s s' => s.Idle → Sys.Steps .any s s' ∧ s'.Idle) s s' := by
  have hsame : (some ({ (default : Bank.Oracle) with clock := now }, s) : Option _) = some (o, s') →
      s' = s := fun h => (Prod.mk.inj (Option.some.inj h)).2.symm
  cases c with
  | ext e =>
    cases e with
    | postSerials submission =>
      obtain ⟨-, rfl⟩ := Prod.mk.inj (Option.some.inj h)
      exact .single ask_steps
    | _ => exact hsame h ▸ .refl
  | _ => exact hsame h ▸ .refl

theorem steps_of_across {s' : Sys (Registry.service X)}
    (h : Relation.ReflTransGen (fun s s' => s.Idle → Sys.Steps .any s s' ∧ s'.Idle) s s')
    (hidle : s.Idle) : Sys.Steps .any s s' ∧ s'.Idle := by
  induction h with
  | refl => exact ⟨.refl, hidle⟩
  | tail _ hstep ih =>
    obtain ⟨hsteps, hidle'⟩ := hstep ih.2
    exact ⟨ih.1.trans hsteps, hidle'⟩

/-- **A deposit across the registry is one operation on two ledgers.** From every reachable state of
    a bank and of the registry it is a connected member of, a deposit that neither is disturbed in
    comes to an answer, which the checks of the coin, of the registry and of the bank's transaction
    decide in this order, each with what it leaves of both ledgers. It is accepted afresh if and
    only if the bank would accept it without a registry and the registry accepts the submission.
    What happened is a run of both. -/
theorem deposit_across (hb : Sys.Steps .any (Bank.start κ) b) (hup : b.shared.mem.phase = .up)
    (hs : Sys.Steps .any (Registry.start X) s) (hclient : b.conf.registryClient = some L.client)
    (req : DepositRequest) (h : L.Connected ex s now clock nonce (L.submission req.coin now)) :
    ∃ r s' b', b.serve (L.across now clock nonce) (Bank.Op.deposit req) s =
        some (Bank.Ans.deposit r, s', b') ∧
      L.Settles b.conf req now clock nonce b.shared.db s.shared.db r b'.shared.db s'.shared.db ∧
      ((r = .ok ⟨true, none⟩ ∧ b.shared.db.deposits.lookup req.requestId = none) ↔
        Bank.Depositable b.conf b.shared.db req ∧
          Registry.Acceptable s.shared.db L.client.bankId (L.submission req.coin now) clock) ∧
      (b.Idle → s.Idle → Sys.Steps .any b b' ∧ Sys.Steps .any s s') := by
  obtain ⟨r, s', sh', hrun, hsettles⟩ := deposit_interp hb hs hclient h b.next (.deposit req)
  have henter : (Bank.service X).enter (.deposit req) b.shared.mem = some b.shared.mem := if_pos hup
  have hcode : (Bank.service X).code b.conf (.deposit req) =
      Bank.Ans.deposit <$> (Bank.deposit b.conf req).run := rfl
  have hserve := Sys.serve_of_interp hcode henter hrun
  refine ⟨r, s', _, hserve, hsettles, hsettles.accepted_iff (Bank.good hb).inv, ?_⟩
  intro hidle hidle'
  obtain ⟨hsteps, -, hacross⟩ := Sys.serve_steps (fun _ _ _ _ => across_steps) hidle hserve
  exact ⟨hsteps, (steps_of_across hacross hidle').1⟩

/-- A submission as `serde_json` writes it, where no name needs an escape. -/
def toyEncode (submission : SerialSubmission) : Bytes :=
  utf8 ("\x7b\"issuing_bank_id\":\"" ++ submission.issuingBankId ++ "\",\"denomination_cents\":" ++
    toString submission.denominationCents ++ ",\"scheme_id\":" ++ toString submission.schemeId ++
    ",\"serial_hex\":\"" ++ submission.serialHex ++ "\",\"transcript\":\"" ++
    submission.transcript ++ "\"\x7d")

def toyDeposit : DepositRequest := ⟨Bank.toyCoin 1, "alice", "p"⟩

def toyClient : Bank.RegistryClient := ⟨"bank-b", "bank-a"⟩

def toySubmitted : SerialSubmission := toyClient.submission .toy 100 0 (toySerial 1) 60

def toySign (_ : Bytes) : Bytes := .replicate 64 0

theorem length_toySign (message : Bytes) : (toySign message).length = identitySignatureLen := rfl

theorem toySign_verifies (key message : Bytes) :
    Crypto.toy.ed25519Verify key message (toySign message) = .ok () := rfl

theorem toyKey_valid (key : Bytes) : Crypto.toy.ed25519FromBytes key = .ok key := rfl

def toyIdentity : Wallet.IdentityKeypair .toy where
  publicKey := .replicate 32 0
  sign := toySign
  length_publicKey := Wallet.length_toyPublicKey
  publicKey_valid := toyKey_valid _
  length_sign := length_toySign
  verify_sign := toySign_verifies _

/-- A registry that knows one body. -/
def toyLink : Link .toy where
  client := toyClient
  keypair := toyIdentity
  url := "https://127.0.0.1:4000"
  encode := toyEncode
  http := Wallet.toyHttp
  unanswered := "Connection refused"
  extractors := {
    contentType _ := .ok ()
    registerMember _ := .error ⟨422, ""⟩
    submission body := if body = toyEncode toySubmitted then .ok toySubmitted else .error ⟨422, ""⟩
    setCap _ := .error ⟨422, ""⟩ }

/-- `bank-b`, and the registry it is a member of. -/
def toyLinked : Bank.Config .toy := { Bank.Config.toy with registryClient := some toyClient }

def toyMembers : List (Event (Registry.service .toy)) :=
  Registry.opened ++
    Registry.call (.registerMember "bank-b" (.replicate 32 0) false) :: Registry.go 2 2

/-- A coin that nobody has seen is deposited. -/
theorem deposit_across_credited : ∃ (b b' : Sys (Bank.service .toy))
    (s s' : Sys (Registry.service .toy)),
    b.serve (toyLink.across 60 60 Wallet.toyNonce) (Bank.Op.deposit toyDeposit) s =
      some (Bank.Ans.deposit (.ok ⟨true, none⟩), s', b') ∧
    b'.shared.db = b.shared.db.afterDeposit toyDeposit ∧
    s.shared.db.serials.lookup (Registry.keyOf toySubmitted) = none ∧
    s'.shared.db.serials.lookup (Registry.keyOf toySubmitted) =
      some (Registry.firstOf "bank-b" toySubmitted 60) := by
  obtain ⟨b, hb, hp⟩ := (Option.any_eq_true _ _).mp (show ((Bank.start toyLinked).run
    Bank.opened).any (fun b => decide (b.shared.mem.phase = .up ∧
      b.shared.db.deposits.lookup "p" = none ∧
      b.shared.db.spentSerials.lookup (Bank.coinKeyOf (Bank.toyCoin 1)) = none ∧
      b.shared.db.accounts.lookup "alice" = some 500)) = true by decide)
  have hconf : b.conf = toyLinked :=
    Sys.conf_of_run hb (by simp [Bank.opened, Bank.call, Bank.go, Event.steps])
  obtain ⟨hup, hunused, hunspent, hacct⟩ := of_decide_eq_true hp
  obtain ⟨s, hs, hq⟩ := Sys.exists_of_run (s := Registry.start .toy) (l := toyMembers)
    (p := fun s => s.shared.mem.phase = .up ∧
      s.shared.db.members.lookup "bank-b" = some ⟨.replicate 32 0, false⟩ ∧
      Expiring.free s.shared.db.nonceStore (Hex.encode Wallet.toyNonce.1) 60 = true ∧
      s.shared.db.serials.lookup (Registry.keyOf toySubmitted) = none ∧
      s.shared.db.exposureCaps.lookup ⟨"bank-a", "bank-b"⟩ = none ∧
      s.shared.db.receivable ⟨"bank-a", "bank-b"⟩ = 0) (by decide)
  obtain ⟨hup', hmember, hnonce, hfresh, hcap, hzero⟩ := of_decide_eq_true hq
  have hconnected : toyLink.Connected Wallet.toyRouter s 60 60 Wallet.toyNonce toySubmitted :=
    ⟨Wallet.toyHttp_documented, fun _ _ => rfl, by simp [toyLink], by decide +kernel,
      Wallet.toyHttp_documented.hears (by decide) (by decide), hup', ⟨_, hmember, rfl⟩, rfl,
      by decide, hnonce⟩
  obtain ⟨r, s', b', hserve, hsettles, hiff, -⟩ :=
    deposit_across (Sys.steps_of_run hb) hup hs (by rw [hconf]; rfl) toyDeposit hconnected
  have hacceptable : Registry.Acceptable s.shared.db "bank-b" toySubmitted 60 := by
    refine ⟨by decide, by decide, ?_, hfresh, ?_⟩
    · rintro ⟨cap, hsome, -⟩
      exact absurd (hcap.symm.trans hsome) (by simp)
    · show s.shared.db.receivable ⟨"bank-a", "bank-b"⟩ + _ ≤ _
      rw [hzero]
      decide
  have hdepositable : Bank.Depositable b.conf b.shared.db toyDeposit :=
    ⟨hconf ▸ ⟨rfl, ⟨(), ()⟩, rfl, rfl⟩, hunused, hunspent, 500, hacct, by decide⟩
  obtain ⟨rfl, -⟩ := hiff.mpr ⟨hdepositable, hacceptable⟩
  obtain ⟨heard, id, hlooked, -, hdecides⟩ := hsettles
  have hlocal := (Bank.depositable_iff (Bank.good (Sys.steps_of_run hb)).inv).mp hdepositable
  rw [Bank.depositChecks_eq, List.forall_mem_append] at hlocal
  have hall : ∀ c ∈ toyLink.checks b.conf toyDeposit 60 60 id b.shared.db s.shared.db heard, c.1 :=
    checks_iff.mpr
      ⟨hdepositable.genuine, (acceptable_looked hlooked).mpr hacceptable, hlocal.2⟩
  obtain ⟨-, hrest⟩ := Prod.mk.inj (hdecides.eq_ok hall)
  obtain ⟨hbank, hregistry⟩ := Prod.mk.inj hrest
  refine ⟨b, b', s, s', hserve, hbank, hfresh, ?_⟩
  rw [hregistry]
  exact Table.lookup_put_self _ _ _

end Link

end Digicash
