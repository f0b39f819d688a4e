import Digicash.Bank.Api
import Digicash.Bank.Conservation
import Digicash.Bank.Debits
import Digicash.Bank.Requests
import Digicash.Bindings

/-!
# Only the account holder can cause a debit

Nothing but a debit takes from a balance, and the ledger says which call it is from. Behind the
router that call was begun by the handler of `POST /withdraw`, and its account is the one the
request was authenticated as: the account header selects the key, the signature is checked under
that key, and no key is ever replaced. What is signed is the body, so the request id of the row
is the one in it, and no second row has that id.
-/

namespace Digicash.Bank

open Lib Lib.Protocol Relation

variable {X : Crypto} {κ : Config X} {ex : Extractors}

/-! ## What authentication has seen -/

/-- Call it authenticated `r` as `account`: the key that was looked up for it verified what the
    request says. -/
def Verified (X : Crypto) (r : Request) (account : String) (ds : Deeds database) : Prop :=
  ∃ auth bytes key signature, readHeaders r = .ok auth ∧ auth.accountId = account ∧
    [⟨.stmt (.selectPubkey account), .ok (some bytes)⟩] <:+ ds ∧
    X.ed25519FromBytes bytes = .ok key ∧ decodeSignature auth.signature = .ok signature ∧
    X.ed25519Verify key (utf8 (r.payload X auth)) signature = .ok ()

theorem identityPubkey_along (account : String) : Prog.Along (fun _ _ => True)
    (fun ds found => ∀ key, found = .ok (some key) → ∃ bytes,
      ds = [⟨.stmt (.selectPubkey account), .ok (some bytes)⟩] ∧ X.ed25519FromBytes bytes = .ok key)
    [] (identityPubkey X account).run := by
  unfold identityPubkey
  refine Prog.Along.query_bind trivial (fun _ _ h => by cases h) fun found => ?_
  cases found with
  | none => exact fun _ h => by cases h
  | some bytes =>
    dsimp only
    split
    · refine Prog.Along.orThrow_bind (fun _ _ _ h => by cases h) fun key hkey => ?_
      intro key' hkey'
      obtain rfl := Option.some.inj (Except.ok.inj hkey')
      refine ⟨bytes, rfl, ?_⟩
      cases hb : X.ed25519FromBytes bytes with
      | error e => exact absurd hkey (by simp [hb, Except.mapError])
      | ok key' => simpa [hb, Except.mapError] using hkey
    · exact fun _ h => by cases h

theorem authenticate_along (r : Request) : Prog.Along (fun _ _ => True)
    (fun ds a => ∀ account, a = .ok account → Verified X r account ds) []
    (authenticate X r).run := by
  refine (accepted_along identityPubkey_along).mono (fun _ _ h => h) fun ds a h account ha => ?_
  obtain ⟨auth, key, signature, ds₀, hauth, haccount, ⟨bytes, rfl, hbytes⟩, hds, hsig, hverify⟩ :=
    h account ha
  exact ⟨auth, bytes, key, signature, hauth, haccount, hds, hbytes, hsig, hverify⟩

/-- What a call that answers with an account has seen. -/
def Accepts (X : Crypto) (op : Op) (ds : Deeds database) (ans : Ans) : Prop :=
  ∀ r account, op = .authenticate r → ans = .authenticate (.ok account) → Verified X r account ds

theorem accepts_along (op : Op) :
    Prog.Along (fun _ _ => True) (Accepts X op) [] (code κ op) := by
  cases op with
  | authenticate r =>
    refine Prog.Along.map (fun ds result hresult => ?_) (authenticate_along r)
    intro r' account hop hans
    obtain rfl := Op.authenticate.inj hop
    exact hresult account (Ans.authenticate.inj hans)
  | _ => exact Prog.Along.of_forall (fun _ _ => trivial) fun _ _ _ _ hop => by cases hop

/-! ## Registered keys -/

/-- A registered key is never replaced. -/
theorem Entry.identity_stays {db : Tables} {e : Entry} (h : e.Valid κ db) {a : String} {k : Bytes}
    (hk : db.identities.lookup a = some k) : (e.apply db).identities.lookup a = some k := by
  cases e with
  | register a' k' =>
    have hne : a ≠ a' := by
      intro heq
      subst heq
      exact absurd (hk.symm.trans h) (by simp)
    rw [apply, Table.lookup_put_ne hne, hk]
  | _ => exact hk

/-- A withdrawal is never removed. -/
theorem Entry.withdrawal_stays {db : Tables} {e : Entry} (h : e.Valid κ db) {r : String}
    (hr : db.withdrawStates.lookup r ≠ none) : (e.apply db).withdrawStates.lookup r ≠ none := by
  obtain ⟨row, hrow⟩ := Option.ne_none_iff_exists'.mp hr
  have hmove := e.rowMove h r
  rw [hrow] at hmove
  obtain ⟨row', hrow', -⟩ := hmove.sameRequest
  exact Option.ne_none_iff_exists'.mpr ⟨row', hrow'⟩

/-- The holder of the key that is registered for `account` signed `message`. -/
def Tables.SignedBy (X : Crypto) (Signed : Bytes → Bytes → Prop) (db : Tables) (account : String)
    (message : Bytes) : Prop :=
  ∃ bytes key, db.identities.lookup account = some bytes ∧ X.ed25519FromBytes bytes = .ok key ∧
    Signed key message

/-- **Who is authenticated signed the request**, with the key that is registered now. -/
theorem signedBy_of_answer {Signed : Bytes → Bytes → Prop} {s : Sys (service X)}
    (hsigned : ∀ key message signature, X.ed25519Verify key message signature = .ok () →
      Signed key message)
    (h : Sys.Steps .any (start κ) s) {a : Answer (service X)} (ha : a ∈ s.answers) {r : Request}
    {account : String} (hop : a.op = .authenticate r) (hans : a.ans = .authenticate (.ok account)) :
    ∃ auth, readHeaders r = .ok auth ∧ auth.accountId = account ∧
      s.shared.db.SignedBy X Signed account (utf8 (r.payload X auth)) := by
  obtain ⟨-, hanswers⟩ := Sys.deeds (P := fun _ _ _ _ => True) (Q := fun _ => Accepts X)
    (fun κ op => accepts_along op) h Sys.calls_init
  obtain ⟨s₁, ds, tx, h₁, h₂, hdid, -, -, hverified⟩ := hanswers a ha (Nat.zero_le _)
  obtain ⟨auth, bytes, key, signature, hauth, rfl, hseen, hbytes, -, hverify⟩ :=
    hverified r account hop hans
  obtain ⟨s₂, s₃, tx', hbefore, hdoes, hafter⟩ := hdid.oldest hseen
  obtain ⟨fault, o, hstep, hallow, hexec⟩ := hdoes.exec
  obtain ⟨hshared, -, ⟨e, hbad⟩ | hread⟩ := execCmd_read (D := database) rfl hexec
  · cases hbad
  have hfound : s₂.shared.db.identities.lookup auth.accountId = some bytes :=
    (Except.ok.inj hread).symm
  refine ⟨auth, hauth, rfl, bytes, key, ?_, hbytes, hsigned _ _ _ hverify⟩
  have hlater : Sys.Steps .any s₃ s := hafter.trans h₂
  have hbegin : Sys.Steps .any (start κ) s₃ := hbefore.tail ⟨_, hstep, hallow⟩
  refine db_keeps (J := fun db => db.identities.lookup auth.accountId = some bytes) hbegin hlater
    (fun hv hk => Entry.identity_stays hv hk) ?_
  rw [hshared]
  exact hfound

/-! ## Debits -/

/-- From one state of the tables to the next `d` is debited from `a`, and `r` is the withdrawal:
    it is new, and no other one changes. -/
structure DebitedBy (db db' : Tables) (a : String) (d : Int) (r : String) : Prop where
  balance : db'.balanceOf a = db.balanceOf a - d
  before : db.withdrawStates.lookup r = none
  row : ∃ row, db'.withdrawStates.lookup r = some row ∧ row.accountId = a ∧
    row.denominationCents = d
  only : ∀ r', r' ≠ r → db'.withdrawStates.lookup r' = db.withdrawStates.lookup r'

theorem Entry.debited {db : Tables} {a : String} {r : String} {d b : Int} {m : Bytes}
    (h : (debit r a d m b).Valid κ db) : DebitedBy db ((debit r a d m b).apply db) a d r where
  balance := by
    rw [balanceOf_apply h, moves, if_pos rfl]
    omega
  before := h.2.1
  row := ⟨_, Table.lookup_put_self _ _ _, rfl, rfl⟩
  only _ hne := Table.lookup_put_ne hne

/-- Only a debit takes from a balance. -/
theorem Entry.eq_debit_of_decrease {db : Tables} {e : Entry} (hw : db.WellFormed)
    (h : e.Valid κ db) {a : String} (hlt : (e.apply db).balanceOf a < db.balanceOf a) :
    ∃ r d m b, e = .debit r a d m b := by
  rw [balanceOf_apply h] at hlt
  have hneg : e.moves a < 0 := by omega
  cases e with
  | debit r a' d m b =>
    by_cases ha : a' = a
    · exact ⟨r, d, m, b, by rw [ha]⟩
    · exact absurd hneg (by simp [moves, ha])
  | openAccount a' b =>
    have hb : 0 ≤ b := h.2.1
    exact absurd hneg (by simp only [moves]; split <;> omega)
  | compensate r row b =>
    have hd : 0 ≤ row.denominationCents := (hw.row r row h.1).denom_nonneg
    exact absurd hneg (by simp only [moves]; split <;> omega)
  | deposit r row b =>
    have hd : 0 ≤ row.coin.denominationCents := h.2.2.2.1
    exact absurd hneg (by simp only [moves]; split <;> omega)
  | _ => exact absurd hneg (by simp [moves])

/-- A balance that decreases in a step of the bank is debited, by a withdrawal that was asked
    for. -/
theorem debited_of_decrease {s s' : Sys (service X)} (h : Sys.Steps .any (start κ) s)
    {e : Event (service X)} (hs : s.step e = some s') {a : String}
    (hlt : s'.shared.db.balanceOf a < s.shared.db.balanceOf a) :
    ∃ i ss req d, s.live i = some ss ∧ ss.op = .withdraw req ∧ req.accountId = a ∧
      i64TryFrom req.denominationCents = some d ∧
        DebitedBy s.shared.db s'.shared.db a d req.requestId := by
  rcases Ledger.step_cases (L := ledger X) sound (good h) hs with
    hdb | ⟨i, ss, entry, hl, hv, hfrom, hdb⟩
  · exact absurd hlt (by simp [hdb])
  have hdb : s'.shared.db = entry.apply s.shared.db := hdb
  rw [hdb] at hlt ⊢
  obtain ⟨r, d, m, b, rfl⟩ := Entry.eq_debit_of_decrease (good h).inv hv hlt
  obtain ⟨op, x, tx⟩ := ss
  cases op with
  | withdraw req =>
    obtain ⟨rfl, rfl, hdenom, -⟩ := hfrom
    exact ⟨i, _, req, d, hl, rfl, rfl, hdenom, Entry.debited (κ := s.conf) hv⟩
  | _ => exact hfrom.elim

/-! ## Behind the router -/

theorem ensureAccount_ok {authenticated target : String}
    (h : ensureAccount authenticated target = .ok ()) : target = authenticated := by
  unfold ensureAccount at h
  split at h
  · exact (by assumption : authenticated = target).symm
  · cases h

/-- A handler acts on what the body says, for the account that was authenticated. -/
theorem act_ok {α : Type} {decode : Bytes → Except ApiError α} {target : α → String} {op : α → Op}
    {account : String} {r : Request} {o : Op} (h : ex.act decode target op account r = .ok o) :
    ∃ req, decode r.body = .ok req ∧ target req = account ∧ o = op req := by
  unfold Extractors.act at h
  obtain ⟨-, -, h⟩ := ok_of_bind h
  obtain ⟨req, hreq, h⟩ := ok_of_bind h
  obtain ⟨⟨⟩, haccount, h⟩ := ok_of_bind h
  exact ⟨req, hreq, ensureAccount_ok haccount, (Except.ok.inj h).symm⟩

theorem route_withdraw {path : String} (h : ex.route path = some .withdraw) :
    path = "/withdraw" := by
  unfold Extractors.route at h
  split at h
  · cases h
  split at h
  · assumption
  split at h
  · cases h
  · obtain ⟨id, -, hid⟩ := Option.map_eq_some_iff.mp h
    cases hid

/-- `POST /withdraw` is the way to a withdrawal, for the account that was authenticated. -/
theorem handler_withdraw {account : String} {r : Request} {req : WithdrawRequest}
    (h : ex.handler account r = .ok (.withdraw req)) :
    r.method = "POST" ∧ r.path = "/withdraw" ∧ ex.withdraw r.body = .ok req ∧
      req.accountId = account := by
  unfold Extractors.handler at h
  cases hroute : ex.route r.path with
  | none => rw [hroute] at h; cases h
  | some route =>
    rw [hroute] at h
    cases route with
    | accounts =>
      dsimp only at h
      split at h
      · obtain ⟨_, -, -, hop⟩ := act_ok h
        cases hop
      · cases h
    | balance id =>
      dsimp only at h
      split at h
      · obtain ⟨-, -, hop⟩ := ok_of_bind h
        cases hop
      · cases h
    | withdraw =>
      dsimp only at h
      split at h
      · rename_i hpost
        obtain ⟨req', hbody, haccount, hop⟩ := act_ok h
        obtain rfl := Op.withdraw.inj hop
        exact ⟨hpost, route_withdraw hroute, hbody, haccount⟩
      · cases h
    | deposit =>
      dsimp only at h
      split at h
      · obtain ⟨_, -, -, hop⟩ := act_ok h
        cases hop
      · cases h

namespace Router

variable {s s' : Router X}

/-- The handler of a request that was authenticated asks for this withdrawal. -/
def Handled (ex : Extractors) (s : Router X) (req : WithdrawRequest) : Prop :=
  ∃ a ∈ s.bank.answers, ∃ r account, a.op = .authenticate r ∧
    a.ans = .authenticate (.ok account) ∧ ex.handler account r = .ok (.withdraw req)

theorem authenticated_mem {i : CallId} {r : Request} {account : String}
    (h : s.authenticated i = some (r, account)) : ∃ a ∈ s.bank.answers,
      a.op = .authenticate r ∧ a.ans = .authenticate (.ok account) := by
  obtain ⟨a, ha, hfound⟩ := List.exists_of_findSome?_eq_some h
  split at hfound
  · rename_i hop hans
    split at hfound
    · obtain ⟨rfl, rfl⟩ := Prod.mk.inj (Option.some.inj hfound)
      exact ⟨a, ha, hop, hans⟩
    · cases hfound
  · cases hfound

/-- A step is a step of the bank or leaves it alone, and a withdrawal that begins was handled. -/
theorem bank_step {e : RouterEvent X} (hs : s.step ex e = some s') :
    s'.bank = s.bank ∨ ∃ e', s.bank.step e' = some s'.bank ∧
      ∀ req, e' = .start (.withdraw req) → s.Handled ex req := by
  have hbegin : ∀ {op : Op}, (∀ req, op ≠ .withdraw req) → s.begin op = some s' →
      ∃ e', s.bank.step e' = some s'.bank ∧
        ∀ req, e' = .start (.withdraw req) → s.Handled ex req := by
    intro op hop hs
    obtain ⟨t, ht, rfl⟩ := Option.map_eq_some_iff.mp hs
    refine ⟨_, ht, fun req he => ?_⟩
    exact absurd (Event.start.inj he) (hop req)
  cases e with
  | connect => exact Or.inr (hbegin (fun _ h => by cases h) hs)
  | register accountId publicKeyHex =>
    simp only [step] at hs
    split at hs
    · rename_i op hop
      refine Or.inr (hbegin (fun req h => ?_) hs)
      subst h
      unfold Bank.register at hop
      repeat' split at hop
      all_goals cases hop
    · obtain rfl := Option.some.inj hs
      exact Or.inl rfl
  | request r =>
    simp only [step] at hs
    split at hs
    · exact Or.inr (hbegin (fun _ h => by cases h) hs)
    · obtain rfl := Option.some.inj hs
      exact Or.inl rfl
  | next i =>
    simp only [step] at hs
    split at hs
    · cases hs
    obtain ⟨⟨r, account⟩, hauth, hs⟩ := Option.bind_eq_some_iff.mp hs
    split at hs
    · rename_i op hop
      obtain ⟨t, ht, rfl⟩ := Option.map_eq_some_iff.mp hs
      refine Or.inr ⟨_, ht, fun req he => ?_⟩
      obtain rfl := Event.start.inj he
      obtain ⟨a, ha, haop, hans⟩ := authenticated_mem hauth
      exact ⟨a, ha, r, account, haop, hans, hop⟩
    · obtain rfl := Option.some.inj hs
      exact Or.inl rfl
  | bank e =>
    cases e with
    | start op => cases hs
    | crash κ =>
      obtain rfl := Option.some.inj hs
      exact Or.inr ⟨.crash κ, rfl, fun _ he => by cases he⟩
    | step i fault o =>
      obtain ⟨t, ht, rfl⟩ := Option.map_eq_some_iff.mp hs
      exact Or.inr ⟨_, ht, fun _ he => by cases he⟩
    | drop i =>
      obtain rfl := Option.some.inj hs
      exact Or.inr ⟨.drop i, rfl, fun _ he => by cases he⟩

/-- Behind the router the bank runs as any bank does. -/
theorem steps_bank (h : Steps ex s s') : Sys.Steps .any s.bank s'.bank := by
  induction h with
  | refl => exact .refl
  | tail _ hstep ih =>
    obtain ⟨e, he⟩ := hstep
    rcases bank_step he with heq | ⟨e', he', -⟩
    · rw [heq]
      exact ih
    · exact ih.tail ⟨e', he', Policy.any_allows _ _ _⟩

theorem Handled.step {req : WithdrawRequest} (h : s.Handled ex req) {e : RouterEvent X}
    (hs : s.step ex e = some s') : s'.Handled ex req := by
  obtain ⟨a, ha, hrest⟩ := h
  rcases bank_step hs with heq | ⟨e', he', -⟩
  · exact ⟨a, heq ▸ ha, hrest⟩
  · exact ⟨a, Sys.mem_answers_step he' ha, hrest⟩

/-- **Every withdrawal in flight was handled.** -/
theorem handled (h : Steps ex (start κ) s) {i : CallId} {ss : Session (service X)}
    {req : WithdrawRequest} (hl : s.bank.live i = some ss) (hop : ss.op = .withdraw req) :
    s.Handled ex req := by
  induction h generalizing ss with
  | refl => exact absurd hl (by simp [start, Bank.start, Sys.init])
  | @tail s₁ s₂ hrun hstep ih =>
    obtain ⟨e, he⟩ := hstep
    rcases bank_step he with heq | ⟨e', he', hbegun⟩
    · exact (ih (heq ▸ hl) hop).step he
    rcases Sys.live_step he' hl with ⟨-, op, rfl, rfl⟩ | hsame | ⟨op, c, k, tx, r, tx', hold, rfl⟩
    · obtain rfl := hop
      exact (hbegun req rfl).step he
    · exact (ih hsame hop).step he
    · exact (ih hold hop).step he

/-! ## Only the account holder -/

/-- The holder of the key of `a` signed a request to withdraw with this body, which names the
    account, the denomination `d` and the request id `r`. -/
structure Ordered (ex : Extractors) (Signed : Bytes → Bytes → Prop) (s : Router X) (a : String)
    (d : Int) (r : String) (body : Bytes) : Prop where
  names : ∃ req, ex.withdraw body = .ok req ∧ req.accountId = a ∧ req.requestId = r ∧
    i64TryFrom req.denominationCents = some d
  signed : ∃ timestamp nonce, s.bank.shared.db.SignedBy X Signed a
    (utf8 (canonicalPayload X "POST" "/withdraw" body timestamp nonce))

variable {Signed : Bytes → Bytes → Prop}

theorem ordered_of_decrease
    (hsigned : ∀ key message signature, X.ed25519Verify key message signature = .ok () →
      Signed key message)
    (h : Steps ex (start κ) s) (hs : Step ex s s') {a : String}
    (hlt : s'.bank.shared.db.balanceOf a < s.bank.shared.db.balanceOf a) :
    ∃ d r body, DebitedBy s.bank.shared.db s'.bank.shared.db a d r ∧
      s'.Ordered ex Signed a d r body := by
  obtain ⟨e, he⟩ := hs
  have hbank' : Sys.Steps .any (Bank.start κ) s'.bank := steps_bank (h.tail ⟨e, he⟩)
  rcases bank_step he with heq | ⟨e', he', -⟩
  · exact absurd hlt (by simp [heq])
  obtain ⟨i, ss, req, d, hl, hop, rfl, hdenom, hdebit⟩ :=
    debited_of_decrease (steps_bank h) he' hlt
  obtain ⟨ans, hmem, r, account, hans, haccount, hhandler⟩ := (handled h hl hop).step he
  obtain ⟨hmethod, hpath, hbody, rfl⟩ := handler_withdraw hhandler
  obtain ⟨auth, -, -, hsig⟩ := signedBy_of_answer hsigned hbank' hmem hans haccount
  refine ⟨d, req.requestId, r.body, hdebit, ⟨req, hbody, rfl, rfl, hdenom⟩,
    auth.timestamp, auth.nonce, ?_⟩
  rw [Request.payload, hmethod, hpath] at hsig
  exact hsig

/-- **Only the account holder can cause a debit.** In every run behind the router, a step in which
    a balance decreases is the debit of one withdrawal, and the holder of the account's key
    signed a body that asks for it; two debits are of two withdrawals and of two bodies, and
    nothing that was signed is good for both. -/
theorem only_holder_debits
    (hsigned : ∀ key message signature, X.ed25519Verify key message signature = .ok () →
      Signed key message)
    (hsha : Function.Injective X.sha256) :
    (∀ s₁ s₂ a, Steps ex (start κ) s₁ → Step ex s₁ s₂ →
      s₂.bank.shared.db.balanceOf a < s₁.bank.shared.db.balanceOf a →
        ∃ d r body, DebitedBy s₁.bank.shared.db s₂.bank.shared.db a d r ∧
          s₂.Ordered ex Signed a d r body) ∧
    ∀ s₁ s₂ s₃ s₄ a a' d d' r r' body body', Steps ex (start κ) s₁ → Step ex s₁ s₂ →
      Steps ex s₂ s₃ → Step ex s₃ s₄ →
      DebitedBy s₁.bank.shared.db s₂.bank.shared.db a d r →
      DebitedBy s₃.bank.shared.db s₄.bank.shared.db a' d' r' →
      s₂.Ordered ex Signed a d r body → s₄.Ordered ex Signed a' d' r' body' →
        r ≠ r' ∧ body ≠ body' ∧ ∀ t n t' n', canonicalPayload X "POST" "/withdraw" body t n ≠
          canonicalPayload X "POST" "/withdraw" body' t' n' := by
  refine ⟨fun s₁ s₂ a h₁ hs hlt => ordered_of_decrease hsigned h₁ hs hlt, ?_⟩
  intro s₁ s₂ s₃ s₄ a a' d d' r r' body body' h₁ hs₁ h₂ hs₂ hdebit hdebit' hordered hordered'
  have hrows : r ≠ r' := by
    -- The first withdrawal is still there when the second one is not there yet.
    rintro rfl
    obtain ⟨row, hrow, -⟩ := hdebit.row
    have hthere := db_keeps (J := fun db => db.withdrawStates.lookup r ≠ none)
      (steps_bank (h₁.tail hs₁)) (steps_bank h₂)
      (fun hv h => Entry.withdrawal_stays hv h) (by simp [hrow])
    exact hthere hdebit'.before
  have hbodies : body ≠ body' := by
    rintro rfl
    obtain ⟨req, hreq, -, hr, -⟩ := hordered.names
    obtain ⟨req', hreq', -, hr', -⟩ := hordered'.names
    obtain rfl := Except.ok.inj (hreq.symm.trans hreq')
    exact hrows (hr.symm.trans hr')
  refine ⟨hrows, hbodies, fun t n t' n' h => ?_⟩
  obtain ⟨-, -, hbody, -⟩ := canonicalPayload_fields (by decide) (by decide) h rfl
  exact hbodies (hsha hbody)

/-! ## A run -/

/-- What `alice` posts at 60, with a nonce of one character and 64 zero bytes for a signature. -/
def toyPost (path : String) (nonce : UInt8) (body : String) : Request :=
  ⟨"POST", path, [(headerAccount, utf8 "alice"), (headerTimestamp, utf8 "60"),
    (headerNonce, [nonce]), (headerSignature, .replicate 128 48)], utf8 body⟩

def toyOpening : String := "\x7b\"account_id\":\"alice\",\"initial_balance_cents\":500\x7d"

def toyOrder : String :=
  "\x7b\"account_id\":\"alice\",\"request_id\":\"r\",\"denomination_cents\":100,\"blinded_message\":[7]\x7d"

/-- Decoders that know these two bodies. -/
def toyExtractors : Extractors where
  contentType _ := .ok ()
  createAccount body := if body = utf8 toyOpening then .ok ⟨"alice", 500⟩ else .error ⟨422, ""⟩
  withdraw body :=
    if body = utf8 toyOrder then .ok ⟨"alice", "r", 100, [7]⟩ else .error ⟨422, ""⟩
  deposit _ := .error ⟨422, ""⟩
  balanceId _ := none

/-- `n` steps of call `i` in which nothing goes wrong. -/
def go (i : CallId) (n : Nat) : List (RouterEvent .toy) :=
  (Bank.go i n).map .bank

/-- The bank starts, `alice` enrolls, opens an account and asks for a withdrawal, whose debit is
    about to be committed. -/
def ordering : List (RouterEvent .toy) :=
  .connect :: go 0 5 ++ .register "alice" (Hex.encode (.replicate 32 0)) :: go 1 2 ++
    .request (toyPost "/accounts" 97 toyOpening) :: go 2 5 ++ .next 2 :: go 3 2 ++
      .request (toyPost "/withdraw" 98 toyOrder) :: go 4 5 ++ .next 4 :: go 5 5

theorem only_holder_debits_ordering : ∃ s₁ s₂ : Router .toy, ∃ d r body,
    DebitedBy s₁.bank.shared.db s₂.bank.shared.db "alice" d r ∧
      s₂.Ordered toyExtractors (Verifies .toy) "alice" d r body := by
  have hrun : ((start Config.toy).run toyExtractors ordering).any (fun s₁ =>
      (s₁.step toyExtractors (.bank (.step 5 .none default))).any fun s₂ =>
        decide (s₂.bank.shared.db.balanceOf "alice" < s₁.bank.shared.db.balanceOf "alice")) =
      true := by decide +kernel
  obtain ⟨s₁, h₁, hp⟩ := (Option.any_eq_true _ _).mp hrun
  obtain ⟨s₂, h₂, hlt⟩ := (Option.any_eq_true _ _).mp hp
  exact ⟨s₁, s₂, (only_holder_debits (κ := Config.toy) (fun _ _ signature h => ⟨signature, h⟩)
    fun _ _ h => h).1 s₁ s₂ "alice" (steps_of_run h₁) ⟨_, h₂⟩ (of_decide_eq_true hlt)⟩

end Router

end Digicash.Bank
