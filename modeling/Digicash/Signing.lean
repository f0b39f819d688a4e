import Digicash.Bank.Authorised
import Digicash.Bank.Interference
import Digicash.Bindings
import Digicash.Wallet.Client

/-!
# Signed requests, sent and received

What a wallet's client sends, HTTP carries, and the bank checks. The bank reads in the headers what
the client wrote into them, but for the account, which anybody may have registered: that one is
read back if it is visible ASCII. The path is checked as it came in and was signed as it was
written, so the account has to survive in there too.
-/

namespace Digicash

open Lib

/-! ## Text in a header -/

theorem utf8_ascii {s : String} (h : ∀ c ∈ s.toList, c.toNat < 128) :
    utf8 s = s.toList.map fun c => UInt8.ofNat c.toNat := by
  have hlist : ∀ l : List Char, (∀ c ∈ l, c.toNat < 128) →
      l.flatMap String.utf8EncodeChar = l.map fun c => UInt8.ofNat c.toNat := by
    intro l
    induction l with
    | nil => exact fun _ => rfl
    | cons c l ih =>
      intro hl
      obtain ⟨hc, hrest⟩ := List.forall_mem_cons.mp hl
      have hsize : c.utf8Size = 1 := Char.utf8Size_eq_one_iff.mpr (by
        rw [UInt32.le_iff_toNat_le]
        exact Nat.le_of_lt_succ hc)
      rw [List.flatMap_cons, String.utf8EncodeChar_eq_singleton hsize, ih hrest]
      rfl
  have hbytes : utf8 s = (String.ofList s.toList).toByteArray.data.toList := by
    rw [String.ofList_toList]
    rfl
  rw [hbytes, String.toByteArray_ofList, List.utf8Encode, List.toList_data_toByteArray]
  exact hlist s.toList h

/-- Printable ASCII is read back from a header. -/
theorem headerToStr_utf8 {s : String} (h : ∀ c ∈ s.toList, 32 ≤ c.toNat ∧ c.toNat < 127) :
    headerToStr (utf8 s) = some s := by
  have hval : ∀ c ∈ s.toList, (UInt8.ofNat c.toNat).toNat = c.toNat := by
    intro c hc
    have := h c hc
    exact UInt8.toNat_ofNat_of_lt' (by show c.toNat < 256; omega)
  rw [utf8_ascii fun c hc => (h c hc).2.trans (by decide), headerToStr, if_pos, List.map_map]
  · have hid : s.toList.map ((fun b : UInt8 => Char.ofNat b.toNat) ∘ fun c => UInt8.ofNat c.toNat) =
        s.toList := by
      refine (List.map_congr_left fun c hc => ?_).trans (List.map_id _)
      show Char.ofNat (UInt8.ofNat c.toNat).toNat = c
      rw [hval c hc, Char.ofNat_toNat]
    rw [hid, String.ofList_toList]
  · rw [List.all_map, List.all_eq_true]
    intro c hc
    obtain ⟨hle, hlt⟩ := h c hc
    have hb := hval c hc
    simp only [Function.comp, Bool.or_eq_true, Bool.and_eq_true, decide_eq_true_eq,
      UInt8.le_iff_toNat_le, UInt8.lt_iff_toNat_lt, hb]
    exact Or.inl ⟨hle, hlt⟩

theorem visible_digits : ∀ {bs : Bytes}, (Hex.digits bs).all Wallet.visible = true := by
  have hdigit : ∀ n < 16, Wallet.visible (Hex.digit n) = true := by decide
  intro bs
  induction bs with
  | nil => rfl
  | cons b bs ih =>
    have hb : b.toNat < 256 := b.toNat_lt
    rw [Hex.digits, List.all_cons, List.all_cons, hdigit _ (by omega), hdigit _ (by omega), ih]
    rfl

theorem visible_hex (bs : Bytes) : (Hex.encode bs).toList.all Wallet.visible = true := by
  rw [Hex.encode, String.toList_ofList]
  exact visible_digits

theorem visible_of_isDigit {c : Char} (h : c.isDigit = true) : Wallet.visible c = true := by
  have hle : 48 ≤ c.toNat ∧ c.toNat ≤ 57 := by
    simpa [Char.isDigit, UInt32.le_iff_toNat_le] using h
  unfold Wallet.visible
  simp only [Bool.and_eq_true, decide_eq_true_eq]
  omega

theorem toList_decimal (t : UInt64) : (toString t).toList = Nat.toDigits 10 t.toNat := by
  show t.toNat.repr.toList = _
  exact Nat.toList_repr

theorem visible_decimal (t : UInt64) : (toString t).toList.all Wallet.visible = true := by
  rw [toList_decimal, List.all_eq_true]
  exact fun c hc => visible_of_isDigit (Nat.isDigit_of_mem_toDigits (by decide) (by decide) hc)

/-- A timestamp is read back. -/
theorem parseU64_toString (t : UInt64) : parseU64 (toString t) = some t := by
  have hdigit : ∀ c ∈ Nat.toDigits 10 t.toNat, c.isDigit = true := fun c hc =>
    Nat.isDigit_of_mem_toDigits (by decide) (by decide) hc
  have hvalue : (Nat.toDigits 10 t.toNat).foldl (fun acc c => acc * 10 + (c.toNat - 48)) 0 =
      t.toNat := by
    have h := Nat.ofDigitChars_ten_toDigits (n := t.toNat)
    rw [Nat.ofDigitChars_eq_foldl] at h
    refine Eq.trans (List.foldl_ext _ _ _ fun acc c _ => ?_) h
    rw [Nat.mul_comm]
    rfl
  have hlt : t.toNat ≤ u64Max := by
    have := t.toNat_lt
    unfold u64Max
    omega
  unfold parseU64
  rw [toList_decimal]
  cases hcs : Nat.toDigits 10 t.toNat with
  | nil => exact absurd hcs Nat.toDigits_ne_nil
  | cons c cs =>
    rw [hcs] at hdigit hvalue
    have hplus : c ≠ '+' := by
      rintro rfl
      exact absurd (hdigit '+' (List.mem_cons_self ..)) (by decide)
    have hall : (c :: cs).any (fun c => !c.isDigit) = false := by
      rw [List.any_eq_false]
      intro c hc
      simp [hdigit c hc]
    dsimp only
    split
    · rename_i heq
      exact absurd (List.cons.inj heq).1 hplus
    · rw [if_neg (by simp [hall]), hvalue, if_pos hlt, UInt64.ofNat_toNat]

theorem require_eq_ok {lookup : String → Option String} {header v : String} :
    require lookup header = .ok v ↔ lookup header = some v ∧ v ≠ "" := by
  unfold require
  cases lookup header with
  | none => simp
  | some v' =>
    rw [Option.filter_some]
    by_cases hv : v' = ""
    · subst hv
      rw [if_neg (by simp)]
      refine ⟨fun h => by (cases h), fun ⟨h, hne⟩ => ?_⟩
      exact absurd (Option.some.inj h).symm hne
    · rw [if_pos (by simpa using hv)]
      refine ⟨fun h => ?_, fun ⟨h, _⟩ => congrArg Except.ok (Option.some.inj h)⟩
      obtain rfl := Except.ok.inj h
      exact ⟨rfl, hv⟩

/-- Where the other three headers are as they should be, the account's decides. -/
theorem fromLookup_eq_ok {lookup : String → Option String} {timestamp : UInt64}
    {nonce signature : String} {auth : AuthHeaders}
    (htimestamp : require lookup headerTimestamp = .ok (toString timestamp))
    (hnonce : require lookup headerNonce = .ok nonce)
    (hsignature : require lookup headerSignature = .ok signature) :
    AuthHeaders.fromLookup lookup = .ok auth ↔
      ∃ account, lookup headerAccount = some account ∧ account ≠ "" ∧
        auth = ⟨account, timestamp, nonce, signature⟩ := by
  unfold AuthHeaders.fromLookup
  cases haccount : require lookup headerAccount with
  | error e =>
    refine ⟨fun h => by (cases h), fun ⟨account, h, hne, _⟩ => ?_⟩
    exact absurd (haccount.symm.trans (require_eq_ok.mpr ⟨h, hne⟩)) (by simp)
  | ok account =>
    obtain ⟨hlookup, hne⟩ := require_eq_ok.mp haccount
    rw [htimestamp, hnonce, hsignature]
    simp only [bind, Except.bind, parseU64_toString]
    refine ⟨fun h => ?_, fun ⟨account', h, _, hauth⟩ => ?_⟩
    · exact ⟨account, hlookup, hne, (Except.ok.inj h).symm⟩
    · obtain rfl := Option.some.inj (hlookup.symm.trans h)
      exact congrArg Except.ok hauth.symm

namespace Wallet

variable {X : Crypto} {H : Http} {ex : Bank.Extractors} {c : BankClient X} {now clock : UInt64}
  {nonce : Nonce} {method path : String} {body : Bytes}

/-! ## What comes in -/

/-- A signed request as it comes in, where its account came in as `account`. -/
def incoming (H : Http) (c : BankClient X) (extra : List (String × Bytes)) (method path : String)
    (body : Bytes) (now : UInt64) (nonce : Nonce) (account : Bytes) : Request :=
  let auth := c.sign method path body now nonce
  ⟨method, H.path path, extra ++ [(headerAccount, account), (headerTimestamp, utf8 auth.timestamp),
    (headerNonce, utf8 auth.nonce), (headerSignature, utf8 auth.signature)], body⟩

theorem decimal_ne (t : UInt64) : toString t ≠ "" := by
  intro h
  have hnil := toList_decimal t
  rw [h] at hnil
  exact Nat.toDigits_ne_nil hnil.symm

theorem hex_ne {bs : Bytes} (h : bs ≠ []) : Hex.encode bs ≠ "" := by
  intro hempty
  have hdecode := Hex.decode_encode bs
  rw [hempty] at hdecode
  exact h (Option.some.inj hdecode).symm

theorem nonce_ne (nonce : Nonce) : Hex.encode nonce.1 ≠ "" :=
  hex_ne fun h => absurd nonce.2 (by simp [h])

theorem signature_ne (c : BankClient X) (message : Bytes) :
    Hex.encode (c.keypair.sign message) ≠ "" :=
  hex_ne fun h => absurd (c.keypair.length_sign message) (by simp [h, identitySignatureLen])

/-- What a header value that is not the account's comes in as. -/
theorem Http.Documented.sent (hH : H.Documented ex) (c : BankClient X) (method path : String)
    (body : Bytes) (now : UInt64) (nonce : Nonce) :
    H.header (c.sign method path body now nonce).timestamp = some (utf8 (toString now)) ∧
    H.header (c.sign method path body now nonce).nonce = some (utf8 (Hex.encode nonce.1)) ∧
    H.header (c.sign method path body now nonce).signature =
      some (utf8 (c.sign method path body now nonce).signature) :=
  ⟨hH.header _ (decimal_ne now) (visible_decimal now),
    hH.header _ (nonce_ne nonce) (visible_hex nonce.1),
    hH.header _ (signature_ne c _) (visible_hex _)⟩

theorem deliver_signedGet (hH : H.Documented ex) :
    H.deliver (c.signedGet path now nonce) =
      (H.header c.accountId).map (incoming H c [] "GET" path [] now nonce) := by
  obtain ⟨htimestamp, hnonce, hsignature⟩ := hH.sent c "GET" path [] now nonce
  simp only [Http.deliver, BankClient.signedGet, BankClient.authHeaders, List.mapM_cons,
    List.mapM_nil, htimestamp, hnonce, hsignature]
  cases H.header c.accountId <;> rfl

theorem deliver_signedPost (hH : H.Documented ex) :
    H.deliver (c.signedPost path body now nonce) = (H.header c.accountId).map
      (incoming H c [(headerContentType, utf8 "application/json")] "POST" path body now nonce) := by
  obtain ⟨htimestamp, hnonce, hsignature⟩ := hH.sent c "POST" path body now nonce
  have htype := hH.header "application/json" (by decide) (by decide)
  simp only [Http.deliver, BankClient.signedPost, BankClient.authHeaders, List.mapM_cons,
    List.mapM_nil, htype, htimestamp, hnonce, hsignature]
  cases H.header c.accountId <;> rfl

/-! ## Whether it is accepted -/

theorem lookup_extra {extra l : List (String × Bytes)} {name : String}
    (h : ∀ e ∈ extra, e.1 ≠ name) : (extra ++ l).lookup name = l.lookup name := by
  induction extra with
  | nil => rfl
  | cons e extra ih =>
    obtain ⟨he, hrest⟩ := List.forall_mem_cons.mp h
    rw [List.cons_append, List.lookup_cons, beq_eq_false_iff_ne.mpr he.symm]
    exact ih hrest

theorem read_visible {v : String} (hne : v ≠ "") (hvisible : v.toList.all visible = true) :
    (some (utf8 v)).bind headerToStr = some v ∧ v ≠ "" := by
  refine ⟨headerToStr_utf8 fun ch hch => ?_, hne⟩
  have hvis := List.all_eq_true.mp hvisible ch hch
  simp only [visible, Bool.and_eq_true, decide_eq_true_eq] at hvis
  omega

variable {extra : List (String × Bytes)} {account : Bytes}

/-- What the server reads in the headers is what the client wrote, but for the account. -/
theorem readHeaders_incoming {auth : AuthHeaders} (hextra : ∀ e ∈ extra, e.1 = headerContentType) :
    readHeaders (incoming H c extra method path body now nonce account) = .ok auth ↔
      body.length ≤ maxBodyBytes ∧ ∃ a, headerToStr account = some a ∧ a ≠ "" ∧
        auth = ⟨a, now, Hex.encode nonce.1, (c.sign method path body now nonce).signature⟩ := by
  have hlookup : ∀ name, name ≠ headerContentType →
      (incoming H c extra method path body now nonce account).headers.lookup name =
        [(headerAccount, account), (headerTimestamp, utf8 (toString now)),
          (headerNonce, utf8 (Hex.encode nonce.1)),
          (headerSignature, utf8 (c.sign method path body now nonce).signature)].lookup name :=
    fun name hname => lookup_extra fun e he heq => hname (heq.symm.trans (hextra e he))
  have htimestamp : require (incoming H c extra method path body now nonce account).header
      headerTimestamp = .ok (toString now) := by
    rw [require_eq_ok, Request.header, hlookup _ (by decide)]
    exact read_visible (decimal_ne now) (visible_decimal now)
  have hnonce : require (incoming H c extra method path body now nonce account).header
      headerNonce = .ok (Hex.encode nonce.1) := by
    rw [require_eq_ok, Request.header, hlookup _ (by decide)]
    exact read_visible (nonce_ne nonce) (visible_hex nonce.1)
  have hsignature : require (incoming H c extra method path body now nonce account).header
      headerSignature = .ok (c.sign method path body now nonce).signature := by
    rw [require_eq_ok, Request.header, hlookup _ (by decide)]
    exact read_visible (signature_ne c _) (visible_hex _)
  have haccount : (incoming H c extra method path body now nonce account).header headerAccount =
      headerToStr account := by
    rw [Request.header, hlookup _ (by decide)]
    rfl
  unfold readHeaders
  by_cases hlarge : maxBodyBytes < body.length
  · rw [if_pos (by exact hlarge)]
    exact ⟨fun h => by (cases h), fun h => absurd h.1 (Nat.not_le.mpr hlarge)⟩
  · rw [if_neg (by exact hlarge), and_iff_right (Nat.not_lt.mp hlarge), ← haccount,
      ← fromLookup_eq_ok htimestamp hnonce hsignature]
    cases AuthHeaders.fromLookup (incoming H c extra method path body now nonce account).header with
    | error e => exact ⟨fun h => by (cases h), fun h => by (cases h)⟩
    | ok auth' => exact ⟨fun h => congrArg Except.ok (Except.ok.inj h),
        fun h => congrArg Except.ok (Except.ok.inj h)⟩

/-- The client holds the key that is registered for its account, its clock agrees with the bank's,
    and its nonce is not in use. -/
structure Ready (s : Sys (Bank.service X)) (c : BankClient X) (now clock : UInt64)
    (nonce : Nonce) : Prop where
  up : s.shared.mem.phase = .up
  registered : s.shared.db.identities.lookup c.accountId = some c.keypair.publicKey
  window : outsideWindow now clock = false
  /-- The nonce's expiry fits the column. -/
  inRange : (clock.toNat : Int) + nonceTtlSecs.toNat ≤ i64Max
  fresh : Lib.Expiring.free s.shared.db.nonceStore (Hex.encode nonce.1) clock.toNat = true

variable {s : Sys (Bank.service X)}

/-- The signature is good for the request as it comes in. -/
def StillSigned (H : Http) (c : BankClient X) (method path : String) (body : Bytes) (now : UInt64)
    (nonce : Nonce) : Prop :=
  X.ed25519Verify c.keypair.publicKey
    (utf8 (canonicalPayload X method (H.path path) body now (Hex.encode nonce.1)))
    (c.keypair.sign (utf8 (canonicalPayload X method path body now (Hex.encode nonce.1)))) = .ok ()

/-- **When a signed request is accepted**: the server reads the account the client wrote, and the
    signature is good for the path that came in. -/
theorem accepted_iff (hready : Ready s c now clock nonce)
    (hextra : ∀ e ∈ extra, e.1 = headerContentType) :
    (∃ s', Bank.judge s (incoming H c extra method path body now nonce account) clock =
        some (.ok c.accountId, s')) ↔
      body.length ≤ maxBodyBytes ∧ headerToStr account = some c.accountId ∧ c.accountId ≠ "" ∧
        StillSigned H c method path body now nonce := by
  have hregistered : Bank.Registered X s.shared.db.identities c.accountId c.keypair.publicKey :=
    ⟨_, hready.registered, c.keypair.length_publicKey, c.keypair.publicKey_valid⟩
  have hdecode : decodeSignature (c.sign method path body now nonce).signature =
      .ok (c.keypair.sign (utf8 (canonicalPayload X method path body now (Hex.encode nonce.1)))) := by
    rw [decodeSignature, BankClient.sign, Hex.decode_encode]
    exact if_pos (c.keypair.length_sign _)
  rw [Bank.judge_ok_iff hready.up]
  constructor
  · rintro ⟨auth, hpasses, haccount, -⟩
    obtain ⟨hlen, a, ha, hne, rfl⟩ := (readHeaders_incoming hextra).mp hpasses.headers
    obtain rfl : a = c.accountId := haccount
    obtain ⟨key, signature, ⟨bytes, hbytes, -, hvalid⟩, hsig, hverify⟩ := hpasses.signed
    obtain rfl := Option.some.inj (hbytes.symm.trans hready.registered)
    obtain rfl := Except.ok.inj (hvalid.symm.trans c.keypair.publicKey_valid)
    obtain rfl := Except.ok.inj (hsig.symm.trans hdecode)
    exact ⟨hlen, ha, hne, hverify⟩
  · rintro ⟨hlen, ha, hne, hsigned⟩
    exact ⟨_, ⟨(readHeaders_incoming hextra).mpr ⟨hlen, c.accountId, ha, hne, rfl⟩, hready.window,
      ⟨_, _, hregistered, hdecode, hsigned⟩, hready.inRange⟩, rfl, hready.fresh⟩

/-! ## What the handler makes of it -/

/-- The bank takes what was sent for a request of `account`, and its handler goes on to `op`. -/
def Taken (H : Http) (ex : Bank.Extractors) (s : Sys (Bank.service X)) (clock : UInt64)
    (account : String) (o : Outgoing) (op : Bank.Op) : Prop :=
  ∃ r s', H.deliver o = some r ∧ Bank.judge s r clock = some (.ok account, s') ∧
    ex.handler account r = .ok op

theorem StillSigned.of_path (h : H.path path = path) : StillSigned H c method path body now nonce := by
  rw [StillSigned, h]
  exact c.keypair.verify_sign _

theorem hears_iff : H.Hears c.accountId ↔ c.accountId ≠ "" ∧ ∃ account,
    H.header c.accountId = some account ∧ headerToStr account = some c.accountId := by
  rw [Http.Hears, Option.bind_eq_some_iff]

/-- A `POST` to a path that comes in as it is. -/
theorem taken_post {op : Bank.Op} (hH : H.Documented ex) (hready : Ready s c now clock nonce)
    (hpath : H.path path = path)
    (hhandler : ∀ r : Request, r.method = "POST" → r.path = path → r.body = body →
      ex.contentType r = .ok () → ex.handler c.accountId r = .ok op) :
    Taken H ex s clock c.accountId (c.signedPost path body now nonce) op ↔
      H.Hears c.accountId ∧ body.length ≤ maxBodyBytes := by
  have hextra : ∀ e ∈ [(headerContentType, utf8 "application/json")], e.1 = headerContentType := by
    simp
  rw [Taken, deliver_signedPost hH, hears_iff]
  constructor
  · rintro ⟨r, s', hr, hjudge, -⟩
    obtain ⟨account, haccount, rfl⟩ := Option.map_eq_some_iff.mp hr
    obtain ⟨hlen, hread, hne, -⟩ := (accepted_iff hready hextra).mp ⟨s', hjudge⟩
    exact ⟨⟨hne, account, haccount, hread⟩, hlen⟩
  · rintro ⟨⟨hne, account, haccount, hread⟩, hlen⟩
    have hsigned : StillSigned H c "POST" path body now nonce := .of_path hpath
    obtain ⟨s', hjudge⟩ := (accepted_iff hready hextra).mpr ⟨hlen, hread, hne, hsigned⟩
    refine ⟨_, s', by rw [haccount]; rfl, hjudge, hhandler _ rfl hpath rfl (hH.contentType _ ?_)⟩
    exact (read_visible (v := "application/json") (by decide) (by decide)).1

theorem ensureAccount_self (account : String) : Bank.ensureAccount account account = .ok () :=
  if_pos rfl

theorem act_eq {α : Type} {decode : Bytes → Except Bank.ApiError α} {target : α → String}
    {op : α → Bank.Op} {account : String} {r : Request} {req : α} (htype : ex.contentType r = .ok ())
    (hreq : decode r.body = .ok req) (haccount : target req = account) :
    ex.act decode target op account r = .ok (op req) := by
  rw [Bank.Extractors.act, htype, hreq]
  change (Bank.ensureAccount account (target req) >>= fun _ => Except.ok (op req)) = _
  rw [haccount, ensureAccount_self]
  rfl

theorem path_post (hH : H.Documented ex) :
    ∀ seg ∈ ["accounts", "withdraw", "deposit"], H.path (pathOf [seg]) = pathOf [seg] := by
  intro seg hseg
  refine hH.path _ fun seg' hseg' => ?_
  obtain rfl := List.mem_singleton.mp hseg'
  revert seg'
  decide

theorem taken_createAccount {initial : UInt64} (hH : H.Documented ex)
    (hready : Ready s c now clock nonce) (hbody : ex.createAccount body = .ok ⟨c.accountId, initial⟩) :
    Taken H ex s clock c.accountId (c.createAccount body now nonce)
        (.createAccount c.accountId initial) ↔
      H.Hears c.accountId ∧ body.length ≤ maxBodyBytes := by
  refine taken_post hH hready (path_post hH "accounts" (by simp)) fun r hmethod hpath hr htype => ?_
  have hroute : ex.route r.path = some .accounts := by rw [hpath]; rfl
  rw [Bank.Extractors.handler, hroute]
  dsimp only
  rw [if_pos hmethod]
  exact act_eq htype (hr.symm ▸ hbody) rfl

theorem taken_withdraw {req : WithdrawRequest} (hH : H.Documented ex)
    (hready : Ready s c now clock nonce) (hbody : ex.withdraw body = .ok req)
    (haccount : req.accountId = c.accountId) :
    Taken H ex s clock c.accountId (c.withdraw body now nonce) (.withdraw req) ↔
      H.Hears c.accountId ∧ body.length ≤ maxBodyBytes := by
  refine taken_post hH hready (path_post hH "withdraw" (by simp)) fun r hmethod hpath hr htype => ?_
  have hroute : ex.route r.path = some .withdraw := by rw [hpath]; rfl
  rw [Bank.Extractors.handler, hroute]
  dsimp only
  rw [if_pos hmethod]
  exact act_eq htype (hr.symm ▸ hbody) haccount

theorem taken_deposit {req : DepositRequest} (hH : H.Documented ex)
    (hready : Ready s c now clock nonce) (hbody : ex.deposit body = .ok req)
    (haccount : req.accountId = c.accountId) :
    Taken H ex s clock c.accountId (c.deposit body now nonce) (.deposit req) ↔
      H.Hears c.accountId ∧ body.length ≤ maxBodyBytes := by
  refine taken_post hH hready (path_post hH "deposit" (by simp)) fun r hmethod hpath hr htype => ?_
  have hroute : ex.route r.path = some .deposit := by rw [hpath]; rfl
  rw [Bank.Extractors.handler, hroute]
  dsimp only
  rw [if_pos hmethod]
  exact act_eq htype (hr.symm ▸ hbody) haccount

theorem route_balance {id : String} :
    ex.route ("/accounts/" ++ id ++ "/balance") =
      (ex.balanceId ("/accounts/" ++ id ++ "/balance")).map .balance := by
  have hne : ∀ p ∈ ["/accounts", "/withdraw", "/deposit"], "/accounts/" ++ id ++ "/balance" ≠ p := by
    intro p hp heq
    have hshort : ∀ p ∈ ["/accounts", "/withdraw", "/deposit"], p.length ≤ 9 := by decide
    have hlen := congrArg String.length heq
    rw [String.length_append, String.length_append] at hlen
    have hprefix : "/accounts/".length = 10 := by decide
    have := hshort p hp
    omega
  simp only [List.mem_cons, List.not_mem_nil, or_false, forall_eq_or_imp, forall_eq] at hne
  rw [Bank.Extractors.route, if_neg hne.1, if_neg hne.2.1, if_neg hne.2.2]

/-- A `GET` goes on to a balance if its path is that of one. -/
theorem handler_get {account : String} {r : Request} (hmethod : r.method = "GET") :
    ex.handler account r = .ok (.balance account) ↔ ex.route r.path = some (.balance account) := by
  have hpost : r.method ≠ "POST" := by
    rw [hmethod]
    decide
  unfold Bank.Extractors.handler
  cases hroute : ex.route r.path with
  | none => exact ⟨fun h => by (cases h), fun h => by (cases h)⟩
  | some route =>
    cases route with
    | balance id =>
      dsimp only
      rw [if_pos (Or.inl hmethod)]
      constructor
      · intro h
        obtain ⟨-, -, hop⟩ := ok_of_bind h
        rw [Bank.Op.balance.inj (Except.ok.inj hop)]
      · intro h
        obtain rfl : id = account := Bank.Route.balance.inj (Option.some.inj h)
        rw [Bank.getBalanceAuthenticated, ensureAccount_self]
        rfl
    | _ =>
      dsimp only
      rw [if_neg hpost]
      exact ⟨fun h => by (cases h), fun h => by (cases h)⟩

/-- The balance's `GET`, whose path comes in as HTTP makes it. -/
theorem taken_balance (hH : H.Documented ex) (hready : Ready s c now clock nonce) :
    Taken H ex s clock c.accountId (c.balance c.accountId now nonce) (.balance c.accountId) ↔
      H.Hears c.accountId ∧
        StillSigned H c "GET" ("/accounts/" ++ c.accountId ++ "/balance") [] now nonce ∧
        ex.route (H.path ("/accounts/" ++ c.accountId ++ "/balance")) =
          some (.balance c.accountId) := by
  have hextra : ∀ e ∈ ([] : List (String × Bytes)), e.1 = headerContentType := by simp
  rw [Taken, BankClient.balance, deliver_signedGet hH, hears_iff]
  constructor
  · rintro ⟨r, s', hr, hjudge, hhandler⟩
    obtain ⟨account, haccount, rfl⟩ := Option.map_eq_some_iff.mp hr
    obtain ⟨-, hread, hne, hsigned⟩ := (accepted_iff hready hextra).mp ⟨s', hjudge⟩
    exact ⟨⟨hne, account, haccount, hread⟩, hsigned, (handler_get (by rfl)).mp hhandler⟩
  · rintro ⟨⟨hne, account, haccount, hread⟩, hsigned, hroute⟩
    obtain ⟨s', hjudge⟩ := (accepted_iff hready hextra).mpr ⟨by simp, hread, hne, hsigned⟩
    exact ⟨_, s', by rw [haccount]; rfl, hjudge, (handler_get (by rfl)).mpr hroute⟩

/-- Visible ASCII is read back. -/
theorem Http.Documented.hears (hH : H.Documented ex) {id : String} (hne : id ≠ "")
    (h : id.toList.all visible = true) : H.Hears id := by
  rw [Http.Hears, hH.header id hne h]
  exact ⟨hne, (read_visible hne h).1⟩

theorem plain_visible {ch : Char} (h : plainChar ch = true) : visible ch = true := by
  have hmarks : "-._~!$&'()*+,;=:@".toList.all visible = true := by decide
  rcases Bool.or_eq_true _ _ ▸ h with halnum | hmark
  · have hrange : 48 ≤ ch.toNat ∧ ch.toNat ≤ 122 := by
      rcases Bool.or_eq_true _ _ ▸ halnum with halpha | hdigit
      · rcases Bool.or_eq_true _ _ ▸ halpha with hupper | hlower
        · obtain ⟨hle, hge⟩ := of_decide_eq_true hupper
          exact ⟨(UInt32.le_iff_toNat_le.mp hle).trans' (by decide),
            (UInt32.le_iff_toNat_le.mp hge).trans (by decide)⟩
        · obtain ⟨hle, hge⟩ := Bool.and_eq_true _ _ ▸ hlower
          exact ⟨(UInt32.le_iff_toNat_le.mp (of_decide_eq_true hle)).trans' (by decide),
            UInt32.le_iff_toNat_le.mp (of_decide_eq_true hge)⟩
      · obtain ⟨hle, hge⟩ := Char.isDigit_iff_toNat.mp hdigit
        exact ⟨hle, hge.trans (by decide)⟩
    unfold visible
    simp only [Bool.and_eq_true, decide_eq_true_eq]
    omega
  · exact List.all_eq_true.mp hmarks ch (List.contains_iff_mem.mp hmark)

theorem pathOf_accounts (id : String) :
    pathOf ["accounts", id, "balance"] = "/accounts/" ++ id ++ "/balance" := by
  rw [← String.toList_inj]
  simp [pathOf, String.join]

/-- A plain segment comes in as it is, in the header and in the path. -/
theorem Http.Documented.plain (hH : H.Documented ex) (h : plainSegment c.accountId = true) :
    H.Hears c.accountId ∧
      StillSigned H c "GET" ("/accounts/" ++ c.accountId ++ "/balance") [] now nonce ∧
      ex.route (H.path ("/accounts/" ++ c.accountId ++ "/balance")) =
        some (.balance c.accountId) := by
  have hsegments : ∀ seg ∈ ["accounts", c.accountId, "balance"], plainSegment seg = true := by
    intro seg hseg
    simp only [List.mem_cons, List.not_mem_nil, or_false] at hseg
    rcases hseg with rfl | rfl | rfl
    · decide
    · exact h
    · decide
  have hpath : H.path ("/accounts/" ++ c.accountId ++ "/balance") =
      "/accounts/" ++ c.accountId ++ "/balance" := by
    rw [← pathOf_accounts]
    exact hH.path _ hsegments
  have hplain : c.accountId ≠ "" ∧ c.accountId.toList.all plainChar = true := by
    simp only [plainSegment, Bool.and_eq_true, ne_eq, decide_not,
      Bool.not_eq_true', decide_eq_false_iff_not] at h
    exact ⟨h.1.1.1, h.2⟩
  refine ⟨hH.hears hplain.1 (List.all_eq_true.mpr fun ch hch =>
    plain_visible (List.all_eq_true.mp hplain.2 ch hch)), .of_path hpath, ?_⟩
  rw [hpath, route_balance, hH.balanceId _ h]
  rfl

/-- **Which accounts can authenticate.** What is posted is taken if and only if the server reads the
    account in its header; the balance is answered if and only if moreover the signature is good
    for the path that comes in, and the router finds the account in it. Visible ASCII is read in
    the header, and a plain segment in both. -/
theorem authenticates_iff (hH : H.Documented ex) (hready : Ready s c now clock nonce) :
    (∀ body initial, ex.createAccount body = .ok ⟨c.accountId, initial⟩ →
      (Taken H ex s clock c.accountId (c.createAccount body now nonce)
          (.createAccount c.accountId initial) ↔
        H.Hears c.accountId ∧ body.length ≤ maxBodyBytes)) ∧
    (∀ body req, ex.withdraw body = .ok req → req.accountId = c.accountId →
      (Taken H ex s clock c.accountId (c.withdraw body now nonce) (.withdraw req) ↔
        H.Hears c.accountId ∧ body.length ≤ maxBodyBytes)) ∧
    (∀ body req, ex.deposit body = .ok req → req.accountId = c.accountId →
      (Taken H ex s clock c.accountId (c.deposit body now nonce) (.deposit req) ↔
        H.Hears c.accountId ∧ body.length ≤ maxBodyBytes)) ∧
    (Taken H ex s clock c.accountId (c.balance c.accountId now nonce) (.balance c.accountId) ↔
      H.Hears c.accountId ∧
        StillSigned H c "GET" ("/accounts/" ++ c.accountId ++ "/balance") [] now nonce ∧
        ex.route (H.path ("/accounts/" ++ c.accountId ++ "/balance")) =
          some (.balance c.accountId)) ∧
    (c.accountId ≠ "" → c.accountId.toList.all visible = true → H.Hears c.accountId) ∧
    (plainSegment c.accountId = true →
      Taken H ex s clock c.accountId (c.balance c.accountId now nonce) (.balance c.accountId)) := by
  exact ⟨fun _ _ => taken_createAccount hH hready, fun _ _ => taken_withdraw hH hready,
    fun _ _ => taken_deposit hH hready, taken_balance hH hready, hH.hears,
    fun hplain => (taken_balance hH hready).mpr (hH.plain hplain)⟩

/-! ## Two accounts that cannot -/

/-- A signature says what is signed, as far as it fits. -/
def toySignature (message : Bytes) : Bytes :=
  (message ++ .replicate identitySignatureLen 0).take identitySignatureLen

/-- The toy primitives, but signatures are checked. -/
def signing : Crypto :=
  { Crypto.toy with
    ed25519Verify := fun _ message signature =>
      if signature = toySignature message then .ok () else .error "signature error" }

theorem length_toyPublicKey : (List.replicate 32 0 : Bytes).length = identityPublicKeyLen := rfl

theorem length_toySignature (message : Bytes) :
    (toySignature message).length = identitySignatureLen := by
  simp [toySignature]

def toyKeypair : IdentityKeypair signing where
  publicKey := .replicate 32 0
  sign := toySignature
  length_publicKey := length_toyPublicKey
  publicKey_valid := rfl
  length_sign := length_toySignature
  verify_sign _ := if_pos rfl

/-- What a URL has in place of a character that is not plain. -/
def percentEncode (ch : Char) : List Char :=
  (String.utf8EncodeChar ch).flatMap fun b => '%' :: (Hex.digits [b]).map Char.toUpper

def toyHttp : Http where
  header v := some (utf8 v)
  path p := String.ofList (p.toList.flatMap fun ch =>
    if plainChar ch || ch == '/' then [ch] else percentEncode ch)

/-- A router that finds the segment where it has to be. -/
def toyRouter : Bank.Extractors :=
  { Bank.Router.toyExtractors with
    balanceId := fun path =>
      if "/accounts/".toList <+: path.toList ∧ "/balance".toList <:+ path.toList then
        some (String.ofList ((path.toList.drop 10).take (path.toList.length - 18)))
      else none }

theorem toyHttp_documented : toyHttp.Documented toyRouter where
  header _ _ _ := rfl
  path segments h := by
    have hchars : ∀ ch ∈ (pathOf segments).toList, (plainChar ch || ch == '/') = true := by
      intro ch hch
      rw [pathOf, String.toList_join, List.mem_flatMap] at hch
      obtain ⟨part, hpart, hch⟩ := hch
      obtain ⟨seg, hseg, rfl⟩ := List.mem_map.mp hpart
      rw [String.toList_append] at hch
      rcases List.mem_append.mp hch with hslash | hch
      · obtain rfl := List.mem_singleton.mp hslash
        rfl
      · have hplain := h seg hseg
        rw [plainSegment, Bool.and_eq_true] at hplain
        rw [List.all_eq_true.mp hplain.2 ch hch]
        rfl
    show String.ofList ((pathOf segments).toList.flatMap _) = _
    rw [List.flatMap_congr fun ch hch => if_pos (hchars ch hch), List.flatMap_singleton',
      String.ofList_toList]
  contentType _ _ := rfl
  balanceId id _ := by
    have hlist : ("/accounts/" ++ id ++ "/balance").toList =
        "/accounts/".toList ++ (id.toList ++ "/balance".toList) := by
      rw [String.toList_append, String.toList_append, List.append_assoc]
    show (if _ then _ else _) = _
    rw [hlist, if_pos ⟨List.prefix_append _ _,
      ⟨"/accounts/".toList ++ id.toList, List.append_assoc ..⟩⟩]
    have hdrop : ("/accounts/".toList ++ (id.toList ++ "/balance".toList)).drop 10 =
        id.toList ++ "/balance".toList := List.drop_left' (by decide)
    have hlength : ("/accounts/".toList ++ (id.toList ++ "/balance".toList)).length - 18 =
        id.toList.length := by
      rw [List.length_append, List.length_append]
      have hsides : "/accounts/".toList.length = 10 ∧ "/balance".toList.length = 8 := by decide
      omega
    rw [hdrop, hlength, List.take_left, String.ofList_toList]

/-- A bank that serves, and knows nobody. -/
def idleBank : Sys (Bank.service signing) :=
  .init ⟨⟨∅⟩, none⟩ .empty { Bank.Memory.fresh with phase := .up }

def toyNonce : Nonce := ⟨.replicate 16 7, rfl⟩

/-- `POST /register` accepts the account, and its client is ready. -/
def Enrolls (id : String) (s : Sys (Bank.service signing)) : Prop :=
  Bank.register signing id (Hex.encode toyKeypair.publicKey) =
      .ok (.registerIdentity id toyKeypair.publicKey) ∧
    Bank.serve idleBank (.registerIdentity id toyKeypair.publicKey) =
      some (.registerIdentity (.ok ()), s) ∧
    Ready s ⟨id, toyKeypair⟩ 60 60 toyNonce

theorem enrolls (id : String) : ∃ s, Enrolls id s := by
  refine ⟨_, ?_, rfl, rfl, Table.lookup_put_self _ _ _, rfl, by decide, rfl⟩
  rw [Bank.register, Hex.decode_encode]
  rfl

/-- `alice` asks for her account to be opened, and for its balance. -/
theorem authenticates_iff_alice : ∃ s, Enrolls "alice" s ∧
    Taken toyHttp toyRouter s 60 "alice"
      (BankClient.createAccount ⟨"alice", toyKeypair⟩ (utf8 Bank.Router.toyOpening) 60 toyNonce)
      (.createAccount "alice" 500) ∧
    Taken toyHttp toyRouter s 60 "alice" (BankClient.balance ⟨"alice", toyKeypair⟩ "alice" 60 toyNonce)
      (.balance "alice") := by
  obtain ⟨s, henrolls⟩ := enrolls "alice"
  have h := authenticates_iff toyHttp_documented henrolls.2.2
  refine ⟨s, henrolls, (h.1 _ _ (if_pos rfl)).mpr ⟨h.2.2.2.2.1 (by decide) (by decide), by decide⟩,
    h.2.2.2.2.2 (by decide)⟩

/-- The account with no name authenticates with nothing it sends; the one with a blank in its name
    cannot ask for its balance. `POST /register` takes both. -/
theorem enrolled_refused : toyHttp.Documented toyRouter ∧
    (∃ s, Enrolls "" s ∧ ∀ (path : String) (body : Bytes) op,
      ¬ Taken toyHttp toyRouter s 60 ""
        (BankClient.signedPost ⟨"", toyKeypair⟩ path body 60 toyNonce) op) ∧
    ∃ s, Enrolls "a b" s ∧ ¬ Taken toyHttp toyRouter s 60 "a b"
      (BankClient.balance ⟨"a b", toyKeypair⟩ "a b" 60 toyNonce) (.balance "a b") := by
  refine ⟨toyHttp_documented, ?_, ?_⟩
  · obtain ⟨s, henrolls⟩ := enrolls ""
    refine ⟨s, henrolls, fun path body op htaken => ?_⟩
    obtain ⟨r, s', hr, hjudge, -⟩ := htaken
    rw [deliver_signedPost toyHttp_documented] at hr
    obtain ⟨account, -, rfl⟩ := Option.map_eq_some_iff.mp hr
    obtain ⟨-, -, hne, -⟩ := (accepted_iff henrolls.2.2 (by simp)).mp ⟨s', hjudge⟩
    exact hne rfl
  · obtain ⟨s, henrolls⟩ := enrolls "a b"
    refine ⟨s, henrolls, fun htaken => ?_⟩
    obtain ⟨-, hsigned, -⟩ := (taken_balance toyHttp_documented henrolls.2.2).mp htaken
    -- The blank is encoded, and what was signed has it as it is.
    have hencoded : ¬ StillSigned toyHttp ⟨"a b", toyKeypair⟩ "GET"
        ("/accounts/" ++ "a b" ++ "/balance") [] 60 toyNonce := by
      unfold StillSigned
      decide +kernel
    exact hencoded hsigned

end Wallet

end Digicash
