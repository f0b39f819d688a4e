import Digicash.Registry.Front
import Digicash.Registry.Members

/-!
# Who governs the registry

Members are admitted, caps are set and receivables are settled by handlers that check for the
admin first. The admin is the one `main` seeded, with a key it was configured with: a handler
registers everybody else without the flag, and a row of `members` is never changed. So what the
handlers do is signed under that one key, for as long as the database lives.

The evidence is as good: nobody but the holder of a member's key puts a transcript under its
name.
-/

namespace Digicash.Registry

open Lib Lib.Protocol Relation

variable {X : Crypto}

/-! ## Members are never changed -/

theorem Entry.memberRow_stays {db : Tables} {e : Entry} (h : e.Valid db) {b : String}
    {row : MemberRow} (hb : db.members.lookup b = some row) :
    (e.apply db).members.lookup b = some row := by
  cases e with
  | addMember b' row' =>
    have hne : b ≠ b' := by
      intro heq
      subst heq
      exact absurd (hb.symm.trans h) (by simp)
    rw [apply, Table.lookup_put_ne hne, hb]
  | _ => exact hb

theorem memberRow_kept {s s' : Sys (service X)} (h : Sys.Steps .any (start X) s)
    (hs : Sys.Steps .any s s') {b : String} {row : MemberRow}
    (hb : s.shared.db.members.lookup b = some row) : s'.shared.db.members.lookup b = some row :=
  Ledger.invariant sound (good h) hs (J := fun _ sh => sh.db.members.lookup b = some row) hb
    (fun _ hj hv _ _ => Entry.memberRow_stays hv hj) (fun hj _ => hj) (fun hj _ => hj)

/-! ## Handlers that check for the admin -/

/-- Who has to be the admin for this call. -/
def Op.governor : Op → Option String
  | .postMember caller _ | .postCap caller _ | .postSettle caller => some caller
  | _ => none

/-- `caller` was found to be the admin. -/
abbrev adminDeed (caller : String) : Deed (Cmd.Reply (D := database)) :=
  ⟨.stmt (.selectIsAdmin caller), .ok (some true)⟩

/-- What a call may do, given what it has done: a handler that governs looks for the admin
    before anything else; and a new member gets the key that was asked for. -/
structure Governed (X : Crypto) (op : Op) (ds : Deeds database) (c : Cmd database) : Prop where
  checked : ∀ caller, op.governor = some caller →
    c = .stmt (.selectIsAdmin caller) ∨ [adminDeed caller] <:+ ds
  key : ∀ caller req, op = .postMember caller req → c ≠ .commit ∧
    ∀ b k a, c = .stmt (.insertMember b k a) → Api.parsePubkey X req.pubkeyHex = .ok k

theorem ensureAdmin_along {P : Deeds database → Cmd database → Prop} {caller : String}
    (hp : P [] (.stmt (.selectIsAdmin caller))) : Prog.Along P
      (fun ds result => result = .ok () → ds = [adminDeed caller]) []
      (Api.ensureAdmin caller).run := by
  refine Prog.Along.bind_ok (M := fun ds found => found = .ok true → ds = [adminDeed caller])
    (Prog.Along.mapErr (M := fun ds found => found = .ok true → ds = [adminDeed caller])
      (fun ds r hr h => ?_) ?_) (fun ds found hfound => ?_) fun _ _ _ h => by cases h
  · cases r with
    | ok b => exact hr (congrArg Except.ok (Except.ok.inj h))
    | error e => cases h
  · refine Prog.Along.query_bind hp (fun _ h => by cases h) fun row h => ?_
    cases row with
    | none => cases h
    | some b =>
      obtain rfl : b = true := Except.ok.inj h
      rfl
  · cases found with
    | true => exact fun _ => hfound rfl
    | false => exact fun h => by cases h

/-- A handler that governs, its check first. -/
theorem Governed.along {α : Type} {op : Op} {caller : String} (hop : op.governor = some caller)
    {f : Unit → ApiM α} {g : Except ApiError α → Ans}
    (hf : Prog.Along (Governed X op) (fun _ _ => True) [adminDeed caller] (f ()).run) :
    Prog.Along (Governed X op) (fun _ _ => True) []
      (g <$> (Api.ensureAdmin caller >>= f).run) := by
  have hcheck : Governed X op [] (.stmt (.selectIsAdmin caller)) := by
    refine ⟨fun c hc => Or.inl ?_, fun _ _ _ => ⟨by simp, fun _ _ _ h => by cases h⟩⟩
    rw [Option.some.inj (hop.symm.trans hc)]
  refine Prog.Along.map (M := fun _ _ => True) (fun _ _ _ => trivial) ?_
  refine Prog.Along.bind_ok (ensureAdmin_along hcheck) (fun ds _ hds => ?_) fun _ _ _ => trivial
  obtain rfl := hds rfl
  exact hf

/-- After its check, a handler that admits nobody may do anything. -/
theorem Governed.since {α : Type} {op : Op} {caller : String} (hop : op.governor = some caller)
    (hnot : ∀ c req, op ≠ .postMember c req) {x : Code database α} :
    Prog.Along (Governed X op) (fun _ _ => True) [adminDeed caller] x := by
  refine (Prog.Along.since (List.suffix_refl _)).mono (fun ds c hsince => ?_) fun _ _ h => h
  refine ⟨fun c hc => Or.inr ?_, fun c req h => absurd h (hnot c req)⟩
  rw [← Option.some.inj (hop.symm.trans hc)]
  exact hsince

theorem governed_along (op : Op) :
    Prog.Along (Governed X op) (fun _ _ => True) [] (code X op) := by
  cases op with
  | postMember caller req =>
    refine Governed.along rfl (Prog.Along.orThrow_bind (fun _ _ => trivial) fun key hkey => ?_)
    refine Prog.Along.mapErr (M := fun _ _ => True) (fun _ _ _ => trivial) ?_
    refine Prog.Along.query_bind ⟨fun c hc => ?_, fun c r hop => ⟨by simp, fun b k a hins => ?_⟩⟩
      (fun _ => trivial) fun inserted => ?_
    · obtain rfl := Option.some.inj hc
      exact Or.inr (List.suffix_refl _)
    · cases hop
      cases hins
      exact hkey
    · split <;> exact trivial
  | postCap caller req => exact Governed.along rfl (Governed.since rfl fun _ _ h => by cases h)
  | postSettle caller => exact Governed.along rfl (Governed.since rfl fun _ _ h => by cases h)
  | _ =>
    refine Prog.Along.of_forall (fun _ _ => ⟨fun _ h => ?_, fun _ _ h => ?_⟩) fun _ _ => trivial
    all_goals cases h

/-- A step that changes the tables commits an entry of a call in flight, which had to find its
    caller to be the admin if it governs. -/
theorem governed_step {s s' : Sys (service X)} (h : Sys.Steps .any (start X) s)
    {e : Event (service X)} (hs : s.step e = some s') :
    s'.shared.db = s.shared.db ∨ ∃ i ss entry, s.live i = some ss ∧
      Entry.Valid s.shared.db entry ∧ Entry.From ss.op entry ∧
      s'.shared.db = entry.apply s.shared.db ∧
      (∀ caller, ss.op.governor = some caller → ∃ row,
        s.shared.db.members.lookup caller = some row ∧ row.isAdmin = true) ∧
      ∀ caller req b row, ss.op = .postMember caller req → entry = .addMember b row →
        Api.parsePubkey X req.pubkeyHex = .ok row.pubkey := by
  by_cases hdb : s'.shared.db = s.shared.db
  · exact Or.inl hdb
  refine Or.inr ?_
  rcases Sys.committed (P := fun _ => Governed X) (fun _ op => governed_along op) h Sys.calls_init
    rfl hs with ⟨hsame, -⟩ | ⟨i, op, c, k, tx, t, ds, hl, hsh, hdid, hgov, hcommit⟩
  · exact absurd hsame hdb
  obtain ⟨⟨entry, htx, hv, hfrom⟩, -, hafter⟩ :=
    (good h).legal sound hs (c := ⟨i, op, t, s.shared.db⟩) (by rw [hsh]; rfl)
  obtain rfl : t = entry.tx := htx
  refine ⟨i, _, entry, hl, hv, hfrom, ?_, fun caller hcaller => ?_, ?_⟩
  · rw [hafter, Commit.after, Entry.applyWrites_tx]
  · rcases hgov.checked caller hcaller with rfl | hseen
    · -- The check itself commits nothing.
      rcases hcommit with ⟨hc, -⟩ | ⟨-, o, st, a, ws, hc, hres, ht⟩
      · cases hc
      · obtain rfl := Cmd.stmt.inj hc
        obtain ⟨-, rfl⟩ := Prod.mk.inj (Except.ok.inj hres)
        refine absurd ?_ hdb
        rw [hsh, ht]
        rfl
    · obtain ⟨s₁, s₂, tx₂, hbefore, hdoes, hlater⟩ := hdid.oldest hseen
      obtain ⟨fault, o, hstep, hallow, hexec⟩ := hdoes.exec
      obtain ⟨hshared, -, ⟨e, hbad⟩ | hread⟩ := execCmd_read (D := database) rfl hexec
      · cases hbad
      obtain ⟨row, hrow, hadmin⟩ := Option.map_eq_some_iff.mp (Except.ok.inj hread).symm
      refine ⟨row, memberRow_kept (hbefore.tail ⟨_, hstep, hallow⟩) hlater ?_, hadmin⟩
      rw [hshared]
      exact hrow
  · rintro caller req b row rfl rfl
    obtain ⟨hnot, hkey⟩ := hgov.key caller req rfl
    rcases hcommit with ⟨hc, -⟩ | ⟨-, o, st, a, ws, rfl, hres, ht⟩
    · exact absurd hc hnot
    · have htrace := congrArg Tx.trace ht
      obtain ⟨rfl, -⟩ := Sigma.mk.inj (List.cons.inj htrace).1
      exact hkey b row.pubkey row.isAdmin rfl

/-! ## The admin -/

/-- An entry admits one whose flag is set only as the admin that is seeded. -/
theorem Entry.admin_seeded {db : Tables} {op : Op} {e : Entry} (hfrom : e.From op) {b : String}
    {row : MemberRow} (hnew : (e.apply db).members.lookup b = some row) (hadmin : row.isAdmin = true)
    (hold : db.members.lookup b ≠ some row) : op = .registerMember b row.pubkey true := by
  cases e with
  | addMember b' row' =>
    rw [apply, Table.lookup_put] at hnew
    split at hnew
    · rename_i hb
      subst hb
      obtain rfl := Option.some.inj hnew
      cases op with
      | registerMember b'' k a =>
        obtain ⟨rfl, hrow⟩ := hfrom
        subst hrow
        exact congrArg (Op.registerMember b k) hadmin
      | postMember caller req => exact absurd (hfrom.2.symm.trans hadmin) (by simp)
      | _ => exact hfrom.elim
    · exact absurd hnew hold
  | _ => exact absurd hnew hold

/-! ## Who signed -/

/-- Call it authenticated `r` as `bank`: the key that was looked up for it verified what the
    request says. -/
def Verified (X : Crypto) (r : Request) (bank : String) (ds : Deeds database) : Prop :=
  ∃ auth bytes key signature, readHeaders r = .ok auth ∧ auth.accountId = bank ∧
    [⟨.stmt (.selectMemberPubkey bank), .ok (some bytes)⟩] <:+ ds ∧
    X.ed25519FromBytes bytes = .ok key ∧ decodeSignature auth.signature = .ok signature ∧
    X.ed25519Verify key (utf8 (r.payload X auth)) signature = .ok ()

theorem memberKey_along (b : String) : Prog.Along (fun _ _ => True)
    (fun ds found => ∀ key, found = .ok (some key) → ∃ bytes,
      ds = [⟨.stmt (.selectMemberPubkey b), .ok (some bytes)⟩] ∧
        X.ed25519FromBytes bytes = .ok key) [] (memberPubkey X b).run := by
  unfold memberPubkey
  refine Prog.Along.query_bind trivial (fun _ _ h => by cases h) fun found => ?_
  cases found with
  | none => exact fun _ h => by cases h
  | some bytes =>
    dsimp only
    split
    · refine Prog.Along.orThrow_bind (fun _ _ _ h => by cases h) fun key hkey => ?_
      intro key' hkey'
      obtain rfl := Option.some.inj (Except.ok.inj hkey')
      refine ⟨bytes, rfl, ?_⟩
      cases hb : X.ed25519FromBytes bytes with
      | error e => exact absurd hkey (by simp [hb, Except.mapError])
      | ok key' => simpa [hb, Except.mapError] using hkey
    · exact fun _ h => by cases h

/-- What a call that answers with a bank has seen. -/
def Accepts (X : Crypto) (op : Op) (ds : Deeds database) (ans : Ans) : Prop :=
  ∀ r bank, op = .authenticate r → ans = .authenticate (.ok bank) → Verified X r bank ds

theorem accepts_along (op : Op) : Prog.Along (fun _ _ => True) (Accepts X op) [] (code X op) := by
  cases op with
  | authenticate r =>
    refine Prog.Along.map (fun ds result hresult => ?_) (accepted_along memberKey_along)
    intro r' bank hop hans
    obtain rfl := Op.authenticate.inj hop
    obtain ⟨auth, key, signature, ds₀, hauth, hbank, ⟨bytes, rfl, hbytes⟩, hds, hsig, hverify⟩ :=
      hresult bank (Ans.authenticate.inj hans)
    exact ⟨auth, bytes, key, signature, hauth, hbank, hds, hbytes, hsig, hverify⟩
  | _ => exact Prog.Along.of_forall (fun _ _ => trivial) fun _ _ _ _ hop => by cases hop

/-- The holder of the key that is registered for the bank signed `message`. -/
def Tables.SignedBy (X : Crypto) (Signed : Bytes → Bytes → Prop) (db : Tables) (bank : String)
    (message : Bytes) : Prop :=
  ∃ row key, db.members.lookup bank = some row ∧ X.ed25519FromBytes row.pubkey = .ok key ∧
    Signed key message

/-- **Who is authenticated signed the request**, with the key that is registered now. -/
theorem signedBy_of_answer {Signed : Bytes → Bytes → Prop} {s : Sys (service X)}
    (hsigned : ∀ key message signature, X.ed25519Verify key message signature = .ok () →
      Signed key message)
    (h : Sys.Steps .any (start X) s) {a : Answer (service X)} (ha : a ∈ s.answers) {r : Request}
    {bank : String} (hop : a.op = .authenticate r) (hans : a.ans = .authenticate (.ok bank)) :
    ∃ auth, readHeaders r = .ok auth ∧ auth.accountId = bank ∧
      s.shared.db.SignedBy X Signed bank (utf8 (r.payload X auth)) := by
  obtain ⟨-, hanswers⟩ := Sys.deeds (P := fun _ _ _ _ => True) (Q := fun _ => Accepts X)
    (fun _ op => accepts_along op) h Sys.calls_init
  obtain ⟨s₁, ds, tx, h₁, h₂, hdid, -, -, hverified⟩ := hanswers a ha (Nat.zero_le _)
  obtain ⟨auth, bytes, key, signature, hauth, rfl, hseen, hbytes, -, hverify⟩ :=
    hverified r bank hop hans
  obtain ⟨s₂, s₃, tx', hbefore, hdoes, hafter⟩ := hdid.oldest hseen
  obtain ⟨fault, o, hstep, hallow, hexec⟩ := hdoes.exec
  obtain ⟨hshared, -, ⟨e, hbad⟩ | hread⟩ := execCmd_read (D := database) rfl hexec
  · cases hbad
  obtain ⟨row, hrow, rfl⟩ := Option.map_eq_some_iff.mp (Except.ok.inj hread).symm
  refine ⟨auth, hauth, rfl, row, key, ?_, hbytes, hsigned _ _ _ hverify⟩
  refine memberRow_kept (hbefore.tail ⟨_, hstep, hallow⟩) (hafter.trans h₂) ?_
  rw [hshared]
  exact hrow

/-! ## Behind the router -/

variable {ex : Extractors}

/-- What a handler calls is asked for by a `POST` to its path, and is done for the bank that was
    authenticated. -/
theorem handler_ok {bank : String} {r : Request} {op : Op}
    (h : ex.handler bank r = .ok (some op)) : r.method = "POST" ∧
      ((∃ req, op = .postMember bank req ∧ r.path = "/members" ∧ ex.registerMember r.body = .ok req) ∨
      (∃ sub, op = .postSerial bank sub ∧ r.path = "/serials" ∧ ex.submission r.body = .ok sub) ∨
      (∃ req, op = .postCap bank req ∧ r.path = "/caps" ∧ ex.setCap r.body = .ok req) ∨
      op = .postSettle bank ∧ r.path = "/settle") := by
  have hact : ∀ {α : Type} {decode : Bytes → Except ApiError α} {call : α → Op},
      ex.act decode call r = .ok (some op) → ∃ req, decode r.body = .ok req ∧ op = call req := by
    intro α decode call h
    unfold Extractors.act at h
    obtain ⟨-, -, h⟩ := ok_of_bind h
    obtain ⟨req, hreq, h⟩ := ok_of_bind h
    exact ⟨req, hreq, (Option.some.inj (Except.ok.inj h)).symm⟩
  unfold Extractors.handler at h
  split at h
  · rename_i hpath
    split at h
    · rename_i hpost
      obtain ⟨req, hreq, rfl⟩ := hact h
      exact ⟨hpost, Or.inl ⟨req, rfl, hpath, hreq⟩⟩
    · split at h <;> cases h
  split at h
  · rename_i hpath
    split at h
    · rename_i hpost
      obtain ⟨sub, hsub, rfl⟩ := hact h
      exact ⟨hpost, Or.inr (Or.inl ⟨sub, rfl, hpath, hsub⟩)⟩
    · cases h
  split at h
  · rename_i hpath
    split at h
    · rename_i hpost
      obtain ⟨req, hreq, rfl⟩ := hact h
      exact ⟨hpost, Or.inr (Or.inr (Or.inl ⟨req, rfl, hpath, hreq⟩))⟩
    · split at h <;> cases h
  split at h
  · rename_i hpath
    split at h
    · rename_i hpost
      cases h
      exact ⟨hpost, Or.inr (Or.inr (Or.inr ⟨rfl, hpath⟩))⟩
    · cases h
  · cases h

namespace Router

variable {A : Option String → Prop} {s s' : Router X}

/-- The handler of a request that was authenticated calls this. -/
def Handled (ex : Extractors) (s : Router X) (op : Op) : Prop :=
  ∃ a ∈ s.registry.answers, ∃ r bank, a.op = .authenticate r ∧
    a.ans = .authenticate (.ok bank) ∧ ex.handler bank r = .ok (some op)

/-- Where a call may come from: `main` seeds the admin with a key it is configured with, and
    what acts for a bank was handled. -/
structure Entitled (ex : Extractors) (A : Option String → Prop) (s : Router X) (op : Op) :
    Prop where
  seeded : ∀ b k a, op = .registerMember b k a → b = "admin" ∧ a = true ∧
    ∃ configured, A (some configured) ∧ adminKey X configured = some k
  handled : ∀ caller, op.caller = some caller → s.Handled ex op

theorem Entitled.of_answers {op : Op} (h : s.Entitled ex A op)
    (hans : ∀ a ∈ s.registry.answers, a ∈ s'.registry.answers) : s'.Entitled ex A op := by
  refine ⟨h.seeded, fun caller hcaller => ?_⟩
  obtain ⟨a, ha, hrest⟩ := h.handled caller hcaller
  exact ⟨a, hans a ha, hrest⟩

/-- What a step begins it may begin. -/
def Begins (ex : Extractors) (A : Option String → Prop) (s s' : Router X) : Prop :=
  s'.registry = s.registry ∨ ∃ e, s.registry.step e = some s'.registry ∧
    ∀ op, e = .start op → s.Entitled ex A op

/-- `main` is only ever in a start whose configuration is allowed. -/
def Allowed (A : Option String → Prop) (s : Router X) : Prop :=
  ∀ i configured, s.stage = .connecting i configured → A configured

theorem authenticated_answer {i : CallId} {r : Request} {bank : String}
    (h : s.authenticated i = some (r, bank)) : ∃ a ∈ s.registry.answers,
      a.op = .authenticate r ∧ a.ans = .authenticate (.ok bank) := by
  obtain ⟨a, ha, hfound⟩ := List.exists_of_findSome?_eq_some h
  split at hfound
  · rename_i hop hans
    split at hfound
    · obtain ⟨rfl, rfl⟩ := Prod.mk.inj (Option.some.inj hfound)
      exact ⟨a, ha, hop, hans⟩
    · cases hfound
  · cases hfound

theorem begins_begin {op : Op} {stage : Stage} (hop : s.Entitled ex A op)
    (hs : s.begin op stage = some s') : Begins ex A s s' ∧ s'.stage = stage := by
  obtain ⟨t, ht, rfl⟩ := Option.map_eq_some_iff.mp hs
  refine ⟨Or.inr ⟨_, ht, fun op' he => ?_⟩, rfl⟩
  obtain rfl := Event.start.inj he
  exact hop

theorem begins_exit (hs : s.exit = some s') : Begins ex A s s' ∧ s'.stage = .down := by
  obtain ⟨t, ht, rfl⟩ := Option.map_eq_some_iff.mp hs
  exact ⟨Or.inr ⟨_, ht, fun op he => by cases he⟩, rfl⟩

/-- A step is a step of the registry or leaves it alone, and what begins may begin. -/
theorem step_begins {e : RouterEvent X} (hallowed : s.Allowed A) (hs : s.step ex e = some s')
    (he : ∀ configured, e = .main configured → A configured) :
    Begins ex A s s' ∧ s'.Allowed A := by
  have hfree : ∀ {op : Op}, (∀ b k a, op ≠ .registerMember b k a) → op.caller = none →
      s.Entitled ex A op := by
    intro op hop hcaller
    refine ⟨fun b k a h => absurd h (hop b k a), fun caller h => ?_⟩
    exact absurd (h.symm.trans hcaller) (by simp)
  have hexit : s.exit = some s' → Begins ex A s s' ∧ s'.Allowed A := by
    intro hs
    obtain ⟨hb, hstage⟩ := begins_exit hs
    exact ⟨hb, fun i c h => by rw [hstage] at h; cases h⟩
  have hsame : ∀ {t : Sys (service X)} {e' : Event (service X)} {l : List CallId},
      s.registry.step e' = some t → (∀ op, e' = .start op → s.Entitled ex A op) →
      Begins ex A s { s with registry := t, passed := l } ∧
        Allowed A { s with registry := t, passed := l } :=
    fun ht hop => ⟨Or.inr ⟨_, ht, hop⟩, hallowed⟩
  cases e with
  | main configured =>
    simp only [step] at hs
    split at hs
    · obtain ⟨hb, hstage⟩ := begins_begin (hfree (fun _ _ _ h => by cases h) rfl) hs
      refine ⟨hb, fun i c h => ?_⟩
      rw [hstage] at h
      obtain ⟨-, rfl⟩ := Stage.connecting.inj h
      exact he _ rfl
    · cases hs
  | seed =>
    simp only [step] at hs
    split at hs
    · rename_i i configured hstage
      split at hs
      · split at hs
        · obtain rfl := Option.some.inj hs
          exact ⟨Or.inl rfl, fun i c h => by cases h⟩
        · rename_i configured
          split at hs
          · rename_i key hkey
            have hseeds : s.Entitled ex A (.registerMember "admin" key true) := by
              refine ⟨fun b k a h => ?_, fun caller h => by cases h⟩
              obtain ⟨rfl, rfl, rfl⟩ := Op.registerMember.inj h
              exact ⟨rfl, rfl, configured, hallowed _ _ hstage, hkey⟩
            obtain ⟨hb, hstage⟩ := begins_begin hseeds hs
            exact ⟨hb, fun i c h => by rw [hstage] at h; cases h⟩
          · exact hexit hs
      · exact hexit hs
      · cases hs
    · cases hs
  | serve =>
    simp only [step] at hs
    split at hs
    · split at hs
      · obtain rfl := Option.some.inj hs
        exact ⟨Or.inl rfl, fun i c h => by cases h⟩
      · obtain rfl := Option.some.inj hs
        exact ⟨Or.inl rfl, fun i c h => by cases h⟩
      · exact hexit hs
      · cases hs
    · cases hs
  | request r =>
    simp only [step] at hs
    split at hs
    · obtain ⟨hb, hstage⟩ := begins_begin (hfree (fun _ _ _ h => by cases h) rfl) hs
      exact ⟨hb, fun i c h => hallowed i c (hstage ▸ h)⟩
    · obtain rfl := Option.some.inj hs
      exact ⟨Or.inl rfl, hallowed⟩
  | next i =>
    simp only [step] at hs
    split at hs
    · cases hs
    obtain ⟨⟨r, bank⟩, hauth, hs⟩ := Option.bind_eq_some_iff.mp hs
    split at hs
    · rename_i op hop
      obtain ⟨t, ht, rfl⟩ := Option.map_eq_some_iff.mp hs
      obtain ⟨a, ha, haop, hans⟩ := authenticated_answer hauth
      refine hsame ht fun op' he' => ?_
      obtain rfl := Event.start.inj he'
      refine ⟨fun b k a' h => ?_, fun caller _ => ⟨a, ha, r, bank, haop, hans, hop⟩⟩
      subst h
      obtain ⟨-, ⟨_, h, -⟩ | ⟨_, h, -⟩ | ⟨_, h, -⟩ | ⟨h, -⟩⟩ := handler_ok hop <;> cases h
    · obtain rfl := Option.some.inj hs
      exact ⟨Or.inl rfl, hallowed⟩
  | registry e =>
    cases e with
    | start op => cases hs
    | crash κ => exact hexit hs
    | step i fault o =>
      obtain ⟨t, ht, rfl⟩ := Option.map_eq_some_iff.mp hs
      exact hsame ht fun _ he' => by cases he'
    | drop i =>
      obtain rfl := Option.some.inj hs
      exact hsame (show Sys.step _ (.drop i) = some _ from rfl) fun _ he' => by cases he'

/-- Every call in flight, and every call that has committed, began as it may. -/
structure Sound (ex : Extractors) (A : Option String → Prop) (s : Router X) : Prop where
  allowed : s.Allowed A
  live : ∀ i ss, s.registry.live i = some ss → s.Entitled ex A ss.op
  commits : ∀ c ∈ s.registry.shared.hist, s.Entitled ex A c.op

/-- Behind the router the registry runs as any registry does, and every call began as it may. -/
theorem steps_registry (h : Steps ex A (start X) s) :
    Sys.Steps .any (Registry.start X) s.registry ∧ s.Sound ex A := by
  induction h with
  | refl =>
    refine ⟨.refl, fun i c h => (by cases h), fun i ss hl => ?_, fun c hc => ?_⟩
    · exact absurd hl (by simp [start, Registry.start, Sys.init])
    · exact absurd hc (by simp [start, Registry.start, Sys.init])
  | @tail s₁ s₂ _ hstep ih =>
    obtain ⟨e, hs, he⟩ := hstep
    obtain ⟨hrun, hsound⟩ := ih
    obtain ⟨heq | ⟨e', he', hbegun⟩, hallowed⟩ := step_begins hsound.allowed hs he
    · have hans : ∀ a ∈ s₁.registry.answers, a ∈ s₂.registry.answers := fun a ha => by rwa [heq]
      refine ⟨by rwa [heq], hallowed, fun i ss hl => ?_, fun c hc => ?_⟩
      · exact (hsound.live i ss (heq ▸ hl)).of_answers hans
      · exact (hsound.commits c (heq ▸ hc)).of_answers hans
    · have hans : ∀ a ∈ s₁.registry.answers, a ∈ s₂.registry.answers := fun a ha =>
        Sys.mem_answers_step he' ha
      refine ⟨hrun.tail ⟨e', he', Policy.any_allows _ _ _⟩, hallowed, fun i ss hl => ?_,
        fun c hc => ?_⟩
      · rcases Sys.live_step he' hl with ⟨-, op, rfl, rfl⟩ | hold | ⟨op, _, _, _, _, _, hold, rfl⟩
        · exact (hbegun op rfl).of_answers hans
        · exact (hsound.live i ss hold).of_answers hans
        · exact (hsound.live i _ hold).of_answers hans
      · rcases Sys.hist_step he' with hsame | ⟨c', ss, hl, hop, hnew⟩
        · exact (hsound.commits c (hsame ▸ hc)).of_answers hans
        · rcases List.mem_cons.mp (hnew ▸ hc) with rfl | hc
          · exact hop ▸ (hsound.live _ ss hl).of_answers hans
          · exact (hsound.commits c hc).of_answers hans

/-! ## Only the admin governs -/

variable {Signed : Bytes → Bytes → Prop}

/-- The holder of the bank's key signed a request to `POST` this body. -/
def Posted (Signed : Bytes → Bytes → Prop) (s : Router X) (bank path : String) (body : Bytes) :
    Prop :=
  ∃ timestamp nonce, s.registry.shared.db.SignedBy X Signed bank
    (utf8 (canonicalPayload X "POST" path body timestamp nonce))

theorem posted_of_answer
    (hsigned : ∀ key message signature, X.ed25519Verify key message signature = .ok () →
      Signed key message)
    (h : Sys.Steps .any (Registry.start X) s.registry) {a : Answer (service X)}
    (ha : a ∈ s.registry.answers) {r : Request} {bank path : String} (hop : a.op = .authenticate r)
    (hans : a.ans = .authenticate (.ok bank)) (hmethod : r.method = "POST")
    (hpath : r.path = path) : s.Posted Signed bank path r.body := by
  obtain ⟨auth, -, -, hsig⟩ := signedBy_of_answer hsigned h ha hop hans
  rw [Request.payload, hmethod, hpath] at hsig
  exact ⟨auth.timestamp, auth.nonce, hsig⟩

/-- The admin's key was configured: the one that was there first stays. -/
def Configured (X : Crypto) (A : Option String → Prop) (b : String) (row : MemberRow) : Prop :=
  b = "admin" ∧ ∃ configured, A (some configured) ∧ adminKey X configured = some row.pubkey

theorem admin_configured (h : Steps ex A (start X) s) : ∀ b row,
    s.registry.shared.db.members.lookup b = some row → row.isAdmin = true →
      Configured X A b row := by
  induction h with
  | refl => exact fun b row hrow => absurd hrow (by simp [start, Registry.start, Sys.init, Tables.empty])
  | @tail s₁ s₂ hrun hstep ih =>
    intro b row hrow hadmin
    by_cases hold : s₁.registry.shared.db.members.lookup b = some row
    · exact ih b row hold hadmin
    obtain ⟨e, hs, he⟩ := hstep
    obtain ⟨hany, hsound⟩ := steps_registry hrun
    obtain ⟨heq | ⟨e', he', -⟩, -⟩ := step_begins hsound.allowed hs he
    · exact absurd (heq ▸ hrow) hold
    rcases governed_step hany he' with hdb | ⟨i, ss, entry, hl, -, hfrom, hdb, -, -⟩
    · exact absurd (hdb ▸ hrow) hold
    rw [hdb] at hrow
    have hop := Entry.admin_seeded hfrom hrow hadmin hold
    obtain ⟨hb, -, hconfigured⟩ := (hsound.live i ss hl).seeded _ _ _ hop
    exact ⟨hb, hconfigured⟩

/-- What the tables of governance go through in one step. -/
structure Governs (ex : Extractors) (A : Option String → Prop) (Signed : Bytes → Bytes → Prop)
    (s s' : Router X) : Prop where
  /-- A member stays as it is. -/
  kept : ∀ b row, s.registry.shared.db.members.lookup b = some row →
    s'.registry.shared.db.members.lookup b = some row
  /-- A new one is the admin that `main` seeds, or the admin signed that it be admitted. -/
  admitted : ∀ b row, s.registry.shared.db.members.lookup b = none →
    s'.registry.shared.db.members.lookup b = some row →
      row.isAdmin = true ∧ Configured X A b row ∨
      row.isAdmin = false ∧ ∃ body req, ex.registerMember body = .ok req ∧ req.bankId = b ∧
        Api.parsePubkey X req.pubkeyHex = .ok row.pubkey ∧
          s'.Posted Signed "admin" "/members" body
  /-- A cap changes to what the admin signed. -/
  capped : ∀ p, s'.registry.shared.db.exposureCaps.lookup p ≠
    s.registry.shared.db.exposureCaps.lookup p → ∃ body req cap, ex.setCap body = .ok req ∧
      p = ⟨req.issuingBankId, req.depositingBankId⟩ ∧ i64TryFrom req.capCents = some cap ∧
        s'.registry.shared.db.exposureCaps.lookup p = some cap ∧
          s'.Posted Signed "admin" "/caps" body
  /-- A claim comes about, and a receivable decreases, as the admin signed that there be a
      settlement. -/
  settled : (∃ id, s'.registry.shared.db.settlementClaims.lookup id ≠
      s.registry.shared.db.settlementClaims.lookup id) ∨
    (∃ p, (s'.registry.shared.db.receivables.lookup p).getD 0 <
      (s.registry.shared.db.receivables.lookup p).getD 0) →
    ∃ body, s'.Posted Signed "admin" "/settle" body

/-- Whoever governs is the admin, whose request it is. -/
theorem posted_of_governor
    (hsigned : ∀ key message signature, X.ed25519Verify key message signature = .ok () →
      Signed key message)
    (h : Steps ex A (start X) s) (hstep : Step ex A s s') {op : Op} {caller : String}
    (hop : s.Entitled ex A op) (hgovernor : op.governor = some caller)
    (hadmin : ∃ row, s.registry.shared.db.members.lookup caller = some row ∧ row.isAdmin = true) :
    ∃ r, ex.handler "admin" r = .ok (some op) ∧
      s'.Posted Signed "admin" r.path r.body := by
  obtain ⟨row, hrow, hflag⟩ := hadmin
  obtain ⟨rfl, -⟩ := admin_configured h caller row hrow hflag
  have hcaller : op.caller = some "admin" := by
    cases op <;> first | exact hgovernor | cases hgovernor
  obtain ⟨a, ha, r, bank, haop, hans, hhandler⟩ := hop.handled _ hcaller
  obtain ⟨hpost, hcases⟩ := handler_ok hhandler
  obtain rfl : bank = "admin" := by
    obtain ⟨_, rfl, -⟩ | ⟨_, rfl, -⟩ | ⟨_, rfl, -⟩ | ⟨rfl, -⟩ := hcases <;>
      exact Option.some.inj hcaller
  obtain ⟨e, hs, he⟩ := id hstep
  have ha' : a ∈ s'.registry.answers := by
    obtain ⟨heq | ⟨e', he', -⟩, -⟩ := step_begins (steps_registry h).2.allowed hs he
    · rwa [heq]
    · exact Sys.mem_answers_step he' ha
  exact ⟨r, hhandler,
    posted_of_answer hsigned (steps_registry (h.tail hstep)).1 ha' haop hans hpost rfl⟩

/-- What there is to know of a step that commits `entry` for `op`. -/
structure Commits (ex : Extractors) (A : Option String → Prop) (Signed : Bytes → Bytes → Prop)
    (s s' : Router X) (op : Op) (entry : Entry) : Prop where
  entitled : s.Entitled ex A op
  valid : entry.Valid s.registry.shared.db
  origin : entry.From op
  after : s'.registry.shared.db = entry.apply s.registry.shared.db
  posted : ∀ caller, op.governor = some caller → ∃ r, ex.handler "admin" r = .ok (some op) ∧
    s'.Posted Signed "admin" r.path r.body
  key : ∀ caller req b row, op = .postMember caller req → entry = .addMember b row →
    Api.parsePubkey X req.pubkeyHex = .ok row.pubkey

theorem commits_of_step
    (hsigned : ∀ key message signature, X.ed25519Verify key message signature = .ok () →
      Signed key message)
    (h : Steps ex A (start X) s) (hstep : Step ex A s s') :
    s'.registry.shared.db = s.registry.shared.db ∨
      ∃ op entry, Commits ex A Signed s s' op entry := by
  obtain ⟨e, hs, he⟩ := id hstep
  obtain ⟨hany, hsound⟩ := steps_registry h
  obtain ⟨heq | ⟨e', he', -⟩, -⟩ := step_begins hsound.allowed hs he
  · exact Or.inl (by rw [heq])
  rcases governed_step hany he' with hdb | ⟨i, ss, entry, hl, hv, hfrom, hdb, hchecked, hkey⟩
  · exact Or.inl hdb
  have hop := hsound.live i ss hl
  exact Or.inr ⟨ss.op, entry, hop, hv, hfrom, hdb,
    fun caller hg => posted_of_governor hsigned h hstep hop hg (hchecked caller hg), hkey⟩

namespace Commits

variable {op : Op} {entry : Entry}

theorem admitted (h : Commits ex A Signed s s' op entry) {b : String} {row : MemberRow}
    (hnone : s.registry.shared.db.members.lookup b = none)
    (hrow : s'.registry.shared.db.members.lookup b = some row) :
    row.isAdmin = true ∧ Configured X A b row ∨
      row.isAdmin = false ∧ ∃ body req, ex.registerMember body = .ok req ∧ req.bankId = b ∧
        Api.parsePubkey X req.pubkeyHex = .ok row.pubkey ∧
          s'.Posted Signed "admin" "/members" body := by
  have hfrom := h.origin
  rw [h.after] at hrow
  cases entry with
  | addMember b' row' =>
    rw [Entry.apply, Table.lookup_put] at hrow
    split at hrow
    · rename_i hb
      subst hb
      obtain rfl := Option.some.inj hrow
      cases op with
      | registerMember b'' k a =>
        obtain ⟨rfl, hrow⟩ := hfrom
        subst hrow
        obtain ⟨rfl, rfl, hconfigured⟩ := h.entitled.seeded _ _ _ rfl
        exact Or.inl ⟨rfl, rfl, hconfigured⟩
      | postMember caller req =>
        obtain ⟨rfl, hflag⟩ := hfrom
        obtain ⟨r, hhandler, hposted⟩ := h.posted caller rfl
        obtain ⟨-, ⟨req', hop, hpath, hbody⟩ | ⟨_, hop, -⟩ | ⟨_, hop, -⟩ | ⟨hop, -⟩⟩ :=
          handler_ok hhandler
        · obtain ⟨rfl, rfl⟩ := Op.postMember.inj hop
          exact Or.inr ⟨hflag, r.body, req, hbody, rfl, h.key _ _ _ _ rfl rfl, hpath ▸ hposted⟩
        all_goals cases hop
      | _ => exact hfrom.elim
    · exact absurd (hnone.symm.trans hrow) (by simp)
  | _ => exact absurd (hnone.symm.trans hrow) (by simp)

theorem capped (h : Commits ex A Signed s s' op entry) {p : Pair}
    (hne : s'.registry.shared.db.exposureCaps.lookup p ≠
      s.registry.shared.db.exposureCaps.lookup p) :
    ∃ body req cap, ex.setCap body = .ok req ∧
      p = ⟨req.issuingBankId, req.depositingBankId⟩ ∧ i64TryFrom req.capCents = some cap ∧
        s'.registry.shared.db.exposureCaps.lookup p = some cap ∧
          s'.Posted Signed "admin" "/caps" body := by
  have hfrom := h.origin
  rw [h.after] at hne ⊢
  cases entry with
  | setCap p' cap =>
    by_cases hp : p = p'
    · subst hp
      cases op with
      | postCap caller req =>
        obtain ⟨rfl, hcap⟩ := hfrom
        obtain ⟨r, hhandler, hposted⟩ := h.posted caller rfl
        obtain ⟨-, ⟨_, hop, -⟩ | ⟨_, hop, -⟩ | ⟨req', hop, hpath, hbody⟩ | ⟨hop, -⟩⟩ :=
          handler_ok hhandler
        · cases hop
        · cases hop
        · obtain ⟨rfl, rfl⟩ := Op.postCap.inj hop
          exact ⟨r.body, req, cap, hbody, rfl, hcap, Table.lookup_put_self _ _ _, hpath ▸ hposted⟩
        · cases hop
      | _ => exact hfrom.elim
    · exact absurd (Table.lookup_put_ne hp) hne
  | _ => exact absurd rfl hne

theorem settled (h : Commits ex A Signed s s' op entry)
    (hsettled : (∃ id, s'.registry.shared.db.settlementClaims.lookup id ≠
        s.registry.shared.db.settlementClaims.lookup id) ∨
      ∃ p, (s'.registry.shared.db.receivables.lookup p).getD 0 <
        (s.registry.shared.db.receivables.lookup p).getD 0) :
    ∃ body, s'.Posted Signed "admin" "/settle" body := by
  have hfrom := h.origin
  have hv := h.valid
  rw [h.after] at hsettled
  cases entry with
  | settle read claims cleared =>
    cases op with
    | postSettle caller =>
      obtain ⟨r, hhandler, hposted⟩ := h.posted caller rfl
      obtain ⟨-, ⟨_, hop, -⟩ | ⟨_, hop, -⟩ | ⟨_, hop, -⟩ | ⟨-, hpath⟩⟩ := handler_ok hhandler
      · cases hop
      · cases hop
      · cases hop
      · exact ⟨r.body, hpath ▸ hposted⟩
    | _ => exact hfrom.elim
  | accept check id pair key row outstanding =>
    -- A submission only adds, and claims nothing.
    obtain ⟨-, -, -, hout, hdenom, -⟩ := hv
    rcases hsettled with ⟨id', hne⟩ | ⟨p, hlt⟩
    · exact absurd rfl hne
    · rw [Entry.apply, Table.lookup_put] at hlt
      split at hlt
      · rename_i hp
        subst hp
        rw [hout, Option.getD_some] at hlt
        omega
      · exact absurd hlt (lt_irrefl _)
  | _ =>
    rcases hsettled with ⟨id', hne⟩ | ⟨p, hlt⟩
    · exact absurd rfl hne
    · exact absurd hlt (lt_irrefl _)

end Commits

theorem governs_of_step
    (hsigned : ∀ key message signature, X.ed25519Verify key message signature = .ok () →
      Signed key message)
    (h : Steps ex A (start X) s) (hstep : Step ex A s s') : Governs ex A Signed s s' := by
  rcases commits_of_step hsigned h hstep with hdb | ⟨op, entry, hcommits⟩
  · refine ⟨fun b row hrow => ?_, fun b row hnone hrow => ?_, fun p hne => ?_, ?_⟩
    · rwa [hdb]
    · rw [hdb, hnone] at hrow
      cases hrow
    · exact absurd (by rw [hdb]) hne
    · rintro (⟨id, hne⟩ | ⟨p, hlt⟩)
      · exact absurd (by rw [hdb]) hne
      · rw [hdb] at hlt
        exact absurd hlt (lt_irrefl _)
  · refine ⟨fun b row hrow => ?_, fun b row => hcommits.admitted, fun p => hcommits.capped,
      hcommits.settled⟩
    rw [hcommits.after]
    exact Entry.memberRow_stays hcommits.valid hrow

/-- **Only the admin governs the registry.** In every run behind the router, the flag of the admin
    is on nobody but the bank `main` seeds, with a key it was configured with, and every step
    leaves members, caps, claims and receivables alone or does to them what was signed under
    that one key. -/
theorem only_admin_governs
    (hsigned : ∀ key message signature, X.ed25519Verify key message signature = .ok () →
      Signed key message) :
    (∀ s, Steps ex A (start X) s → ∀ b row, s.registry.shared.db.members.lookup b = some row →
      row.isAdmin = true → Configured X A b row) ∧
    ∀ s s', Steps ex A (start X) s → Step ex A s s' → Governs ex A Signed s s' :=
  ⟨fun _ h => admin_configured h, fun _ _ h hstep => governs_of_step hsigned h hstep⟩

/-- `n` steps of call `i` in which nothing goes wrong. -/
def go (i : CallId) (n : Nat) : List (RouterEvent .toy) :=
  (Registry.go i n).map .registry

/-- Decoders that read one request each from any body. -/
def toyExtractors : Extractors where
  contentType _ := .ok ()
  registerMember _ := .ok ⟨"bank-b", Hex.encode (.replicate 32 0)⟩
  submission _ := .ok (toySubmission "s1")
  setCap _ := .error ⟨422, ""⟩

/-- The registry starts and seeds its admin, who asks for a member; the row is about to be
    inserted. -/
def admitting : List (RouterEvent .toy) :=
  .main (some (Hex.encode (.replicate 32 0))) :: go 0 4 ++ .seed :: go 1 2 ++ .serve ::
    .request (toyPost "admin" "/members" 97) :: go 2 5 ++ .next 2 :: go 3 1

theorem only_admin_governs_admitting : ∃ s s' : Router .toy,
    Governs toyExtractors (fun _ => True) (Verifies .toy) s s' ∧
      s.registry.shared.db.members.lookup "bank-b" = none ∧
      s'.registry.shared.db.members.lookup "bank-b" = some ⟨.replicate 32 0, false⟩ := by
  have hrun : ((start .toy).run toyExtractors admitting).any (fun s =>
      (s.step toyExtractors (.registry (.step 3 .none default))).any fun s' =>
        decide (s.registry.shared.db.members.lookup "bank-b" = none ∧
          s'.registry.shared.db.members.lookup "bank-b" = some ⟨.replicate 32 0, false⟩)) =
      true := by decide +kernel
  obtain ⟨s, hs, hp⟩ := (Option.any_eq_true _ _).mp hrun
  obtain ⟨s', hs', hrows⟩ := (Option.any_eq_true _ _).mp hp
  obtain ⟨hnone, hsome⟩ := of_decide_eq_true hrows
  refine ⟨s, s', (only_admin_governs (fun _ _ signature h => ⟨signature, h⟩)).2 s s'
    (steps_of_run hs fun _ _ => trivial) ⟨_, hs', fun _ he => by cases he⟩, hnone, hsome⟩

/-! ## Evidence -/

/-- The holder of the key of the transcript's bank signed a body that says it. -/
def Authentic (ex : Extractors) (Signed : Bytes → Bytes → Prop) (s : Router X)
    (row : TranscriptRow) : Prop :=
  ∃ body submission denom, ex.submission body = .ok submission ∧
    i64TryFrom submission.denominationCents = some denom ∧
    row.serial = serialKey submission denom ∧ row.transcript = submission.transcript ∧
      s.Posted Signed row.bankId "/serials" body

end Router

/-- A transcript was submitted by its bank. -/
theorem transcript_submitted {s : Sys (service X)} (h : Sys.Steps .any (start X) s) {id : Nat}
    {row : TranscriptRow} (hid : s.shared.db.transcripts.lookup id = some row) :
    ∃ c ∈ s.shared.hist, ∃ submission denom, c.op = .postSerial row.bankId submission ∧
      i64TryFrom submission.denominationCents = some denom ∧
      row.serial = serialKey submission denom ∧ row.transcript = submission.transcript := by
  refine invariant (J := fun sh => ∀ id row, sh.db.transcripts.lookup id = some row →
    ∃ c ∈ sh.hist, ∃ submission denom, c.op = .postSerial row.bankId submission ∧
      i64TryFrom submission.denominationCents = some denom ∧
      row.serial = serialKey submission denom ∧ row.transcript = submission.transcript) h
    (fun _ _ hid => absurd hid (by simp [Tables.empty])) ?_ (fun hj => hj) id row hid
  intro sh call op e _ hj _ hfrom _ id row hid
  have hold : sh.db.transcripts.lookup id = some row →
      ∃ c ∈ (⟨call, op, e.tx, sh.db⟩ : Commit database Op) :: sh.hist, ∃ submission denom,
        c.op = .postSerial row.bankId submission ∧
        i64TryFrom submission.denominationCents = some denom ∧
        row.serial = serialKey submission denom ∧ row.transcript = submission.transcript := by
    intro hid
    obtain ⟨c, hc, hrest⟩ := hj id row hid
    exact ⟨c, List.mem_cons_of_mem _ hc, hrest⟩
  have hnew : ∀ {id' : Nat} {key : SerialKey} {first : SerialRow} {pair : Pair} {caller : String}
      {submission : SerialSubmission}, op = .postSerial caller submission →
      Records caller submission pair key first →
      (sh.db.transcripts.put id' (some (first.transcriptRow key))).lookup id = some row →
      ∃ c ∈ (⟨call, op, e.tx, sh.db⟩ : Commit database Op) :: sh.hist, ∃ submission denom,
        c.op = .postSerial row.bankId submission ∧
        i64TryFrom submission.denominationCents = some denom ∧
        row.serial = serialKey submission denom ∧ row.transcript = submission.transcript := by
    intro id' key first pair caller submission hop hrec hid
    rw [Table.lookup_put] at hid
    split at hid
    · obtain rfl := Option.some.inj hid
      obtain ⟨denom, hdenom, hkey⟩ := hrec.key
      refine ⟨_, List.mem_cons_self .., submission, denom, ?_, hdenom, hkey, hrec.firstTranscript⟩
      show op = .postSerial first.firstBankId submission
      rw [hrec.firstBankId, hop]
    · exact hold hid
  cases e with
  | accept check id' pair key first outstanding =>
    cases op with
    | postSerial caller submission => exact hnew rfl hfrom hid
    | _ => exact hfrom.elim
  | doubleSpend check id' pair key first seen =>
    cases op with
    | postSerial caller submission => exact hnew rfl hfrom hid
    | _ => exact hfrom.elim
  | _ => exact hold hid

/-- What a double-spend read was there, or is its own transcript. -/
theorem read_of_doubleSpend {s : Sys (service X)} (h : Sys.Steps .any (start X) s)
    {c : Commit database Op} (hc : c ∈ s.shared.hist) {check : CapCheck} {id : Nat} {pair : Pair}
    {key : SerialKey} {row : SerialRow} {seen : List TranscriptRow}
    (htx : c.tx = (Entry.doubleSpend check id pair key row seen).tx) :
    ∀ row' ∈ seen, row'.serial = key ∧ ∃ id', s.shared.db.transcripts.lookup id' = some row' := by
  have hran := ((Sys.ran_of_steps h (quiescent_start X)).commits c hc).resolve_left
    (fun hc => absurd hc (by simp [start, Sys.init]))
  rw [htx] at hran
  obtain ⟨t, s₁, s₂, -, htrace, hbefore, hstep, hselect, hafter⟩ := hran.last rfl
  obtain ⟨-, o, -, ws, hres, heq⟩ := hselect.step
  have hseen : (t.view s₁.shared.db).transcriptsOf key = seen ∧ ws = [] := by
    simp only [exec, Effect.read, Except.ok.injEq, Prod.mk.injEq] at hres
    exact ⟨hres.1, hres.2.symm⟩
  obtain ⟨rfl, rfl⟩ := hseen
  have hwrites : t.writes = [⟨.transcript id, some (row.transcriptRow key)⟩] := by
    have hw := congrArg Tx.writes heq
    simp only [Tx.push, List.append_nil] at hw
    rw [← hw]
    simp only [Entry.tx, Entry.serialTx, Entry.transcriptTx, Entry.ran, Tx.push,
      Entry.writes_capTx]
    rfl
  have hview : t.view s₁.shared.db = { s₁.shared.db with
      transcripts := s₁.shared.db.transcripts.put id (some (row.transcriptRow key)) } := by
    rw [Tx.view, hwrites]
    rfl
  intro row' hrow'
  rw [hview] at hrow'
  obtain ⟨⟨id', row₁⟩, hmem, rfl⟩ := List.mem_map.mp hrow'
  obtain ⟨hid', hserial⟩ := mem_transcriptsOf.mp hmem
  refine ⟨hserial, id', ?_⟩
  rw [Table.lookup_put] at hid'
  split at hid'
  · rename_i hid
    obtain rfl : id' = id := hid
    obtain rfl := Option.some.inj hid'
    exact own_transcript h hc htx
  · exact transcript_kept hbefore (.head hstep hafter) hid'

theorem mem_of_mapM_toEntry : ∀ {rows : List TranscriptRow} {entries : List TranscriptEntry},
    rows.mapM toEntry = .ok entries → ∀ entry ∈ entries, ∃ row ∈ rows, toEntry row = .ok entry := by
  intro rows
  induction rows with
  | nil =>
    intro entries h entry hentry
    obtain rfl : [] = entries := Except.ok.inj h
    exact absurd hentry (by simp)
  | cons row rows ih =>
    intro entries h entry hentry
    rw [List.mapM_cons] at h
    obtain ⟨e, he, h⟩ := ok_of_bind h
    obtain ⟨rest, hrest, h⟩ := ok_of_bind h
    obtain rfl : e :: rest = entries := Except.ok.inj h
    rcases List.mem_cons.mp hentry with rfl | hentry
    · exact ⟨row, List.mem_cons_self .., he⟩
    · obtain ⟨row', hrow', hof⟩ := ih hrest entry hentry
      exact ⟨row', List.mem_cons_of_mem _ hrow', hof⟩

/-- What a double-spend is answered with are transcripts of its serial that are there. -/
theorem listed_recorded {s : Sys (service X)} (h : Sys.Steps .any (start X) s)
    {a : Answer (service X)} (ha : a ∈ s.answers) {caller : String}
    {submission : SerialSubmission} {response : SerialResponse}
    (hop : a.op = .postSerial caller submission) (hans : a.ans = .postSerial (.ok response))
    (hout : response.outcome = .doubleSpend) : ∀ entry ∈ response.transcripts, ∃ id row denom,
      s.shared.db.transcripts.lookup id = some row ∧ toEntry row = .ok entry ∧
        i64TryFrom submission.denominationCents = some denom ∧
        row.serial = serialKey submission denom := by
  have hpost : Post a.call a.op a.ans s.shared := (good h).answers a ha
  rw [hop, hans] at hpost
  obtain ⟨c, hc, -, -, check, id, pair, key, row, seen, hrec, htx, hentries⟩ :=
    hpost.doubleSpent hout
  obtain ⟨denom, hdenom, rfl⟩ := hrec.key
  intro entry hentry
  obtain ⟨row', hrow', hof⟩ := mem_of_mapM_toEntry hentries entry hentry
  obtain ⟨hserial, id', hid'⟩ := read_of_doubleSpend h hc htx row' hrow'
  exact ⟨id', row', denom, hid', hof, hdenom, hserial⟩

namespace Router

variable {A : Option String → Prop} {Signed : Bytes → Bytes → Prop} {s : Router X}

theorem authentic
    (hsigned : ∀ key message signature, X.ed25519Verify key message signature = .ok () →
      Signed key message)
    (h : Steps ex A (start X) s) {id : Nat} {row : TranscriptRow}
    (hid : s.registry.shared.db.transcripts.lookup id = some row) : Authentic ex Signed s row := by
  obtain ⟨hany, hsound⟩ := steps_registry h
  obtain ⟨c, hc, submission, denom, hop, hdenom, hserial, htranscript⟩ :=
    transcript_submitted hany hid
  obtain ⟨a, ha, r, bank, haop, hans, hhandler⟩ :=
    (hsound.commits c hc).handled row.bankId (by rw [hop]; rfl)
  obtain ⟨hpost, ⟨_, h, -⟩ | ⟨submission', h, hpath, hbody⟩ | ⟨_, h, -⟩ | ⟨h, -⟩⟩ :=
    handler_ok hhandler
  · exact absurd (hop.symm.trans h) (by simp)
  · obtain ⟨rfl, rfl⟩ := Op.postSerial.inj (hop.symm.trans h)
    exact ⟨r.body, submission, denom, hbody, hdenom, hserial, htranscript,
      posted_of_answer hsigned hany ha haop hans hpost hpath⟩
  · exact absurd (hop.symm.trans h) (by simp)
  · exact absurd (hop.symm.trans h) (by simp)

/-- **No bank can be framed.** In every run behind the router, whatever transcript the registry
    has, whatever serial it attributes to a first depositor, and whatever it answers a
    double-spend with, the bank it names has signed it; and what it answers with it has. -/
theorem evidence_signed
    (hsigned : ∀ key message signature, X.ed25519Verify key message signature = .ok () →
      Signed key message)
    (h : Steps ex A (start X) s) :
    (∀ id row, s.registry.shared.db.transcripts.lookup id = some row → Authentic ex Signed s row) ∧
    (∀ key row, s.registry.shared.db.serials.lookup key = some row →
      Authentic ex Signed s (row.transcriptRow key)) ∧
    ∀ a ∈ s.registry.answers, ∀ caller submission response, a.op = .postSerial caller submission →
      a.ans = .postSerial (.ok response) → response.outcome = .doubleSpend →
        ∀ entry ∈ response.transcripts, ∃ id row denom,
          s.registry.shared.db.transcripts.lookup id = some row ∧ toEntry row = .ok entry ∧
            i64TryFrom submission.denominationCents = some denom ∧
            row.serial = serialKey submission denom ∧ Authentic ex Signed s row := by
  obtain ⟨hany, -⟩ := steps_registry h
  refine ⟨fun id row hid => authentic hsigned h hid, fun key row hrow => ?_, ?_⟩
  · obtain ⟨id, hid⟩ := evidenced hany key row hrow
    exact authentic hsigned h hid
  · intro a ha caller submission response hop hans hout entry hentry
    obtain ⟨id, row, denom, hid, hof, hdenom, hserial⟩ :=
      listed_recorded hany ha hop hans hout entry hentry
    exact ⟨id, row, denom, hid, hof, hdenom, hserial, authentic hsigned h hid⟩

/-- Two members submit one serial. -/
def colliding : List (RouterEvent .toy) :=
  admitting ++ go 3 2 ++
    .request (toyPost "admin" "/serials" 98) :: go 4 5 ++ .next 4 :: go 5 8 ++
    .request (toyPost "bank-b" "/serials" 99) :: go 6 5 ++ .next 6 :: go 7 8

theorem evidence_signed_colliding : ∃ s : Router .toy, ∃ a ∈ s.registry.answers,
    ∃ response, a.ans = .postSerial (.ok response) ∧
      response.transcripts.map (·.bankId) = ["admin", "bank-b"] ∧
      ∀ entry ∈ response.transcripts, ∃ id row,
        s.registry.shared.db.transcripts.lookup id = some row ∧ toEntry row = .ok entry ∧
          Authentic toyExtractors (Verifies .toy) s row := by
  have hrun : ((start .toy).run toyExtractors colliding).any (fun s =>
      decide (∃ a ∈ s.registry.answers, a.op = .postSerial "bank-b" (toySubmission "s1") ∧
        a.ans = .postSerial (.ok ⟨.doubleSpend, [⟨"admin", "t-s1", 0⟩, ⟨"bank-b", "t-s1", 0⟩]⟩))) =
      true := by decide +kernel
  obtain ⟨s, hs, hp⟩ := (Option.any_eq_true _ _).mp hrun
  obtain ⟨a, ha, hop, hans⟩ := of_decide_eq_true hp
  refine ⟨s, a, ha, _, hans, rfl, fun entry hentry => ?_⟩
  obtain ⟨id, row, -, hid, hof, -, -, hauthentic⟩ :=
    (evidence_signed (fun _ _ signature h => (⟨signature, h⟩ : Verifies .toy _ _))
      (steps_of_run (A := fun _ => True) hs fun _ _ => trivial)).2.2 a ha _ _ _ hop hans rfl entry
        hentry
  exact ⟨id, row, hid, hof, hauthentic⟩

end Router

end Digicash.Registry
