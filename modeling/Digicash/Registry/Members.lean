import Digicash.Auth
import Digicash.Registry.Attribution
import Digicash.Registry.Netting

/-!
# Whom settlement names

A handler is reached as whoever the request was authenticated as, and that is a member: the
depositing bank of a receivable comes from there, and a claim is owed to the depositing bank of
a receivable that was read. The issuing bank comes from the body of a submission, and nothing
looks it up.
-/

namespace Digicash.Registry

open Lib Lib.Protocol Relation

variable {X : Crypto} {s s' : Sys (service X)}

/-! ## Members -/

def Tables.IsMember (db : Tables) (bankId : String) : Prop :=
  ∃ row, db.members.lookup bankId = some row

/-- A member is never removed. -/
theorem Entry.member_stays {db : Tables} {e : Entry} (h : e.Valid db) {b : String}
    (hb : db.IsMember b) : (e.apply db).IsMember b := by
  obtain ⟨row, hrow⟩ := hb
  cases e with
  | addMember b' row' =>
    have hne : b ≠ b' := by
      intro heq
      subst heq
      exact absurd (hrow.symm.trans h) (by simp)
    exact ⟨row, by rw [apply, Table.lookup_put_ne hne, hrow]⟩
  | _ => exact ⟨row, hrow⟩

theorem member_kept (h : Sys.Steps .any (start X) s) (hs : Sys.Steps .any s s') {b : String}
    (hb : s.shared.db.IsMember b) : s'.shared.db.IsMember b :=
  Ledger.invariant sound (good h) hs (J := fun _ sh => sh.db.IsMember b) hb
    (fun _ hj hv _ _ => Entry.member_stays hv hj) (fun hj _ => hj) (fun hj _ => hj)

theorem memberPubkey_along (b : String) : Prog.Along (fun _ _ => True)
    (fun ds found => ∀ key, found = .ok (some key) → ∃ bytes,
      ds = [⟨.stmt (.selectMemberPubkey b), .ok (some bytes)⟩]) [] (memberPubkey X b).run := by
  unfold memberPubkey
  refine Prog.Along.query_bind trivial (fun _ _ h => by cases h) fun found => ?_
  cases found with
  | none => exact fun _ h => by cases h
  | some bytes =>
    dsimp only
    split
    · exact Prog.Along.orThrow_bind (fun _ _ _ h => by cases h) fun _ _ _ _ => ⟨bytes, rfl⟩
    · exact fun _ h => by cases h

/-- What a call that answers with a bank has seen. -/
def FoundMember (op : Op) (ds : Deeds database) (ans : Ans) : Prop :=
  ∀ r b, op = .authenticate r → ans = .authenticate (.ok b) → ∃ bytes,
    [⟨.stmt (.selectMemberPubkey b), .ok (some bytes)⟩] <:+ ds

theorem foundMember_along (op : Op) :
    Prog.Along (fun _ _ => True) (FoundMember op) [] (code X op) := by
  cases op with
  | authenticate r =>
    refine Prog.Along.map (fun ds result hresult => ?_) (accepted_along memberPubkey_along)
    intro r' b _ hans
    obtain ⟨_, _, _, ds₀, -, -, ⟨bytes, rfl⟩, hds, -⟩ := hresult b (Ans.authenticate.inj hans)
    exact ⟨bytes, hds⟩
  | _ => exact Prog.Along.of_forall (fun _ _ => trivial) fun _ _ _ _ hop => by cases hop

/-- **Who is authenticated is a member.** -/
theorem member_of_answer (h : Sys.Steps .any (start X) s) {a : Answer (service X)}
    (ha : a ∈ s.answers) {r : Request} {b : String} (hop : a.op = .authenticate r)
    (hans : a.ans = .authenticate (.ok b)) : s.shared.db.IsMember b := by
  obtain ⟨-, hanswers⟩ := Sys.deeds (P := fun _ _ _ _ => True) (Q := fun _ => FoundMember)
    (fun _ op => foundMember_along op) h Sys.calls_init
  obtain ⟨s₁, ds, tx, h₁, h₂, hdid, -, -, hfound⟩ := hanswers a ha (Nat.zero_le _)
  obtain ⟨bytes, hseen⟩ := hfound r b hop hans
  obtain ⟨s₂, s₃, tx', hbefore, hdoes, hafter⟩ := hdid.oldest hseen
  obtain ⟨fault, o, hstep, hallow, hexec⟩ := hdoes.exec
  obtain ⟨hshared, -, ⟨e, hbad⟩ | hread⟩ := execCmd_read (D := database) rfl hexec
  · cases hbad
  obtain ⟨row, hrow, -⟩ := Option.map_eq_some_iff.mp (Except.ok.inj hread).symm
  have hmember : s₃.shared.db.IsMember b := ⟨row, by rw [hshared]; exact hrow⟩
  exact member_kept (hbefore.tail ⟨_, hstep, hallow⟩) (hafter.trans h₂) hmember

/-! ## Where a pair comes from -/

/-- The commit of a submission about this pair. -/
def Submits (c : Commit database Op) (p : Pair) : Prop :=
  ∃ caller submission, c.op = .postSerial caller submission ∧ p = submissionPair caller submission

/-- Whatever is receivable was submitted. -/
theorem receivable_submitted (h : Sys.Steps .any (start X) s) {p : Pair} {amount : Int}
    (hp : s.shared.db.receivables.lookup p = some amount) : ∃ c ∈ s.shared.hist, Submits c p := by
  refine invariant (J := fun sh => ∀ p amount, sh.db.receivables.lookup p = some amount →
    ∃ c ∈ sh.hist, Submits c p) h (fun _ _ hp => absurd hp (by simp [Tables.empty])) ?_
    (fun hj => hj) p amount hp
  intro sh call op e _ hj _ hfrom _ p amount hp
  have hold : (∃ amount, sh.db.receivables.lookup p = some amount) →
      ∃ c ∈ (⟨call, op, e.tx, sh.db⟩ : Commit database Op) :: sh.hist, Submits c p := by
    rintro ⟨amount, hp⟩
    obtain ⟨c, hc, hsub⟩ := hj p amount hp
    exact ⟨c, List.mem_cons_of_mem _ hc, hsub⟩
  cases e with
  | accept check id pair key row outstanding =>
    rw [Entry.apply, Table.lookup_put] at hp
    split at hp
    · rename_i hpair
      subst hpair
      cases op with
      | postSerial caller submission =>
        exact ⟨_, List.mem_cons_self .., caller, submission, rfl, hfrom.pair⟩
      | _ => exact hfrom.elim
    · exact hold ⟨amount, hp⟩
  | settle read claims cleared =>
    rw [Entry.apply, Table.lookup_eraseAll] at hp
    split at hp
    · cases hp
    · exact hold ⟨amount, hp⟩
  | _ => exact hold ⟨amount, hp⟩

/-- What the loop claims is a positive amount between two banks, and was read that way round. -/
theorem read_of_netting {read : List (Pair × Int)} (hnodup : (read.map Prod.fst).Nodup)
    (hpos : ∀ r ∈ read, 0 < r.2) {p : Pair} {n : Int} (hmem : (p, n) ∈ netting read read []) :
    0 < n ∧ p.issuingBankId ≠ p.depositingBankId ∧ p ∈ read.map Prod.fst := by
  obtain ⟨-, -, hn, rfl⟩ := (mem_netting (fun r hr => lookup_of_mem hnodup hr)
    (fun q hq => by simp at hq)).mp hmem
  have h0 : ∀ q, 0 ≤ amountIn read q := by
    intro q
    by_cases hq : q ∈ read.map Prod.fst
    · obtain ⟨r, hr, rfl⟩ := List.mem_map.mp hq
      rw [amountIn, lookup_of_mem hnodup hr]
      exact Int.le_of_lt (hpos r hr)
    · rw [amountIn, lookup_of_notMem hq]
      exact Int.le_refl 0
  refine ⟨hn, fun heq => ?_, ?_⟩
  · have hself : p.swap = p := by
      obtain ⟨a, b⟩ := p
      obtain rfl : a = b := heq
      rfl
    rw [balance_self _ hself] at hn
    exact absurd hn (lt_irrefl 0)
  · by_contra hnot
    have hzero : amountIn read p = 0 := by rw [amountIn, lookup_of_notMem hnot, Option.getD_none]
    have := h0 p.swap
    unfold balance at hn
    omega

/-- The commit is a settlement that read the pair of this claim. -/
def Settles (c : Commit database Op) (row : ClaimRow) : Prop :=
  ∃ read claims cleared, c.tx = (Entry.settle read claims cleared).tx ∧
    row.pair ∈ read.map Prod.fst

/-- What the registry claims. -/
structure Claimed (sh : State X) (row : ClaimRow) : Prop where
  positive : 0 < row.netAmountCents
  distinct : row.pair.issuingBankId ≠ row.pair.depositingBankId
  settled : ∃ c ∈ sh.hist, Settles c row

theorem claimed (h : Sys.Steps .any (start X) s) {id : Nat} {row : ClaimRow}
    (hid : s.shared.db.settlementClaims.lookup id = some row) : Claimed s.shared row := by
  refine invariant (J := fun sh => ∀ id row, sh.db.settlementClaims.lookup id = some row →
    Claimed sh row) h (fun _ _ hid => absurd hid (by simp [Tables.empty])) ?_
    (fun hj id row hid => ⟨(hj id row hid).1, (hj id row hid).2, (hj id row hid).3⟩) id row hid
  intro sh call op e _ hj hv _ _ id row hid
  have hold : sh.db.settlementClaims.lookup id = some row →
      Claimed (⟨e.apply sh.db, sh.mem, ⟨call, op, e.tx, sh.db⟩ :: sh.hist⟩ : State X) row := by
    intro hid
    obtain ⟨hn, hne, c, hc, hrest⟩ := hj id row hid
    exact ⟨hn, hne, c, List.mem_cons_of_mem _ hc, hrest⟩
  cases e with
  | settle read claims cleared =>
    rcases Table.mem_of_lookup_insertAll hid with hid | hmem
    · exact hold hid
    · obtain ⟨hnodup, hrange, ⟨windowEnd, hrows⟩, -⟩ := hv
      have hrow : row ∈ (netting read read []).map (claimRow windowEnd) :=
        hrows ▸ List.mem_map_of_mem hmem
      obtain ⟨⟨p, n⟩, hpn, rfl⟩ := List.mem_map.mp hrow
      obtain ⟨hn, hne, hp⟩ := read_of_netting hnodup (fun r hr => (hrange r hr).1) hpn
      exact ⟨hn, hne, _, List.mem_cons_self .., read, claims, cleared, rfl, hp⟩
  | _ => exact hold hid

/-- A settlement reads first. -/
theorem trace_settle (read : List (Pair × Int)) (claims : List (Nat × ClaimRow))
    (cleared : List (Pair × Int)) : ∃ later, (Entry.settle read claims cleared).tx.trace =
      later ++ [⟨.selectReceivables, read⟩] := by
  have key : ∀ (l : List (Nat × ClaimRow)) (t : Tx database), ∃ later,
      (l.foldl (fun t c => Entry.ran t (.insertClaim c.2) (1 : Nat) [] [⟨.claim c.1, some c.2⟩])
        t).trace = later ++ t.trace := by
    intro l
    induction l with
    | nil => exact fun t => ⟨[], rfl⟩
    | cons c l ih =>
      intro t
      obtain ⟨later, htrace⟩ := ih (Entry.ran t (.insertClaim c.2) (1 : Nat) [] [⟨.claim c.1, some c.2⟩])
      refine ⟨later ++ [⟨.insertClaim c.2, (1 : Nat)⟩], ?_⟩
      rw [List.foldl_cons, htrace, List.append_assoc]
      rfl
  obtain ⟨later, htrace⟩ := key claims (Entry.ran .empty .selectReceivables read [] [])
  exact ⟨⟨.deleteReceivables, cleared.length⟩ :: later, congrArg (List.cons _) htrace⟩

/-- **Whatever is claimed was submitted**, by the bank it is owed to. -/
theorem claim_submitted (h : Sys.Steps .any (start X) s) {id : Nat} {row : ClaimRow}
    (hid : s.shared.db.settlementClaims.lookup id = some row) :
    ∃ c ∈ s.shared.hist, Submits c row.pair := by
  obtain ⟨c, hc, read, claims, cleared, htx, hp⟩ := (claimed h hid).settled
  have hran := ((Sys.ran_of_steps h (quiescent_start X)).commits c hc).resolve_left
    (fun hc => absurd hc (by simp [start, Sys.init]))
  rw [htx] at hran
  obtain ⟨later, htrace⟩ := trace_settle read claims cleared
  obtain ⟨t', s₁, s₂, h₁, hexec, h₂⟩ := hran.first htrace
  obtain ⟨_, o, -, ws, hres, -⟩ := hexec.step
  -- The rows were receivable when the `SELECT` found them.
  obtain ⟨rfl, -⟩ := Prod.mk.inj (Except.ok.inj hres)
  obtain ⟨⟨p, amount⟩, hr, hpair⟩ := List.mem_map.mp hp
  have hrow := List.mem_of_mem_filter ((arrange_perm _ o.receivables).mem_iff.mp hr)
  obtain ⟨c', hc', hsub⟩ := receivable_submitted h₁ (Table.mem_rows.mp hrow)
  refine ⟨c', ?_, hpair ▸ hsub⟩
  exact Ledger.invariant sound (good h₁) h₂ (J := fun _ sh => c' ∈ sh.hist) hc'
    (fun _ hj _ _ _ => List.mem_cons_of_mem _ hj) (fun hj _ => hj) (fun hj _ => hj)

/-! ## Behind `verify_signed_request` -/

/-- Whom a call acts for, if it is a handler's. -/
def Op.caller : Op → Option String
  | .postMember caller _ | .postSerial caller _ | .postCap caller _ | .postSettle caller => some caller
  | _ => none

/-- A request was authenticated as this bank's. -/
def authenticatedAs (s : Sys (service X)) (bankId : String) : Bool :=
  s.answers.any fun a =>
    match a.op, a.ans with
    | .authenticate _, .authenticate (.ok b) => b = bankId
    | _, _ => false

/-- A handler begins only for a bank that a request was authenticated as; how often it does is
    left open. -/
def fronted (s : Sys (service X)) : Event (service X) → Bool
  | .start op => op.caller.all (authenticatedAs s)
  | _ => true

/-- The runs of the API. -/
abbrev ApiSteps : Sys (service X) → Sys (service X) → Prop :=
  Sys.StepsIn fun s e _ => fronted s e = true

theorem authenticated_step {e : Event (service X)} (hs : s.step e = some s') {b : String}
    (hb : authenticatedAs s b = true) : authenticatedAs s' b = true := by
  obtain ⟨a, ha, hnames⟩ := List.any_eq_true.mp hb
  exact List.any_eq_true.mpr ⟨a, Sys.mem_answers_step hs ha, hnames⟩

theorem member_of_authenticated (h : Sys.Steps .any (start X) s) {b : String}
    (hb : authenticatedAs s b = true) : s.shared.db.IsMember b := by
  obtain ⟨a, ha, hnames⟩ := List.any_eq_true.mp hb
  split at hnames
  · rename_i r b' hop hans
    obtain rfl : b' = b := of_decide_eq_true hnames
    exact member_of_answer h ha hop hans
  · cases hnames

/-- Whoever a call acts for, in flight or committed, was authenticated. -/
structure Fronted (s : Sys (service X)) : Prop where
  live : ∀ i ss b, s.live i = some ss → ss.op.caller = some b → authenticatedAs s b = true
  commits : ∀ c ∈ s.shared.hist, ∀ b, c.op.caller = some b → authenticatedAs s b = true

theorem Fronted.step (h : Fronted s) {e : Event (service X)} (hs : s.step e = some s')
    (he : fronted s e = true) : Fronted s' := by
  refine ⟨fun i ss b hl hb => ?_, fun c hc b hb => ?_⟩
  · refine authenticated_step hs ?_
    rcases Sys.live_step hs hl with ⟨-, op, rfl, rfl⟩ | hold | ⟨op, _, _, _, _, _, hold, rfl⟩
    · have hb : op.caller = some b := hb
      rw [fronted, hb, Option.all_some] at he
      exact he
    · exact h.live i ss b hold hb
    · exact h.live i _ b hold hb
  · refine authenticated_step hs ?_
    rcases Sys.hist_step hs with hsame | ⟨c', ss, hl, hop, hnew⟩
    · exact h.commits c (hsame ▸ hc) b hb
    · rcases List.mem_cons.mp (hnew ▸ hc) with rfl | hc
      · exact h.live _ ss b hl (hop ▸ hb)
      · exact h.commits c hc b hb

theorem fronted_steps (h : ApiSteps (start X) s) : Fronted s := by
  induction h with
  | refl => exact ⟨fun _ _ _ hl => absurd hl (by simp [start, Sys.init]),
      fun _ hc => absurd hc (by simp [start, Sys.init])⟩
  | tail _ hstep ih =>
    obtain ⟨e, he, hfront⟩ := hstep
    exact ih.step he hfront

/-- A member submitted a serial about this pair, as its depositing bank. -/
structure Named (s : Sys (service X)) (p : Pair) : Prop where
  submitted : ∃ c ∈ s.shared.hist, Submits c p
  member : s.shared.db.IsMember p.depositingBankId

theorem Fronted.named (hf : Fronted s) (h : Sys.Steps .any (start X) s) {p : Pair}
    (hp : ∃ c ∈ s.shared.hist, Submits c p) : Named s p := by
  refine ⟨hp, ?_⟩
  obtain ⟨c, hc, caller, submission, hop, rfl⟩ := hp
  exact member_of_authenticated h (hf.commits c hc caller (by rw [hop]; rfl))

/-- **Settlement names members as depositing banks.** In every run of the API, every receivable and
    every claim is about a pair that a member submitted a serial for, as its depositing bank; and a
    claim is a positive amount between two different banks. -/
theorem names_depositors (h : ApiSteps (start X) s) :
    (∀ p amount, s.shared.db.receivables.lookup p = some amount → Named s p) ∧
    ∀ id row, s.shared.db.settlementClaims.lookup id = some row → Named s row.pair ∧
      row.pair.issuingBankId ≠ row.pair.depositingBankId ∧ 0 < row.netAmountCents := by
  have hany := Sys.steps_of_stepsIn h
  have hf := fronted_steps h
  refine ⟨fun p amount hp => hf.named hany (receivable_submitted hany hp), fun id row hid => ?_⟩
  have hclaimed := claimed hany hid
  exact ⟨hf.named hany (claim_submitted hany hid), hclaimed.distinct, hclaimed.positive⟩

/-- What `bankId` posts at 60, with a nonce of one character and 64 zero bytes for a signature. -/
def toyPost (bankId path : String) (nonce : UInt8) : Request :=
  ⟨"POST", path, [(headerAccount, utf8 bankId), (headerTimestamp, utf8 "60"),
    (headerNonce, [nonce]), (headerSignature, .replicate 128 48)], []⟩

/-- The admin makes `bank-b` a member, which submits a coin of a bank nobody knows, and the admin
    settles; each request is authenticated first. -/
def settlesStranger : List (Event (service .toy)) :=
  opened ++ call (.authenticate (toyPost "admin" "/members" 97)) :: go 2 5 ++
    call (.postMember "admin" ⟨"bank-b", Hex.encode (.replicate 32 0)⟩) :: go 3 3 ++
    call (.authenticate (toyPost "bank-b" "/serials" 98)) :: go 4 5 ++
    call (.postSerial "bank-b" (toySubmission "s1")) :: go 5 8 ++
    call (.authenticate (toyPost "admin" "/settle" 99)) :: go 6 5 ++
    call (.postSettle "admin") :: go 7 8

/-- The claim is owed to a member by a stranger. -/
theorem settles_stranger : ∃ s : Sys (service .toy), ApiSteps (start .toy) s ∧
    ∃ id row, s.shared.db.settlementClaims.lookup id = some row ∧
      row.pair = ⟨"bank-a", "bank-b"⟩ ∧ s.shared.db.members.lookup "bank-a" = none := by
  obtain ⟨s, hs, hp⟩ := Sys.exists_of_runWhile (g := fronted) (s := start .toy)
    (l := settlesStranger) (p := fun s => (∃ r ∈ s.shared.db.settlementClaims.rows,
      r.2.pair = ⟨"bank-a", "bank-b"⟩) ∧ s.shared.db.members.lookup "bank-a" = none)
    (by decide +kernel)
  obtain ⟨⟨⟨id, row⟩, hr, hpair⟩, hnone⟩ := of_decide_eq_true hp
  exact ⟨s, hs, id, row, Table.mem_rows.mp hr, hpair, hnone⟩

/-- And the member is named. -/
theorem names_depositors_run : ∃ s : Sys (service .toy), ∃ row : ClaimRow,
    row.pair = ⟨"bank-a", "bank-b"⟩ ∧ Named s row.pair ∧ 0 < row.netAmountCents := by
  obtain ⟨s, hs, hp⟩ := Sys.exists_of_runWhile (g := fronted) (s := start .toy)
    (l := settlesStranger) (p := fun s => ∃ r ∈ s.shared.db.settlementClaims.rows,
      r.2.pair = ⟨"bank-a", "bank-b"⟩) (by decide +kernel)
  obtain ⟨⟨id, row⟩, hr, hpair⟩ := of_decide_eq_true hp
  obtain ⟨hnamed, -, hpos⟩ := (names_depositors hs).2 id row (Table.mem_rows.mp hr)
  exact ⟨s, row, hpair, hnamed, hpos⟩

end Digicash.Registry
