import Digicash.Bank.Withdrawals

/-!
# Whose withdrawal is answered

`withdraw` looks its request id up first, and where there is a withdrawal already it goes on
with that one: `resume_withdraw` takes the record and never looks at the request again. So an
answer is for the request that was made as long as whoever finds a record finds that of the
same request, or one whose debit was given back, which is refused. `deposit` makes this check
(`RequestIdReuse`); `withdraw` does not.
-/

namespace Digicash.Bank

open Lib Lib.Protocol

variable {X : Crypto} {κ : Config X} {i : CallId} {s s₁ s₂ s' : Sys (service X)}

/-! ## The condition -/

/-- The withdrawal was recorded for this request. -/
def WithdrawRow.For (row : WithdrawRow) (req : WithdrawRequest) : Prop :=
  row.accountId = req.accountId ∧ i64TryFrom req.denominationCents = some row.denominationCents ∧
    row.blindedMessage = req.blindedMessage

instance (row : WithdrawRow) (req : WithdrawRequest) : Decidable (row.For req) :=
  inferInstanceAs (Decidable (_ ∧ _ ∧ _))

/-- **The condition under which answers are for the request made**: a `withdraw` that finds a
    record under its request id finds that of the same request, or a compensated one. -/
def findsOwn (s : Sys (service X)) : Event (service X) → Bool
  | .step i _ _ =>
    match s.live i with
    | some ⟨.withdraw req, .cmd (.stmt (.selectWithdrawal r)) _, _⟩ =>
      (s.shared.db.withdrawStates.lookup r).all fun row =>
        decide (row.For req) || row.state = .compensated
    | _ => true
  | _ => true

/-- A step under the condition, and with the keys kept. -/
structure Heeds (s : Sys (service X)) (e : Event (service X)) (s' : Sys (service X)) : Prop where
  step : s.step e = some s'
  keys : sameKeys.Allows s e s'
  own : findsOwn s e = true

/-- The runs all of whose steps meet the condition. -/
abbrev HeedingSteps : Sys (service X) → Sys (service X) → Prop :=
  Relation.ReflTransGen fun s s' => ∃ e, Heeds s e s'

theorem HeedingSteps.steps (h : HeedingSteps s s') : Sys.Steps sameKeys s s' := by
  induction h with
  | refl => exact .refl
  | tail _ hstep ih =>
    obtain ⟨e, he⟩ := hstep
    exact .tail ih ⟨e, he.step, he.keys⟩

/-! ## Rows stay with their request -/

theorem WithdrawRow.SameRequest.for_iff {row row' : WithdrawRow} (h : row.SameRequest row')
    (req : WithdrawRequest) : row'.For req ↔ row.For req := by
  unfold WithdrawRow.For
  rw [h.accountId, h.denominationCents, h.blindedMessage]

theorem RowMove.sameRequest {row : WithdrawRow} {v : Option WithdrawRow}
    (h : RowMove κ (some row) v) : ∃ row', v = some row' ∧ row.SameRequest row' := by
  cases h with
  | stay => exact ⟨row, rfl, .refl row⟩
  | sign _ _ => exact ⟨_, rfl, rfl, rfl, rfl⟩
  | complete _ => exact ⟨_, rfl, rfl, rfl, rfl⟩
  | compensate _ _ => exact ⟨_, rfl, rfl, rfl, rfl⟩

/-- The tables have the withdrawal of this request. -/
def Tables.RecordedFor (db : Tables) (req : WithdrawRequest) : Prop :=
  ∃ row, db.withdrawStates.lookup req.requestId = some row ∧ row.For req

/-- The request id belongs to another request. -/
def Tables.RecordedForAnother (db : Tables) (req : WithdrawRequest) : Prop :=
  ∃ row, db.withdrawStates.lookup req.requestId = some row ∧ ¬ row.For req

/-- The withdrawal was given back. -/
def Tables.GivenBack (db : Tables) (r : String) : Prop :=
  ∃ row, db.withdrawStates.lookup r = some row ∧ row.state = .compensated

theorem Entry.recordedFor {db : Tables} {e : Entry} (hv : e.Valid κ db) {req : WithdrawRequest}
    (h : db.RecordedFor req) : (e.apply db).RecordedFor req := by
  obtain ⟨row, hl, hfor⟩ := h
  have hmove := e.rowMove hv req.requestId
  rw [hl] at hmove
  obtain ⟨row', hl', hreq⟩ := hmove.sameRequest
  exact ⟨row', hl', (hreq.for_iff req).mpr hfor⟩

theorem Entry.recordedForAnother {db : Tables} {e : Entry} (hv : e.Valid κ db)
    {req : WithdrawRequest} (h : db.RecordedForAnother req) :
    (e.apply db).RecordedForAnother req := by
  obtain ⟨row, hl, hfor⟩ := h
  have hmove := e.rowMove hv req.requestId
  rw [hl] at hmove
  obtain ⟨row', hl', hreq⟩ := hmove.sameRequest
  exact ⟨row', hl', fun h => hfor ((hreq.for_iff req).mp h)⟩

theorem Entry.givenBack {db : Tables} {e : Entry} (hv : e.Valid κ db) {r : String}
    (h : db.GivenBack r) : (e.apply db).GivenBack r := by
  obtain ⟨row, hl, hstate⟩ := h
  have hmove := e.rowMove hv r
  rw [hl] at hmove
  exact hmove.compensated hstate

/-! ## The code of a withdrawal -/

/-- A withdrawal that found no record ends in its own. -/
theorem withdrawNew_spec {req : WithdrawRequest} {sh : State X} (hi : sh.db.WellFormed) :
    (protocol X).Spec κ i (.withdraw req) (fun _ _ sh => sh.db.RecordedFor req)
      (fun _ _ _ => True)
      (match κ.keys.get req.denominationCents schemeIdRsaDeterministic with
        | none => throw (.unknownDenomination req.denominationCents)
        | some _ => do
          debitAndRecordPending req
          let signature ← finalizeWithdraw κ req.requestId req.accountId req.denominationCents
            req.blindedMessage
          pure ⟨signature⟩ : BankM WithdrawResponse) none sh := by
  have hop : Finalizes (.withdraw req) req.requestId := Or.inr ⟨req, rfl, rfl⟩
  cases hk : κ.keys.get req.denominationCents schemeIdRsaDeterministic with
  | none => exact Spec.throw fun _ _ => trivial
  | some keypair =>
    refine Spec.bind hi (debitAndRecordPending_spec.mono (fun _ _ _ _ h => h)
      fun _ _ _ _ _ => trivial) fun _ tx sh₁ hi₁ h₁ => ?_
    obtain ⟨rfl, denom, hd, howned⟩ := h₁
    have hspec := (finalizeWithdraw_spec (i := i) (pendingRow req denom) hi₁ hop hd howned).reaches
      ⟨.refl, hi₁⟩
    refine Spec.bind hi₁ (hspec.mono (fun _ _ _ _ h => h) fun _ _ _ _ _ => trivial)
      fun signature tx sh₂ _ h₂ => Spec.ok fun sh₃ h₃ => ?_
    obtain ⟨row, hl, hreq, -⟩ := (howned.reaches h₂.1).reaches h₃.reaches
    exact ⟨row, hl, (hreq.for_iff req).mpr ⟨rfl, hd, rfl⟩⟩

/-- An answer for the request that was made. -/
def AnswersOwn (req : WithdrawRequest) (a : Ans) (_ : Option (Tx database)) (sh : State X) :
    Prop :=
  ∀ response, a = .withdraw (.ok response) → sh.db.RecordedFor req

/-- What is left of a withdrawal once it has looked its request id up: it failed, it goes on
    with a record, or there was none. -/
theorem withdraw_next (req : WithdrawRequest) : ∃ k, code κ (.withdraw req) =
    .cmd (.stmt (.selectWithdrawal req.requestId)) k ∧
    (∀ e, k (.error e) = .pure (.withdraw (.error (.db e)))) ∧
    (∀ row : WithdrawRow, row.state = .compensated →
      ∃ e, k (.ok (some row)) = .pure (.withdraw (.error e))) ∧
    ∀ {sh : State X}, sh.db.WellFormed →
      (protocol X).WP κ i (.withdraw req) (AnswersOwn req) (k (.ok none)) none sh := by
  refine ⟨_, rfl, fun e => rfl, fun row hrow => ?_, fun hi => ?_⟩
  · have hstate : ∀ record, toRecord row = .ok record → record.state = .compensated :=
      fun record h => (isRecord_of_ok h).state.trans hrow
    show ∃ e, Ans.withdraw <$> ((orThrow (toRecord row) >>= fun record => pure (some record)) >>=
      (_ : Option WithdrawalRecord → BankM WithdrawResponse)).run = _
    cases hrec : toRecord row with
    | error e => exact ⟨e, rfl⟩
    | ok record =>
      refine ⟨.withdrawPreviouslyFailed req.requestId, ?_⟩
      show Ans.withdraw <$> (resumeWithdraw κ req.requestId record).run = _
      unfold resumeWithdraw
      rw [hstate record hrec]
      rfl
  · exact Spec.answer hi (withdrawNew_spec hi) (fun _ _ _ h _ _ => h)
      fun _ _ _ _ _ h => absurd h (by simp)

/-- The look-up itself changes nothing, and gets an error or what is there. -/
theorem execCmd_selectWithdrawal {free : Row → Bool} {op : Op} {fault : Fault} {o : Oracle}
    {sh sh' : State X} {tx' : Option (Tx database)} {r : String}
    {reply : Except SqlError (Option WithdrawRow)}
    (h : execCmd (D := database) free i op fault o sh none (.stmt (.selectWithdrawal r)) =
      some (reply, sh', tx')) :
    sh' = sh ∧ tx' = none ∧
      ((∃ e, reply = .error e) ∨ reply = .ok (sh.db.withdrawStates.lookup r)) :=
  execCmd_read rfl h

/-! ## Answers are for the request made -/

/-- Every withdrawal in flight has yet to look its request id up, or its answer will be for
    the request that was made, if it gets a signature at all. -/
structure InOrder (s : Sys (service X)) : Prop where
  live : ∀ i ss req, s.live i = some ss → ss.op = .withdraw req →
    (ss.code = code s.conf (.withdraw req) ∧ ss.tx = none) ∨ s.shared.db.RecordedFor req ∨
      s.shared.db.GivenBack req.requestId ∨
      (protocol X).WP s.conf i ss.op (AnswersOwn req) ss.code ss.tx s.shared
  answers : ∀ a ∈ s.answers, ∀ req response, a.op = .withdraw req →
    a.ans = .withdraw (.ok response) → s.shared.db.RecordedFor req

theorem InOrder.start : InOrder (start κ) :=
  ⟨fun _ _ _ hl => absurd hl (by simp [Bank.start, Sys.init]),
    fun _ ha => absurd ha (by simp [Bank.start, Sys.init])⟩

/-- A signature that was released was not given back. -/
theorem Tables.Released.not_givenBack {db : Tables} {r : String} {signature : Bytes}
    (h : db.Released r signature) : ¬ db.GivenBack r := by
  rintro ⟨row, hl, hstate⟩
  obtain ⟨row', hl', hs⟩ := h
  obtain rfl : row = row' := Option.some.inj (hl.symm.trans hl')
  exact hs.not_compensated hstate

theorem InOrder.step {e : Event (service X)} (h : InOrder s) (hg : s.Good (protocol X))
    (hc : s.Calls) (hs : Heeds s e s') : InOrder s' := by
  have hfor : ∀ {req}, s.shared.db.RecordedFor req → s'.shared.db.RecordedFor req := fun {req} =>
    Ledger.step_keeps (J := fun db => Tables.RecordedFor db req) sound hg hs.step
      fun hv h => Entry.recordedFor hv h
  have hback : ∀ {r}, s.shared.db.GivenBack r → s'.shared.db.GivenBack r := fun {r} =>
    Ledger.step_keeps (J := fun db => Tables.GivenBack db r) sound hg hs.step
      fun hv h => Entry.givenBack hv h
  refine ⟨fun i ss' req hl' hop => ?_, fun a ha req response hop hans => ?_⟩
  · have hconf := Sys.conf_of_live hs.step hl'
    cases hl : s.live i with
    | none =>
      rcases Sys.live_step hs.step hl' with ⟨-, op, -, rfl⟩ | hold | ⟨_, _, _, _, _, _, hold, -⟩
      · obtain rfl : op = .withdraw req := hop
        exact Or.inl ⟨by rw [hconf], rfl⟩
      · exact absurd (hl.symm.trans hold) (by simp)
      · exact absurd (hl.symm.trans hold) (by simp)
    | some ss =>
      have hfollow : (protocol X).WP s.conf i ss.op (AnswersOwn req) ss.code ss.tx s.shared →
          (protocol X).WP s'.conf i ss'.op (AnswersOwn req) ss'.code ss'.tx s'.shared :=
        fun hw => ((hg.follow sound hs.step hs.keys hl hw).1 ss' hl').2.2
      rcases Sys.live_next hc hs.step hl with hsame | rfl | ⟨κ', rfl⟩ | ⟨fault, o, rfl, hnext⟩
      · obtain rfl : ss = ss' := Option.some.inj (hsame.symm.trans hl')
        rcases h.live i ss req hl hop with ⟨hcode, htx⟩ | hrec | hgiven | hw
        · exact Or.inl ⟨by rw [hconf, hcode], htx⟩
        · exact Or.inr (Or.inl (hfor hrec))
        · exact Or.inr (Or.inr (Or.inl (hback hgiven)))
        · exact Or.inr (Or.inr (Or.inr (hfollow hw)))
      · obtain rfl := Option.some.inj hs.step
        exact absurd hl' (by simp [Sys.setLive])
      · obtain rfl := Option.some.inj hs.step
        exact absurd hl' (by simp)
      · obtain ⟨op, x, tx⟩ := ss
        cases x with
        | pure b =>
          have hstep := hs.step
          simp only [Sys.step, hl] at hstep
          obtain rfl := Option.some.inj hstep
          exact absurd hl' (by simp [Sys.setLive])
        | cmd c k =>
          obtain ⟨reply, tx', hl₂, hx⟩ := hnext c k rfl
          obtain rfl : (⟨op, k reply, tx'⟩ : Session (service X)) = ss' :=
            Option.some.inj (hl₂.symm.trans hl')
          obtain rfl : op = .withdraw req := hop
          rcases h.live i _ req hl rfl with ⟨hcode, htx⟩ | hrec | hgiven | hw
          · -- It looks its request id up.
            obtain ⟨k', hk', herr, -, hnone⟩ := withdraw_next (κ := s.conf) (i := i) req
            obtain rfl : tx = none := htx
            obtain ⟨rfl, hkk⟩ := Prog.cmd.inj (hcode.trans hk')
            obtain rfl := eq_of_heq hkk
            obtain ⟨hsh, rfl, hreply⟩ := execCmd_selectWithdrawal hx
            rcases hreply with ⟨e, rfl⟩ | rfl
            · refine Or.inr (Or.inr (Or.inr ?_))
              rw [herr]
              exact fun _ _ _ h => absurd h (by simp)
            · have hown := hs.own
              simp only [findsOwn, hl] at hown
              cases hlook : s.shared.db.withdrawStates.lookup req.requestId with
              | none =>
                refine Or.inr (Or.inr (Or.inr ?_))
                rw [hconf, hsh]
                exact hnone hg.inv
              | some row =>
                rw [hlook, Option.all_some, Bool.or_eq_true, decide_eq_true_eq,
                  decide_eq_true_eq] at hown
                rcases hown with hrow | hrow
                · exact Or.inr (Or.inl (hfor ⟨row, hlook, hrow⟩))
                · exact Or.inr (Or.inr (Or.inl (hback ⟨row, hlook, hrow⟩)))
          · exact Or.inr (Or.inl (hfor hrec))
          · exact Or.inr (Or.inr (Or.inl (hback hgiven)))
          · exact Or.inr (Or.inr (Or.inr (hfollow hw)))
  · rcases Sys.live_of_answer hs.step ha with hold | ⟨tx, hl⟩
    · exact hfor (h.answers a hold req response hop hans)
    · refine hfor ?_
      rcases h.live a.call _ req hl hop with ⟨hcode, -⟩ | hrec | hgiven | hw
      · obtain ⟨k, hk, -⟩ := withdraw_next (κ := s.conf) (i := a.call) req
        rw [hk] at hcode
        exact absurd hcode (by simp)
      · exact hrec
      · have hpost : Post s.conf a.call a.op a.ans s.shared :=
          (hg.live a.call _ hl).2 s.shared (.refl hg.inv)
        rw [hop, hans] at hpost
        exact absurd hgiven (Tables.Released.not_givenBack hpost)
      · exact hw s.shared (.refl hg.inv) response hans

theorem HeedingSteps.inOrder (h : HeedingSteps (start κ) s) : InOrder s := by
  induction h with
  | refl => exact .start
  | tail hrun hstep ih =>
    obtain ⟨e, he⟩ := hstep
    have hsteps := HeedingSteps.steps hrun
    exact ih.step (good hsteps) (Sys.calls_init.steps hsteps) he

/-! ## What is recorded for another request is refused -/

/-- Call `i`, a withdrawal whose request id belongs to another request, is being refused. -/
structure Refusing (i : CallId) (req : WithdrawRequest) (s : Sys (service X)) : Prop where
  lt : i < s.next
  another : s.shared.db.RecordedForAnother req
  live : ∀ ss, s.live i = some ss → ss = ⟨.withdraw req, code s.conf (.withdraw req), none⟩ ∨
    ∃ op e, ss = ⟨op, .pure (.withdraw (.error e)), none⟩
  answered : ∀ a ∈ s.answers, a.call = i → ∃ e, a.ans = .withdraw (.error e)

/-- Its own steps change no table. -/
theorem Refusing.step {e : Event (service X)} {req : WithdrawRequest} (h : Refusing i req s)
    (hg : s.Good (protocol X)) (hc : s.Calls) (hs : Heeds s e s') :
    Refusing i req s' ∧ ∀ fault o, e = .step i fault o → s'.shared.db = s.shared.db := by
  have hanother : s'.shared.db.RecordedForAnother req :=
    Ledger.step_keeps (J := fun db => Tables.RecordedForAnother db req) sound hg hs.step
      (fun hv h => Entry.recordedForAnother hv h) h.another
  have hanswered : ∀ a ∈ s'.answers, a.call = i → ∃ e, a.ans = .withdraw (.error e) := by
    intro a ha hai
    rcases Sys.live_of_answer hs.step ha with hold | ⟨tx, hl⟩
    · exact h.answered a hold hai
    · rcases h.live _ (hai ▸ hl) with heq | ⟨op, e', heq⟩
      · obtain ⟨k, hk, -⟩ := withdraw_next (κ := s.conf) (i := i) req
        exact absurd ((congrArg Session.code heq).trans hk) (by simp)
      · exact ⟨e', Prog.pure.inj (congrArg Session.code heq)⟩
  have hlt := Nat.lt_of_lt_of_le h.lt (Sys.next_le hs.step)
  cases hl : s.live i with
  | none =>
    refine ⟨⟨hlt, hanother, fun ss' hl' => ?_, hanswered⟩, ?_⟩
    · rcases Sys.live_step hs.step hl' with ⟨hnew, -⟩ | hold | ⟨_, _, _, _, _, _, hold, -⟩
      · exact absurd h.lt (by simp [hnew])
      · exact absurd (hl.symm.trans hold) (by simp)
      · exact absurd (hl.symm.trans hold) (by simp)
    · rintro fault o rfl
      have hstep := hs.step
      simp only [Sys.step, hl] at hstep
      exact absurd hstep (by simp)
  | some ss =>
    -- Whatever is left of it: the look-up, or the answer.
    have hown : ∀ fault o, e = .step i fault o → s'.shared.db = s.shared.db ∧
        ∀ ss', s'.live i = some ss' → ∃ op e, ss' = ⟨op, .pure (.withdraw (.error e)), none⟩ := by
      rintro fault o rfl
      have hstep := hs.step
      rcases h.live ss hl with rfl | ⟨op, e, rfl⟩
      · obtain ⟨k, hk, herr, hcomp, -⟩ := withdraw_next (κ := s.conf) (i := i) req
        rw [hk] at hl
        simp only [Sys.step, hl] at hstep
        obtain ⟨⟨reply, sh, tx'⟩, hx, rfl⟩ := Option.map_eq_some_iff.mp hstep
        obtain ⟨rfl, rfl, hreply⟩ := execCmd_selectWithdrawal hx
        refine ⟨rfl, fun ss' hl' => ?_⟩
        obtain rfl : (⟨.withdraw req, k reply, none⟩ : Session (service X)) = ss' := by
          simpa [Sys.setLive] using hl'
        rcases hreply with ⟨e, rfl⟩ | rfl
        · exact ⟨_, _, by rw [herr]⟩
        · obtain ⟨row, hrow, hnot⟩ := h.another
          have hown := hs.own
          simp only [findsOwn, hl] at hown
          rw [hrow, Option.all_some, Bool.or_eq_true, decide_eq_true_eq,
            decide_eq_true_eq] at hown
          obtain ⟨e, he⟩ := hcomp row (hown.resolve_left hnot)
          exact ⟨_, e, by rw [hrow, he]⟩
      · simp only [Sys.step, hl] at hstep
        obtain rfl := Option.some.inj hstep
        exact ⟨rfl, fun ss' hl' => absurd hl' (by simp [Sys.setLive])⟩
    refine ⟨⟨hlt, hanother, fun ss' hl' => ?_, hanswered⟩, fun fault o he => (hown fault o he).1⟩
    have hconf := Sys.conf_of_live hs.step hl'
    rcases Sys.live_next hc hs.step hl with hsame | rfl | ⟨κ', rfl⟩ | ⟨fault, o, rfl, -⟩
    · obtain rfl : ss = ss' := Option.some.inj (hsame.symm.trans hl')
      rw [hconf]
      exact h.live ss hl
    · obtain rfl := Option.some.inj hs.step
      exact absurd hl' (by simp [Sys.setLive])
    · obtain rfl := Option.some.inj hs.step
      exact absurd hl' (by simp)
    · exact Or.inr ((hown fault o rfl).2 ss' hl')

/-- A call that has just begun on a request id of another request. -/
theorem Refusing.begun {req : WithdrawRequest} (hc : s.Calls)
    (h : s.shared.db.RecordedForAnother req)
    (hs : s.step (.start (.withdraw req)) = some s') : Refusing s.next req s' := by
  obtain ⟨m, -, rfl⟩ := Option.map_eq_some_iff.mp hs
  refine ⟨Nat.lt_succ_self _, h, fun ss hl => Or.inl ?_, fun a ha hai => ?_⟩
  · exact (by simpa using hl.symm)
  · exact absurd (hc.answered a ha).1 (by simp [hai])

theorem Refusing.steps {req : WithdrawRequest} (hg : HeedingSteps (start κ) s)
    (h : Refusing i req s) (hs : HeedingSteps s s') : Refusing i req s' := by
  induction hs with
  | refl => exact h
  | tail hrun hstep ih =>
    obtain ⟨e, he⟩ := hstep
    have hsteps := HeedingSteps.steps (hg.trans hrun)
    exact (ih.step (good hsteps) (Sys.calls_init.steps hsteps) he).1

/-! ## The answer of a withdrawal -/

/-- The signature of the response is that of the request's message, and the withdrawal under its
    request id is of its account and denomination. -/
def AnsweredFor (κ : Config X) (db : Tables) (req : WithdrawRequest)
    (response : WithdrawResponse) : Prop :=
  (∃ keypair, κ.keys.get req.denominationCents schemeIdRsaDeterministic = some keypair ∧
    signBlinded keypair.sk req.blindedMessage = .ok response.blindSignature) ∧
  ∃ row, db.withdrawStates.lookup req.requestId = some row ∧ row.accountId = req.accountId ∧
    i64TryFrom req.denominationCents = some row.denominationCents

/-- **A withdraw answer is for the request that was made.** In every run in which whoever finds
    a record finds its own or a compensated one: a signature that is returned is the one of the
    request, and its record is of the request's account and denomination; and a call whose
    request id was recorded for another request when it began gets an error and changes no
    table. -/
theorem answers_own_request (h : HeedingSteps (start κ) s) :
    (∀ a ∈ s.answers, ∀ req response, a.op = .withdraw req → a.ans = .withdraw (.ok response) →
      AnsweredFor κ s.shared.db req response) ∧
    ∀ s₁ s₂ req, HeedingSteps (start κ) s₁ → s₁.shared.db.RecordedForAnother req →
      s₁.step (.start (.withdraw req)) = some s₂ → HeedingSteps s₂ s →
        (∀ a ∈ s.answers, a.call = s₁.next → ∃ e, a.ans = .withdraw (.error e)) ∧
        ∀ s₃ s₄ fault o, HeedingSteps s₂ s₃ → Heeds s₃ (.step s₁.next fault o) s₄ →
          HeedingSteps s₄ s → s₄.shared.db = s₃.shared.db := by
  refine ⟨fun a ha req response hop hans => ?_, fun s₁ s₂ req h₁ hanother hstart hs => ?_⟩
  · have hpost : Post a.conf a.call a.op a.ans s.shared := (good h.steps).answers a ha
    rw [hop, hans] at hpost
    obtain ⟨row, hl, hsigned⟩ := hpost
    obtain ⟨row', hl', hfor⟩ := h.inOrder.answers a ha req response hop hans
    obtain rfl : row = row' := Option.some.inj (hl.symm.trans hl')
    obtain ⟨signature, hsign, hsig⟩ := ((backed h.steps).2 _ row hl).signed hsigned.state
    obtain rfl : signature = response.blindSignature :=
      Option.some.inj (hsig.symm.trans hsigned.blindSignature)
    refine ⟨?_, row, hl, hfor.1, hfor.2.1⟩
    obtain ⟨denom, hdenom, hkeys⟩ := Option.bind_eq_some_iff.mp hsign
    obtain rfl : req.denominationCents = denom :=
      Option.some.inj ((u64TryFrom_i64TryFrom hfor.2.1).symm.trans hdenom)
    obtain ⟨keypair, hkeypair, hok⟩ := Option.map_eq_some_iff.mp hkeys
    rw [hfor.2.2] at hok
    exact ⟨keypair, hkeypair, hok⟩
  · have hsteps := h₁.steps
    have hcalls := Sys.calls_init.steps hsteps
    have hbegun := Refusing.begun hcalls hanother hstart
    have h₂ : HeedingSteps (start κ) s₂ :=
      .tail h₁ ⟨_, hstart, ⟨fun κ h => (by cases h), fun _ _ => trivial⟩, rfl⟩
    refine ⟨(hbegun.steps h₂ hs).answered, fun s₃ s₄ fault o h₃ hstep _ => ?_⟩
    have hsteps₃ := HeedingSteps.steps (h₂.trans h₃)
    exact ((hbegun.steps h₂ h₃).step (good hsteps₃) (Sys.calls_init.steps hsteps₃) hstep).2 _ _ rfl

/-- Run a list of events without restarts under the condition. -/
def runHeeding (s : Sys (service X)) : List (Event (service X)) → Option (Sys (service X))
  | [] => some s
  | .crash _ :: _ => none
  | e :: es => if findsOwn s e then (s.step e).bind fun s' => runHeeding s' es else none

theorem heedingSteps_of_run : ∀ {es : List (Event (service X))} {s s' : Sys (service X)},
    runHeeding s es = some s' → HeedingSteps s s'
  | [], s, s', h => by
    obtain rfl : s = s' := Option.some.inj h
    exact .refl
  | e :: es, s, s', h => by
    have hstep : (∀ κ, e ≠ .crash κ) ∧ findsOwn s e = true ∧
        ((s.step e).bind fun s₁ => runHeeding s₁ es) = some s' := by
      cases e with
      | crash κ => exact absurd h (by simp [runHeeding])
      | _ =>
        simp only [runHeeding] at h
        split at h
        · exact ⟨fun κ h => (by cases h), ‹_›, h⟩
        · exact absurd h (by simp)
    obtain ⟨hcrash, hown, hbind⟩ := hstep
    obtain ⟨s₁, h₁, h₂⟩ := Option.bind_eq_some_iff.mp hbind
    exact .head ⟨e, h₁, ⟨fun κ he => absurd he (hcrash κ), fun _ _ => trivial⟩, hown⟩
      (heedingSteps_of_run h₂)

/-- A withdrawal and its retry. -/
theorem answers_own_request_retry : ∃ s : Sys (service .toy), ∃ a ∈ s.answers, a.call = 3 ∧
    AnsweredFor Config.toy s.shared.db ⟨"alice", "r", 100, [7]⟩ ⟨[7]⟩ := by
  have hrun : (runHeeding (start Config.toy) (opened ++
      call (.withdraw ⟨"alice", "r", 100, [7]⟩) :: go 2 9 ++
      call (.withdraw ⟨"alice", "r", 100, [7]⟩) :: go 3 2)).any (fun s =>
        decide (∃ a ∈ s.answers, a.call = 3 ∧ a.op = .withdraw ⟨"alice", "r", 100, [7]⟩ ∧
          a.ans = .withdraw (.ok ⟨[7]⟩))) = true := by decide
  obtain ⟨s, hs, hp⟩ := (Option.any_eq_true _ _).mp hrun
  obtain ⟨a, ha, hcall, hop, hans⟩ := of_decide_eq_true hp
  exact ⟨s, a, ha, hcall, (answers_own_request (heedingSteps_of_run hs)).1 a ha _ _ hop hans⟩

/-- **Without the condition** "bob" gets the signature of "alice"'s withdrawal, for another
    message and another denomination. -/
theorem answers_another : ∃ s : Sys (service .toy), Sys.Steps .any (start Config.toy) s ∧
    ∃ a ∈ s.answers, a.op = .withdraw ⟨"bob", "r", 200, [9]⟩ ∧ a.ans = .withdraw (.ok ⟨[7]⟩) ∧
      ¬ AnsweredFor Config.toy s.shared.db ⟨"bob", "r", 200, [9]⟩ ⟨[7]⟩ := by
  obtain ⟨s, hs, hp⟩ := Sys.exists_of_run (s := start Config.toy)
    (l := opened ++ call (.withdraw ⟨"alice", "r", 100, [7]⟩) :: go 2 9 ++
      call (.withdraw ⟨"bob", "r", 200, [9]⟩) :: go 3 2)
    (p := fun s => s.shared.db.withdrawStates.lookup "r" =
        some ⟨.completed, "alice", 100, [7], some [7]⟩ ∧
      ∃ a ∈ s.answers, a.op = .withdraw ⟨"bob", "r", 200, [9]⟩ ∧ a.ans = .withdraw (.ok ⟨[7]⟩))
    (by decide)
  obtain ⟨hrow, a, ha, hop, hans⟩ := of_decide_eq_true hp
  refine ⟨s, hs, a, ha, hop, hans, ?_⟩
  rintro ⟨-, row, hl, haccount, -⟩
  obtain rfl := Option.some.inj (hrow.symm.trans hl)
  exact absurd haccount (by decide)

end Digicash.Bank
