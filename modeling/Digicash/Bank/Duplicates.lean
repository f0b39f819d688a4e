import Digicash.Bank.Debits
import Digicash.Bank.Requests
import Digicash.Bank.Retries

/-!
# Duplicates of a withdrawal

Every call that carries the request looks for its withdrawal first. One that looks before another
call has committed the debit goes on to the lock, and there it sees what the other has left of the
balance: it is answered that the balance is insufficient, although the withdrawal it asks for
stands. A check of the request id under the lock is missing. Where every lock finds enough, the
duplicates agree: the debit of the second fails on the primary key, which is an error of the
database, and whoever looks later goes on with the withdrawal that is there.
-/

namespace Digicash.Bank

open Lib Lib.Protocol

variable {X : Crypto} {κ : Config X} {s s' : Sys (service X)} {i : CallId}
  {req : WithdrawRequest} {ds : Deeds database}

/-! ## What is lost stays lost -/

theorem RowMove.lost {row : WithdrawRow} {v : Option WithdrawRow} (hr : row.Lost κ)
    (h : RowMove κ (some row) v) : ∃ row', v = some row' ∧ row'.Lost κ := by
  cases h with
  | stay => exact ⟨row, rfl, hr⟩
  | sign hs hf =>
    rcases hr with hstate | ⟨-, hnone⟩
    · exact absurd hstate (hf.not_compensated hs)
    · exact absurd hs (hnone _)
  | complete hs =>
    rcases hr with hstate | ⟨hstate, -⟩
    · exact absurd hstate hs.not_compensated
    · rcases hs.state with h | h <;> rw [hstate] at h <;> cases h
  | compensate hs hf => exact ⟨_, rfl, Or.inl rfl⟩

theorem WithdrawRow.Lost.not_signed {row : WithdrawRow} (h : row.Lost κ) {signature : Bytes} :
    ¬ row.Signed signature := by
  intro hs
  rcases h with hstate | ⟨hstate, -⟩
  · exact hs.not_compensated hstate
  · rcases hs.state with h | h <;> rw [hstate] at h <;> cases h

theorem Doomed.congr {κ' : Config X} {found : Option WithdrawRow} (h : Doomed κ req found)
    (hk : κ'.keys = κ.keys) : Doomed κ' req found := by
  cases found with
  | none =>
    intro denom hdenom signature
    rw [sign_congr hk]
    exact h denom hdenom signature
  | some row =>
    rcases h with hstate | ⟨hstate, hnone⟩
    · exact Or.inl hstate
    · refine Or.inr ⟨hstate, fun signature => ?_⟩
      rw [sign_congr hk]
      exact hnone signature

/-! ## The condition -/

/-- **The condition under which duplicates agree**: a withdrawal of the request that takes the lock
    finds a balance that covers it. -/
def locksCovered (req : WithdrawRequest) (s : Sys (service X)) : Event (service X) → Bool
  | .step i .none _ =>
    match s.live i with
    | some ⟨.withdraw req', .cmd (.stmt (.selectBalanceForUpdate a)) _, _⟩ =>
      decide (req' = req → (s.shared.db.accounts.lookup a).any (fun balance =>
        (i64TryFrom req.denominationCents).all fun denom => denom ≤ balance) = true)
    | _ => true
  | _ => true

/-- A step under the condition, where only duplicates carry the request id, and the keys stay. -/
structure Duplicates (req : WithdrawRequest) (s : Sys (service X)) (e : Event (service X))
    (_ : Sys (service X)) : Prop where
  calls : ∀ req', e = .start (.withdraw req') → req'.requestId = req.requestId → req' = req
  keys : ∀ κ, e = .crash κ → κ.keys = s.conf.keys
  locks : locksCovered req s e = true

/-- Every call under the request id carries the request. -/
def OnlyDuplicates (req : WithdrawRequest) (s : Sys (service X)) : Prop :=
  ∀ i ss req', s.live i = some ss → ss.op = .withdraw req' →
    req'.requestId = req.requestId → req' = req

theorem OnlyDuplicates.step (h : OnlyDuplicates req s) {e : Event (service X)}
    (he : s.step e = some s') (hG : Duplicates req s e s') : OnlyDuplicates req s' := by
  intro i ss req' hl hop hid
  rcases Sys.live_step he hl with ⟨-, op, hstart, rfl⟩ | hold | ⟨_, _, _, _, _, _, hold, rfl⟩
  · obtain rfl : op = .withdraw req' := hop
    exact hG.calls req' hstart hid
  · exact h i ss req' hold hop hid
  · exact h i _ req' hold hop hid

theorem OnlyDuplicates.steps (h : OnlyDuplicates req s) (hs : Sys.StepsIn (Duplicates req) s s') :
    OnlyDuplicates req s' := by
  induction hs with
  | refl => exact h
  | tail _ hstep ih =>
    obtain ⟨e, he, hG⟩ := hstep
    exact ih.step he hG

theorem Duplicates.keys_eq {e : Event (service X)} (he : s.step e = some s')
    (hG : Duplicates req s e s') : s'.conf.keys = s.conf.keys := by
  rcases Sys.conf_step he with hconf | hcrash
  · rw [hconf]
  · exact hG.keys _ hcrash

theorem keys_of_duplicates (hs : Sys.StepsIn (Duplicates req) s s') :
    s'.conf.keys = s.conf.keys := by
  induction hs with
  | refl => rfl
  | tail _ hstep ih =>
    obtain ⟨e, he, hG⟩ := hstep
    exact (hG.keys_eq he).trans ih

/-- No step brings back hope. -/
theorem doomed_step (hlive : OnlyDuplicates req s) (hg : s.Good (protocol X))
    {e : Event (service X)} (he : s.step e = some s') (hG : Duplicates req s e s')
    (h : Doomed s.conf req (s.shared.db.withdrawStates.lookup req.requestId)) :
    Doomed s'.conf req (s'.shared.db.withdrawStates.lookup req.requestId) := by
  refine Doomed.congr ?_ (hG.keys_eq he)
  rcases Ledger.step_cases (L := ledger X) sound hg he with hdb | ⟨j, ss, e, hj, hv, hfrom, hdb⟩
  · rw [hdb]
    exact h
  have hmove := e.rowMove hv req.requestId
  rw [hdb]
  cases hl : s.shared.db.withdrawStates.lookup req.requestId with
  | some row =>
    rw [hl] at h hmove
    obtain ⟨row', hl', hlost⟩ := hmove.lost h
    rw [hl']
    exact hlost
  | none =>
    rw [hl] at h
    cases hl' : (e.apply s.shared.db).withdrawStates.lookup req.requestId with
    | none => exact h
    | some row =>
      -- It is the withdrawal of a duplicate, and has its message.
      obtain ⟨a, denom, m, b, rfl, rfl⟩ := e.new_row hv hl hl'
      obtain ⟨op, x, tx⟩ := ss
      cases op with
      | withdraw req' =>
        obtain ⟨hid, rfl, hdenom, rfl⟩ := hfrom
        obtain rfl := hlive j _ req' hj rfl hid.symm
        exact Or.inr ⟨rfl, h denom hdenom⟩
      | _ => exact hfrom.elim

theorem doomed_steps (hg : s.Good (protocol X)) (hlive : OnlyDuplicates req s)
    (hs : Sys.StepsIn (Duplicates req) s s')
    (h : Doomed s.conf req (s.shared.db.withdrawStates.lookup req.requestId)) :
    Doomed s'.conf req (s'.shared.db.withdrawStates.lookup req.requestId) := by
  induction hs with
  | refl => exact h
  | tail hrun hstep ih =>
    obtain ⟨e, he, hG⟩ := hstep
    exact doomed_step (hlive.steps hrun) (hg.steps sound (Sys.steps_of_stepsIn hrun)).1 he hG ih

/-- Where a signature was released there was hope. -/
theorem Tables.Released.not_doomed {db : Tables} {signature : Bytes}
    (h : db.Released req.requestId signature) :
    ¬ Doomed κ req (db.withdrawStates.lookup req.requestId) := by
  obtain ⟨row, hl, hs⟩ := h
  rw [hl]
  exact fun hlost => WithdrawRow.Lost.not_signed hlost hs

/-! ## Duplicates agree -/

/-- Where every lock finds enough, no duplicate comes short. -/
theorem not_short {s₀ : Sys (service X)} {tx : Option (Tx database)} {balance : Option Int}
    (h : Sys.Did (Duplicates req) s₀ i (.withdraw req) ds tx s) : ¬ Short req balance ds := by
  rintro ⟨denom, rest, rfl, hdenom, hlt⟩
  obtain ⟨s₁, s₂, tx', hdid, -⟩ := h.last
  obtain ⟨s₃, s₄, -, hread, hl, -⟩ := did_locked hdid
  obtain ⟨k, hlive⟩ := hread.live
  obtain ⟨o, -, hG⟩ := hread.calm
  have hlocks := hG.locks
  simp only [locksCovered, hlive, hl, hdenom, Option.all_some, decide_eq_true_eq, forall_const]
    at hlocks
  obtain ⟨b, rfl, hle⟩ := (Option.any_eq_true _ _).mp hlocks
  exact absurd (of_decide_eq_true hle) (Int.not_le.mpr (hlt b rfl))

/-- What the look-up found is what was there. -/
theorem does_selectWithdrawal {G : Sys (service X) → Event (service X) → Sys (service X) → Prop}
    {op : Op} {r : String} {found : Option WithdrawRow} {tx : Option (Tx database)}
    (h : Sys.Does G s s' i op none ⟨.stmt (.selectWithdrawal r), .ok found⟩ tx) :
    s.shared.db.withdrawStates.lookup r = found := by
  obtain ⟨fault, o, -, -, hx⟩ := h.exec
  obtain ⟨-, -, hreply⟩ := execCmd_selectWithdrawal hx
  rcases hreply with ⟨e, he⟩ | he
  · cases he
  · exact (Except.ok.inj he).symm

/-- **Duplicates of a withdrawal agree.** Take any reachable state in which no call under the
    request id is in flight, and any run from it, with any number of calls that carry the request
    and any others, whose steps meet the condition: where one call for the request is answered
    with a signature, every other one is answered with the same, or with an error of the
    database. -/
theorem duplicates_agree {s₀ : Sys (service X)} (h₀ : Sys.Steps .any (start κ) s₀)
    (hnobody : ∀ i ss req', s₀.live i = some ss → ss.op = .withdraw req' →
      req'.requestId ≠ req.requestId)
    (h : Sys.StepsIn (Duplicates req) s₀ s) {a b : Answer (service X)} (ha : a ∈ s.answers)
    (hb : b ∈ s.answers) (hnew : s₀.next ≤ b.call) (hopa : a.op = .withdraw req)
    (hopb : b.op = .withdraw req) {response : WithdrawResponse}
    (hok : a.ans = .withdraw (.ok response)) :
    b.ans = .withdraw (.ok response) ∨ ∃ e, b.ans = .withdraw (.error (.db e)) := by
  have hg := good (h₀.trans (Sys.steps_of_stepsIn h))
  have hreleased : s.shared.db.Released req.requestId response.blindSignature := by
    have hpost := hg.answers a ha
    rw [hopa, hok] at hpost
    exact hpost
  obtain ⟨s₁, ds, tx, h₁, hlater, hdid, -, hconf, hwhy⟩ := (Sys.deeds (P := fun _ => Covers)
    (Q := fun κ => Fails κ) (fun κ op => code_along op) h (Sys.calls_init.steps h₀)).2 b hb hnew
  have hpost := hg.answers b hb
  rw [hopb] at hwhy hdid hpost
  obtain ⟨r, hr, hfailed⟩ := hwhy
  rw [hr] at hpost ⊢
  cases r with
  | ok response' =>
    obtain ⟨row, hl, hs⟩ := hreleased
    obtain ⟨row', hl', hs'⟩ := hpost
    obtain rfl : row = row' := Option.some.inj (hl.symm.trans hl')
    have hsig := Option.some.inj (hs.blindSignature.symm.trans hs'.blindSignature)
    exact Or.inl (congrArg (fun x => Ans.withdraw (.ok ⟨x⟩)) hsig.symm)
  | error e =>
    have hhopeless : ¬ Hopeless b.conf req ds := by
      rintro ⟨found, hlooked, hwhy⟩
      obtain ⟨s₂, s₃, tx', h₂, hdoes, h₃⟩ := hdid.oldest hlooked
      obtain rfl := does_selectWithdrawal hdoes
      have hg₂ := good (h₀.trans (Sys.steps_of_stepsIn h₂))
      have hrest := (hdoes.step.trans h₃).trans hlater
      rcases hwhy with hdoomed | ⟨row, e, hl, hunreadable⟩
      · have hkeys : s₂.conf.keys = b.conf.keys := by
          rw [← hconf]
          exact (keys_of_duplicates (hdoes.step.trans h₃)).symm
        have hlive : OnlyDuplicates req s₀ := fun i ss req' hl hop hid =>
          absurd hid (hnobody i ss req' hl hop)
        exact hreleased.not_doomed (doomed_steps hg₂ (hlive.steps h₂) hrest (hdoomed.congr hkeys))
      · exact (hg₂.inv.row _ row hl).toRecord_ne e hunreadable
    have hfailed := hfailed e rfl
    refine Or.inr ?_
    cases e with
    | db e => exact ⟨e, rfl⟩
    | malformedRecord r m => exact absurd rfl (hpost r m)
    | insufficientBalance _ _ _ =>
      obtain ⟨balance, hshort⟩ := hfailed
      exact absurd hshort (not_short hdid)
    | accountNotFound _ => exact absurd hfailed (not_short hdid)
    | valueRange _ =>
      rcases hfailed with ⟨balance, hshort⟩ | hfailed
      · exact absurd hshort (not_short hdid)
      · exact absurd hfailed hhopeless
    | _ => exact absurd hfailed hhopeless

/-- An event of a run in which nothing fails and nobody but duplicates of `req` begins. -/
def onlyDuplicates (req : WithdrawRequest) : Event (service X) → Bool
  | .start op => op = .withdraw req
  | .step _ fault _ => fault = .none
  | .drop _ | .crash _ => false

theorem duplicates_of_only {s₀ : Sys (service X)} (h : Sys.StepsIn (fun s e _ =>
    (onlyDuplicates req e && locksCovered req s e) = true) s₀ s) :
    Sys.StepsIn (Duplicates req) s₀ s := by
  refine Relation.ReflTransGen.mono (fun s₁ s₂ hstep => ?_) _ _ h
  obtain ⟨e, he, hg⟩ := hstep
  obtain ⟨honly, hlocks⟩ := (Bool.and_eq_true ..).mp hg
  refine ⟨e, he, fun req' hstart _ => ?_, fun κ hcrash => ?_, hlocks⟩
  · subst hstart
    exact Op.withdraw.inj (of_decide_eq_true honly)
  · subst hcrash
    exact absurd honly (by simp [onlyDuplicates])

/-- The next call has looked when call `i` debits, and makes `n` steps after that. -/
def duplicated (i : CallId) (a : String) (n : Nat) : List (Event (service .toy)) :=
  call (.withdraw ⟨a, "r", 100, [7]⟩) :: go i 1 ++
    call (.withdraw ⟨a, "r", 100, [7]⟩) :: go (i + 1) 1 ++ go i 8 ++ go (i + 1) n

/-- On an account that holds 500 cents the duplicate fails on the primary key. -/
theorem duplicates_agree_two : ∃ s : Sys (service .toy), ∃ b ∈ s.answers, b.call = 3 ∧
    (b.ans = .withdraw (.ok ⟨[7]⟩) ∨ ∃ e, b.ans = .withdraw (.error (.db e))) := by
  obtain ⟨s₀, h₀, hidle, -, hp⟩ := exists_opened (p := fun s₀ => decide (s₀.next = 2) &&
    (s₀.runWhile (fun s e => onlyDuplicates ⟨"alice", "r", 100, [7]⟩ e &&
        locksCovered ⟨"alice", "r", 100, [7]⟩ s e) (duplicated 2 "alice" 6)).any
      fun s : Sys (service .toy) => decide (
        (∃ a ∈ s.answers, a.op = .withdraw ⟨"alice", "r", 100, [7]⟩ ∧
          a.ans = .withdraw (.ok ⟨[7]⟩)) ∧
        ∃ b ∈ s.answers, b.op = .withdraw ⟨"alice", "r", 100, [7]⟩ ∧ b.call = 3)) (by decide)
  obtain ⟨hnext, hrun⟩ := (Bool.and_eq_true ..).mp hp
  have hnext := of_decide_eq_true hnext
  obtain ⟨s, hs, hans⟩ := Sys.exists_of_runWhile hrun
  obtain ⟨⟨a, ha, hopa, hok⟩, b, hb, hopb, hcall⟩ := of_decide_eq_true hans
  refine ⟨s, b, hb, hcall, duplicates_agree h₀ (fun i ss req' hl => ?_) (duplicates_of_only hs) ha
    hb ?_ hopa hopb hok⟩
  · exact absurd hl (by simp [hidle i])
  · rw [hnext, hcall]
    decide

/-- **Without the condition** the duplicate is answered that the balance is insufficient, on an
    account that holds just what the request takes. -/
theorem duplicate_refused : ∃ s₀ s : Sys (service .toy), Sys.Steps .any (start Config.toy) s₀ ∧
    s₀.Idle ∧ s₀.shared.db.accounts.lookup "bob" = some 100 ∧
    Sys.StepsIn (fun _ e _ => onlyDuplicates ⟨"bob", "r", 100, [7]⟩ e = true) s₀ s ∧
    (∃ a ∈ s.answers, a.op = .withdraw ⟨"bob", "r", 100, [7]⟩ ∧ a.ans = .withdraw (.ok ⟨[7]⟩)) ∧
    ∃ b ∈ s.answers, b.op = .withdraw ⟨"bob", "r", 100, [7]⟩ ∧
      b.ans = .withdraw (.error (.insufficientBalance "bob" 0 100)) := by
  obtain ⟨s₀, h₀, hidle, -, hp⟩ := exists_idle
    (l := opened ++ call (.createAccount "bob" 100) :: go 2 2)
    (p := fun s₀ => decide (s₀.shared.db.accounts.lookup "bob" = some 100) &&
      (s₀.runWhile (fun _ e => onlyDuplicates ⟨"bob", "r", 100, [7]⟩ e)
        (duplicated 3 "bob" 4)).any fun s : Sys (service .toy) => decide (
          (∃ a ∈ s.answers, a.op = .withdraw ⟨"bob", "r", 100, [7]⟩ ∧
            a.ans = .withdraw (.ok ⟨[7]⟩)) ∧
          ∃ b ∈ s.answers, b.op = .withdraw ⟨"bob", "r", 100, [7]⟩ ∧
            b.ans = .withdraw (.error (.insufficientBalance "bob" 0 100))))
    (by simp [opened, call, go, Event.steps]) (by decide)
  obtain ⟨haccount, hrun⟩ := (Bool.and_eq_true ..).mp hp
  obtain ⟨s, hs, hans⟩ := Sys.exists_of_runWhile hrun
  obtain ⟨hok, hrefused⟩ := of_decide_eq_true hans
  exact ⟨s₀, s, h₀, hidle, of_decide_eq_true haccount, hs, hok, hrefused⟩

end Digicash.Bank
