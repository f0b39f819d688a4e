import Digicash.Bank.Recovery

/-!
# What startup leaves behind

`recover_withdrawals` logs a withdrawal that it cannot finalize, and goes on. Signing that fails
is made good by a compensation, but two failures are not: there is no key for the denomination,
because it is not among those the process was started with, or the account cannot take the credit.
`connect` returns `Ok` all the same, and the withdrawal stays pending.
-/

namespace Digicash.Bank

open Lib

variable {X : Crypto} {κ : Config X} {s s' : Sys (service X)}

/-! ## Nothing stranded -/

/-- What the withdrawals that were pending before, and are compensated after, took from `a`. -/
def Tables.returned (before after : Tables) (a : String) : Int :=
  before.withdrawStates.total fun r row =>
    if row.accountId = a ∧ row.state = .pending ∧ after.isCompensated r = true then
      row.denominationCents
    else 0

/-- No withdrawal is left in flight: each that was pending is completed with a signature, or its
    debit was given back. -/
structure NoneStranded (before after : Tables) : Prop where
  done : ∀ r row, after.withdrawStates.lookup r = some row → row.state.inFlight = false
  pending : ∀ r row, before.withdrawStates.lookup r = some row → row.state = .pending →
    ∃ row', after.withdrawStates.lookup r = some row' ∧ row.SameRequest row' ∧
      ((row'.state = .completed ∧ row'.blindSignature.isSome = true) ∨ row'.state = .compensated)
  accounts : ∀ a, after.accounts.lookup a =
    (before.accounts.lookup a).map (· + before.returned after a)

/-- There is a key for each withdrawal that is pending. -/
def Keyed (κ : Config X) (db : Tables) : Prop :=
  ∀ r row, db.withdrawStates.lookup r = some row → row.state = .pending → κ.sign row ≠ none

instance (κ : Config X) (db : Tables) : Decidable (Keyed κ db) :=
  decidable_of_iff (∀ row ∈ db.withdrawStates.rows, row.2.state = .pending →
      (κ.sign row.2).isSome = true)
    ⟨fun h r row hl hp hnone => by
      have := h (r, row) (Table.mem_rows.mpr hl) hp
      simp [hnone] at this,
    fun h row hrow hp => Option.isSome_iff_ne_none.mpr
      (h row.1 row.2 (Table.mem_rows.mp hrow) hp)⟩

/-- Each withdrawal that was pending is still, or was finalized as `κ` does. -/
def FinalizedBy (κ : Config X) (before after : Tables) : Prop :=
  ∀ r row, before.withdrawStates.lookup r = some row → row.state = .pending →
    ∃ row', after.withdrawStates.lookup r = some row' ∧ row.SameRequest row' ∧ Finalizing κ row'

theorem FinalizedBy.refl (κ : Config X) (db : Tables) : FinalizedBy κ db db :=
  fun _ row hl hp => ⟨row, hl, .refl row, Or.inl hp⟩

theorem FinalizedBy.apply {before after : Tables} {e : Entry} (h : FinalizedBy κ before after)
    (hv : e.Valid κ after) : FinalizedBy κ before (e.apply after) := by
  intro r row hl hp
  obtain ⟨row', hl', hreq, hf⟩ := h r row hl hp
  have hmove := e.rowMove hv r
  rw [hl'] at hmove
  obtain ⟨row'', hl'', hreq', hf'⟩ := hmove.finalizing hf
  exact ⟨row'', hl'', hreq.trans hreq', hf'⟩

/-- How it was finalized is what signing its message gives. -/
theorem FinalizedBy.outcome {before after : Tables} (h : FinalizedBy κ before after)
    (hdone : ∀ r row, after.withdrawStates.lookup r = some row → row.state.inFlight = false)
    {r : String} {row : WithdrawRow} (hl : before.withdrawStates.lookup r = some row)
    (hp : row.state = .pending) : κ.sign row ≠ none ∧
      (after.isCompensated r = true ↔ ∃ e, κ.sign row = some (.error e)) := by
  obtain ⟨row', hl', hreq, hf⟩ := h r row hl hp
  have hnot : row'.state ≠ .pending := fun hstate => by
    have := hdone r row' hl'
    rw [hstate] at this
    exact absurd this (by decide)
  have hcomp : after.isCompensated r = true ↔ row'.state = .compensated := by
    simp [Tables.isCompensated, hl']
  have hf := hf.resolve_left hnot
  rw [hcomp, ← hreq.sign_eq κ]
  cases hs : κ.sign row' with
  | none =>
    rw [hs] at hf
    exact hf.elim
  | some outcome =>
    rw [hs] at hf
    cases outcome with
    | ok signature =>
      exact ⟨by simp, fun hstate => absurd hstate (WithdrawRow.Signed.not_compensated hf), by simp⟩
    | error e => exact ⟨by simp, fun _ => ⟨e, rfl⟩, fun _ => hf⟩

/-- So what was returned is what settling gives back. -/
theorem FinalizedBy.returned_eq {before after : Tables} (h : FinalizedBy κ before after)
    (hdone : ∀ r row, after.withdrawStates.lookup r = some row → row.state.inFlight = false)
    (a : String) : before.returned after a = before.refunds κ a := by
  refine Table.total_congr fun r row hl => ?_
  cases hp : row.state with
  | pending =>
    obtain ⟨hkey, hiff⟩ := h.outcome hdone hl hp
    cases hs : κ.sign row with
    | none => exact absurd hs hkey
    | some outcome =>
      cases outcome with
      | ok signature => simp [refund, hp, hs, hiff]
      | error e => simp [refund, hp, hs, hiff]
  | _ => simp [refund, hp]

/-! ## A startup, alone -/

/-- Nothing fails, nothing else begins, and nothing is interrupted. -/
def calmStep : Event (service X) → Bool
  | .step _ fault _ => fault = .none
  | .start _ | .drop _ | .crash _ => false

/-- The runs of such steps. -/
abbrev CalmSteps : Sys (service X) → Sys (service X) → Prop :=
  Sys.StepsIn fun _ e _ => calmStep e = true

theorem CalmSteps.next_eq (h : CalmSteps s s') : s'.next = s.next := by
  induction h with
  | refl => rfl
  | tail _ hstep ih =>
    obtain ⟨e, he, hcalm⟩ := hstep
    rcases Sys.next_step he with hnext | ⟨op, rfl⟩
    · exact hnext.trans ih
    · exact absurd hcalm (by simp [calmStep])

theorem CalmSteps.conf_eq (h : CalmSteps s s') : s'.conf = s.conf := by
  induction h with
  | refl => rfl
  | tail _ hstep ih =>
    obtain ⟨e, he, hcalm⟩ := hstep
    rcases Sys.conf_step he with hconf | rfl
    · exact hconf.trans ih
    · exact absurd hcalm (by simp [calmStep])

theorem FinalizedBy.steps {κ₀ : Config X} (h₀ : Sys.Steps .any (start κ₀) s)
    (h : CalmSteps s s') : FinalizedBy s.conf s.shared.db s'.shared.db := by
  induction h with
  | refl => exact .refl _ _
  | @tail s₁ s₂ hrun hstep ih =>
    obtain ⟨e, he, -⟩ := hstep
    have hg := good (h₀.trans (Sys.steps_of_stepsIn hrun))
    rcases Ledger.step_cases (L := ledger X) sound hg he with hdb | ⟨_, _, e, -, hv, -, hdb⟩ <;>
      rw [hdb]
    · exact ih
    · rw [CalmSteps.conf_eq hrun] at hv
      exact ih.apply hv

/-- What `connect` promises that began where the tables were `D`. -/
def Started (κ : Config X) (D : Tables) (_ : CallId) (_ : Op) (a : Ans)
    (_ : Option (Tx database)) (sh : State X) : Prop :=
  a = .connect (.ok ()) → SettlesAs κ D sh.db ∧ AtRest κ sh.db

/-- A startup where everything that goes back fits settles everything. -/
theorem connect_settles {κ₀ : Config X} {s₀ s₁ s₂ : Sys (service X)}
    (h₀ : Sys.Steps .any (start κ₀) s₀) (hcrash : s₀.step (.crash κ) = some s₁)
    (hconnect : s₁.step (.start .connect) = some s₂) (hrun : CalmSteps s₂ s)
    (hrefundable : s₀.shared.db.Refundable κ) {a : Answer (service X)} (ha : a ∈ s.answers)
    (hcall : a.call = s₁.next) (hok : a.ans = .connect (.ok ())) :
    SettledFrom κ s₀.shared.db s.shared.db := by
  have hcalls := Sys.calls_init.steps (h₀.tail ⟨_, hcrash, Policy.any_allows _ _ _⟩)
  have hidle : s₁.Idle := by
    rw [← Option.some.inj hcrash]
    exact fun _ => rfl
  have hdb : s₁.shared.db = s₀.shared.db := by rw [← Option.some.inj hcrash]
  obtain rfl : s₁.conf = κ := by rw [← Option.some.inj hcrash]
  have hrec : ∀ m, Recovering s₁.conf s₀.shared.db
      (⟨s₁.shared.db, m, s₁.shared.hist⟩ : State X) := fun m => by
    rw [hdb]
    exact ⟨(good h₀).inv, .refl _ _, hrefundable⟩
  have hbegun : s₂.Tended Calm (Recovering s₁.conf s₀.shared.db)
      (Started s₁.conf s₀.shared.db) := by
    refine hidle.tended (hrec _) |>.step hconnect (fun _ _ _ h => by cases h)
      (fun op h => ?_) fun _ h => by cases h
    cases h
    simp only [Sys.step, Option.map_eq_some_iff] at hconnect
    obtain ⟨m, -, rfl⟩ := hconnect
    refine ⟨hidle, hrec m, ?_⟩
    have hspec : Alone.Spec Calm s₁.next Op.connect _ _ _ _ _ _ := connect_alone (hrec m)
    exact Alone.Spec.answer (hrec m) hspec (fun _ _ _ hc hrest _ => ⟨hc.settles, hrest⟩)
      fun _ _ _ _ _ hans => absurd hans (by simp)
  obtain ⟨-, hans⟩ := hbegun.until hrun (CalmSteps.next_eq hrun)
    (fun {_ _ _ fault _} hcalm => (of_decide_eq_true hcalm : fault = .none))
    fun m h => ⟨h.1, h.2, h.3⟩
  have hold : s₂.answers = s₁.answers := by
    simp only [Sys.step, Option.map_eq_some_iff] at hconnect
    obtain ⟨m, -, rfl⟩ := hconnect
    rfl
  rcases hans a ha with hbefore | ⟨-, tx, sh, hstarted, hdb, -⟩
  · have hlt := (hcalls.answered a (hold ▸ hbefore)).1
    exact absurd hlt (by simp [hcall])
  · obtain ⟨hsettles, hrest⟩ := hstarted hok
    rw [hdb] at hsettles hrest
    exact hsettles.settledFrom hrest

/-- Settled with its key there, a withdrawal is not in flight. -/
theorem settled_done {row : WithdrawRow} (h : row.state = .pending → κ.sign row ≠ none) :
    (settled κ row).state.inFlight = false := by
  cases hp : row.state with
  | pending =>
    cases hs : κ.sign row with
    | none => exact absurd hs (h hp)
    | some outcome => cases outcome <;> simp [settled, hp, hs, WithdrawState.inFlight]
  | _ => simp [settled, hp, WithdrawState.inFlight]

theorem settled_pending {row : WithdrawRow} (hp : row.state = .pending) (hs : κ.sign row ≠ none) :
    row.SameRequest (settled κ row) ∧
      (((settled κ row).state = .completed ∧ (settled κ row).blindSignature.isSome = true) ∨
        (settled κ row).state = .compensated) := by
  cases hsign : κ.sign row with
  | none => exact absurd hsign hs
  | some outcome =>
    cases outcome with
    | ok signature =>
      simp only [settled, hp, hsign]
      exact ⟨⟨rfl, rfl, rfl⟩, by simp⟩
    | error e =>
      simp only [settled, hp, hsign]
      exact ⟨⟨rfl, rfl, rfl⟩, by simp⟩

/-- **Exactly when startup strands nothing.** Take any reachable state, a restart under any
    configuration, and a `connect` to which nothing happens on the way and which returns `Ok`. It
    has stranded no withdrawal if and only if there was a key for each that was pending, and each
    account could take what goes back to it. -/
theorem strands_none_iff {κ₀ : Config X} {s₀ s₁ s₂ : Sys (service X)}
    (h₀ : Sys.Steps .any (start κ₀) s₀) (hcrash : s₀.step (.crash κ) = some s₁)
    (hconnect : s₁.step (.start .connect) = some s₂) (hrun : CalmSteps s₂ s)
    {a : Answer (service X)} (ha : a ∈ s.answers) (hcall : a.call = s₁.next)
    (hok : a.ans = .connect (.ok ())) :
    NoneStranded s₀.shared.db s.shared.db ↔
      Keyed κ s₀.shared.db ∧ s₀.shared.db.Refundable κ := by
  have h₂ := (h₀.tail ⟨_, hcrash, Policy.any_allows _ _ _⟩).tail
    ⟨_, hconnect, Policy.any_allows _ _ _⟩
  have hw := (good (h₂.trans (Sys.steps_of_stepsIn hrun))).inv
  have hfinal : FinalizedBy κ s₀.shared.db s.shared.db := by
    have h := FinalizedBy.steps h₂ hrun
    obtain rfl := Option.some.inj hcrash
    simp only [Sys.step, Option.map_eq_some_iff] at hconnect
    obtain ⟨m, -, rfl⟩ := hconnect
    exact h
  constructor
  · intro h
    refine ⟨fun r row hl hp => (hfinal.outcome h.done hl hp).1, fun acct b hb => ?_⟩
    have hafter := h.accounts acct
    rw [hb, Option.map_some, hfinal.returned_eq h.done] at hafter
    exact (hw.balance _ _ hafter).2
  · rintro ⟨hkeyed, hrefundable⟩
    have hsettled := connect_settles h₀ hcrash hconnect hrun hrefundable ha hcall hok
    have hdone : ∀ r row, s.shared.db.withdrawStates.lookup r = some row →
        row.state.inFlight = false := by
      intro r row hl
      rw [hsettled.rows] at hl
      obtain ⟨row₀, hl₀, rfl⟩ := Option.map_eq_some_iff.mp hl
      exact settled_done (hkeyed r row₀ hl₀)
    refine ⟨hdone, fun r row hl hp => ?_, fun acct => ?_⟩
    · refine ⟨settled κ row, ?_, settled_pending hp (hkeyed r row hl hp)⟩
      rw [hsettled.rows, hl, Option.map_some]
    · rw [hfinal.returned_eq hdone]
      exact hsettled.accounts acct

/-- A restart under `κ` and a startup of `n` steps after `s₀`, as call `i`. -/
def restarted {X : Crypto} (s₀ : Sys (service X)) (κ : Config X) (i : CallId) (n : Nat)
    (p : Sys (service X) → Sys (service X) → Bool) : Bool :=
  (s₀.step (.crash κ)).any fun s₁ => (s₁.step (.start .connect)).any fun s₂ =>
    (s₂.runWhile (fun _ e => calmStep e) (go i n)).any fun s => p s₁ s

theorem exists_of_restarted {s₀ : Sys (service X)} {i : CallId} {n : Nat}
    {p : Sys (service X) → Sys (service X) → Bool} (h : restarted s₀ κ i n p = true) :
    ∃ s₁ s₂ s, s₀.step (.crash κ) = some s₁ ∧ s₁.step (.start .connect) = some s₂ ∧
      CalmSteps s₂ s ∧ p s₁ s = true := by
  obtain ⟨s₁, h₁, h⟩ := (Option.any_eq_true _ _).mp h
  obtain ⟨s₂, h₂, h⟩ := (Option.any_eq_true _ _).mp h
  obtain ⟨s, hs, hp⟩ := Sys.exists_of_runWhile h
  exact ⟨s₁, s₂, s, h₁, h₂, hs, hp⟩

/-- A withdrawal is interrupted between its debit and its signature. The next call is number 3. -/
def interrupted : List (Event (service .toy)) :=
  opened ++ call (.withdraw ⟨"alice", "r", 100, [7]⟩) :: go 2 6

/-- `connect` returns `Ok` to call 3, the next one after `s₁`. -/
def returnsOk (s₁ s : Sys (service .toy)) : Bool :=
  decide (s₁.next = 3 ∧ ∃ a ∈ s.answers, a.call = 3 ∧ a.ans = .connect (.ok ()))

/-- A startup with the same keys. -/
theorem strands_none_interrupted : ∃ s₀ s : Sys (service .toy),
    s₀.shared.db.stateOf "r" = some .pending ∧ NoneStranded s₀.shared.db s.shared.db := by
  obtain ⟨s₀, h₀, hp⟩ := Sys.exists_of_run (s := start Config.toy) (l := interrupted)
    (p := fun s₀ => decide (s₀.shared.db.stateOf "r" = some .pending ∧
        Keyed Config.toy s₀.shared.db ∧ s₀.shared.db.Refundable Config.toy) &&
      restarted s₀ Config.toy 3 7 returnsOk) (by decide)
  obtain ⟨hstate, hrun⟩ := (Bool.and_eq_true ..).mp hp
  obtain ⟨hpending, hcond⟩ := of_decide_eq_true hstate
  obtain ⟨s₁, s₂, s, h₁, h₂, hs, hok⟩ := exists_of_restarted hrun
  obtain ⟨hnext, a, ha, hcall, hans⟩ := of_decide_eq_true hok
  exact ⟨s₀, s, hpending,
    (strands_none_iff h₀ h₁ h₂ hs ha (hcall.trans hnext.symm) hans).mpr hcond⟩

/-- A bank with no denominations. -/
def Config.keyless : Config .toy := ⟨⟨∅⟩, none⟩

/-- **Without its key** a withdrawal is stranded, and `connect` returns `Ok`. -/
theorem pending_stranded : ∃ s₀ s₁ s₂ s : Sys (service .toy),
    Sys.Steps .any (start Config.toy) s₀ ∧ s₀.step (.crash Config.keyless) = some s₁ ∧
      s₁.step (.start .connect) = some s₂ ∧ CalmSteps s₂ s ∧
      (∃ a ∈ s.answers, a.call = s₁.next ∧ a.ans = .connect (.ok ())) ∧
      s.shared.db.stateOf "r" = some .pending ∧ ¬ NoneStranded s₀.shared.db s.shared.db := by
  obtain ⟨s₀, h₀, hp⟩ := Sys.exists_of_run (s := start Config.toy) (l := interrupted)
    (p := fun s₀ => restarted s₀ Config.keyless 3 5 fun s₁ s =>
      returnsOk s₁ s && decide (s.shared.db.stateOf "r" = some .pending)) (by decide)
  obtain ⟨s₁, s₂, s, h₁, h₂, hs, hp⟩ := exists_of_restarted hp
  obtain ⟨hok, hpending⟩ := (Bool.and_eq_true ..).mp hp
  obtain ⟨hnext, a, ha, hcall, hans⟩ := of_decide_eq_true hok
  have hpending := of_decide_eq_true hpending
  refine ⟨s₀, s₁, s₂, s, h₀, h₁, h₂, hs, ⟨a, ha, hcall.trans hnext.symm, hans⟩, hpending,
    fun h => ?_⟩
  obtain ⟨row, hl, hstate⟩ := Option.map_eq_some_iff.mp hpending
  have hdone := h.done "r" row hl
  rw [hstate] at hdone
  exact absurd hdone (by decide)

end Digicash.Bank
