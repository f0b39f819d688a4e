import Digicash.Lib.Service

/-!
# Where a transaction's statements were executed

A commit records the statements its transaction ran, with their replies, and nothing about when
that was. `Sys.Ran` puts each of them back where it was executed: at a step of its call, on the
contents of that moment. `Sys.ran_of_steps` says that this can be done for every commit of every
run, so that what a statement saw can be compared with what was committed before it, or later.
-/

namespace Lib

open Relation

variable {D : Database} {S : Service D} {π : Policy S}

/-- The step from `s` to `s'` is the execution of one statement of call `i`, with reply `a`,
    after which its transaction is `t'`. -/
structure Sys.Executes (s s' : Sys S) (i : CallId) (t t' : Tx D) (stmt : D.Stmt)
    (a : D.Res stmt) : Prop where
  live : ∃ op k tx, s.live i = some ⟨op, .cmd (.stmt stmt) k, tx⟩ ∧ tx.getD .empty = t
  step : ∃ fault o, s.step (.step i fault o) = some s' ∧ ∃ ws,
    (D.exec stmt o (t.view s.shared.db)).result = .ok (a, ws) ∧
      t' = t.push stmt a (D.exec stmt o (t.view s.shared.db)).waits ws

/-- At `s`, call `i` has run the transaction `t` statement by statement in a run of `π` from
    `s₀`. -/
inductive Sys.Ran (π : Policy S) (s₀ : Sys S) (i : CallId) : Tx D → Sys S → Prop where
  | empty {s : Sys S} : Ran π s₀ i .empty s
  | push {t t' : Tx D} {stmt : D.Stmt} {a : D.Res stmt} {s₁ s₂ s : Sys S}
      (ht : Ran π s₀ i t s₁) (hbefore : Sys.Steps π s₀ s₁) (hstep : Sys.Step π s₁ s₂)
      (hexec : s₁.Executes s₂ i t t' stmt a) (hafter : Sys.Steps π s₂ s) : Ran π s₀ i t' s

namespace Sys

variable {s₀ s s' : Sys S} {i : CallId} {t : Tx D}

theorem Ran.later (h : Ran π s₀ i t s) (hs : Sys.Steps π s s') : Ran π s₀ i t s' := by
  cases h with
  | empty => exact .empty
  | push ht hbefore hstep hexec hafter => exact .push ht hbefore hstep hexec (hafter.trans hs)

/-- The last statement of a transaction. -/
theorem Ran.last (h : Ran π s₀ i t s) {stmt : D.Stmt} {a : D.Res stmt}
    {rest : List (Σ s : D.Stmt, D.Res s)} (htrace : t.trace = ⟨stmt, a⟩ :: rest) :
    ∃ t₁ s₁ s₂, Ran π s₀ i t₁ s₁ ∧ t₁.trace = rest ∧ Sys.Steps π s₀ s₁ ∧ Sys.Step π s₁ s₂ ∧
      s₁.Executes s₂ i t₁ t stmt a ∧ Sys.Steps π s₂ s := by
  cases h with
  | empty => exact absurd htrace (by simp [Tx.empty])
  | @push t₁ _ stmt' a' s₁ s₂ _ ht hbefore hstep hexec hafter =>
    obtain ⟨fault, o, hs, ws, hres, heq⟩ := hexec.step
    rw [heq, Tx.push] at htrace
    obtain ⟨hhead, hrest⟩ := List.cons.inj htrace
    cases hhead
    exact ⟨t₁, s₁, s₂, ht, hrest, hbefore, hstep, hexec, hafter⟩

/-- Every transaction of the service was run statement by statement. -/
structure Replayed (π : Policy S) (s₀ s : Sys S) : Prop where
  live : ∀ i ss t, s.live i = some ss → ss.tx = some t → Ran π s₀ i t s
  commits : ∀ c ∈ s.shared.hist, c ∈ s₀.shared.hist ∨ Ran π s₀ c.call c.tx s

theorem Replayed.later (h : Replayed π s₀ s) (hs : Sys.Steps π s s') :
    (∀ i ss t, s.live i = some ss → ss.tx = some t → Ran π s₀ i t s') ∧
      ∀ c ∈ s.shared.hist, c ∈ s₀.shared.hist ∨ Ran π s₀ c.call c.tx s' :=
  ⟨fun i ss t hl ht => (h.live i ss t hl ht).later hs,
    fun c hc => (h.commits c hc).imp id fun hr => hr.later hs⟩

/-- The only step that adds to a transaction or to the history executes a command. -/
theorem Replayed.step (h : Replayed π s₀ s) (hrun : Sys.Steps π s₀ s) {e : Event S}
    (hs : s.step e = some s') (hπ : π.Allows s e s') : Replayed π s₀ s' := by
  have hstep : Sys.Step π s s' := ⟨e, hs, hπ⟩
  obtain ⟨hlive, hcommits⟩ := h.later (.single hstep)
  cases e with
  | start op =>
    obtain ⟨m, -, rfl⟩ := Option.map_eq_some_iff.mp hs
    refine ⟨fun j ss t hj ht => ?_, hcommits⟩
    by_cases hjn : j = s.next
    · obtain rfl : (⟨op, S.code s.conf op, none⟩ : Session S) = ss := by simpa [hjn] using hj
      exact absurd ht (by simp)
    · exact hlive j ss t (by simpa [hjn] using hj) ht
  | drop j =>
    obtain rfl := Option.some.inj hs
    refine ⟨fun i ss t hi ht => ?_, hcommits⟩
    change Function.update s.live j none i = some ss at hi
    by_cases hij : i = j
    · exact absurd hi (by simp [hij])
    · exact hlive i ss t (by simpa [hij] using hi) ht
  | crash κ =>
    obtain rfl := Option.some.inj hs
    exact ⟨fun _ _ _ hi => absurd hi (by simp), hcommits⟩
  | step j fault o =>
    have hs' := hs
    simp only [Sys.step] at hs
    split at hs
    · exact absurd hs (by simp)
    · obtain rfl := Option.some.inj hs
      refine ⟨fun i ss t hi ht => ?_, hcommits⟩
      change Function.update s.live j none i = some ss at hi
      by_cases hij : i = j
      · exact absurd hi (by simp [hij])
      · exact hlive i ss t (by simpa [hij] using hi) ht
    · rename_i op c k tx hl
      obtain ⟨⟨r, sh, tx'⟩, hx, rfl⟩ := Option.map_eq_some_iff.mp hs
      refine ⟨fun i ss t hi ht => ?_, fun d hd => ?_⟩
      · change Function.update s.live j (some ⟨op, k r, tx'⟩) i = some ss at hi
        by_cases hij : i = j
        · subst hij
          obtain rfl : (⟨op, k r, tx'⟩ : Session S) = ss := by simpa using hi
          obtain rfl : tx' = some t := ht
          rcases execCmd_tx hx with rfl | rfl | ⟨t₁, stmt, a, ws, rfl, rfl, hres, heq⟩
          · exact .empty
          · exact hlive i _ t hl rfl
          · exact .push (h.live i _ t₁ hl rfl) hrun hstep
              ⟨⟨op, k, _, hl, rfl⟩, fault, o, hs', ws, hres, heq⟩ .refl
        · exact hlive i ss t (by simpa [hij] using hi) ht
      · change d ∈ sh.hist at hd
        rcases execCmd_shared hx with ⟨-, heq⟩ | ⟨t, rfl, hcase⟩
        · exact hcommits d (heq ▸ hd)
        · rcases List.mem_cons.mp hd with rfl | hd
          · refine Or.inr ?_
            rcases hcase with ⟨-, rfl⟩ | ⟨rfl, stmt, a, ws, rfl, hres, heq⟩
            · exact hlive j _ t hl rfl
            · exact .push .empty hrun hstep
                ⟨⟨op, k, _, hl, rfl⟩, fault, o, hs', ws, hres, heq⟩ .refl
          · exact hcommits d hd

/-- **Every statement of a commit was executed in the run.** -/
theorem ran_of_steps (h : Sys.Steps π s₀ s) (h0 : s₀.Quiescent) : Replayed π s₀ s := by
  induction h with
  | refl =>
    refine ⟨fun i ss t hl ht => ?_, fun c hc => Or.inl hc⟩
    have hnone := h0 i
    rw [txOf, hl, Option.bind_some, ht] at hnone
    exact absurd hnone (by simp)
  | tail hrun hstep ih =>
    obtain ⟨e, he, hπ⟩ := hstep
    exact ih.step hrun he hπ

/-- The first statement of a transaction. -/
theorem Ran.first (h : Ran π s₀ i t s) {stmt : D.Stmt} {a : D.Res stmt}
    {later : List (Σ s : D.Stmt, D.Res s)} (htrace : t.trace = later ++ [⟨stmt, a⟩]) :
    ∃ t' s₁ s₂, Sys.Steps π s₀ s₁ ∧ s₁.Executes s₂ i .empty t' stmt a ∧ Sys.Steps π s₁ s := by
  induction h generalizing later with
  | empty => exact absurd htrace (by simp [Tx.empty])
  | @push t _ stmt' a' s₁ s₂ s ht hbefore hstep hexec hafter ih =>
    have hexec' := hexec
    obtain ⟨_, _, _, _, _, rfl⟩ := hexec.step
    cases later with
    | nil =>
      obtain ⟨hhead, hrest⟩ := List.cons.inj htrace
      cases hhead
      -- Before it nothing was run.
      cases ht with
      | empty => exact ⟨_, s₁, s₂, hbefore, hexec', .head hstep hafter⟩
      | push _ _ _ hexec₀ _ =>
        obtain ⟨_, _, _, _, _, rfl⟩ := hexec₀.step
        exact absurd hrest (by simp [Tx.push])
    | cons e later =>
      obtain ⟨-, hrest⟩ := List.cons.inj htrace
      obtain ⟨t', s₁', s₂', h₁, hexec₁, h₂⟩ := ih hrest
      exact ⟨t', s₁', s₂', h₁, hexec₁, h₂.trans (.head hstep hafter)⟩

/-- **Nothing was run that the code cannot issue.** -/
theorem Ran.issued {q : Cmd D → Prop} (hcode : ∀ κ op, (S.code κ op).Only q)
    (h0 : ∀ i ss, s₀.live i = some ss → ss.code.Only q) (h : Ran π s₀ i t s) :
    ∀ e ∈ t.trace, q (.stmt e.1) := by
  induction h with
  | empty => exact fun _ he => absurd he (by simp [Tx.empty])
  | push _ hbefore _ hexec _ ih =>
    obtain ⟨op, k, tx, hl, -⟩ := hexec.live
    obtain ⟨_, _, _, _, _, rfl⟩ := hexec.step
    have hall := Sys.code_of_steps (C := fun _ x => x.Only q) hcode (fun _ _ _ h => h.2) hbefore h0
    intro e he
    rcases List.mem_cons.mp he with rfl | he
    · exact (hall i _ hl).1
    · exact ih e he

end Sys

end Lib
