import Digicash.Lib.Fallible

/-!
# Where a program gets if nothing stops it

`Spec` says what a program may do, whatever happens to it. `Leads` is the other half: a program
gets to `Q` as long as each of its commands is executed the way a *demand* asks, say without a
fault and on contents in which the statement finds what it needs. What the others do between
two commands does not matter then, so nothing is assumed of it.
-/

namespace Lib

variable {D : Database} {Op α β γ ε : Type}

/-- What is asked of the execution of one command: its fault, what the outside decides, and the
    state it meets. -/
abbrev Demand (D : Database) (Op : Type) :=
  Fault → D.Oracle → Shared D Op → Option (Tx D) → Cmd D → Prop

/-- As long as its commands are executed as `M` asks, the program gets to a state in `Q`, or
    ends with `R`. -/
def Leads (M : Demand D Op) (Q : Shared D Op → Prop) (R : α → Option (Tx D) → Prop) :
    Code D α → Option (Tx D) → Prop
  | .pure a, tx => R a tx
  | .cmd c k, tx => ∀ free i op fault o sh r sh' tx', M fault o sh tx c →
      execCmd free i op fault o sh tx c = some (r, sh', tx') → Q sh' ∨ Leads M Q R (k r) tx'

/-- A program that surely gets to `Q`. -/
abbrev GetsTo (M : Demand D Op) (Q : Shared D Op → Prop) : Code D α → Option (Tx D) → Prop :=
  Leads M Q fun _ _ => False

namespace Leads

variable {M : Demand D Op} {Q : Shared D Op → Prop} {tx : Option (Tx D)}

theorem bind {R₁ : α → Option (Tx D) → Prop} {R : β → Option (Tx D) → Prop} {f : α → Code D β}
    (hf : ∀ a tx, R₁ a tx → Leads M Q R (f a) tx) :
    ∀ {x : Code D α} {tx : Option (Tx D)}, Leads M Q R₁ x tx → Leads M Q R (x >>= f) tx
  | .pure a, tx, h => hf a tx h
  | .cmd _ _, _, h => fun free i op fault o sh r sh' tx' hM hx =>
    (h free i op fault o sh r sh' tx' hM hx).imp id fun h' => bind hf h'

/-- A statement of an open transaction that succeeds. -/
theorem query_bind [FromSql ε] {t : Tx D} {s : D.Stmt} {f : D.Res s → Fallible D ε α}
    {R : Except ε α → Option (Tx D) → Prop}
    (h : ∀ fault o sh, M fault o sh (some t) (.stmt s) → fault = .none ∧ ∃ waits r ws,
      D.exec s o (t.view sh.db) = .write waits r ws ∧
        Leads M Q R (f r).run (some (t.push s r waits ws))) :
    Leads M Q R (query s >>= f).run (some t) := by
  intro free i op fault o sh r sh' tx' hM hx
  obtain ⟨rfl, waits, a, ws, hex, hk⟩ := h fault o sh hM
  simp only [execCmd, execStmt, hex, ne_eq, not_true_eq_false, if_false] at hx
  split at hx
  · cases hx
    exact Or.inr hk
  · exact absurd hx (by simp)

/-- A transaction block whose body ends in a commit that leaves `Q`. -/
theorem transaction [FromSql ε] {body : Fallible D ε (Ending α)}
    {R : Except ε α → Option (Tx D) → Prop}
    (hbegin : ∀ fault o sh, M fault o sh tx .begin → fault = .none)
    (hcommit : ∀ fault o sh t, M fault o sh (some t) .commit → fault ≠ .before)
    (hbody : Leads M Q (fun r tx => ∃ a t, r = .ok (.commit a) ∧ tx = some t ∧
      ∀ (sh : Shared D Op) i op, Q (sh.commit i op t)) body.run (some .empty)) :
    Leads M Q R (transaction body).run tx := by
  intro free i op fault o sh r sh' tx' hM hx
  obtain rfl := hbegin fault o sh hM
  cases hx
  refine Or.inr (bind (fun r tx hr => ?_) hbody)
  obtain ⟨a, t, rfl, rfl, hQ⟩ := hr
  intro free i op fault o sh r sh' tx' hM hx
  -- A commit whose acknowledgement is lost has taken effect all the same.
  cases fault with
  | none =>
    cases hx
    exact Or.inl (hQ sh i op)
  | before => exact absurd rfl (hcommit _ o sh t hM)
  | after =>
    cases hx
    exact Or.inl (hQ sh i op)

end Leads

/-! ## Which commands code issues -/

section Commands

variable {q : Cmd D → Prop}

theorem only_bind {x : Fallible D ε α} {f : α → Fallible D ε β} (hx : x.run.Only q)
    (hf : ∀ a, (f a).run.Only q) : (x >>= f).run.Only q := by
  refine Prog.Only.bind (fun r => ?_) hx
  cases r with
  | ok a => exact hf a
  | error e => trivial

theorem only_query [FromSql ε] {s : D.Stmt} (h : q (.stmt s)) :
    (query s : Fallible D ε (D.Res s)).run.Only q := ⟨h, fun _ => trivial⟩

theorem only_mapErr {ε' : Type} {f : ε → ε'} {x : Fallible D ε α} (h : x.run.Only q) :
    (mapErr f x).run.Only q :=
  Prog.Only.bind (f := fun r : Except ε α => Prog.pure (r.mapError f)) (fun _ => trivial) h

theorem only_transaction [FromSql ε] {body : Fallible D ε (Ending α)} (hbegin : q .begin)
    (hcommit : q .commit) (hrollback : q .rollback) (hbody : body.run.Only q) :
    (transaction body).run.Only q := by
  refine ⟨hbegin, fun r => ?_⟩
  cases r with
  | error e => trivial
  | ok _ =>
    refine Prog.Only.bind (fun r => ?_) hbody
    match r with
    | .ok (.commit a) => exact ⟨hcommit, fun _ => trivial⟩
    | .ok (.drop a) => exact ⟨hrollback, fun _ => trivial⟩
    | .error e => exact ⟨hrollback, fun _ => trivial⟩

end Commands

/-! ## What code ends with once it has committed -/

/-- Code all of whose values satisfy `Q` from `f` on. -/
theorem results_bind {x : Fallible D ε α} {f : α → Fallible D ε β} {Q : Except ε β → Prop}
    (herr : ∀ e, Q (.error e)) (hf : ∀ a, (f a).run.Results Q) : (x >>= f).run.Results Q := by
  refine Prog.Results.bind (fun r _ => ?_) (x := x.run) .trivial
  cases r with
  | ok a => exact hf a
  | error e => exact herr e

/-- If the next command is a commit whose reply satisfies `p`, the code ends with `Q`. -/
def RepliesTo (p : Except SqlError Unit → Prop) (Q : α → Prop) (x : Code D α) : Prop :=
  ∀ k, x = .cmd .commit k → ∀ r, p r → (k r).Results Q

/-- Wherever the code commits with a reply that satisfies `p`, it ends with `Q`. -/
abbrev Committed (p : Except SqlError Unit → Prop) (Q : α → Prop) (x : Code D α) : Prop :=
  x.Everywhere (RepliesTo p Q)

/-- If the next command is a commit and it succeeds, the code ends with `Q`. -/
def CommitsTo (Q : α → Prop) (x : Code D α) : Prop :=
  ∀ k, x = .cmd .commit k → (k (.ok ())).Results Q

/-- Wherever the code commits, it ends with `Q`. -/
abbrev AfterCommit (Q : α → Prop) (x : Code D α) : Prop := x.Everywhere (CommitsTo Q)

theorem afterCommit_iff {Q : α → Prop} {x : Code D α} :
    AfterCommit Q x ↔ Committed (· = .ok ()) Q x := by
  refine ⟨Prog.Everywhere.imp fun x h k hk r hr => ?_, Prog.Everywhere.imp fun x h k hk => ?_⟩
  · subst hr
    exact h k hk
  · exact h k hk _ rfl

namespace Committed

variable {p : Except SqlError Unit → Prop} {Q : β → Prop}

theorem of_only {x : Code D β} (h : x.Only (· ≠ .commit)) : Committed p Q x := by
  refine Prog.Everywhere.of_only (fun a k hk => by cases hk) (fun c k hc k' hk => ?_) h
  cases hk
  exact absurd rfl hc

theorem bind {R : α → Prop} {f : α → Code D β} (hdone : ∀ a, R a → (f a).Results Q)
    (hf : ∀ a, Committed p Q (f a)) :
    ∀ {x : Code D α}, Committed p R x → Committed p Q (x >>= f)
  | .pure a, _ => hf a
  | .cmd c k, h => by
    refine ⟨fun k' hk' r hr => ?_, fun r => bind hdone hf (h.2 r)⟩
    cases hk'
    exact (h.1 k rfl r hr).bind hdone

theorem map {R : α → Prop} {x : Code D α} {f : α → β} (hf : ∀ a, R a → Q (f a))
    (hx : Committed p R x) : Committed p Q (f <$> x) := by
  change Committed p Q (x >>= fun a => .pure (f a))
  exact bind (f := fun a => .pure (f a)) hf (fun a k hk => by cases hk) hx

theorem mapErr {ε' : Type} {R : Except ε α → Prop} {Q : Except ε' α → Prop} {f : ε → ε'}
    {x : Fallible D ε α} (hf : ∀ r, R r → Q (r.mapError f)) (hx : Committed p R x.run) :
    Committed p Q (mapErr f x).run :=
  bind (f := fun r => .pure (r.mapError f)) hf (fun a k hk => by cases hk) hx

/-- Code whose first part ends with `R` once it has committed. -/
theorem bind_error {x : Fallible D ε α} {f : α → Fallible D ε γ} {R : Except ε α → Prop}
    {Q : Except ε γ → Prop} (herr : ∀ e, R (.error e) → Q (.error e))
    (hok : ∀ a, R (.ok a) → (f a).run.Results Q) (hf : ∀ a, Committed p Q (f a).run)
    (hx : Committed p R x.run) : Committed p Q (x >>= f).run := by
  refine bind (fun r hr => ?_) (fun r => ?_) hx
  · cases r with
    | ok a => exact hok a hr
    | error e => exact herr e hr
  · cases r with
    | ok a => exact hf a
    | error e => exact fun k hk => by cases hk

/-- Code that does not commit before it gets to `f`. -/
theorem bind_ok {x : Fallible D ε α} {f : α → Fallible D ε γ} {Q : Except ε γ → Prop}
    (hx : x.run.Only (· ≠ .commit)) (hf : ∀ a, Committed p Q (f a).run) :
    Committed p Q (x >>= f).run :=
  bind_error (R := fun _ => False) (fun _ h => h.elim) (fun _ h => h.elim) hf (of_only hx)

/-- A transaction block whose body only ever ends in commits with `Q`. -/
theorem transaction [FromSql ε] {body : Fallible D ε (Ending α)} {Q : Except ε α → Prop}
    (hbody : body.run.Only (· ≠ .commit))
    (hends : body.run.Results fun r => ∀ a, r = .ok (.commit a) → p (.ok ()) → Q (.ok a))
    (hlost : ∀ e, p (.error e) → Q (.error (fromSql e))) :
    Committed p Q (transaction body).run := by
  have key : ∀ (x : Code D (Except ε (Ending α))), x.Only (· ≠ .commit) →
      x.Results (fun r => ∀ a, r = .ok (.commit a) → p (.ok ()) → Q (.ok a)) →
        Committed p Q (x >>= finish) := by
    intro x
    induction x with
    | pure r =>
      intro _ hr
      match r with
      | .ok (.commit a) =>
        refine ⟨fun k hk reply hreply => ?_, fun r => (fun k hk => by cases hk)⟩
        cases hk
        cases reply with
        | ok _ => exact hr a rfl hreply
        | error e => exact hlost e hreply
      | .ok (.drop a) => exact ⟨fun k hk => (by cases hk), fun _ k hk => by cases hk⟩
      | .error e => exact ⟨fun k hk => (by cases hk), fun _ k hk => by cases hk⟩
    | cmd c k ih =>
      intro hc hr
      refine ⟨fun k' hk' => ?_, fun r => ih r (hc.2 r) (hr r)⟩
      cases hk'
      exact absurd rfl hc.1
  refine ⟨fun k hk => (by cases hk), fun r => ?_⟩
  cases r with
  | error e => exact fun k hk => by cases hk
  | ok _ => exact key body.run hbody hends

end Committed

namespace AfterCommit

variable {Q : β → Prop}

theorem map {Q₁ : α → Prop} {x : Code D α} {f : α → β} (hf : ∀ a, Q₁ a → Q (f a))
    (hx : AfterCommit Q₁ x) : AfterCommit Q (f <$> x) :=
  afterCommit_iff.mpr (.map hf (afterCommit_iff.mp hx))

theorem mapErr {ε' : Type} {Q₁ : Except ε α → Prop} {Q : Except ε' α → Prop} {f : ε → ε'}
    {x : Fallible D ε α} (hf : ∀ r, Q₁ r → Q (r.mapError f)) (hx : AfterCommit Q₁ x.run) :
    AfterCommit Q (mapErr f x).run :=
  afterCommit_iff.mpr (.mapErr hf (afterCommit_iff.mp hx))

/-- Code that does not commit before it gets to `f`. -/
theorem bind_ok {x : Fallible D ε α} {f : α → Fallible D ε γ} {Q : Except ε γ → Prop}
    (hx : x.run.Only (· ≠ .commit)) (hf : ∀ a, AfterCommit Q (f a).run) :
    AfterCommit Q (x >>= f).run :=
  afterCommit_iff.mpr (.bind_ok hx fun a => afterCommit_iff.mp (hf a))

/-- A transaction block whose body only ever ends in commits with `Q`. -/
theorem transaction [FromSql ε] {body : Fallible D ε (Ending α)} {Q : Except ε α → Prop}
    (hbody : body.run.Only (· ≠ .commit))
    (hends : body.run.Results fun r => ∀ a, r = .ok (.commit a) → Q (.ok a)) :
    AfterCommit Q (transaction body).run := by
  refine afterCommit_iff.mpr (.transaction hbody ?_ fun e he => by cases he)
  exact hends.mono fun r hr a ha _ => hr a ha

end AfterCommit

/-! ## What is answered once something was committed -/

variable {S : Service D}

/-- A step that commits executes a `commit`, or a statement that is its own transaction. -/
theorem Sys.commit_step {s s' : Sys S} {e : Event S} (hs : s.step e = some s') :
    s'.shared.hist = s.shared.hist ∨ ∃ i op c k r tx t tx', s.live i = some ⟨op, .cmd c k, tx⟩ ∧
      s'.live i = some ⟨op, k r, tx'⟩ ∧ s'.answers = s.answers ∧
      s'.shared.hist = ⟨i, op, t, s.shared.db⟩ :: s.shared.hist ∧
      (c = .commit ∧ tx = some t ∨ tx = none ∧ t.trace.length = 1) := by
  cases e with
  | start op =>
    obtain ⟨m, -, rfl⟩ := Option.map_eq_some_iff.mp hs
    exact Or.inl rfl
  | drop i =>
    obtain rfl := Option.some.inj hs
    exact Or.inl rfl
  | crash κ =>
    obtain rfl := Option.some.inj hs
    exact Or.inl rfl
  | step i fault o =>
    simp only [Sys.step] at hs
    split at hs
    · exact absurd hs (by simp)
    · obtain rfl := Option.some.inj hs
      exact Or.inl rfl
    · rename_i op c k tx hl
      obtain ⟨⟨r, sh, tx'⟩, hx, rfl⟩ := Option.map_eq_some_iff.mp hs
      rcases execCmd_shared hx with ⟨-, hh⟩ | ⟨t, rfl, hcommit⟩
      · exact Or.inl hh
      · refine Or.inr ⟨i, op, c, k, r, tx, t, tx', hl, Function.update_self .., rfl, rfl, ?_⟩
        rcases hcommit with hcommit | ⟨htx, st, a, ws, -, -, rfl⟩
        · exact Or.inl hcommit
        · exact Or.inr ⟨htx, rfl⟩

/-- **Whoever has committed is answered with `Q`, if at all**, where the code of its operation
    ends with `Q` once it has committed, and commits no single statements. -/
theorem Sys.answered_of_commit {π : Policy S} {G : S.Op → Prop} {Q : S.Ans → Prop}
    (hcode : ∀ κ op, G op → Committed (fun _ => True) Q (S.code κ op)) {s s' : Sys S}
    (h : Sys.Steps π s s') (hcalls : s.Calls) (hidle : s.Idle) (hempty : s.shared.hist = [])
    (hlong : ∀ {s₁}, Sys.Steps π s s₁ → ∀ c ∈ s₁.shared.hist, G c.op →
      c.tx.trace.length ≠ 1) :
    ∀ c ∈ s'.shared.hist, G c.op → ∀ a ∈ s'.answers, a.call = c.call → Q a.ans := by
  have hshape : ∀ {s₁}, Sys.Steps π s s₁ → ∀ i ss, s₁.live i = some ss → G ss.op →
      Committed (fun _ => True) Q ss.code := fun hrun =>
    Sys.code_of_steps (C := fun op x => G op → Committed (fun _ => True) Q x) hcode
      (fun _ _ _ hx r hg => (hx hg).2 r) hrun fun i _ hl => absurd hl (by simp [hidle i])
  have hall : ∀ c ∈ s'.shared.hist, G c.op →
      (∀ ss, s'.live c.call = some ss → ss.code.Results Q) ∧
      ∀ a ∈ s'.answers, a.call = c.call → Q a.ans := by
    induction h with
    | refl =>
      intro c hc
      exact absurd hc (by simp [hempty])
    | @tail s₁ s₂ hrun hstep ih =>
      obtain ⟨e, he, -⟩ := id hstep
      have hold : ∀ c ∈ s₁.shared.hist, G c.op →
          (∀ ss, s₂.live c.call = some ss → ss.code.Results Q) ∧
          ∀ a ∈ s₂.answers, a.call = c.call → Q a.ans := by
        intro c hc hg
        obtain ⟨hlive, hans⟩ := ih c hc hg
        have hlt := Sys.lt_of_mem_hist hrun hcalls (by simp [hempty]) c hc
        refine ⟨fun ss hl => ?_, fun a ha hcall => ?_⟩
        · rcases Sys.live_step he hl with ⟨hnew, -⟩ | hl' | ⟨op, c', k, tx, r, tx', hl', rfl⟩
          · exact absurd hlt (by simp [hnew])
          · exact hlive ss hl'
          · exact hlive _ hl' r
        · rcases Sys.live_of_answer he ha with ha' | ⟨tx, hl⟩
          · exact hans a ha' hcall
          · exact hlive _ (hcall ▸ hl)
      intro c hc hg
      rcases Sys.commit_step he with heq | ⟨i, op, c', k, r, tx, t, tx', hl, hl', hans, heq, hcommit⟩
      · exact hold c (heq ▸ hc) hg
      rw [heq] at hc
      rcases List.mem_cons.mp hc with rfl | hc
      · rcases hcommit with ⟨rfl, -⟩ | ⟨-, hlen⟩
        · refine ⟨fun ss hss => ?_, fun a ha hcall => ?_⟩
          · obtain rfl := Option.some.inj (hl'.symm.trans hss)
            exact (hshape hrun i _ hl hg).1 k rfl r trivial
          · have hnone := ((hcalls.steps hrun).answered a (hans ▸ ha)).2
            rw [hcall] at hnone
            exact absurd (hl.symm.trans hnone) (by simp)
        · exact absurd hlen (hlong (.tail hrun hstep) _ (heq ▸ List.mem_cons_self ..) hg)
      · exact hold c hc hg
  exact fun c hc hg => (hall c hc hg).2

end Lib
