import Digicash.Lib.Progress

/-!
# What an answer says about what was committed

A caller who hears an answer wants to know whether his call did anything. `Tells` is that
question asked of the code: wherever a command may have committed, the code ends in an answer
of `Q`. It is checked command by command, keeping track of whether a transaction is open, since
a statement commits on its own only where none is. `Sys.told` carries it to every run: whoever
is answered otherwise has committed nothing.

Some statements a call may run on the side, such as a cleanup; `minor` says which do not count.
-/

namespace Lib

variable {D : Database} {α β ε : Type}

/-- Whether a transaction is open after the command was answered so. -/
def opens (b : Bool) : (c : Cmd D) → c.Reply → Bool
  | .begin, .ok _ => true
  | .begin, .error _ => false
  | .commit, _ => false
  | .rollback, _ => false
  | .stmt _, .ok _ => b
  | .stmt _, .error _ => false
  | .ext _, _ => b

/-- Whether the command, answered so, may have committed: the open transaction, or a statement
    that was alone. An error leaves open which. -/
def Lands (minor : D.Stmt → Prop) (b : Bool) : (c : Cmd D) → c.Reply → Prop
  | .commit, _ => b = true
  | .stmt s, .ok a => b = false ∧ ¬ minor s ∧
      ∃ o db ws, (D.exec s o db).result = .ok (a, ws) ∧ ws ≠ []
  | .stmt s, .error _ => b = false ∧ ¬ minor s
  | _, _ => False

/-- Wherever the code may have committed, it ends with `Q`. What it ends with, and whether a
    transaction is open then, satisfies `E`. -/
def Tells (minor : D.Stmt → Prop) (E : Bool → α → Prop) (Q : α → Prop) :
    Bool → Code D α → Prop
  | b, .pure a => E b a
  | b, .cmd c k => ∀ r, (Lands minor b c r → (k r).Results Q) ∧
      Tells minor E Q (opens b c r) (k r)

/-- The answer is a value of `R`, or a serious error. -/
def Says (serious : ε → Prop) (R : α → Prop) : Except ε α → Prop
  | .ok a => R a
  | .error e => serious e

namespace Tells

variable {minor : D.Stmt → Prop} {b : Bool}

section Bind

variable {E : Bool → β → Prop} {Q : β → Prop} {E₁ : Bool → α → Prop} {P : α → Prop}

theorem bind {f : α → Code D β} (hdone : ∀ a, P a → (f a).Results Q)
    (hf : ∀ b a, E₁ b a → Tells minor E Q b (f a)) :
    ∀ {b : Bool} {x : Code D α}, Tells minor E₁ P b x → Tells minor E Q b (x >>= f)
  | b, .pure a, h => hf b a h
  | _, .cmd _ _, h => fun r =>
    ⟨fun hl => ((h r).1 hl).bind hdone, bind hdone hf (h r).2⟩

end Bind

/-- Code that ends with `Q` in any case. -/
theorem of_results {Q : α → Prop} : ∀ {b : Bool} {x : Code D α}, x.Results Q →
    Tells minor (fun _ _ => True) Q b x
  | _, .pure _, _ => trivial
  | _, .cmd _ _, h => fun r => ⟨fun _ => h r, of_results (h r)⟩

theorem map {P : α → Prop} {Q : β → Prop} {f : α → β} (hf : ∀ a, P a → Q (f a))
    {x : Code D α} (hx : Tells minor (fun _ _ => True) P b x) :
    Tells minor (fun _ _ => True) Q b (f <$> x) :=
  bind (f := fun a => .pure (f a)) (E := fun _ _ => True) hf (fun _ _ _ => trivial) hx

theorem mono {E E' : Bool → α → Prop} {Q Q' : α → Prop} (hE : ∀ b a, E b a → E' b a)
    (hQ : ∀ a, Q a → Q' a) : ∀ {b : Bool} {x : Code D α}, Tells minor E Q b x →
      Tells minor E' Q' b x
  | b, .pure a, h => hE b a h
  | _, .cmd _ _, h => fun r => ⟨fun hl => ((h r).1 hl).mono hQ, mono hE hQ (h r).2⟩

end Tells

/-! ## Code that can fail, outside a transaction -/

/-- Code that begins and ends with no transaction open. -/
abbrev TellsAlone (minor : D.Stmt → Prop) (serious : ε → Prop) (R : α → Prop)
    (x : Fallible D ε α) : Prop :=
  Tells minor (fun b _ => b = false) (Says serious R) false x.run

/-- Code inside a transaction: nothing is committed there, and it is open as long as all goes
    well. -/
abbrev TellsWithin (minor : D.Stmt → Prop) (x : Fallible D ε α) : Prop :=
  Tells minor (fun b r => ∀ a, r = .ok a → b = true) (fun _ => False) true x.run

section Alone

variable {minor : D.Stmt → Prop} {serious : ε → Prop} {R : β → Prop} {P : α → Prop}

namespace TellsAlone

theorem pure {b : β} : TellsAlone minor serious R (Pure.pure b : Fallible D ε β) := rfl

theorem throw {e : ε} : TellsAlone minor serious R (throw e : Fallible D ε β) := rfl

theorem orThrow {x : Except ε β} : TellsAlone minor serious R (orThrow x : Fallible D ε β) := rfl

theorem perform {e : D.Ext} {R : D.ExtRes e → Prop} :
    TellsAlone minor serious R (perform e : Fallible D ε _) :=
  fun _ => ⟨fun h => h.elim, rfl⟩

/-- A statement that commits on its own, if it writes. -/
theorem query [FromSql ε] {s : D.Stmt} {R : D.Res s → Prop} (hsql : ∀ e, serious (fromSql e))
    (h : ∀ o db a ws, (D.exec s o db).result = .ok (a, ws) → ws ≠ [] → R a) :
    TellsAlone minor serious R (query s : Fallible D ε _) := by
  intro r
  cases r with
  | ok a =>
    refine ⟨?_, rfl⟩
    rintro ⟨-, -, o, db, ws, hres, hws⟩
    exact h o db a ws hres hws
  | error e => exact ⟨fun _ => hsql e, rfl⟩

/-- A statement on the side. -/
theorem query_minor [FromSql ε] {s : D.Stmt} {R : D.Res s → Prop} (h : minor s) :
    TellsAlone minor serious R (Lib.query s : Fallible D ε _) := by
  intro r
  cases r with
  | ok a => exact ⟨fun hl => absurd h hl.2.1, rfl⟩
  | error e => exact ⟨fun hl => absurd h hl.2, rfl⟩

theorem bind {x : Fallible D ε α} {f : α → Fallible D ε β} (hx : TellsAlone minor serious P x)
    (hdone : ∀ a, P a → (f a).run.Results (Says serious R))
    (hf : ∀ a, TellsAlone minor serious R (f a)) : TellsAlone minor serious R (x >>= f) := by
  refine Tells.bind (fun r hr => ?_) (fun b r hb => ?_) hx
  · cases r with
    | ok a => exact hdone a hr
    | error e => exact hr
  · subst hb
    cases r with
    | ok a => exact hf a
    | error e => exact rfl

/-- Code before which nothing is committed. -/
theorem bind_idle {x : Fallible D ε α} {f : α → Fallible D ε β}
    (hx : TellsAlone minor serious (fun _ => False) x)
    (hf : ∀ a, TellsAlone minor serious R (f a)) : TellsAlone minor serious R (x >>= f) :=
  bind hx (fun _ h => h.elim) hf

theorem mapErr {ε' : Type} {f : ε → ε'} {serious' : ε' → Prop} {x : Fallible D ε β}
    (hf : ∀ e, serious e → serious' (f e)) (hx : TellsAlone minor serious R x) :
    TellsAlone minor serious' R (mapErr f x) := by
  refine Tells.bind (f := fun r : Except ε β => Prog.pure (r.mapError f)) (fun r hr => ?_)
    (fun b r hb => hb) hx
  cases r with
  | ok a => exact hr
  | error e => exact hf e hr

/-- A row inserted, unless it was there. -/
theorem inserted {x : Fallible D ε Nat} {e : ε} {b : β}
    (hx : TellsAlone minor serious (fun n => n = 1) x) (hb : R b) :
    TellsAlone minor serious R (do
      let inserted ← x
      if inserted = 0 then MonadExcept.throw e else Pure.pure b) := by
  refine bind hx (fun inserted h => ?_) fun inserted => ?_
  · subst h
    exact hb
  · split
    · exact throw
    · exact pure

end TellsAlone

/-- Code that nothing follows. -/
abbrev TellsEnd (minor : D.Stmt → Prop) (serious : ε → Prop) (R : α → Prop)
    (x : Fallible D ε α) : Prop :=
  Tells minor (fun _ _ => True) (Says serious R) false x.run

namespace TellsEnd

theorem of_alone {x : Fallible D ε β} (hx : TellsAlone minor serious R x) :
    TellsEnd minor serious R x := hx.mono (fun _ _ _ => trivial) fun _ h => h

theorem bind {x : Fallible D ε α} {f : α → Fallible D ε β} (hx : TellsAlone minor serious P x)
    (hdone : ∀ a, P a → (f a).run.Results (Says serious R))
    (hf : ∀ a, TellsEnd minor serious R (f a)) : TellsEnd minor serious R (x >>= f) := by
  refine Tells.bind (fun r hr => ?_) (fun b r hb => ?_) hx
  · cases r with
    | ok a => exact hdone a hr
    | error e => exact hr
  · subst hb
    cases r with
    | ok a => exact hf a
    | error e => exact trivial

theorem bind_idle {x : Fallible D ε α} {f : α → Fallible D ε β}
    (hx : TellsAlone minor serious (fun _ => False) x)
    (hf : ∀ a, TellsEnd minor serious R (f a)) : TellsEnd minor serious R (x >>= f) :=
  bind hx (fun _ h => h.elim) hf

end TellsEnd

/-- A program that hands its result, value or error, to its caller. -/
theorem Tells.answer {γ : Type} {Q : γ → Prop} {f : Except ε β → γ} {x : Fallible D ε β}
    (hx : TellsEnd minor serious R x) (hf : ∀ r, Says serious R r → Q (f r)) :
    Tells minor (fun _ _ => True) Q false (f <$> x.run) := map hf hx

/-- What is said to fail with a status of `n` or more does not fail with one below. -/
theorem Says.not_below {status : ε → Nat} {n : Nat} {r : Except ε β}
    (h : Says (fun e => n ≤ status e) R r) : ¬ ∃ e, r = .error e ∧ status e < n := by
  rintro ⟨e, rfl, hlt⟩
  exact absurd hlt (Nat.not_lt.mpr h)

/-! ### Code that fails only seriously -/

theorem says_bind {x : Fallible D ε α} {f : α → Fallible D ε β}
    (hx : x.run.Results (Says serious P)) (hf : ∀ a, P a → (f a).run.Results (Says serious R)) :
    (x >>= f).run.Results (Says serious R) := by
  refine Prog.Results.bind (fun r hr => ?_) hx
  cases r with
  | ok a => exact hf a hr
  | error e => exact hr

/-- Where no failure is taken amiss. -/
theorem says_anything (x : Fallible D ε α) :
    x.run.Results (Says (fun _ => True) fun _ => True) := by
  refine Prog.Results.mono (fun r _ => ?_) .trivial
  cases r <;> trivial

theorem says_query [FromSql ε] {s : D.Stmt} (hsql : ∀ e, serious (fromSql e)) :
    (query s : Fallible D ε (D.Res s)).run.Results (Says serious fun _ => True) := by
  intro r
  cases r with
  | ok a => trivial
  | error e => exact hsql e

theorem says_transaction [FromSql ε] {body : Fallible D ε (Ending β)}
    (hsql : ∀ e, serious (fromSql e)) (hbody : body.run.Results (Says serious fun _ => True)) :
    (transaction body).run.Results (Says serious fun _ => True) := by
  intro r
  cases r with
  | error e => exact hsql e
  | ok _ =>
    refine Prog.Results.bind (fun r hr => ?_) hbody
    match r with
    | .ok (.commit a) =>
      intro reply
      cases reply with
      | ok _ => trivial
      | error e => exact hsql e
    | .ok (.drop a) => exact fun _ => trivial
    | .error e => exact fun _ => hr

namespace TellsWithin

theorem pure {b : β} : TellsWithin minor (Pure.pure b : Fallible D ε β) := fun _ _ => rfl

theorem throw {e : ε} : TellsWithin minor (throw e : Fallible D ε β) := fun _ h => by cases h

theorem orThrow {x : Except ε β} : TellsWithin minor (orThrow x : Fallible D ε β) := fun _ _ => rfl

theorem query [FromSql ε] {s : D.Stmt} : TellsWithin minor (query s : Fallible D ε (D.Res s)) := by
  intro r
  cases r with
  | ok a => exact ⟨fun hl => absurd hl.1 (by simp), fun _ _ => rfl⟩
  | error e => exact ⟨fun hl => absurd hl.1 (by simp), fun _ h => by cases h⟩

theorem bind {x : Fallible D ε α} {f : α → Fallible D ε β} (hx : TellsWithin minor x)
    (hf : ∀ a, TellsWithin minor (f a)) : TellsWithin minor (x >>= f) := by
  refine Tells.bind (fun _ h => h.elim) (fun b r hb => ?_) hx
  cases r with
  | ok a =>
    obtain rfl := hb a rfl
    exact hf a
  | error e => exact fun _ h => by cases h

end TellsWithin

/-- A transaction block that commits what it says. -/
theorem TellsAlone.transaction [FromSql ε] {body : Fallible D ε (Ending β)}
    (hsql : ∀ e, serious (fromSql e)) (hbody : TellsWithin minor body)
    (hends : body.run.Results fun r => ∀ a, r = .ok (.commit a) → R a) :
    TellsAlone minor serious R (transaction body) := by
  have hfinish : ∀ b (r : Except ε (Ending β)), (∀ a, r = .ok (.commit a) → R a) →
      Tells minor (fun b _ => b = false) (Says serious R) b (finish (D := D) r) := by
    intro b r hr
    match r with
    | .ok (.commit a) =>
      intro reply
      refine ⟨fun _ => ?_, rfl⟩
      cases reply with
      | ok _ => exact hr a rfl
      | error e => exact hsql e
    | .ok (.drop a) => exact fun _ => ⟨fun h => h.elim, rfl⟩
    | .error e => exact fun _ => ⟨fun h => h.elim, rfl⟩
  have hrun : ∀ {b : Bool} {x : Code D (Except ε (Ending β))},
      Tells minor (fun b r => ∀ a, r = .ok a → b = true) (fun _ => False) b x →
        x.Results (fun r => ∀ a, r = .ok (.commit a) → R a) →
          Tells minor (fun b _ => b = false) (Says serious R) b (x >>= finish) := by
    intro b x
    induction x generalizing b with
    | pure r => exact fun _ hr => hfinish b r hr
    | cmd c k ih =>
      intro hx hr reply
      refine ⟨fun hl => ?_, ih reply (hx reply).2 (hr reply)⟩
      exact Prog.Results.bind (fun _ (h : False) => h.elim) ((hx reply).1 hl)
  intro r
  cases r with
  | ok _ => exact ⟨fun h => h.elim, hrun hbody hends⟩
  | error e => exact ⟨fun h => h.elim, rfl⟩

end Alone

/-! ## Runs -/

/-- The commit is a minor statement on its own. -/
def Commit.Minor {Op : Type} (minor : D.Stmt → Prop) (c : Commit D Op) : Prop :=
  ∃ s a, c.tx.trace = [⟨s, a⟩] ∧ minor s

theorem opens_of_exec {Op : Type} {free : D.Row → Bool} {i : CallId} {op : Op} {fault : Fault}
    {o : D.Oracle} {sh sh' : Shared D Op} {tx tx' : Option (Tx D)} {c : Cmd D} {r : c.Reply}
    (h : execCmd free i op fault o sh tx c = some (r, sh', tx')) :
    tx'.isSome = opens tx.isSome c r := by
  cases c with
  | begin =>
    simp only [execCmd] at h
    split at h <;> cases h <;> rfl
  | commit => cases tx <;> cases fault <;> cases h <;> rfl
  | rollback =>
    cases h
    rfl
  | ext e =>
    obtain ⟨⟨r', m⟩, -, heq⟩ := Option.map_eq_some_iff.mp h
    cases heq
    rfl
  | stmt s =>
    cases tx with
    | some t =>
      simp only [execCmd, execStmt] at h
      repeat' split at h
      all_goals cases h
      all_goals rfl
    | none =>
      simp only [execCmd, execStmt] at h
      repeat' split at h
      all_goals cases h
      all_goals rfl

/-- What was committed landed, unless it is minor. -/
theorem lands_of_exec (minor : D.Stmt → Prop) {Op : Type} {free : D.Row → Bool} {i : CallId}
    {op : Op} {fault : Fault} {o : D.Oracle} {sh sh' : Shared D Op} {tx tx' : Option (Tx D)}
    {c : Cmd D} {r : c.Reply} (h : execCmd free i op fault o sh tx c = some (r, sh', tx')) :
    sh'.hist = sh.hist ∨ ∃ t, sh'.hist = ⟨i, op, t, sh.db⟩ :: sh.hist ∧
      (Commit.Minor minor (⟨i, op, t, sh.db⟩ : Commit D Op) ∨ Lands minor tx.isSome c r) := by
  cases c with
  | begin =>
    simp only [execCmd] at h
    split at h <;> cases h <;> exact Or.inl rfl
  | commit =>
    cases tx with
    | none =>
      cases h
      exact Or.inl rfl
    | some t =>
      cases fault <;> cases h
      · exact Or.inr ⟨t, rfl, Or.inr rfl⟩
      · exact Or.inl rfl
      · exact Or.inr ⟨t, rfl, Or.inr rfl⟩
  | rollback =>
    cases h
    exact Or.inl rfl
  | ext e =>
    obtain ⟨⟨r', m⟩, -, heq⟩ := Option.map_eq_some_iff.mp h
    cases heq
    exact Or.inl rfl
  | stmt s =>
    cases tx with
    | some t =>
      simp only [execCmd, execStmt] at h
      repeat' split at h
      all_goals cases h
      all_goals exact Or.inl rfl
    | none =>
      simp only [execCmd, execStmt] at h
      split at h
      · cases h
        exact Or.inl rfl
      split at h
      · split at h
        · cases h
          exact Or.inl rfl
        rename_i a ws hres
        obtain ⟨rfl, rfl, -⟩ := Prod.mk.inj (Option.some.inj h) |>.imp id Prod.mk.inj
        split
        · exact Or.inl rfl
        rename_i hws
        refine Or.inr ⟨_, rfl, ?_⟩
        by_cases hminor : minor s
        · exact Or.inl ⟨s, a, rfl, hminor⟩
        refine Or.inr ?_
        split
        · exact ⟨rfl, hminor⟩
        · exact ⟨rfl, hminor, o, sh.db, ws, hres, fun h => hws (by simp [h])⟩
      · exact absurd h (by simp)

variable {S : Service D}

/-- A step that commits executes a command that landed, but for minor statements. -/
theorem Sys.lands_step (minor : D.Stmt → Prop) {s s' : Sys S} {e : Event S}
    (hs : s.step e = some s') : s'.shared.hist = s.shared.hist ∨ ∃ i op c k r tx t tx',
      s.live i = some ⟨op, .cmd c k, tx⟩ ∧ s'.live i = some ⟨op, k r, tx'⟩ ∧
        s'.answers = s.answers ∧ s'.shared.hist = ⟨i, op, t, s.shared.db⟩ :: s.shared.hist ∧
          (Commit.Minor minor (⟨i, op, t, s.shared.db⟩ : Commit D S.Op) ∨
            Lands minor tx.isSome c r) := by
  cases e with
  | start op =>
    obtain ⟨m, -, rfl⟩ := Option.map_eq_some_iff.mp hs
    exact Or.inl rfl
  | drop i =>
    obtain rfl := Option.some.inj hs
    exact Or.inl rfl
  | crash κ =>
    obtain rfl := Option.some.inj hs
    exact Or.inl rfl
  | step i fault o =>
    simp only [Sys.step] at hs
    split at hs
    · exact absurd hs (by simp)
    · obtain rfl := Option.some.inj hs
      exact Or.inl rfl
    · rename_i op c k tx hl
      obtain ⟨⟨r, sh, tx'⟩, hx, rfl⟩ := Option.map_eq_some_iff.mp hs
      rcases lands_of_exec minor hx with hsame | ⟨t, hhist, hland⟩
      · exact Or.inl hsame
      · exact Or.inr ⟨i, op, c, k, r, tx, t, tx', hl, Function.update_self .., rfl, hhist, hland⟩

/-- The calls in flight tell, and those that have committed are led to `Q`. -/
structure Sys.Telling (minor : D.Stmt → Prop) (Q : S.Op → S.Ans → Prop) (s : Sys S) : Prop where
  live : ∀ i ss, s.live i = some ss →
    Tells minor (fun _ _ => True) (Q ss.op) ss.tx.isSome ss.code
  begun : ∀ c ∈ s.shared.hist, c.call < s.next
  landed : ∀ c ∈ s.shared.hist, ¬ c.Minor minor →
    (∀ ss, s.live c.call = some ss → ss.code.Results (Q c.op)) ∧
      ∀ a ∈ s.answers, a.call = c.call → Q c.op a.ans

variable {minor : D.Stmt → Prop} {Q : S.Op → S.Ans → Prop}

/-- Those that had committed before go on as they were led. -/
theorem Sys.Telling.still {s s' : Sys S} (h : s.Telling minor Q) {e : Event S}
    (he : s.step e = some s') {c : Commit D S.Op} (hc : c ∈ s.shared.hist)
    (hminor : ¬ c.Minor minor) : (∀ ss, s'.live c.call = some ss → ss.code.Results (Q c.op)) ∧
      ∀ a ∈ s'.answers, a.call = c.call → Q c.op a.ans := by
  obtain ⟨hlive, hans⟩ := h.landed c hc hminor
  refine ⟨fun ss hl => ?_, fun a ha hcall => ?_⟩
  · rcases Sys.live_step he hl with ⟨hnew, -⟩ | hold | ⟨op, c', k, tx, r, tx', hold, rfl⟩
    · exact absurd (h.begun c hc) (by simp [hnew])
    · exact hlive ss hold
    · exact hlive _ hold r
  · rcases Sys.live_of_answer he ha with hold | ⟨tx, hl⟩
    · exact hans a hold hcall
    · exact hlive _ (hcall ▸ hl)

theorem Sys.Telling.step (hcode : ∀ κ op, Tells minor (fun _ _ => True) (Q op) false (S.code κ op))
    {s s' : Sys S} (h : s.Telling minor Q) (hcalls : s.Calls) {e : Event S}
    (he : s.step e = some s') : s'.Telling minor Q := by
  refine ⟨fun i ss hl => ?_, fun c hc => ?_, fun c hc hminor => ?_⟩
  · rcases Sys.live_exec he hl with ⟨op, rfl⟩ | hold |
      ⟨op, c, k, tx, fault, o, r, tx', hold, rfl, hx⟩
    · exact hcode s.conf op
    · exact h.live i ss hold
    · have hnext := (h.live i _ hold r).2
      rwa [← opens_of_exec hx] at hnext
  · refine Nat.lt_of_lt_of_le ?_ (Sys.next_le he)
    rcases Sys.hist_step he with heq | ⟨c', ss, hl, -, heq⟩
    · exact h.begun c (heq ▸ hc)
    · rw [heq] at hc
      rcases List.mem_cons.mp hc with rfl | hc
      · exact hcalls.live _ ss hl
      · exact h.begun c hc
  · rcases Sys.lands_step minor he with heq | ⟨i, op, c', k, r, tx, t, tx', hl, hl', hans, heq, hland⟩
    · exact h.still he (heq ▸ hc) hminor
    rw [heq] at hc
    rcases List.mem_cons.mp hc with rfl | hc
    · -- The call that commits now: its code knows, and it was not answered before.
      refine ⟨fun ss hss => ?_, fun a ha hcall => ?_⟩
      · obtain rfl := Option.some.inj (hl'.symm.trans hss)
        exact (h.live i _ hl r).1 (hland.resolve_left hminor)
      · have hnone := (hcalls.answered a (hans ▸ ha)).2
        rw [hcall] at hnone
        exact absurd (hl.symm.trans hnone) (by simp)
    · exact h.still he hc hminor

/-- **Whoever has committed is answered with `Q`, if at all**, but for minor statements on the
    side, where the code of every operation tells so. -/
theorem Sys.told {π : Policy S}
    (hcode : ∀ κ op, Tells minor (fun _ _ => True) (Q op) false (S.code κ op))
    {κ : S.Conf} {db : D.Db} {mem : D.Mem} {s : Sys S} (h : Sys.Steps π (.init κ db mem) s) :
    ∀ c ∈ s.shared.hist, ¬ c.Minor minor → ∀ a ∈ s.answers, a.call = c.call → Q c.op a.ans := by
  have htelling : s.Telling minor Q := by
    induction h with
    | refl => exact ⟨fun _ _ hl => absurd hl (by simp [Sys.init]), fun _ hc => absurd hc (by
        simp [Sys.init]), fun _ hc => absurd hc (by simp [Sys.init])⟩
    | tail hrun hstep ih =>
      obtain ⟨e, he, -⟩ := hstep
      exact ih.step hcode (Sys.calls_init.steps hrun) he
  exact fun c hc hminor => (htelling.landed c hc hminor).2

end Lib
