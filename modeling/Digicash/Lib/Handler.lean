import Digicash.Lib.Alone

/-!
# Programs under a handler

A handler answers every command of a program at once, so a program under a handler has one
outcome. `Succeeds` says that it is a good one, and is proved along the code like a `Spec`.

`answering` is the handler of a service in which nothing fails and nobody else's call moves: an
`Outside`, which may have a state of its own, decides the rest. `Sys.serve` is one call of such a
service, from its start to its answer; `Sys.serve_steps` finds it among the runs of the service.
-/

namespace Lib

variable {D : Database} {S : Service D} {α β ε σ : Type}

/-! ## Success -/

/-- What answers a command, and what that makes of the state. -/
abbrev Handler (D : Database) (σ : Type) :=
  (c : Cmd D) → σ → Option (c.Reply × σ)

/-- Under `h`, the code ends well, and with `Q`. -/
def Succeeds (h : Handler D σ) (Q : α → σ → Prop) (x : Fallible D ε α) (s : σ) : Prop :=
  ∃ a s', x.run.interp h s = (some (.ok a), s') ∧ Q a s'

namespace Succeeds

variable {h : Handler D σ} {Q : α → σ → Prop} {s : σ}

theorem ok {a : α} (hq : Q a s) : Succeeds h Q (pure a : Fallible D ε α) s := ⟨a, s, rfl, hq⟩

theorem mono {Q' : α → σ → Prop} {x : Fallible D ε α} (hx : Succeeds h Q x s)
    (hq : ∀ a s, Q a s → Q' a s) : Succeeds h Q' x s := by
  obtain ⟨a, s', hrun, ha⟩ := hx
  exact ⟨a, s', hrun, hq a s' ha⟩

theorem bind {R : α → σ → Prop} {Q : β → σ → Prop} {x : Fallible D ε α} {f : α → Fallible D ε β}
    (hx : Succeeds h R x s) (hf : ∀ a s, R a s → Succeeds h Q (f a) s) :
    Succeeds h Q (x >>= f) s := by
  obtain ⟨a, s', hrun, ha⟩ := hx
  obtain ⟨b, s'', hrun', hb⟩ := hf a s' ha
  refine ⟨b, s'', ?_, hb⟩
  change (x.run >>= ExceptT.bindCont f).interp h s = _
  rw [Prog.interp_bind, hrun]
  exact hrun'

protected theorem orThrow {x : Except ε α} {a : α} (hx : x = .ok a) (hq : Q a s) :
    Succeeds h Q (orThrow x) s := by
  subst hx
  exact ⟨a, s, rfl, hq⟩

theorem orThrow_bind {Q : β → σ → Prop} {x : Except ε α} {f : α → Fallible D ε β} {a : α}
    (hx : x = .ok a) (hf : Succeeds h Q (f a) s) : Succeeds h Q (orThrow x >>= f) s := by
  subst hx
  exact hf

theorem perform_bind {Q : β → σ → Prop} {e : D.Ext} {f : D.ExtRes e → Fallible D ε β}
    {r : D.ExtRes e} {t : σ} (he : h (.ext e) s = some (r, t)) (hf : Succeeds h Q (f r) t) :
    Succeeds h Q (perform e >>= f) s := by
  obtain ⟨a, s', hrun, ha⟩ := hf
  refine ⟨a, s', ?_, ha⟩
  change (Prog.cmd (R := Cmd.Reply) (.ext e) fun r => (f r).run).interp h s = _
  rw [Prog.interp, he]
  exact hrun

theorem query_bind [FromSql ε] {Q : β → σ → Prop} {st : D.Stmt} {f : D.Res st → Fallible D ε β}
    {r : D.Res st} {t : σ} (hst : h (.stmt st) s = some (.ok r, t))
    (hf : Succeeds h Q (f r) t) : Succeeds h Q (query st >>= f) s := by
  obtain ⟨a, s', hrun, ha⟩ := hf
  refine ⟨a, s', ?_, ha⟩
  change (Prog.cmd (R := Cmd.Reply) (.stmt st) fun r =>
    Prog.pure (r.mapError fromSql) >>= ExceptT.bindCont f).interp h s = _
  rw [Prog.interp, hst]
  exact hrun

end Succeeds

/-! ## The outside -/

variable {ω : Type}

/-- What is decided outside the program for a command, and what becomes of the outside. -/
abbrev Outside (D : Database) (ω : Type) := Cmd D → ω → Option (D.Oracle × ω)

/-- Nothing fails, nobody else holds a lock, and the outside decides the rest. -/
def answering (w : Outside D ω) (i : CallId) (op : S.Op) :
    Handler D (ω × Shared D S.Op × Option (Tx D)) :=
  fun c s => (w c s.1).bind fun d => (calmly i op d.1 c s.2).map fun r => (r.1, d.2, r.2)

/-- The outside always decides `o`. -/
def always (o : D.Oracle) : Outside D Unit := fun _ _ => some (o, ())

/-- **What a program promises alone, it does under every outside** that always decides, and decides
    what is considered. -/
theorem Alone.answering {A : Outcomes S} {i : CallId} {op : S.Op} {C : Shared D S.Op → Prop}
    {Q : α → Option (Tx D) → Shared D S.Op → Prop}
    (hext : ∀ i e o m, (D.ext i e o m).isSome = true) {w : Outside D ω}
    (hw : ∀ c env, (w c env).isSome = true)
    (hA : ∀ c env o env', w c env = some (o, env') → ∀ sh sh', A .none o sh sh') :
    ∀ {p : Code D α} {tx : Option (Tx D)} {sh : Shared D S.Op} (env : ω),
      Alone A i op C Q p tx sh →
      ∃ a env' sh' tx', p.interp (Lib.answering w i op) (env, sh, tx) =
        (some a, env', sh', tx') ∧ Q a tx' sh'
  | .pure a, tx, sh, env, h => ⟨a, env, sh, tx, rfl, h⟩
  | .cmd c k, tx, sh, env, h => by
    obtain ⟨⟨o, env₁⟩, ho⟩ := Option.isSome_iff_exists.mp (hw c env)
    obtain ⟨⟨r, sh₁, tx₁⟩, hx⟩ :=
      Option.isSome_iff_exists.mp (calmly_isSome hext i op o c (sh, tx))
    obtain ⟨a, env', sh', tx', hrun, hQ⟩ :=
      Alone.answering hext hw hA env₁ (h _ .none o r sh₁ tx₁ hx (hA c env o env₁ ho sh sh₁)).2
    refine ⟨a, env', sh', tx', ?_, hQ⟩
    have hc : Lib.answering w i op c (env, sh, tx) = some (r, env₁, sh₁, tx₁) := by
      simp [Lib.answering, ho, hx]
    rw [Prog.interp, hc]
    exact hrun

/-- An outside that is never asked anything stays as it is. -/
theorem interp_outside {i : CallId} {op : S.Op} {q : Cmd D → Prop} {w : Outside D ω}
    (hw : ∀ c env o env', q c → w c env = some (o, env') → env' = env) :
    ∀ {p : Code D α} {env env' : ω} {st st' : Shared D S.Op × Option (Tx D)} {a : Option α},
      p.Only q → p.interp (answering w i op) (env, st) = (a, env', st') → env' = env
  | .pure a', env, env', st, st', a, _, h => (Prod.mk.inj (Prod.mk.inj h).2).1.symm
  | .cmd c k, env, env', st, st', a, hq, h => by
    rw [Prog.interp] at h
    cases hx : answering w i op c (env, st) with
    | none =>
      rw [hx] at h
      exact (Prod.mk.inj (Prod.mk.inj h).2).1.symm
    | some r =>
      rw [hx] at h
      obtain ⟨⟨o, env₁⟩, ho, hr⟩ := Option.bind_eq_some_iff.mp hx
      obtain ⟨t, -, rfl⟩ := Option.map_eq_some_iff.mp hr
      exact (interp_outside hw (hq.2 _) h).trans (hw c env o env₁ hq.1 ho)

/-- Run by itself, the program ends with `Q`, whatever the outside decides. -/
def EndsAlone (i : CallId) (op : S.Op) (Q : α → Shared D S.Op → Prop) (p : Code D α)
    (sh : Shared D S.Op) : Prop :=
  ∀ {ω : Type} (w : Outside D ω), (∀ c env, (w c env).isSome = true) → ∀ env, ∃ a env' sh',
    p.interp (answering w i op) (env, sh, none) = (some a, env', sh', none) ∧ Q a sh'

theorem Alone.ends {i : CallId} {op : S.Op} {C : Shared D S.Op → Prop}
    {Q : α → Shared D S.Op → Prop} (hext : ∀ i e o m, (D.ext i e o m).isSome = true)
    {p : Code D α} {sh : Shared D S.Op}
    (h : Alone Calm i op C (fun a tx sh' => tx = none ∧ Q a sh') p none sh) :
    EndsAlone i op Q p sh := by
  intro ω w hw env
  obtain ⟨a, env', sh', tx, hrun, rfl, hq⟩ :=
    Alone.answering hext hw (fun _ _ _ _ _ _ _ => rfl) env h
  exact ⟨a, env', sh', hrun, hq⟩

/-- Code that does not fail. -/
theorem Alone.Spec.ends {i : CallId} {op : S.Op} {Q : α → Shared D S.Op → Prop}
    (hext : ∀ i e o m, (D.ext i e o m).isSome = true) {x : Fallible D ε α} {sh : Shared D S.Op}
    (h : Alone.Spec Calm i op (fun _ => True) (fun a tx sh' => tx = none ∧ Q a sh')
      (fun _ _ _ => False) x none sh) :
    EndsAlone i op (fun r sh' => ∃ a, r = .ok a ∧ Q a sh') x.run sh := by
  refine Alone.ends (C := fun _ => True) hext (Alone.mono (fun r tx sh' _ hr => ?_) trivial h)
  cases r with
  | ok a => exact ⟨hr.1, a, rfl, hr.2⟩
  | error e => exact hr.elim

/-! ## One call of a service -/

/-- The call `op` from its start to its answer, where nothing fails and no other call moves. -/
def Sys.serve (w : Outside D ω) (op : S.Op) (env : ω) (s : Sys S) : Option (S.Ans × ω × Sys S) :=
  (S.enter op s.shared.mem).bind fun m =>
    match (S.code s.conf op).interp (answering w s.next op)
        (env, { s.shared with mem := m }, none) with
    | (none, _) => none
    | (some a, env', sh, _) =>
      some (a, env', { s with
        shared := sh, next := s.next + 1, answers := ⟨s.next, op, a, s.conf⟩ :: s.answers })

namespace Sys

/-- What a call promises alone, it does. -/
theorem serve_of_alone {A : Outcomes S} {s : Sys S} {op : S.Op} {m : D.Mem}
    {C : Shared D S.Op → Prop} {Q : S.Ans → Option (Tx D) → Shared D S.Op → Prop}
    (hext : ∀ i e o m, (D.ext i e o m).isSome = true) (o : D.Oracle)
    (hA : ∀ sh sh', A .none o sh sh') (hm : S.enter op s.shared.mem = some m)
    (h : Alone A s.next op C Q (S.code s.conf op) none { s.shared with mem := m }) :
    ∃ a sh tx, s.serve (always o) op () = some (a, (), { s with
        shared := sh, next := s.next + 1, answers := ⟨s.next, op, a, s.conf⟩ :: s.answers }) ∧
      Q a tx sh := by
  obtain ⟨a, env, sh, tx, hrun, hq⟩ := Alone.answering hext (w := always o) (fun _ _ => rfl)
    (fun _ _ o' _ ho => by obtain ⟨rfl, -⟩ := Prod.mk.inj (Option.some.inj ho); exact hA) () h
  refine ⟨a, sh, tx, ?_, hq⟩
  rw [serve, hm, Option.bind_some, hrun]

/-- What its code ends with under the handler, a call answers. -/
theorem serve_of_interp {s : Sys S} {op : S.Op} {m : D.Mem} {w : Outside D ω} {env env' : ω}
    {x : Fallible D ε α} {g : Except ε α → S.Ans} {r : Except ε α} {sh : Shared D S.Op}
    {tx : Option (Tx D)} (hcode : S.code s.conf op = g <$> x.run)
    (hm : S.enter op s.shared.mem = some m)
    (h : x.run.interp (answering w s.next op) (env, { s.shared with mem := m }, none) =
      (some r, env', sh, tx)) :
    s.serve w op env = some (g r, env', { s with
      shared := sh, next := s.next + 1, answers := ⟨s.next, op, g r, s.conf⟩ :: s.answers }) := by
  have hinterp : (S.code s.conf op).interp (answering w s.next op)
      (env, { s.shared with mem := m }, none) = (some (g r), env', sh, tx) := by
    rw [hcode]
    change (x.run >>= fun r => Prog.pure (g r)).interp _ _ = _
    rw [Prog.interp_bind, h]
    rfl
  rw [serve, hm, Option.bind_some, hinterp]

/-- What a call promises under the handler, it does. -/
theorem serve_of_succeeds {s : Sys S} {op : S.Op} {m : D.Mem} {w : Outside D ω} {env : ω}
    {x : Fallible D ε α} {g : Except ε α → S.Ans}
    {Q : α → ω × Shared D S.Op × Option (Tx D) → Prop} (hcode : S.code s.conf op = g <$> x.run)
    (hm : S.enter op s.shared.mem = some m)
    (h : Succeeds (answering w s.next op) Q x (env, { s.shared with mem := m }, none)) :
    ∃ a env' sh tx, s.serve w op env = some (g (.ok a), env', { s with
        shared := sh, next := s.next + 1
        answers := ⟨s.next, op, g (.ok a), s.conf⟩ :: s.answers }) ∧ Q a (env', sh, tx) := by
  obtain ⟨a, ⟨env', sh, tx⟩, hrun, hq⟩ := h
  exact ⟨a, env', sh, tx, serve_of_interp hcode hm hrun, hq⟩

/-- Where no other call is in flight, every row is free. -/
theorem Idle.free_setLive {s : Sys S} (h : s.Idle) (i : CallId) (ss : Option (Session S)) :
    (s.setLive i ss).free i = fun _ => true := by
  funext r
  refine List.all_eq_true.mpr fun j _ => ?_
  by_cases hj : j = i
  · simp [hj]
  · have hnone : (s.setLive i ss).txOf j = none := by
      change (Function.update s.live i ss j).bind Session.tx = none
      rw [Function.update_of_ne hj, h j]
      rfl
    simp [hnone, locksOf]

theorem interp_steps [Inhabited D.Oracle] {w : Outside D ω} {R : ω → ω → Prop}
    (hw : ∀ c env o env', w c env = some (o, env') → Relation.ReflTransGen R env env')
    {s : Sys S} (hidle : s.Idle) {i : CallId} {op : S.Op} {a : S.Ans} {env' : ω}
    {sh' : Shared D S.Op} {tx' : Option (Tx D)} :
    ∀ {p : Code D S.Ans} {env : ω} {tx : Option (Tx D)} {sh : Shared D S.Op},
      p.interp (answering w i op) (env, sh, tx) = (some a, env', sh', tx') →
      Steps .any ({ s.setLive i (some ⟨op, p, tx⟩) with shared := sh })
        ({ s with shared := sh', answers := ⟨i, op, a, s.conf⟩ :: s.answers }) ∧
      Relation.ReflTransGen R env env'
  | .pure a', env, tx, sh, h => by
    obtain ⟨ha, hrest⟩ := Prod.mk.inj h
    obtain ⟨rfl, hlast⟩ := Prod.mk.inj hrest
    obtain ⟨rfl, rfl⟩ := Prod.mk.inj hlast
    obtain rfl := Option.some.inj ha
    refine ⟨.single ⟨.step i .none default, ?_, Policy.any_allows _ _ _⟩, .refl⟩
    have hlive : Function.update (Function.update s.live i (some ⟨op, Prog.pure a', tx⟩)) i none =
        s.live := by
      rw [Function.update_idem, ← hidle i, Function.update_eq_self]
    simp [Sys.step, setLive, hlive]
  | .cmd c k, env, tx, sh, h => by
    rw [Prog.interp] at h
    cases hx : answering w i op c (env, sh, tx) with
    | none => rw [hx] at h; exact absurd (congrArg Prod.fst h) (by simp)
    | some r =>
      rw [hx] at h
      obtain ⟨⟨o, env₁⟩, ho, hr⟩ := Option.bind_eq_some_iff.mp hx
      obtain ⟨⟨reply, sh₁, tx₁⟩, hcalm, rfl⟩ := Option.map_eq_some_iff.mp hr
      obtain ⟨hsteps, henv⟩ := interp_steps hw hidle h
      refine ⟨.head ⟨.step i .none o, ?_, Policy.any_allows _ _ _⟩ hsteps, (hw _ _ _ _ ho).trans henv⟩
      have hfree : ({ s.setLive i (some ⟨op, Prog.cmd c k, tx⟩) with shared := sh } : Sys S).free i =
          fun _ => true := hidle.free_setLive i _
      simp only [Sys.step, setLive, Function.update_self] at hfree ⊢
      rw [hfree]
      change (calmly i op o c (sh, tx)).map _ = _
      rw [hcalm]
      simp [Function.update_idem]

/-- **A call served is a run of the service**, and what happened outside meanwhile is a run of the
    outside. -/
theorem serve_steps [Inhabited D.Oracle] {w : Outside D ω} {R : ω → ω → Prop}
    (hw : ∀ c env o env', w c env = some (o, env') → Relation.ReflTransGen R env env')
    {s s' : Sys S} (hidle : s.Idle) {op : S.Op} {env env' : ω} {a : S.Ans}
    (h : s.serve w op env = some (a, env', s')) :
    Steps .any s s' ∧ s'.Idle ∧ Relation.ReflTransGen R env env' := by
  obtain ⟨m, hm, hrun⟩ := Option.bind_eq_some_iff.mp h
  split at hrun
  · exact absurd hrun (by simp)
  · rename_i a' env₁ sh tx hinterp
    obtain ⟨rfl, hrest⟩ := Prod.mk.inj (Option.some.inj hrun)
    obtain ⟨rfl, rfl⟩ := Prod.mk.inj hrest
    obtain ⟨hsteps, henv⟩ := interp_steps hw (s := { s with next := s.next + 1 }) hidle hinterp
    refine ⟨.head ⟨.start op, ?_, Policy.any_allows _ _ _⟩ hsteps, hidle, henv⟩
    simp [Sys.step, hm, setLive]

end Sys

end Lib
