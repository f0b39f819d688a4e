import Digicash.Lib.Fallible

/-!
# Two programs in step

`Coupled p q`: whatever `p` is answered, `q` can be answered so that the two go on in step. What
`q` is answered is chosen knowing what `p` was, so a run of `p` decides one of `q`, and what holds
of both along the way holds of two runs. A ghost state follows what `p` has done.

`p` may also end where `q` cannot follow, if that is `lost`: a run that is known to go on otherwise
does not come there.
-/

namespace Lib

variable {C : Type} {R : C → Type} {σ α β γ δ ε : Type}

/-- Which commands are issued together, what becomes of the ghost by the first one's answer, and
    which answers go together. -/
structure Coupling (R : C → Type) (σ : Type) where
  pairs : σ → C → C → Prop
  next : σ → (c : C) → R c → σ → Prop
  answers : (c c' : C) → R c → R c' → Prop

variable {K : Coupling R σ}

/-- `q` can follow `p`. They end with `Q`, or `p` ends with `L`. -/
def Coupled (K : Coupling R σ) (Q : σ → α → β → Prop) (L : σ → α → Prop) :
    σ → Prog R α → Prog R β → Prop
  | s, .pure a, q => (∃ b, q = .pure b ∧ Q s a b) ∨ L s a
  | s, .cmd c k, q => ∃ c' k', q = .cmd c' k' ∧ K.pairs s c c' ∧
      ∀ r s', K.next s c r s' → ∃ r', K.answers c c' r r' ∧ Coupled K Q L s' (k r) (k' r')

namespace Coupled

variable {Q : σ → α → β → Prop} {L : σ → α → Prop}

theorem bind {Q' : σ → γ → δ → Prop} {L' : σ → γ → Prop} {f : α → Prog R γ} {g : β → Prog R δ}
    (hend : ∀ s a b, Q s a b → Coupled K Q' L' s (f a) (g b))
    (hlost : ∀ s a q, L s a → Coupled K Q' L' s (f a) q) :
    ∀ {p : Prog R α} {q : Prog R β} {s : σ}, Coupled K Q L s p q →
      Coupled K Q' L' s (p >>= f) (q >>= g)
  | .pure a, _, s, h => by
    rcases h with ⟨b, rfl, hq⟩ | hl
    · exact hend s a b hq
    · exact hlost s a _ hl
  | .cmd c k, _, s, h => by
    obtain ⟨c', k', rfl, hpairs, hnext⟩ := h
    refine ⟨c', fun r => k' r >>= g, rfl, hpairs, fun r s' hs => ?_⟩
    obtain ⟨r', hanswers, hk⟩ := hnext r s' hs
    exact ⟨r', hanswers, bind hend hlost hk⟩

/-- A program follows itself where its commands go with themselves. -/
theorem self {Q : σ → α → α → Prop} (only : C → Prop) (hpairs : ∀ s c, only c → K.pairs s c c)
    (hanswers : ∀ c r, only c → K.answers c c r r) (hend : ∀ s a, Q s a a) :
    ∀ {p : Prog R α} {s : σ}, p.Only only → Coupled K Q L s p p
  | .pure a, s, _ => .inl ⟨a, rfl, hend s a⟩
  | .cmd c k, s, h => ⟨c, k, rfl, hpairs s c h.1, fun r _ _ =>
      ⟨r, hanswers c r h.1, self only hpairs hanswers hend (h.2 r)⟩⟩

end Coupled

/-! ## Code that can fail -/

variable {D : Database} {K : Coupling (Cmd.Reply (D := D)) σ} {dead : σ → Prop}

/-- Both return, or both fail. -/
inductive Alike (Q : α → β → Prop) : Except ε α → Except ε β → Prop
  | ok {a b} (h : Q a b) : Alike Q (.ok a) (.ok b)
  | error (e e') : Alike Q (.error e) (.error e')

/-- `Coupled` for code that can fail. -/
def Coupled.Spec (K : Coupling (Cmd.Reply (D := D)) σ) (dead : σ → Prop) (Q : σ → α → β → Prop)
    (s : σ) (x : Fallible D ε α) (y : Fallible D ε β) : Prop :=
  Coupled K (fun s => Alike (Q s)) (fun s r => dead s ∧ ∃ e, r = .error e) s x.run y.run

namespace Coupled.Spec

variable {Q : σ → α → β → Prop} {s : σ} {x : Fallible D ε α} {y : Fallible D ε β}

theorem ok {a : α} {b : β} (h : Q s a b) :
    Spec K dead Q s (pure a : Fallible D ε α) (pure b) :=
  .inl ⟨.ok b, rfl, .ok h⟩

theorem fail {e e' : ε} : Spec K dead Q s (throw e : Fallible D ε α) (throw e') :=
  .inl ⟨.error e', rfl, .error e e'⟩

theorem lost {e : ε} (h : dead s) : Spec K dead Q s (throw e : Fallible D ε α) y :=
  .inr ⟨h, e, rfl⟩

theorem bind {Q' : σ → γ → δ → Prop} {f : α → Fallible D ε γ} {g : β → Fallible D ε δ}
    (h : Spec K dead Q s x y) (hk : ∀ s a b, Q s a b → Spec K dead Q' s (f a) (g b)) :
    Spec K dead Q' s (x >>= f) (y >>= g) := by
  refine Coupled.bind (f := ExceptT.bindCont f) (g := ExceptT.bindCont g) ?_ ?_ h
  · intro s r r' hr
    cases hr with
    | ok hab => exact hk s _ _ hab
    | error e e' => exact .inl ⟨.error e', rfl, .error e e'⟩
  · rintro s r q ⟨hlost, e, rfl⟩
    exact .inr ⟨hlost, e, rfl⟩

theorem orThrow_bind {r : Except ε γ} {r' : Except ε δ} {f : γ → Fallible D ε α}
    {g : δ → Fallible D ε β}
    (hok : ∀ a, r = .ok a → ∃ b, r' = .ok b ∧ Spec K dead Q s (f a) (g b))
    (herr : ∀ e, r = .error e → dead s ∨ ∃ e', r' = .error e') :
    Spec K dead Q s (orThrow r >>= f) (orThrow r' >>= g) := by
  cases r with
  | ok a =>
    obtain ⟨b, rfl, hspec⟩ := hok a rfl
    exact hspec
  | error e =>
    rcases herr e rfl with hdead | ⟨e', rfl⟩
    · exact lost hdead
    · exact fail

/-- Of one result. -/
theorem orThrow_self {r : Except ε γ} {f : γ → Fallible D ε α} {g : γ → Fallible D ε β}
    (hok : ∀ a, r = .ok a → Spec K dead Q s (f a) (g a)) :
    Spec K dead Q s (orThrow r >>= f) (orThrow r >>= g) :=
  orThrow_bind (fun a ha => ⟨a, ha, hok a ha⟩) fun e he => .inr ⟨e, he⟩

/-- Each issues a command. -/
theorem perform_bind {e e' : D.Ext} {f : D.ExtRes e → Fallible D ε α}
    {g : D.ExtRes e' → Fallible D ε β} (hpairs : K.pairs s (.ext e) (.ext e'))
    (hk : ∀ (r : D.ExtRes e) s', K.next s (.ext e) r s' →
      ∃ r' : D.ExtRes e', K.answers (.ext e) (.ext e') r r' ∧ Spec K dead Q s' (f r) (g r')) :
    Spec K dead Q s (perform e >>= f) (perform e' >>= g) :=
  ⟨.ext e', fun r => (g r).run, rfl, hpairs, hk⟩

/-- Each runs a statement. -/
theorem query_bind [FromSql ε] {st st' : D.Stmt} {f : D.Res st → Fallible D ε α}
    {g : D.Res st' → Fallible D ε β} (hpairs : K.pairs s (.stmt st) (.stmt st'))
    (hok : ∀ (r : D.Res st) s', K.next s (.stmt st) (.ok r) s' → ∃ r' : D.Res st',
      K.answers (.stmt st) (.stmt st') (.ok r) (.ok r') ∧ Spec K dead Q s' (f r) (g r'))
    (herr : ∀ e, K.answers (.stmt st) (.stmt st') (.error e) (.error e)) :
    Spec K dead Q s (query st >>= f) (query st' >>= g) := by
  refine ⟨.stmt st', fun r => ExceptT.bindCont g (r.mapError fromSql), rfl, hpairs, ?_⟩
  intro r s' hs
  cases r with
  | ok r =>
    obtain ⟨r', hanswers, hspec⟩ := hok r s' hs
    exact ⟨.ok r', hanswers, hspec⟩
  | error e => exact ⟨.error e, herr e, fail⟩

/-- Each hands its result, value or error, to its caller. -/
theorem answer {Q' : σ → γ → δ → Prop} {L : σ → γ → Prop} {g : Except ε α → γ}
    {g' : Except ε β → δ} (h : Spec K dead Q s x y)
    (hend : ∀ s r r', Alike (Q s) r r' → Q' s (g r) (g' r'))
    (hlost : ∀ s e, dead s → L s (g (.error e))) :
    Coupled K Q' L s (g <$> x.run) (g' <$> y.run) := by
  refine Coupled.bind (f := fun r => .pure (g r)) (g := fun r => .pure (g' r)) ?_ ?_ h
  · exact fun s r r' hr => .inl ⟨_, rfl, hend s r r' hr⟩
  · rintro s r q ⟨hdead, e, rfl⟩
    exact .inr (hlost s e hdead)

end Coupled.Spec

end Lib
