import Digicash.Lib.RelyGuarantee

/-!
# Code that can fail

The monad the services are written in, `ExceptT` over commands, and the rules that prove a
`Spec` of such code one command at a time. The rules follow the shape of the code: one for
a statement inside a transaction, one for a statement that commits on its own, one for the
transaction block.

A transaction block ends in one of three ways, as a scope that owns its transaction does.
It commits and returns; it returns early, which drops the transaction and so rolls it
back; or it fails, which also rolls it back.
-/

namespace Lib

open Relation

abbrev Fallible (D : Database) (ε α : Type) := ExceptT ε (Prog (Cmd.Reply (D := D))) α

/-- How a driver error becomes the caller's error type. -/
class FromSql (ε : Type) where
  fromSql : SqlError → ε

export FromSql (fromSql)

/-- How a transaction block ends when nothing failed. -/
inductive Ending (α : Type) where
  | commit (a : α)
  | drop (a : α)

variable {D : Database} {S : Service D} {α β ε : Type}

/-- Run one statement. -/
def query [FromSql ε] (s : D.Stmt) : Fallible D ε (D.Res s) :=
  ExceptT.mk (.cmd (.stmt s) fun r => .pure (r.mapError fromSql))

/-- Issue one command that is not a statement. -/
def perform (e : D.Ext) : Fallible D ε (D.ExtRes e) :=
  ExceptT.mk (.cmd (.ext e) fun r => .pure (.ok r))

/-- Fail unless the result is there. -/
def orThrow (x : Except ε α) : Fallible D ε α := ExceptT.mk (.pure x)

/-- Run `x`, and go on with what it returned or failed with. -/
def attempt (x : Fallible D ε α) : Fallible D ε (Except ε α) :=
  ExceptT.mk (x.run >>= fun r => .pure (.ok r))

/-- Run `x`, its error rewritten by `f`. -/
def mapErr {ε' : Type} (f : ε → ε') (x : Fallible D ε α) : Fallible D ε' α :=
  ExceptT.mk (x.run >>= fun r => .pure (r.mapError f))

/-- What follows the body of a transaction block. -/
def finish [FromSql ε] : Except ε (Ending α) → Prog (Cmd.Reply (D := D)) (Except ε α)
  | .ok (.commit a) => .cmd .commit fun r => .pure (r.mapError fromSql |>.map fun _ => a)
  | .ok (.drop a) => .cmd .rollback fun _ => .pure (.ok a)
  | .error e => .cmd .rollback fun _ => .pure (.error e)

/-- Run `body` as one transaction. -/
def transaction [FromSql ε] (body : Fallible D ε (Ending α)) : Fallible D ε α :=
  ExceptT.mk (.cmd .begin fun
    | .ok () => body.run >>= finish
    | .error e => .pure (.error (fromSql e)))

/-! ## Checks in order -/

/-- The result is that of the first check that fails, and `ok` where none does. -/
def Decides {γ : Type} : List (Prop × γ) → γ → γ → Prop
  | [], ok, r => r = ok
  | (c, a) :: checks, ok, r => c ∧ Decides checks ok r ∨ ¬ c ∧ r = a

namespace Decides

variable {γ : Type} {checks : List (Prop × γ)} {ok r a : γ} {c : Prop}

theorem pass (h : Decides checks ok r) (hc : c) : Decides ((c, a) :: checks) ok r :=
  Or.inl ⟨hc, h⟩

theorem stop (hc : ¬ c) : Decides ((c, a) :: checks) ok a := Or.inr ⟨hc, rfl⟩

theorem passed (h : Decides ((c, a) :: checks) ok r) (hc : c) : Decides checks ok r :=
  (h.resolve_right fun h => h.1 hc).2

theorem stopped (h : Decides ((c, a) :: checks) ok r) (hc : ¬ c) : r = a :=
  (h.resolve_left fun h => hc h.1).2

variable {δ : Type} {ok' r' : δ}

/-- Where every check passes. -/
theorem of_forall (f : γ → δ) (h : Decides (checks.map fun c => (c.1, f c.2)) ok' r')
    (hall : ∀ c ∈ checks, c.1) : r' = ok' := by
  induction checks with
  | nil => exact h
  | cons c checks ih =>
    rcases h with ⟨-, h⟩ | ⟨hnot, -⟩
    · exact ih h fun c hc => hall c (List.mem_cons_of_mem _ hc)
    · exact absurd (hall c (List.mem_cons_self ..)) hnot

/-- And where one does not. -/
theorem of_not_forall (f : γ → δ) (h : Decides (checks.map fun c => (c.1, f c.2)) ok' r')
    (hnot : ¬ ∀ c ∈ checks, c.1) : ∃ before c after, checks = before ++ c :: after ∧
      (∀ c ∈ before, c.1) ∧ ¬ c.1 ∧ r' = f c.2 := by
  induction checks with
  | nil => exact absurd (fun c hc => absurd hc (by simp)) hnot
  | cons c checks ih =>
    rcases h with ⟨hc, h⟩ | ⟨hc, rfl⟩
    · obtain ⟨before, c', after, rfl, hbefore, hrest⟩ := ih h fun hall =>
        hnot (List.forall_mem_cons.mpr ⟨hc, hall⟩)
      exact ⟨c :: before, c', after, rfl, List.forall_mem_cons.mpr ⟨hc, hbefore⟩, hrest⟩
    · exact ⟨[], c, checks, rfl, fun _ h => absurd h (by simp), hc, rfl⟩

/-- The checks of one step, and then those of the next. -/
theorem append {checks' : List (Prop × γ)} (h : Decides checks' ok r) (hall : ∀ c ∈ checks, c.1) :
    Decides (checks ++ checks') ok r := by
  induction checks with
  | nil => exact h
  | cons c checks ih =>
    obtain ⟨hc, hrest⟩ := List.forall_mem_cons.mp hall
    exact (ih hrest).pass hc

/-- Where the first step refuses, the next is not taken. -/
theorem append_stop {checks' : List (Prop × γ)} {last : γ} (h : Decides checks ok r)
    (hnot : ¬ ∀ c ∈ checks, c.1) : Decides (checks ++ checks') last r := by
  induction checks with
  | nil => exact absurd (fun c hc => absurd hc (by simp)) hnot
  | cons c checks ih =>
    rcases h with ⟨hc, h⟩ | ⟨hc, rfl⟩
    · exact (ih h fun hall => hnot (List.forall_mem_cons.mpr ⟨hc, hall⟩)).pass hc
    · exact stop hc

/-- The same checks with more to say. -/
theorem map (f : γ → δ) (h : Decides checks ok r) :
    Decides (checks.map fun c => (c.1, f c.2)) (f ok) (f r) := by
  induction checks with
  | nil => exact congrArg f h
  | cons c checks ih =>
    rcases h with ⟨hc, h⟩ | ⟨hc, rfl⟩
    · exact (ih h).pass hc
    · exact stop hc

theorem eq_ok (h : Decides checks ok r) (hall : ∀ c ∈ checks, c.1) : r = ok :=
  of_forall id (by simpa using h) hall

theorem eq_failed (h : Decides checks ok r) (hnot : ¬ ∀ c ∈ checks, c.1) :
    ∃ c ∈ checks, ¬ c.1 ∧ r = c.2 := by
  obtain ⟨before, c, after, rfl, -, hfails, heq⟩ := of_not_forall id (by simpa using h) hnot
  exact ⟨c, List.mem_append_right _ (List.mem_cons_self ..), hfails, heq⟩

end Decides

namespace Protocol

variable {P : Protocol S} {κ : S.Conf} {i : CallId} {op : S.Op}

/-- A postcondition from one for values and one for errors. -/
def outcome (Q : α → Option (Tx D) → Shared D S.Op → Prop)
    (E : ε → Option (Tx D) → Shared D S.Op → Prop) :
    Except ε α → Option (Tx D) → Shared D S.Op → Prop
  | .ok a, tx, sh => Q a tx sh
  | .error e, tx, sh => E e tx sh

/-- `WP` for code that can fail. -/
def Spec (P : Protocol S) (κ : S.Conf) (i : CallId) (op : S.Op)
    (Q : α → Option (Tx D) → Shared D S.Op → Prop)
    (E : ε → Option (Tx D) → Shared D S.Op → Prop)
    (x : Fallible D ε α) (tx : Option (Tx D)) (sh : Shared D S.Op) : Prop :=
  P.WP κ i op (outcome Q E) x.run tx sh

/-- Whatever the code failed with, it left no transaction open. -/
def Closed (_ : ε) (tx : Option (Tx D)) (_ : Shared D S.Op) : Prop := tx = none

/-- What the body of a transaction block has to leave. Where it ends in a commit, what it
    wrote by then is legal. -/
@[reducible] def Ends (P : Protocol S) (κ : S.Conf) (i : CallId) (op : S.Op)
    (Q : α → Option (Tx D) → Shared D S.Op → Prop) :
    Ending α → Option (Tx D) → Shared D S.Op → Prop
  | .drop a, _, sh => ∀ sh', P.Reaches κ sh sh' → Q a none sh'
  | .commit a, tx, sh => ∃ t, tx = some t ∧ P.Legal κ sh ⟨i, op, t, sh.db⟩ ∧
      ∀ sh', P.Reaches κ (sh.commit i op t) sh' → Q a none sh'

namespace Spec

variable {Q : α → Option (Tx D) → Shared D S.Op → Prop}
  {E : ε → Option (Tx D) → Shared D S.Op → Prop} {tx : Option (Tx D)} {sh : Shared D S.Op}

theorem ok {a : α} (h : ∀ sh', P.Env κ tx sh sh' → Q a tx sh') :
    P.Spec κ i op Q E (pure a) tx sh := h

theorem throw {e : ε} (h : ∀ sh', P.Reaches κ sh sh' → E e tx sh') :
    P.Spec κ i op Q E (throw e) tx sh := fun sh' he => h sh' he.reaches

theorem env {x : Fallible D ε α} {sh' : Shared D S.Op} (h : P.Spec κ i op Q E x tx sh)
    (he : P.Env κ tx sh sh') : P.Spec κ i op Q E x tx sh' := WP.env h he

theorem mono {Q' : α → Option (Tx D) → Shared D S.Op → Prop}
    {E' : ε → Option (Tx D) → Shared D S.Op → Prop}
    {x : Fallible D ε α} (h : P.Spec κ i op Q E x tx sh)
    (hq : ∀ a tx sh, P.Inv sh → Q a tx sh → Q' a tx sh)
    (he : ∀ e tx sh, P.Inv sh → E e tx sh → E' e tx sh) : P.Spec κ i op Q' E' x tx sh := by
  refine WP.mono (fun r tx sh hi hr => ?_) h
  cases r with
  | ok a => exact hq a tx sh hi hr
  | error e => exact he e tx sh hi hr

/-- Where `x` ends well can be reached from where it began. -/
theorem reaches {b : Shared D S.Op} {x : Fallible D ε α} (hb : P.Reaches κ b sh)
    (h : P.Spec κ i op Q E x tx sh) :
    P.Spec κ i op (fun a tx sh => P.Reaches κ b sh ∧ Q a tx sh) E x tx sh := by
  refine WP.mono (fun r tx sh _ hr => ?_) (WP.reaches hb h)
  cases r with
  | ok a => exact hr
  | error e => exact hr.2

theorem bind {R : α → Option (Tx D) → Shared D S.Op → Prop}
    {Q : β → Option (Tx D) → Shared D S.Op → Prop} {x : Fallible D ε α}
    {f : α → Fallible D ε β} (hi : P.Inv sh) (h : P.Spec κ i op R E x tx sh)
    (hk : ∀ a tx sh, P.Inv sh → R a tx sh → P.Spec κ i op Q E (f a) tx sh) :
    P.Spec κ i op Q E (x >>= f) tx sh := by
  refine WP.bind_closed (fun r tx sh hi hr => ?_) hi h
  cases r with
  | ok a => exact hk a tx sh hi (hr sh (.refl hi))
  | error e => exact fun sh' he => hr sh' he

/-- A failure that the code goes on from. -/
theorem attempt_bind {Q₁ : α → Option (Tx D) → Shared D S.Op → Prop}
    {E₁ : ε → Option (Tx D) → Shared D S.Op → Prop}
    {Q : β → Option (Tx D) → Shared D S.Op → Prop} {x : Fallible D ε α}
    {f : Except ε α → Fallible D ε β} (hi : P.Inv sh) (h : P.Spec κ i op Q₁ E₁ x tx sh)
    (hk : ∀ r tx sh, P.Inv sh → outcome Q₁ E₁ r tx sh → P.Spec κ i op Q E (f r) tx sh) :
    P.Spec κ i op Q E (attempt x >>= f) tx sh := by
  have hshape : (attempt x >>= f).run = x.run >>= fun r => (f r).run :=
    Prog.bind_assoc _ _ _
  unfold Spec
  rw [hshape]
  exact WP.bind_closed (fun r tx sh hi hr => hk r tx sh hi (hr sh (.refl hi))) hi h

/-- The error rewritten on the way out. -/
theorem mapErr {ε' : Type} {f : ε → ε'} {E : ε' → Option (Tx D) → Shared D S.Op → Prop}
    {x : Fallible D ε α} (hi : P.Inv sh) (h : P.Spec κ i op Q (fun e => E (f e)) x tx sh) :
    P.Spec κ i op Q E (mapErr f x) tx sh := by
  refine WP.bind_closed (fun r tx sh _ hr => ?_) hi h
  cases r with
  | ok a => exact fun sh' he => hr sh' he
  | error e => exact fun sh' he => hr sh' he

/-- A program that hands its result, value or error, to its caller. -/
theorem answer {γ : Type} {g : Except ε α → γ} {Q' : γ → Option (Tx D) → Shared D S.Op → Prop}
    {x : Fallible D ε α} (hi : P.Inv sh) (h : P.Spec κ i op Q E x tx sh)
    (hok : ∀ a tx sh, Q a tx sh → Q' (g (.ok a)) tx sh)
    (herr : ∀ e tx sh, E e tx sh → Q' (g (.error e)) tx sh) :
    P.WP κ i op Q' (g <$> x.run) tx sh := by
  refine WP.bind_closed (f := fun r => .pure (g r)) (fun r tx sh _ hr => ?_) hi h
  cases r with
  | ok a => exact fun sh' he => hok a tx sh' (hr sh' he)
  | error e => exact fun sh' he => herr e tx sh' (hr sh' he)

theorem orThrow_bind {x : Except ε α} {f : α → Fallible D ε β}
    {Q : β → Option (Tx D) → Shared D S.Op → Prop}
    (herr : ∀ e sh', x = .error e → P.Reaches κ sh sh' → E e tx sh')
    (hok : ∀ a, x = .ok a → P.Spec κ i op Q E (f a) tx sh) :
    P.Spec κ i op Q E (orThrow x >>= f) tx sh := by
  cases x with
  | ok a => exact hok a rfl
  | error e => exact fun sh' he => herr e sh' rfl he.reaches

/-- A statement of an open transaction. It leaves the shared state alone. -/
theorem query_bind_tx [FromSql ε] {t : Tx D} {s : D.Stmt} {f : D.Res s → Fallible D ε α}
    (herr : ∀ e sh', P.Reaches κ sh sh' → E (fromSql e) none sh')
    (hok : ∀ sh' o r ws, P.Env κ (some t) sh sh' →
      (D.exec s o (t.view sh'.db)).result = .ok (r, ws) →
      P.Spec κ i op Q E (f r)
        (some (t.push s r (D.exec s o (t.view sh'.db)).waits ws)) sh') :
    P.Spec κ i op Q E (query s >>= f) (some t) sh := by
  intro sh' he free fault o r sh'' tx' hx
  have hfail : ∀ e : SqlError, P.WP κ i op (outcome Q E) (.pure (.error (fromSql e))) none sh' :=
    fun e sh₂ h₂ => herr e sh₂ (he.reaches.trans h₂.reaches)
  simp only [execCmd, execStmt] at hx
  split at hx
  · simp only [Option.some.injEq, Prod.mk.injEq] at hx
    obtain ⟨rfl, rfl, rfl⟩ := hx
    exact ⟨Or.inl rfl, fun _ => hfail _⟩
  · split at hx
    · split at hx
      · simp only [Option.some.injEq, Prod.mk.injEq] at hx
        obtain ⟨rfl, rfl, rfl⟩ := hx
        exact ⟨Or.inl rfl, fun _ => hfail _⟩
      · rename_i a ws hres
        simp only [Option.some.injEq, Prod.mk.injEq] at hx
        obtain ⟨rfl, rfl, rfl⟩ := hx
        exact ⟨Or.inl rfl, fun _ => hok sh' o a ws he hres⟩
    · exact absurd hx (by simp)

/-- A statement that is its own transaction. One that writes has to be legal. -/
theorem query_bind_none [FromSql ε] {s : D.Stmt} {f : D.Res s → Fallible D ε α}
    (herr : ∀ e sh', P.Reaches κ sh sh' → E (fromSql e) none sh')
    (hread : ∀ sh' o r, P.Env κ none sh sh' → (D.exec s o sh'.db).result = .ok (r, []) →
      P.Spec κ i op Q E (f r) none sh')
    (hwrite : ∀ sh' o r ws, ws ≠ [] → P.Env κ none sh sh' →
      (D.exec s o sh'.db).result = .ok (r, ws) →
      P.Legal κ sh' ⟨i, op, Tx.empty.push s r (D.exec s o sh'.db).waits ws, sh'.db⟩ ∧
        (P.Inv (sh'.commit i op (Tx.empty.push s r (D.exec s o sh'.db).waits ws)) →
          P.Spec κ i op Q E (f r) none
            (sh'.commit i op (Tx.empty.push s r (D.exec s o sh'.db).waits ws)))) :
    P.Spec κ i op Q E (query s >>= f) none sh := by
  intro sh' he free fault o r sh'' tx' hx
  have hfail : ∀ (e : SqlError) (sh₁ : Shared D S.Op), P.Reaches κ sh' sh₁ →
      P.WP κ i op (outcome Q E) (.pure (.error (fromSql e))) none sh₁ :=
    fun e sh₁ h₁ sh₂ h₂ => herr e sh₂ ((he.reaches.trans h₁).trans h₂.reaches)
  simp only [execCmd, execStmt] at hx
  split at hx
  · simp only [Option.some.injEq, Prod.mk.injEq] at hx
    obtain ⟨rfl, rfl, rfl⟩ := hx
    exact ⟨Or.inl rfl, fun _ => hfail _ _ ⟨.refl, he.inv⟩⟩
  · split at hx
    · split at hx
      · simp only [Option.some.injEq, Prod.mk.injEq] at hx
        obtain ⟨rfl, rfl, rfl⟩ := hx
        exact ⟨Or.inl rfl, fun _ => hfail _ _ ⟨.refl, he.inv⟩⟩
      · rename_i a ws hres
        simp only [Option.some.injEq, Prod.mk.injEq] at hx
        obtain ⟨rfl, rfl, rfl⟩ := hx
        cases ws with
        | nil =>
          refine ⟨Or.inl rfl, fun hi => ?_⟩
          split
          · exact hfail _ _ ⟨.refl, he.inv⟩
          · exact hread sh' o a he hres
        | cons w ws =>
          obtain ⟨hl, hk⟩ := hwrite sh' o a (w :: ws) (by simp) he hres
          have hm : P.Move κ sh' (sh'.commit i op
              (Tx.empty.push s a (D.exec s o sh'.db).waits (w :: ws))) := .commit _ rfl hl
          refine ⟨Or.inr hm, fun hi => ?_⟩
          split
          · exact hfail _ _ ⟨.single hm, hi⟩
          · exact hk hi
    · exact absurd hx (by simp)

/-- A statement that only reads commits nothing. -/
theorem read_bind [FromSql ε] {s : D.Stmt} {f : D.Res s → Fallible D ε α}
    (get : D.Oracle → D.Db → D.Res s) (hexec : ∀ o db, D.exec s o db = .read (get o db))
    (herr : ∀ e sh', P.Reaches κ sh sh' → E (fromSql e) none sh')
    (hok : ∀ sh' o, P.Env κ none sh sh' → P.Spec κ i op Q E (f (get o sh'.db)) none sh') :
    P.Spec κ i op Q E (query s >>= f) none sh := by
  refine query_bind_none herr ?_ ?_
  · intro sh₁ o r h₁ hex
    simp only [hexec, Effect.read, Except.ok.injEq, Prod.mk.injEq, and_true] at hex
    rw [← hex]
    exact hok sh₁ o h₁
  · intro sh₁ o r ws hws _ hex
    simp only [hexec, Effect.read, Except.ok.injEq, Prod.mk.injEq] at hex
    exact absurd hex.2.symm hws

/-- A statement of an open transaction that only reads. -/
theorem read_bind_tx [FromSql ε] {t : Tx D} {s : D.Stmt} {f : D.Res s → Fallible D ε α}
    (get : D.Oracle → D.Db → D.Res s) (hexec : ∀ o db, D.exec s o db = .read (get o db))
    (herr : ∀ e sh', P.Reaches κ sh sh' → E (fromSql e) none sh')
    (hok : ∀ sh' o, P.Env κ (some t) sh sh' → P.Spec κ i op Q E (f (get o (t.view sh'.db)))
      (some (t.push s (get o (t.view sh'.db)) [] [])) sh') :
    P.Spec κ i op Q E (query s >>= f) (some t) sh := by
  refine query_bind_tx herr ?_
  intro sh₁ o r ws h₁ hex
  have h := hok sh₁ o h₁
  simp only [hexec, Effect.read, Except.ok.injEq, Prod.mk.injEq] at hex ⊢
  obtain ⟨rfl, rfl⟩ := hex
  exact h

/-- A command that is not a statement. -/
theorem perform_bind {e : D.Ext} {f : D.ExtRes e → Fallible D ε α}
    (h : ∀ sh' o r m, P.Env κ tx sh sh' → D.ext i e o sh'.mem = some (r, m) →
      P.Inv { sh' with mem := m } → P.Spec κ i op Q E (f r) tx { sh' with mem := m }) :
    P.Spec κ i op Q E (perform e >>= f) tx sh := by
  intro sh' he free fault o r sh'' tx' hx
  simp only [execCmd, Option.map_eq_some_iff] at hx
  obtain ⟨⟨r', m⟩, hext, hrm⟩ := hx
  simp only [Prod.mk.injEq] at hrm
  obtain ⟨rfl, rfl, rfl⟩ := hrm
  exact ⟨Or.inr (.mem m (Or.inl ⟨i, e, o, r', hext⟩)), fun hi => h sh' o r' m he hext hi⟩

theorem perform {e : D.Ext} {Q : D.ExtRes e → Option (Tx D) → Shared D S.Op → Prop}
    (h : ∀ sh' o r m, P.Env κ tx sh sh' → D.ext i e o sh'.mem = some (r, m) →
      P.Inv { sh' with mem := m } → ∀ sh'', P.Env κ tx { sh' with mem := m } sh'' → Q r tx sh'') :
    P.Spec κ i op Q E (perform e) tx sh :=
  perform_bind (f := pure) fun sh' o r m he hx hi => ok (h sh' o r m he hx hi)

/-- A transaction block. Its body runs with an empty transaction. -/
theorem transaction [FromSql ε] {body : Fallible D ε (Ending α)}
    (hstable : ∀ e sh sh', E e none sh → P.Reaches κ sh sh' → E e none sh')
    (herr : ∀ e sh', P.Reaches κ sh sh' → E (fromSql e) none sh')
    (hbody : ∀ sh', P.Env κ none sh sh' →
      P.Spec κ i op (P.Ends κ i op Q) (fun e _ => E e none) body (some Tx.empty) sh') :
    P.Spec κ i op Q E (transaction body) none sh := by
  have hfail : ∀ (e : SqlError) (sh₁ : Shared D S.Op), P.Reaches κ sh sh₁ →
      P.WP κ i op (outcome Q E) (.pure (.error (fromSql e))) none sh₁ :=
    fun e sh₁ h₁ sh₂ h₂ => herr e sh₂ (h₁.trans h₂.reaches)
  intro sh' he free fault o r sh'' tx' hx
  simp only [execCmd] at hx
  split at hx
  · simp only [Option.some.injEq, Prod.mk.injEq] at hx
    obtain ⟨rfl, rfl, rfl⟩ := hx
    refine ⟨Or.inl rfl, fun hinv => ?_⟩
    -- From here on every error is raised at a state reached from `sh`.
    have hkeep : P.WP κ i op
        (outcome (fun r tx' sh' => P.Reaches κ sh sh' ∧ P.Ends κ i op Q r tx' sh')
          fun e _ => E e none)
        body.run (some Tx.empty) sh' :=
      WP.mono (fun r tx' sh' _ hq => by
        cases r with
        | ok a => exact hq
        | error e => exact hq.2) (WP.reaches he.reaches (hbody sh' he))
    refine WP.bind_closed (fun r tx sh₁ hi₁ hr => ?_) hinv hkeep
    cases r with
    | error e =>
      intro sh₂ h₂ free fault o r sh₃ tx₃ hx
      simp only [execCmd, Option.some.injEq, Prod.mk.injEq] at hx
      obtain ⟨-, rfl, rfl⟩ := hx
      refine ⟨Or.inl rfl, fun _ => ?_⟩
      exact fun sh₄ h₄ => hstable _ _ _ (hr sh₂ h₂) h₄.reaches
    | ok r =>
      cases r with
      | drop a =>
        intro sh₂ h₂ free fault o r sh₃ tx₃ hx
        simp only [execCmd, Option.some.injEq, Prod.mk.injEq] at hx
        obtain ⟨-, rfl, rfl⟩ := hx
        exact ⟨Or.inl rfl, fun _ sh₄ h₄ => (hr sh₂ h₂).2 sh₄ h₄.reaches⟩
      | commit a =>
        intro sh₂ h₂ free fault o r sh₃ tx₃ hx
        obtain ⟨hr₂, t, ht, hl, hq⟩ := hr sh₂ h₂
        subst ht
        have hm : P.Move κ sh₂ (sh₂.commit i op t) := .commit _ rfl hl
        cases fault with
        | none =>
          simp only [execCmd, Option.some.injEq, Prod.mk.injEq] at hx
          obtain ⟨rfl, rfl, rfl⟩ := hx
          exact ⟨Or.inr hm, fun _ sh₄ h₄ => hq sh₄ h₄.reaches⟩
        | before =>
          simp only [execCmd, Option.some.injEq, Prod.mk.injEq] at hx
          obtain ⟨rfl, rfl, rfl⟩ := hx
          exact ⟨Or.inl rfl, fun _ => hfail _ _ hr₂⟩
        | after =>
          simp only [execCmd, Option.some.injEq, Prod.mk.injEq] at hx
          obtain ⟨rfl, rfl, rfl⟩ := hx
          exact ⟨Or.inr hm, fun hi₃ => hfail _ _ (hr₂.trans ⟨.single hm, hi₃⟩)⟩
  · simp only [Option.some.injEq, Prod.mk.injEq] at hx
    obtain ⟨rfl, rfl, rfl⟩ := hx
    exact ⟨Or.inl rfl, fun _ => hfail _ _ he.reaches⟩

end Spec

end Protocol

end Lib
