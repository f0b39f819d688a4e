import Mathlib.Logic.Function.Basic

/-!
# Programs over an interface

An `async fn` that talks to a database is, seen from outside, a tree: it issues a command,
waits, and goes on in a way that depends on the reply. `Prog` is that tree. Everything
between two commands is a pure function, so the places where another task can run are
exactly the nodes, and one definition serves both the interleaved and the uninterrupted
reading of a program.

Failure is `ExceptT` on top: `?` is the monad's own bind.
-/

namespace Lib

/-- A program that issues commands of type `C`, each answered by a reply of type `R c`. -/
inductive Prog {C : Type} (R : C → Type) (α : Type) : Type where
  | pure (a : α)
  | cmd (c : C) (k : R c → Prog R α)

namespace Prog

variable {C : Type} {R : C → Type} {α β γ : Type}

def bind : Prog R α → (α → Prog R β) → Prog R β
  | .pure a, f => f a
  | .cmd c k, f => .cmd c fun r => (k r).bind f

instance : Monad (Prog R) where
  pure := .pure
  bind := .bind

@[simp] theorem pure_bind' (a : α) (f : α → Prog R β) : (Prog.pure a >>= f) = f a := rfl

@[simp] theorem cmd_bind (c : C) (k : R c → Prog R α) (f : α → Prog R β) :
    (Prog.cmd c k >>= f) = .cmd c fun r => k r >>= f := rfl

theorem bind_assoc (p : Prog R α) (f : α → Prog R β) (g : β → Prog R γ) :
    (p >>= f) >>= g = p >>= fun a => f a >>= g := by
  induction p with
  | pure a => rfl
  | cmd c k ih => exact congrArg (Prog.cmd c) (funext ih)

theorem bind_pure' (p : Prog R α) : (p >>= fun a => .pure a) = p := by
  induction p with
  | pure a => rfl
  | cmd c k ih => exact congrArg (Prog.cmd c) (funext ih)

/-- Issue one command and return its reply. -/
def call (c : C) : Prog R (R c) := .cmd c .pure

/-- Run a program by a handler that answers every command at once. A handler may also
    give up (`none`), which is how a task dropped at that command is run. -/
def interp {σ : Type} (h : (c : C) → σ → Option (R c × σ)) : Prog R α → σ → Option α × σ
  | .pure a, s => (some a, s)
  | .cmd c k, s =>
    match h c s with
    | none => (none, s)
    | some (r, s') => (k r).interp h s'

theorem interp_bind {σ : Type} (h : (c : C) → σ → Option (R c × σ)) (f : α → Prog R β) :
    ∀ (p : Prog R α) (s : σ), (p >>= f).interp h s =
      match p.interp h s with
      | (none, s') => (none, s')
      | (some a, s') => (f a).interp h s'
  | .pure _, _ => rfl
  | .cmd c k, s => by
    rw [cmd_bind, interp, interp]
    cases h c s with
    | none => rfl
    | some rs => exact interp_bind h f (k rs.1) rs.2

/-! ## What a program can get to -/

/-- Every command the program can issue satisfies `q`. -/
def Only (q : C → Prop) : Prog R α → Prop
  | .pure _ => True
  | .cmd c k => q c ∧ ∀ r, (k r).Only q

/-- Every point the program can get to satisfies `p`. -/
def Everywhere (p : Prog R α → Prop) : Prog R α → Prop
  | .pure a => p (.pure a)
  | .cmd c k => p (.cmd c k) ∧ ∀ r, (k r).Everywhere p

theorem Only.bind {q : C → Prop} {f : α → Prog R β} (hf : ∀ a, (f a).Only q) :
    ∀ {x : Prog R α}, x.Only q → (x >>= f).Only q
  | .pure a, _ => hf a
  | .cmd _ _, h => ⟨h.1, fun r => Only.bind hf (h.2 r)⟩

theorem Everywhere.of_only {q : C → Prop} {p : Prog R α → Prop} (hpure : ∀ a, p (.pure a))
    (hcmd : ∀ c k, q c → p (.cmd c k)) : ∀ {x : Prog R α}, x.Only q → x.Everywhere p
  | .pure a, _ => hpure a
  | .cmd c k, h => ⟨hcmd c k h.1, fun r => Everywhere.of_only hpure hcmd (h.2 r)⟩

theorem Everywhere.imp {p q : Prog R α → Prop} (hpq : ∀ x, p x → q x) :
    ∀ {x : Prog R α}, x.Everywhere p → x.Everywhere q
  | .pure _, h => hpq _ h
  | .cmd _ _, h => ⟨hpq _ h.1, fun r => Everywhere.imp hpq (h.2 r)⟩

theorem Everywhere.here {p : Prog R α → Prop} {x : Prog R α} (h : x.Everywhere p) : p x := by
  cases x with
  | pure a => exact h
  | cmd c k => exact h.1

/-- Everything the program can end with satisfies `Q`. -/
def Results (Q : α → Prop) : Prog R α → Prop
  | .pure a => Q a
  | .cmd _ k => ∀ r, (k r).Results Q

theorem Results.bind {Q₁ : α → Prop} {Q : β → Prop} {f : α → Prog R β}
    (hf : ∀ a, Q₁ a → (f a).Results Q) : ∀ {x : Prog R α}, x.Results Q₁ → (x >>= f).Results Q
  | .pure a, h => hf a h
  | .cmd _ _, h => fun r => Results.bind hf (h r)

theorem Results.mono {Q Q' : α → Prop} (hq : ∀ a, Q a → Q' a) :
    ∀ {x : Prog R α}, x.Results Q → x.Results Q'
  | .pure a, h => hq a h
  | .cmd _ _, h => fun r => Results.mono hq (h r)

theorem Results.trivial : ∀ {x : Prog R α}, x.Results fun _ => True
  | .pure _ => True.intro
  | .cmd _ _ => fun _ => Results.trivial

end Prog

end Lib
