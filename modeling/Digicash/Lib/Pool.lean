import Digicash.Lib.LockOrder

/-!
# A pool of connections

A process talks to its database over connections that it borrows from a pool: a statement that
stands alone and a transaction each need one, and a function may hold one while it calls another
function that borrows its own. `Database.pooled` adds to a program's commands that a connection
is taken and that it is given back.

`Prog.erase` forgets these two commands, so that code behind a pool can be compared with code
that has no pool. `borrowing` puts them where each statement or transaction has a connection of
its own, `holding` keeps one over a whole block. How many connections code has at once, and that
it asks for none while a transaction is open, is `Frugal`.
-/

namespace Lib

variable {D : Database} {α β ε : Type}

/-- What a pool adds to the commands of a program. -/
inductive PoolExt (E : Type) where
  | get
  | put
  | ext (e : E)

@[reducible] def PoolExt.Res {E : Type} (R : E → Type) : PoolExt E → Type
  | .get => Unit
  | .put => Unit
  | .ext e => R e

/-- The database behind a pool. The process's memory says how many connections each call has. -/
abbrev Database.pooled (D : Database) : Database :=
  { D with
    Mem := D.Mem × (CallId → ℕ)
    Ext := PoolExt D.Ext
    ExtRes := PoolExt.Res D.ExtRes
    ext := fun i e o m =>
      match e with
      | .get => some ((), m.1, Function.update m.2 i (m.2 i + 1))
      | .put => some ((), m.1, Function.update m.2 i (m.2 i - 1))
      | .ext e => (D.ext i e o m.1).map fun r => (r.1, r.2, m.2) }

/-! ## With a pool and without -/

/-- The program without its connections. -/
def Prog.erase : Code D.pooled α → Code D α
  | .pure a => .pure a
  | .cmd (.ext .get) k => Prog.erase (k ())
  | .cmd (.ext .put) k => Prog.erase (k ())
  | .cmd (.ext (.ext e)) k => .cmd (.ext e) fun r => Prog.erase (k r)
  | .cmd .begin k => .cmd .begin fun r => Prog.erase (k r)
  | .cmd .commit k => .cmd .commit fun r => Prog.erase (k r)
  | .cmd .rollback k => .cmd .rollback fun r => Prog.erase (k r)
  | .cmd (.stmt s) k => .cmd (.stmt s) fun r => Prog.erase (k r)

/-- A connection first, unless there is one. -/
def checkout (b : Bool) (x : Code D.pooled α) : Code D.pooled α :=
  if b then x else .cmd (.ext .get) fun _ => x

/-- The connection goes back. -/
def giveBack (x : Code D.pooled α) : Code D.pooled α := .cmd (.ext .put) fun _ => x

/-- Each statement outside a transaction, and each transaction, has a connection of its own. -/
def Prog.single : Bool → Code D α → Code D.pooled α
  | b, .pure a => if b then giveBack (.pure a) else .pure a
  | b, .cmd (.ext e) k => .cmd (.ext (.ext e)) fun r => Prog.single b (k r)
  | b, .cmd (.stmt s) k => checkout b (.cmd (.stmt s) fun r =>
      if b then Prog.single true (k r) else giveBack (Prog.single false (k r)))
  | b, .cmd .begin k => checkout b (.cmd .begin fun r => Prog.single true (k r))
  | b, .cmd .commit k => checkout b (.cmd .commit fun r => giveBack (Prog.single false (k r)))
  | b, .cmd .rollback k => checkout b (.cmd .rollback fun r => giveBack (Prog.single false (k r)))

/-- Code that borrows a connection for each statement or transaction. -/
def borrowing (x : Fallible D ε α) : Fallible D.pooled ε α := ExceptT.mk (Prog.single false x.run)

/-- Code that has a connection from its beginning to its end. -/
def holding (x : Fallible D.pooled ε α) : Fallible D.pooled ε α :=
  ExceptT.mk (.cmd (.ext .get) fun _ => x.run >>= fun r => giveBack (.pure r))

/-- A command of the process that has nothing to do with the pool. -/
abbrev performOutside (e : D.Ext) : Fallible D.pooled ε (D.ExtRes e) :=
  perform (D := D.pooled) (.ext e)

def erase (x : Fallible D.pooled ε α) : Fallible D ε α := ExceptT.mk (Prog.erase x.run)

section Erase

theorem erase_checkout (b : Bool) (x : Code D.pooled α) : (checkout b x).erase = x.erase := by
  cases b <;> rfl

theorem cmd_congr (c : Cmd D) {k k' : c.Reply → Code D α} (h : ∀ r, k r = k' r) :
    (Prog.cmd c k : Code D α) = .cmd c k' := congrArg (Prog.cmd c) (funext h)

theorem Prog.erase_single : ∀ (b : Bool) (x : Code D α), (x.single b).erase = x
  | true, .pure _ => rfl
  | false, .pure _ => rfl
  | b, .cmd (.ext e) k => cmd_congr (.ext e) fun r => erase_single b (k r)
  | true, .cmd (.stmt s) k => cmd_congr (.stmt s) fun r => erase_single true (k r)
  | false, .cmd (.stmt s) k => cmd_congr (.stmt s) fun r => erase_single false (k r)
  | b, .cmd .begin k => by
    rw [single, erase_checkout]
    exact cmd_congr .begin fun r => erase_single true (k r)
  | b, .cmd .commit k => by
    rw [single, erase_checkout]
    exact cmd_congr .commit fun r => erase_single false (k r)
  | b, .cmd .rollback k => by
    rw [single, erase_checkout]
    exact cmd_congr .rollback fun r => erase_single false (k r)

theorem Prog.erase_bind (f : α → Code D.pooled β) :
    ∀ x : Code D.pooled α, (x >>= f).erase = x.erase >>= fun a => (f a).erase
  | .pure _ => rfl
  | .cmd (.ext .get) k => erase_bind f (k ())
  | .cmd (.ext .put) k => erase_bind f (k ())
  | .cmd (.ext (.ext e)) k => cmd_congr (.ext e) fun r => erase_bind f (k r)
  | .cmd .begin k => cmd_congr .begin fun r => erase_bind f (k r)
  | .cmd .commit k => cmd_congr .commit fun r => erase_bind f (k r)
  | .cmd .rollback k => cmd_congr .rollback fun r => erase_bind f (k r)
  | .cmd (.stmt s) k =>
    cmd_congr (D := D) (.stmt s) (k := fun r => (k r >>= f).erase) fun r => erase_bind f (k r)

theorem Prog.erase_map (f : α → β) (x : Code D.pooled α) : (f <$> x).erase = f <$> x.erase :=
  erase_bind (fun a => .pure (f a)) x

@[simp] theorem erase_pure (a : α) : erase (pure a : Fallible D.pooled ε α) = pure a := rfl

@[simp] theorem erase_throw (e : ε) : erase (throw e : Fallible D.pooled ε α) = throw e := rfl

@[simp] theorem erase_orThrow (x : Except ε α) :
    erase (orThrow x : Fallible D.pooled ε α) = orThrow x := rfl

@[simp] theorem erase_query [FromSql ε] (s : D.Stmt) :
    erase (query (D := D.pooled) s : Fallible D.pooled ε (D.Res s)) = query s := rfl

@[simp] theorem erase_perform (e : D.Ext) :
    erase (performOutside e : Fallible D.pooled ε (D.ExtRes e)) = perform e := rfl

@[simp] theorem erase_borrowing (x : Fallible D ε α) : erase (borrowing x) = x :=
  Prog.erase_single false x.run

@[simp] theorem erase_bind (x : Fallible D.pooled ε α) (f : α → Fallible D.pooled ε β) :
    erase (x >>= f) = erase x >>= fun a => erase (f a) := by
  refine (Prog.erase_bind _ x.run).trans (congrArg (x.run.erase >>= ·) (funext fun r => ?_))
  cases r <;> rfl

@[simp] theorem erase_holding (x : Fallible D.pooled ε α) : erase (holding x) = erase x :=
  (Prog.erase_bind _ x.run).trans x.run.erase.bind_pure'

@[simp] theorem erase_attempt (x : Fallible D.pooled ε α) :
    erase (attempt x) = attempt (erase x) := Prog.erase_bind _ x.run

@[simp] theorem erase_mapErr {ε' : Type} (f : ε → ε') (x : Fallible D.pooled ε α) :
    erase (mapErr f x) = mapErr f (erase x) := Prog.erase_bind _ x.run

/-- What becomes of the code of a call whose answer is made of its result. -/
theorem erase_answer {f : Except ε α → β} {x : Fallible D.pooled ε α} {y : Fallible D ε α}
    (h : erase x = y) : (f <$> x.run).erase = f <$> y.run :=
  h ▸ Prog.erase_map f x.run

end Erase

/-! ## Code that borrows little -/

/-- How many connections there are after the command, `n` before. -/
def Cmd.held (n : ℕ) : Cmd D.pooled → ℕ
  | .ext .get => n + 1
  | .ext .put => n - 1
  | _ => n

/-- With `n` connections, and a transaction open or not: the command asks for one more only where
    no transaction is open, and not beyond `m`; and it talks to the database only with one. -/
def Cmd.Modest (m n : ℕ) (b : Bool) : Cmd D.pooled → Prop
  | .ext .get => b = false ∧ n < m
  | .ext _ => True
  | _ => 0 < n

/-- All commands are modest, and the program ends with `E`. -/
def Frugal (m : ℕ) (E : ℕ → Bool → α → Prop) : ℕ → Bool → Code D.pooled α → Prop
  | n, b, .pure a => E n b a
  | n, b, .cmd c k => c.Modest m n b ∧ ∀ r, Frugal m E (c.held n) (opens b c r) (k r)

namespace Frugal

variable {m p : ℕ}

theorem bind {E₁ : ℕ → Bool → α → Prop} {E : ℕ → Bool → β → Prop} {f : α → Code D.pooled β}
    (hf : ∀ n b a, E₁ n b a → Frugal m E n b (f a)) :
    ∀ {n : ℕ} {b : Bool} {x : Code D.pooled α}, Frugal m E₁ n b x → Frugal m E n b (x >>= f)
  | n, b, .pure a, h => hf n b a h
  | _, _, .cmd _ _, h => ⟨h.1, fun r => bind hf (h.2 r)⟩

theorem mono {E E' : ℕ → Bool → α → Prop} {m' : ℕ} (hm : m ≤ m')
    (hE : ∀ n b a, E n b a → E' n b a) : ∀ {n : ℕ} {b : Bool} {x : Code D.pooled α},
      Frugal m E n b x → Frugal m' E' n b x
  | n, b, .pure a, h => hE n b a h
  | _, _, .cmd c _, h => by
    refine ⟨?_, fun r => mono hm hE (h.2 r)⟩
    cases c with
    | ext e =>
      cases e with
      | get => exact ⟨h.1.1, Nat.lt_of_lt_of_le h.1.2 hm⟩
      | _ => trivial
    | _ => exact h.1

theorem closed {E : ℕ → Bool → α → Prop} : ∀ {n : ℕ} {b : Bool} {x : Code D.pooled α},
    Frugal m E n b x → Closes b x.erase → Frugal m (fun n b a => E n b a ∧ b = false) n b x
  | _, _, .pure _, h, hb => ⟨h, hb⟩
  | _, _, .cmd c _, h, hb => by
    refine ⟨h.1, fun r => closed (h.2 r) ?_⟩
    cases c with
    | ext e =>
      cases e with
      | ext e => exact hb r
      | _ => exact hb
    | begin | stmt =>
      cases r with
      | ok a => exact hb (.ok a)
      | error e => exact hb (.error e)
    | _ => exact hb r

theorem checkout {E : ℕ → Bool → α → Prop} {b t : Bool} {x : Code D.pooled α}
    (h : t = true → b = true) (hx : Frugal (p + 1) E (p + 1) t x) :
    Frugal (p + 1) E (if b then p + 1 else p) t (checkout b x) := by
  cases b with
  | true => exact hx
  | false =>
    have ht : t = false := Bool.eq_false_iff.mpr fun ht => Bool.noConfusion (h ht)
    exact ⟨⟨ht, Nat.lt_succ_self p⟩, fun _ => hx⟩

theorem giveBack {E : ℕ → Bool → α → Prop} {n : ℕ} {t : Bool} {x : Code D.pooled α}
    (hx : Frugal m E n t x) : Frugal m E (n + 1) t (giveBack x) := ⟨trivial, fun _ => hx⟩

/-- Code with a connection for each statement or transaction needs one besides those there are. -/
theorem single : ∀ {b t : Bool} (x : Code D α), (t = true → b = true) →
    Frugal (p + 1) (fun n _ _ => n = p) (if b then p + 1 else p) t (x.single b)
  | false, _, .pure _, _ => rfl
  | true, _, .pure _, _ => giveBack rfl
  | false, _, .cmd (.ext _) k, h => ⟨trivial, fun r => single (b := false) (k r) h⟩
  | true, _, .cmd (.ext _) k, h => ⟨trivial, fun r => single (b := true) (k r) h⟩
  | false, t, .cmd (.stmt s) k, h => by
    refine checkout h ⟨Nat.succ_pos p, fun r => giveBack (single (b := false) (k r) ?_)⟩
    cases r with
    | ok a => exact h
    | error e => exact fun ht => ht
  | true, _, .cmd (.stmt _) k, h =>
    checkout h ⟨Nat.succ_pos p, fun r => single (b := true) (k r) fun _ => rfl⟩
  | _, _, .cmd .begin k, h =>
    checkout h ⟨Nat.succ_pos p, fun r => single (b := true) (k r) fun _ => rfl⟩
  | _, _, .cmd .commit k, h =>
    checkout h ⟨Nat.succ_pos p, fun r => giveBack (single (b := false) (k r) fun ht => ht)⟩
  | _, _, .cmd .rollback k, h =>
    checkout h ⟨Nat.succ_pos p, fun r => giveBack (single (b := false) (k r) fun ht => ht)⟩

end Frugal

/-- Code that has `n` connections and no transaction when it begins and when it ends, and never
    more than `m`. -/
abbrev FrugalAlone (m n : ℕ) (x : Code D.pooled α) : Prop :=
  Frugal m (fun n' b _ => n' = n ∧ b = false) n false x

namespace FrugalAlone

variable {m n : ℕ}

theorem pure {a : α} : FrugalAlone m n (.pure a : Code D.pooled α) := ⟨rfl, rfl⟩

theorem map {x : Code D.pooled α} {f : α → β} (hx : FrugalAlone m n x) :
    FrugalAlone m n (f <$> x) := Frugal.bind (f := fun a => .pure (f a)) (fun _ _ _ h => h) hx

theorem single {x : Code D α} (hx : Closes false x) (hm : n < m) :
    FrugalAlone m n (x.single false) := by
  refine ((Frugal.single (b := false) x fun h => h).closed ?_).mono hm fun _ _ _ h => h
  rw [Prog.erase_single]
  exact hx

theorem orThrow {x : Except ε α} : FrugalAlone m n (orThrow x : Fallible D.pooled ε α).run :=
  ⟨rfl, rfl⟩

/-- A statement on a connection that is there. -/
theorem query [FromSql ε] {s : D.Stmt} (hn : 0 < n) :
    FrugalAlone m n (query (D := D.pooled) s : Fallible D.pooled ε (D.Res s)).run := by
  refine ⟨hn, fun r => ⟨rfl, ?_⟩⟩
  cases r <;> exact rfl

theorem perform {e : D.Ext} :
    FrugalAlone m n (performOutside e : Fallible D.pooled ε (D.ExtRes e)).run :=
  ⟨trivial, fun _ => ⟨rfl, rfl⟩⟩

theorem borrowing {x : Fallible D ε α} (hx : Closes false x.run) (hm : n < m) :
    FrugalAlone m n (borrowing x).run := single hx hm

theorem holding {x : Fallible D.pooled ε α} (hm : n < m) (hx : FrugalAlone m (n + 1) x.run) :
    FrugalAlone m n (holding x).run := by
  refine ⟨⟨rfl, hm⟩, fun _ => Frugal.bind (fun n' b r h => ?_) hx⟩
  obtain ⟨rfl, rfl⟩ := h
  exact ⟨trivial, fun _ => ⟨rfl, rfl⟩⟩

theorem bind {x : Fallible D.pooled ε α} {f : α → Fallible D.pooled ε β}
    (hx : FrugalAlone m n x.run) (hf : ∀ a, FrugalAlone m n (f a).run) :
    FrugalAlone m n (x >>= f).run := by
  refine Frugal.bind (fun n' b r h => ?_) hx
  obtain ⟨rfl, rfl⟩ := h
  cases r with
  | ok a => exact hf a
  | error e => exact ⟨rfl, rfl⟩

theorem attempt {x : Fallible D.pooled ε α} (hx : FrugalAlone m n x.run) :
    FrugalAlone m n (attempt x).run :=
  Frugal.bind (f := fun r : Except ε α => Prog.pure (Except.ok r)) (fun _ _ _ h => h) hx

theorem mapErr {ε' : Type} {f : ε → ε'} {x : Fallible D.pooled ε α} (hx : FrugalAlone m n x.run) :
    FrugalAlone m n (mapErr f x).run :=
  Frugal.bind (f := fun r : Except ε α => Prog.pure (r.mapError f)) (fun _ _ _ h => h) hx

end FrugalAlone

end Lib
