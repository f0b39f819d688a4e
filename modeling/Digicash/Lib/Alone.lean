import Digicash.Lib.Fallible

/-!
# Programs that run alone

Where no other call is in flight, nothing happens between two commands of a program, and what
it read is still so when it writes. `Alone` is the program logic for that case. It has two
postconditions: `Q` for how the program ends, and `C` for every state it can be stopped in, by a
crash or because its caller gave up. So a proof of `Alone` is also a proof about every crash
point.

`A` says which outcomes of a command are considered, say those without a fault, or those in which
a commit satisfies some condition.

A run in which each call begins when the others are over is a run of such programs one after the
other: `Sys.Tended.step`. `Service.Exclusive` is the case where the service itself sees to that.
-/

namespace Lib

open Protocol

variable {D : Database} {S : Service D} {α β ε : Type}

/-- Which outcomes of a command are considered: its fault, what the outside decides, and the
    shared state before and after. -/
abbrev Outcomes (S : Service D) :=
  Fault → D.Oracle → Shared D S.Op → Shared D S.Op → Prop

/-- Run alone, the program passes only through states in `C`, and ends with `Q`. -/
def Alone (A : Outcomes S) (i : CallId) (op : S.Op) (C : Shared D S.Op → Prop)
    (Q : α → Option (Tx D) → Shared D S.Op → Prop) :
    Code D α → Option (Tx D) → Shared D S.Op → Prop
  | .pure a, tx, sh => Q a tx sh
  | .cmd c k, tx, sh => ∀ free fault o r sh' tx',
      execCmd free i op fault o sh tx c = some (r, sh', tx') → A fault o sh sh' →
        C sh' ∧ Alone A i op C Q (k r) tx' sh'

theorem query_bind_pure [FromSql ε] (s : D.Stmt) :
    (query s >>= pure : Fallible D ε (D.Res s)) = query s := by
  refine congrArg (Prog.cmd (R := Cmd.Reply) (Cmd.stmt s)) (funext fun r => ?_)
  cases r with
  | ok a => rfl
  | error e => rfl

namespace Alone

variable {A : Outcomes S} {i : CallId} {op : S.Op} {C : Shared D S.Op → Prop}
  {tx : Option (Tx D)} {sh : Shared D S.Op}

theorem bind {Q₁ : α → Option (Tx D) → Shared D S.Op → Prop}
    {Q : β → Option (Tx D) → Shared D S.Op → Prop} {f : α → Code D β}
    (hk : ∀ a tx sh, C sh → Q₁ a tx sh → Alone A i op C Q (f a) tx sh) :
    ∀ {p : Code D α} {tx : Option (Tx D)} {sh : Shared D S.Op}, C sh →
      Alone A i op C Q₁ p tx sh → Alone A i op C Q (p >>= f) tx sh
  | .pure a, tx, sh, hc, h => hk a tx sh hc h
  | .cmd c k, tx, sh, _, h => by
    intro free fault o r sh' tx' hx hA
    obtain ⟨hc', hr⟩ := h free fault o r sh' tx' hx hA
    exact ⟨hc', bind hk hc' hr⟩

theorem mono {Q Q' : α → Option (Tx D) → Shared D S.Op → Prop}
    (hq : ∀ a tx sh, C sh → Q a tx sh → Q' a tx sh) :
    ∀ {p : Code D α} {tx : Option (Tx D)} {sh : Shared D S.Op}, C sh →
      Alone A i op C Q p tx sh → Alone A i op C Q' p tx sh
  | .pure a, tx, sh, hc, h => hq a tx sh hc h
  | .cmd c k, tx, sh, _, h => by
    intro free fault o r sh' tx' hx hA
    obtain ⟨hc', hr⟩ := h free fault o r sh' tx' hx hA
    exact ⟨hc', mono hq hc' hr⟩

/-- A weaker crash condition. -/
theorem weaken {C' : Shared D S.Op → Prop} {Q : α → Option (Tx D) → Shared D S.Op → Prop}
    (hcrash : ∀ sh, C sh → C' sh) :
    ∀ {p : Code D α} {tx : Option (Tx D)} {sh : Shared D S.Op},
      Alone A i op C Q p tx sh → Alone A i op C' Q p tx sh
  | .pure _, _, _, h => h
  | .cmd c k, tx, sh, h => by
    intro free fault o r sh' tx' hx hA
    obtain ⟨hc', hr⟩ := h free fault o r sh' tx' hx hA
    exact ⟨hcrash sh' hc', weaken hcrash hr⟩

/-- Fewer outcomes are considered. -/
theorem anti {A' : Outcomes S} {Q : α → Option (Tx D) → Shared D S.Op → Prop}
    (hA : ∀ fault o sh sh', A' fault o sh sh' → A fault o sh sh') :
    ∀ {p : Code D α} {tx : Option (Tx D)} {sh : Shared D S.Op},
      Alone A i op C Q p tx sh → Alone A' i op C Q p tx sh
  | .pure _, _, _, h => h
  | .cmd _ _, _, _, h => by
    intro free fault o r sh' tx' hx hA'
    obtain ⟨hc, hr⟩ := h free fault o r sh' tx' hx (hA fault o _ sh' hA')
    exact ⟨hc, anti hA hr⟩

/-- What every command keeps holds throughout. -/
theorem keeping {K : Shared D S.Op → Prop} {Q : α → Option (Tx D) → Shared D S.Op → Prop}
    (hkeep : ∀ {free fault o sh sh'} {tx tx' : Option (Tx D)} {c : Cmd D} {r : c.Reply},
      execCmd free i op fault o sh tx c = some (r, sh', tx') → K sh → K sh') :
    ∀ {p : Code D α} {tx : Option (Tx D)} {sh : Shared D S.Op}, K sh →
      Alone A i op C Q p tx sh →
        Alone A i op (fun sh => C sh ∧ K sh) (fun a tx sh => Q a tx sh ∧ K sh) p tx sh
  | .pure _, _, _, hk, h => ⟨h, hk⟩
  | .cmd _ _, _, _, hk, h => by
    intro free fault o r sh' tx' hx hA
    obtain ⟨hc, hr⟩ := h free fault o r sh' tx' hx hA
    exact ⟨⟨hc, hkeep hx hk⟩, keeping hkeep (hkeep hx hk) hr⟩

protected theorem trivial : ∀ {p : Code D α} {tx : Option (Tx D)} {sh : Shared D S.Op},
    Alone A i op (fun _ => True) (fun _ _ _ => True) p tx sh
  | .pure _, _, _ => True.intro
  | .cmd _ _, _, _ => fun _ _ _ _ _ _ _ _ => ⟨True.intro, Alone.trivial⟩

/-! ## Code that can fail -/

/-- `Alone` for code that can fail. -/
def Spec (A : Outcomes S) (i : CallId) (op : S.Op) (C : Shared D S.Op → Prop)
    (Q : α → Option (Tx D) → Shared D S.Op → Prop) (E : ε → Option (Tx D) → Shared D S.Op → Prop)
    (x : Fallible D ε α) (tx : Option (Tx D)) (sh : Shared D S.Op) : Prop :=
  Alone A i op C (outcome Q E) x.run tx sh

namespace Spec

variable {Q : α → Option (Tx D) → Shared D S.Op → Prop} {E : ε → Option (Tx D) → Shared D S.Op → Prop}

theorem ok {a : α} (h : Q a tx sh) : Spec A i op C Q E (pure a) tx sh := h

theorem throw {e : ε} (h : E e tx sh) : Spec A i op C Q E (throw e) tx sh := h

theorem mono {Q' : α → Option (Tx D) → Shared D S.Op → Prop}
    {E' : ε → Option (Tx D) → Shared D S.Op → Prop} {x : Fallible D ε α} (hc : C sh)
    (h : Spec A i op C Q E x tx sh) (hq : ∀ a tx sh, C sh → Q a tx sh → Q' a tx sh)
    (he : ∀ e tx sh, C sh → E e tx sh → E' e tx sh) : Spec A i op C Q' E' x tx sh := by
  refine Alone.mono (fun r tx sh hc hr => ?_) hc h
  cases r with
  | ok a => exact hq a tx sh hc hr
  | error e => exact he e tx sh hc hr

theorem bind {R : α → Option (Tx D) → Shared D S.Op → Prop}
    {Q : β → Option (Tx D) → Shared D S.Op → Prop} {x : Fallible D ε α} {f : α → Fallible D ε β}
    (hc : C sh) (h : Spec A i op C R E x tx sh)
    (hk : ∀ a tx sh, C sh → R a tx sh → Spec A i op C Q E (f a) tx sh) :
    Spec A i op C Q E (x >>= f) tx sh := by
  refine Alone.bind (fun r tx sh hc hr => ?_) hc h
  cases r with
  | ok a => exact hk a tx sh hc hr
  | error e => exact hr

/-- A program that hands its result, value or error, to its caller. -/
theorem answer {γ : Type} {g : Except ε α → γ} {Q' : γ → Option (Tx D) → Shared D S.Op → Prop}
    {x : Fallible D ε α} (hc : C sh) (h : Spec A i op C Q E x tx sh)
    (hok : ∀ a tx sh, C sh → Q a tx sh → Q' (g (.ok a)) tx sh)
    (herr : ∀ e tx sh, C sh → E e tx sh → Q' (g (.error e)) tx sh) :
    Alone A i op C Q' (g <$> x.run) tx sh := by
  refine Alone.bind (f := fun r => .pure (g r)) (fun r tx sh hc hr => ?_) hc h
  cases r with
  | ok a => exact hok a tx sh hc hr
  | error e => exact herr e tx sh hc hr

protected theorem orThrow {x : Except ε α} (herr : ∀ e, x = .error e → E e tx sh)
    (hok : ∀ a, x = .ok a → Q a tx sh) : Spec A i op C Q E (orThrow x) tx sh := by
  cases x with
  | ok a => exact hok a rfl
  | error e => exact herr e rfl

theorem orThrow_bind {x : Except ε α} {f : α → Fallible D ε β}
    {Q : β → Option (Tx D) → Shared D S.Op → Prop} (herr : ∀ e, x = .error e → E e tx sh)
    (hok : ∀ a, x = .ok a → Spec A i op C Q E (f a) tx sh) :
    Spec A i op C Q E (orThrow x >>= f) tx sh := by
  cases x with
  | ok a => exact hok a rfl
  | error e => exact herr e rfl

/-- A command that is not a statement. -/
theorem perform_bind {e : D.Ext} {f : D.ExtRes e → Fallible D ε α}
    (h : ∀ fault o r m, D.ext i e o sh.mem = some (r, m) → A fault o sh { sh with mem := m } →
      C { sh with mem := m } ∧ Spec A i op C Q E (f r) tx { sh with mem := m }) :
    Spec A i op C Q E (perform e >>= f) tx sh := by
  intro free fault o r sh' tx' hx hA
  simp only [execCmd, Option.map_eq_some_iff] at hx
  obtain ⟨⟨r', m⟩, hext, hrm⟩ := hx
  simp only [Prod.mk.injEq] at hrm
  obtain ⟨rfl, rfl, rfl⟩ := hrm
  exact h fault o r' m hext hA

/-- A statement that is its own transaction. The connection can fail with its effect there. -/
theorem query_bind [FromSql ε] {s : D.Stmt} {f : D.Res s → Fallible D ε α} (hc : C sh)
    (hfault : ∀ fault o, fault ≠ .none → A fault o sh sh → E (fromSql .connection) none sh)
    (herr : ∀ o e, (D.exec s o sh.db).result = .error e → E (fromSql e) none sh)
    (hread : ∀ o r, (D.exec s o sh.db).result = .ok (r, []) → Spec A i op C Q E (f r) none sh)
    (hwrite : ∀ fault o r ws, ws ≠ [] → (D.exec s o sh.db).result = .ok (r, ws) →
      A fault o sh (sh.commit i op (Tx.empty.push s r (D.exec s o sh.db).waits ws)) →
        C (sh.commit i op (Tx.empty.push s r (D.exec s o sh.db).waits ws)) ∧
        (fault ≠ .none → E (fromSql .connection) none
          (sh.commit i op (Tx.empty.push s r (D.exec s o sh.db).waits ws))) ∧
        Spec A i op C Q E (f r) none
          (sh.commit i op (Tx.empty.push s r (D.exec s o sh.db).waits ws))) :
    Spec A i op C Q E (query s >>= f) none sh := by
  intro free fault o r sh' tx' hx hA
  simp only [execCmd, execStmt] at hx
  split at hx
  · rename_i hbefore
    cases hx
    exact ⟨hc, hfault fault o (by simp [hbefore]) hA⟩
  split at hx
  · split at hx
    · rename_i e hres
      cases hx
      exact ⟨hc, herr o e hres⟩
    · rename_i a ws hres
      simp only [Option.some.injEq, Prod.mk.injEq] at hx
      obtain ⟨rfl, rfl, rfl⟩ := hx
      cases ws with
      | nil =>
        refine ⟨hc, ?_⟩
        split
        · rename_i hafter
          exact hfault fault o (by simp [hafter]) hA
        · exact hread o a hres
      | cons w ws =>
        obtain ⟨hc', hlost, hk⟩ := hwrite fault o a (w :: ws) (by simp) hres hA
        refine ⟨hc', ?_⟩
        split
        · rename_i hafter
          exact hlost (by simp [hafter])
        · exact hk
  · exact absurd hx (by simp)

/-- A statement of an open transaction. Where the connection fails, the transaction is gone. -/
theorem query_bind_open [FromSql ε] {t : Tx D} {s : D.Stmt} {f : D.Res s → Fallible D ε α}
    (hc : C sh)
    (hfault : ∀ fault o, fault ≠ .none → A fault o sh sh → E (fromSql .connection) none sh)
    (herr : ∀ o e, (D.exec s o (t.view sh.db)).result = .error e → E (fromSql e) none sh)
    (hok : ∀ o r ws, (D.exec s o (t.view sh.db)).result = .ok (r, ws) →
      Spec A i op C Q E (f r) (some (t.push s r (D.exec s o (t.view sh.db)).waits ws)) sh) :
    Spec A i op C Q E (query s >>= f) (some t) sh := by
  intro free fault o r sh' tx' hx hA
  simp only [execCmd, execStmt] at hx
  split at hx
  · rename_i hne
    cases hx
    exact ⟨hc, hfault fault o hne hA⟩
  split at hx
  · split at hx
    · rename_i e hres
      cases hx
      exact ⟨hc, herr o e hres⟩
    · rename_i a ws hres
      cases hx
      exact ⟨hc, hok o a ws hres⟩
  · exact absurd hx (by simp)

/-- A statement of an open transaction that is known to reply `a` and write `ws`. -/
theorem write_bind_open [FromSql ε] {t : Tx D} {s : D.Stmt} {f : D.Res s → Fallible D ε α}
    {a : D.Res s} {waits : List D.Row} {ws : List (Write D.Cell)}
    (hexec : ∀ o, D.exec s o (t.view sh.db) = .write waits a ws) (hc : C sh)
    (hfault : ∀ fault o, fault ≠ .none → A fault o sh sh → E (fromSql .connection) none sh)
    (hok : Spec A i op C Q E (f a) (some (t.push s a waits ws)) sh) :
    Spec A i op C Q E (query s >>= f) (some t) sh := by
  have hres : ∀ o, (D.exec s o (t.view sh.db)).result = .ok (a, ws) := fun o => by rw [hexec]; rfl
  refine query_bind_open hc hfault (fun o e he => ?_) fun o r ws' hr => ?_
  · exact absurd ((hres o).symm.trans he) (by simp)
  · obtain ⟨rfl, rfl⟩ := Prod.mk.inj (Except.ok.inj ((hres o).symm.trans hr))
    rw [hexec o]
    exact hok

/-- A statement of an open transaction that is known to fail. -/
theorem fail_bind_open [FromSql ε] {t : Tx D} {s : D.Stmt} {f : D.Res s → Fallible D ε α}
    {waits : List D.Row} {e : SqlError} (hexec : ∀ o, D.exec s o (t.view sh.db) = .fail waits e)
    (hc : C sh)
    (hfault : ∀ fault o, fault ≠ .none → A fault o sh sh → E (fromSql .connection) none sh)
    (herr : E (fromSql e) none sh) : Spec A i op C Q E (query s >>= f) (some t) sh := by
  have hres : ∀ o, (D.exec s o (t.view sh.db)).result = .error e := fun o => by rw [hexec]; rfl
  refine query_bind_open hc hfault (fun o e' he => ?_) fun o r ws hr => ?_
  · obtain rfl := Except.error.inj ((hres o).symm.trans he)
    exact herr
  · exact absurd ((hres o).symm.trans hr) (by simp)

/-- What the body of a transaction block has to end with. -/
@[reducible] def Ends [FromSql ε] (A : Outcomes S) (i : CallId) (op : S.Op)
    (C : Shared D S.Op → Prop) (Q : α → Option (Tx D) → Shared D S.Op → Prop)
    (E : ε → Option (Tx D) → Shared D S.Op → Prop) :
    Ending α → Option (Tx D) → Shared D S.Op → Prop
  | .drop a, _, sh => Q a none sh
  | .commit a, tx, sh => ∃ t, tx = some t ∧ C (sh.commit i op t) ∧ Q a none (sh.commit i op t) ∧
      (∀ o, A .before o sh sh → E (fromSql .connection) none sh) ∧
      ∀ o, A .after o sh (sh.commit i op t) → E (fromSql .connection) none (sh.commit i op t)

/-- A transaction block. -/
theorem transaction_open [FromSql ε] {body : Fallible D ε (Ending α)} (hc : C sh)
    (hfault : ∀ fault o, fault ≠ .none → A fault o sh sh → E (fromSql .connection) none sh)
    (hbody : Spec A i op C (Ends A i op C Q E) (fun e _ => E e none) body (some Tx.empty) sh) :
    Spec A i op C Q E (transaction body) none sh := by
  intro free fault o r sh' tx' hx hA
  simp only [execCmd] at hx
  split at hx
  · cases hx
    refine ⟨hc, Alone.bind (fun r tx' sh' hc' hr => ?_) hc hbody⟩
    cases r with
    | ok ending =>
      cases ending with
      | drop a =>
        intro free fault o r sh₂ tx₂ hx _
        cases hx
        exact ⟨hc', hr⟩
      | commit a =>
        obtain ⟨t, rfl, hc₂, hq, hbefore, hafter⟩ := hr
        intro free fault o r sh₂ tx₂ hx hA
        cases fault with
        | none =>
          cases hx
          exact ⟨hc₂, hq⟩
        | before =>
          cases hx
          exact ⟨hc', hbefore o hA⟩
        | after =>
          cases hx
          exact ⟨hc₂, hafter o hA⟩
    | error e =>
      intro free fault o r sh₂ tx₂ hx _
      cases hx
      exact ⟨hc', hr⟩
  · rename_i hne
    cases hx
    exact ⟨hc, hfault fault o hne hA⟩

/-- Code whose errors are rewritten. -/
theorem mapErr {ε' : Type} {Q : α → Option (Tx D) → Shared D S.Op → Prop}
    {E : ε' → Option (Tx D) → Shared D S.Op → Prop} {g : ε → ε'} {x : Fallible D ε α} (hc : C sh)
    (h : Spec A i op C Q (fun e => E (g e)) x tx sh) : Spec A i op C Q E (Lib.mapErr g x) tx sh := by
  refine Alone.bind (f := fun r : Except ε α => .pure (r.mapError g)) (fun r tx sh _ hr => ?_) hc h
  cases r with
  | ok a => exact hr
  | error e => exact hr

/-- A failure that the code goes on from. -/
theorem attempt_bind {Q₁ : α → Option (Tx D) → Shared D S.Op → Prop}
    {E₁ : ε → Option (Tx D) → Shared D S.Op → Prop}
    {Q : β → Option (Tx D) → Shared D S.Op → Prop} {x : Fallible D ε α}
    {f : Except ε α → Fallible D ε β} (hc : C sh) (h : Spec A i op C Q₁ E₁ x tx sh)
    (hk : ∀ r tx sh, C sh → outcome Q₁ E₁ r tx sh → Spec A i op C Q E (f r) tx sh) :
    Spec A i op C Q E (attempt x >>= f) tx sh := by
  have hshape : (attempt x >>= f).run = x.run >>= fun r => (f r).run :=
    Prog.bind_assoc _ _ _
  unfold Spec
  rw [hshape]
  exact Alone.bind hk hc h

end Spec

end Alone

/-! ## Where nothing fails -/

/-- The outcomes without a fault. -/
def Calm : Outcomes S := fun fault _ _ _ => fault = .none

/-- Nothing happened that the code does not see: a command that fails has had no effect. -/
def Visible : Outcomes S := fun fault _ sh sh' => fault = .none ∨ sh' = sh

theorem Shared.commit_ne {Op : Type} (sh : Shared D Op) (i : CallId) (op : Op) (t : Tx D) :
    sh.commit i op t ≠ sh := by
  intro h
  exact absurd (congrArg (fun sh => sh.hist.length) h) (Nat.succ_ne_self _)

namespace Alone

variable {i : CallId} {op : S.Op} {C : Shared D S.Op → Prop} {tx : Option (Tx D)}
  {sh : Shared D S.Op}

namespace Spec

variable {Q : α → Option (Tx D) → Shared D S.Op → Prop} {E : ε → Option (Tx D) → Shared D S.Op → Prop}

/-- A statement that only reads. -/
theorem read_bind_calm [FromSql ε] {s : D.Stmt} {f : D.Res s → Fallible D ε α}
    (get : D.Oracle → D.Db → D.Res s) (hexec : ∀ o db, D.exec s o db = .read (get o db))
    (hc : C sh) (hok : ∀ o, Spec Calm i op C Q E (f (get o sh.db)) none sh) :
    Spec Calm i op C Q E (query s >>= f) none sh := by
  have hres : ∀ o, (D.exec s o sh.db).result = .ok (get o sh.db, []) := fun o => by rw [hexec]; rfl
  refine query_bind hc (fun _ _ hne hcalm => absurd hcalm hne) (fun o e he => ?_) (fun o r hr => ?_)
    fun _ o r ws hws hr _ => ?_
  · exact absurd ((hres o).symm.trans he) (by simp)
  · obtain ⟨rfl, -⟩ := Prod.mk.inj (Except.ok.inj ((hres o).symm.trans hr))
    exact hok o
  · exact absurd (Prod.mk.inj (Except.ok.inj ((hres o).symm.trans hr))).2.symm hws

/-- A statement that is its own transaction and is known to write `ws`. -/
theorem write_bind_calm [FromSql ε] {s : D.Stmt} {f : D.Res s → Fallible D ε α} {a : D.Res s}
    {waits : List D.Row} {ws : List (Write D.Cell)}
    (hexec : ∀ o, D.exec s o sh.db = .write waits a ws) (hws : ws ≠ []) (hc : C sh)
    (hc' : C (sh.commit i op (Tx.empty.push s a waits ws)))
    (hok : Spec Calm i op C Q E (f a) none (sh.commit i op (Tx.empty.push s a waits ws))) :
    Spec Calm i op C Q E (query s >>= f) none sh := by
  have hres : ∀ o, (D.exec s o sh.db).result = .ok (a, ws) := fun o => by rw [hexec]; rfl
  refine query_bind hc (fun _ _ hne hcalm => absurd hcalm hne) (fun o e he => ?_) (fun o r hr => ?_)
    fun _ o r ws' _ hr hcalm => ?_
  · exact absurd ((hres o).symm.trans he) (by simp)
  · exact absurd (Prod.mk.inj (Except.ok.inj ((hres o).symm.trans hr))).2 hws
  · obtain ⟨rfl, rfl⟩ := Prod.mk.inj (Except.ok.inj ((hres o).symm.trans hr))
    rw [hexec o]
    exact ⟨hc', fun hne => absurd hcalm hne, hok⟩

/-- A statement that is its own transaction, whether it finds something to write or not. -/
theorem effect_bind_calm [FromSql ε] {s : D.Stmt} {f : D.Res s → Fallible D ε α} {a : D.Res s}
    {ws : List (Write D.Cell)} (hexec : ∀ o, D.exec s o sh.db = .write [] a ws) (hc : C sh)
    (hok : ∀ sh' : Shared D S.Op, sh'.mem = sh.mem → sh'.db = applyWrites sh.db ws →
      C sh' ∧ Spec Calm i op C Q E (f a) none sh') :
    Spec Calm i op C Q E (query s >>= f) none sh := by
  cases ws with
  | nil =>
    have hres : ∀ o, (D.exec s o sh.db).result = .ok (a, []) := fun o => by rw [hexec]; rfl
    refine query_bind hc (fun _ _ hne hcalm => absurd hcalm hne) (fun o e he => ?_)
      (fun o r hr => ?_) fun _ o r ws hws hr _ => ?_
    · exact absurd ((hres o).symm.trans he) (by simp)
    · obtain ⟨rfl, -⟩ := Prod.mk.inj (Except.ok.inj ((hres o).symm.trans hr))
      exact (hok sh rfl rfl).2
    · exact absurd (Prod.mk.inj (Except.ok.inj ((hres o).symm.trans hr))).2.symm hws
  | cons w ws =>
    obtain ⟨hc', hspec⟩ := hok (sh.commit i op (Tx.empty.push s a [] (w :: ws))) rfl rfl
    exact write_bind_calm hexec (by simp) hc hc' hspec

/-- A statement of an open transaction. -/
theorem query_bind_tx [FromSql ε] {t : Tx D} {s : D.Stmt} {f : D.Res s → Fallible D ε α}
    (hc : C sh)
    (herr : ∀ o e, (D.exec s o (t.view sh.db)).result = .error e → E (fromSql e) none sh)
    (hok : ∀ o r ws, (D.exec s o (t.view sh.db)).result = .ok (r, ws) →
      Spec Calm i op C Q E (f r) (some (t.push s r (D.exec s o (t.view sh.db)).waits ws)) sh) :
    Spec Calm i op C Q E (query s >>= f) (some t) sh :=
  query_bind_open hc (fun _ _ hne hcalm => absurd hcalm hne) herr hok

/-- A statement of an open transaction that is known to reply `a` and write `ws`. -/
theorem write_bind_tx [FromSql ε] {t : Tx D} {s : D.Stmt} {f : D.Res s → Fallible D ε α}
    {a : D.Res s} {waits : List D.Row} {ws : List (Write D.Cell)}
    (hexec : ∀ o, D.exec s o (t.view sh.db) = .write waits a ws) (hc : C sh)
    (hok : Spec Calm i op C Q E (f a) (some (t.push s a waits ws)) sh) :
    Spec Calm i op C Q E (query s >>= f) (some t) sh :=
  write_bind_open hexec hc (fun _ _ hne hcalm => absurd hcalm hne) hok

/-- A statement of an open transaction that is known to reply `a` and do nothing else. -/
theorem read_bind_tx [FromSql ε] {t : Tx D} {s : D.Stmt} {f : D.Res s → Fallible D ε α}
    {a : D.Res s} (hexec : ∀ o, D.exec s o (t.view sh.db) = .read a) (hc : C sh)
    (hok : Spec Calm i op C Q E (f a) (some (t.push s a [] [])) sh) :
    Spec Calm i op C Q E (query s >>= f) (some t) sh :=
  write_bind_tx hexec hc hok

/-- A transaction block. -/
theorem transaction [FromSql ε] {body : Fallible D ε (Ending α)} (hc : C sh)
    (hbody : Spec Calm i op C
      (fun
        | .drop a, _, sh' => Q a none sh'
        | .commit a, tx', sh' => ∃ t, tx' = some t ∧ C (sh'.commit i op t) ∧
            Q a none (sh'.commit i op t))
      (fun e _ => E e none) body (some Tx.empty) sh) :
    Spec Calm i op C Q E (transaction body) none sh := by
  refine transaction_open hc (fun _ _ hne hcalm => absurd hcalm hne) (hbody.mono hc ?_ fun _ _ _ _ h => h)
  intro ending tx sh _ h
  cases ending with
  | drop a => exact h
  | commit a =>
    obtain ⟨t, htx, hc', hq⟩ := h
    exact ⟨t, htx, hc', hq, fun _ hcalm => (by cases hcalm), fun _ hcalm => (by cases hcalm)⟩

end Spec

end Alone

/-- One command where nothing fails, nobody else holds a lock, and the outside decides `o`. -/
def calmly (i : CallId) (op : S.Op) (o : D.Oracle) (c : Cmd D)
    (s : Shared D S.Op × Option (Tx D)) : Option (c.Reply × Shared D S.Op × Option (Tx D)) :=
  execCmd (fun _ => true) i op .none o s.1 s.2 c

/-- Nobody waits for nobody. -/
theorem calmly_isSome (hext : ∀ i e o m, (D.ext i e o m).isSome = true) (i : CallId) (op : S.Op)
    (o : D.Oracle) (c : Cmd D) (s : Shared D S.Op × Option (Tx D)) :
    (calmly i op o c s).isSome = true := by
  have henabled : ∀ {ρ : Type} (eff : Effect D.Cell ρ), eff.enabled (fun _ => true) = true := by
    intro ρ eff
    unfold Effect.enabled
    cases eff.result <;> simp
  cases c with
  | begin => rfl
  | rollback => rfl
  | commit =>
    cases h : s.2 <;> simp [calmly, execCmd, h]
  | ext e => simpa [calmly, execCmd] using hext i e o s.1.mem
  | stmt st =>
    cases htx : s.2 with
    | none =>
      simp only [calmly, execCmd, execStmt, htx, henabled, if_true]
      split
      · rfl
      · split <;> rfl
    | some t =>
      simp only [calmly, execCmd, execStmt, htx, henabled, if_true]
      split
      · rfl
      · split <;> rfl

/-- **What a program promises alone, it does where nothing fails.** -/
theorem Alone.calmly {i : CallId} {op : S.Op} {C : Shared D S.Op → Prop}
    {Q : α → Option (Tx D) → Shared D S.Op → Prop}
    (hext : ∀ i e o m, (D.ext i e o m).isSome = true) (o : D.Oracle) :
    ∀ {p : Code D α} {tx : Option (Tx D)} {sh : Shared D S.Op}, C sh → Alone Calm i op C Q p tx sh →
      ∃ a sh' tx', p.interp (Lib.calmly i op o) (sh, tx) = (some a, sh', tx') ∧ C sh' ∧ Q a tx' sh'
  | .pure a, tx, sh, hc, h => ⟨a, sh, tx, rfl, hc, h⟩
  | .cmd c k, tx, sh, _, h => by
    obtain ⟨⟨r, sh', tx'⟩, hx⟩ :=
      Option.isSome_iff_exists.mp (calmly_isSome hext i op o c (sh, tx))
    obtain ⟨hc', hk⟩ := h _ .none o r sh' tx' hx rfl
    obtain ⟨a, sh₂, tx₂, hrun, hQ⟩ := Alone.calmly hext o hc' hk
    refine ⟨a, sh₂, tx₂, ?_, hQ⟩
    rw [Prog.interp, hx]
    exact hrun

/-! ## One call after the other -/

/-- The runs all of whose steps satisfy `G`. -/
abbrev Sys.StepsIn (G : Sys S → Event S → Sys S → Prop) : Sys S → Sys S → Prop :=
  Relation.ReflTransGen fun s s' => ∃ e, s.step e = some s' ∧ G s e s'

theorem Sys.steps_of_stepsIn {G : Sys S → Event S → Sys S → Prop} {s s' : Sys S}
    (h : Sys.StepsIn G s s') : Sys.Steps .any s s' := by
  induction h with
  | refl => exact .refl
  | tail _ hstep ih =>
    obtain ⟨e, he, -⟩ := hstep
    exact .tail ih ⟨e, he, Policy.any_allows _ _ _⟩

/-- Run a list of events, as long as each satisfies `g`. -/
def Sys.runWhile (g : Sys S → Event S → Bool) (s : Sys S) : List (Event S) → Option (Sys S)
  | [] => some s
  | e :: es => if g s e then (s.step e).bind fun s' => s'.runWhile g es else none

theorem Sys.stepsIn_of_runWhile {g : Sys S → Event S → Bool} :
    ∀ {es : List (Event S)} {s s' : Sys S}, s.runWhile g es = some s' →
      Sys.StepsIn (fun s e _ => g s e = true) s s'
  | [], s, s', h => by
    obtain rfl : s = s' := Option.some.inj h
    exact .refl
  | e :: es, s, s', h => by
    rw [Sys.runWhile] at h
    split at h
    · rename_i hg
      obtain ⟨s₁, h₁, h₂⟩ := Option.bind_eq_some_iff.mp h
      exact .head ⟨e, h₁, hg⟩ (Sys.stepsIn_of_runWhile h₂)
    · exact absurd h (by simp)

/-- A guarded run that is computed. -/
theorem Sys.exists_of_runWhile {g : Sys S → Event S → Bool} {s : Sys S} {l : List (Event S)}
    {p : Sys S → Bool} (h : (s.runWhile g l).any p = true) :
    ∃ s', Sys.StepsIn (fun s e _ => g s e = true) s s' ∧ p s' = true := by
  obtain ⟨s', hs', hp⟩ := (Option.any_eq_true _ _).mp h
  exact ⟨s', Sys.stepsIn_of_runWhile hs', hp⟩

/-- At most one call is in flight; it keeps `C` and ends with `Q`. -/
structure Sys.Tended (A : Outcomes S) (C : Shared D S.Op → Prop)
    (Q : CallId → S.Op → S.Ans → Option (Tx D) → Shared D S.Op → Prop) (s : Sys S) : Prop where
  now : C s.shared
  only : ∀ i j, s.live i ≠ none → s.live j ≠ none → i = j
  live : ∀ i ss, s.live i = some ss → Alone A i ss.op C (Q i ss.op) ss.code ss.tx s.shared

namespace Sys

variable {A : Outcomes S} {C : Shared D S.Op → Prop}
  {Q : CallId → S.Op → S.Ans → Option (Tx D) → Shared D S.Op → Prop} {s s' : Sys S}

/-- Without the call that was in flight. -/
theorem Tended.setNone (h : s.Tended A C Q) (i : CallId) : (s.setLive i none).Tended A C Q := by
  have hold : ∀ j ss, (s.setLive i none).live j = some ss → s.live j = some ss := by
    intro j ss hj
    change Function.update s.live i none j = some ss at hj
    by_cases hji : j = i
    · exact absurd hj (by simp [hji])
    · simpa [hji] using hj
  have hlive : ∀ j, (s.setLive i none).live j ≠ none → s.live j ≠ none := fun j hj => by
    obtain ⟨ss, hss⟩ := Option.ne_none_iff_exists'.mp hj
    simp [hold j ss hss]
  exact ⟨h.now, fun j k hj hk => h.only j k (hlive j hj) (hlive k hk),
    fun j ss hj => h.live j ss (hold j ss hj)⟩

/-- Where no call is in flight, nothing is promised. -/
theorem Idle.tended (h : s.Idle) (hc : C s.shared) : s.Tended A C Q :=
  ⟨hc, fun i _ hi => absurd (h i) hi, fun i _ hi => absurd hi (by simp [h i])⟩

/-- **One step of a run of calls one after the other.** A call that begins has to be good for
    `C` and `Q`, and to find no other in flight. -/
theorem Tended.step (h : s.Tended A C Q) {e : Event S} (hs : s.step e = some s')
    (hA : ∀ i fault o, e = .step i fault o → A fault o s.shared s'.shared)
    (hstart : ∀ op, e = .start op → s.Idle ∧ C s'.shared ∧
      Alone A s.next op C (Q s.next op) (S.code s.conf op) none s'.shared)
    (hreboot : ∀ κ, e = .crash κ → C s'.shared) : s'.Tended A C Q := by
  cases e with
  | start op =>
    obtain ⟨hidle, hc, hcode⟩ := hstart op rfl
    obtain ⟨m, -, rfl⟩ := Option.map_eq_some_iff.mp hs
    have hnew : ∀ j ss, Function.update s.live s.next (some ⟨op, S.code s.conf op, none⟩) j =
        some ss → j = s.next ∧ ss = ⟨op, S.code s.conf op, none⟩ := by
      intro j ss hj
      by_cases hjn : j = s.next
      · exact ⟨hjn, by simpa [hjn, eq_comm] using hj⟩
      · exact absurd hj (by simp [hjn, hidle j])
    refine ⟨hc, fun j k hj hk => ?_, fun j ss hj => ?_⟩
    · obtain ⟨ss, hss⟩ := Option.ne_none_iff_exists'.mp hj
      obtain ⟨ss', hss'⟩ := Option.ne_none_iff_exists'.mp hk
      exact (hnew j ss hss).1.trans (hnew k ss' hss').1.symm
    · obtain ⟨rfl, rfl⟩ := hnew j ss hj
      exact hcode
  | drop i =>
    obtain rfl := Option.some.inj hs
    exact h.setNone i
  | crash κ =>
    have hc := hreboot κ rfl
    obtain rfl := Option.some.inj hs
    exact ⟨hc, fun _ _ hi => absurd rfl hi, fun _ _ hi => absurd hi (by simp)⟩
  | step i fault o =>
    have hA' := hA i fault o rfl
    simp only [Sys.step] at hs
    split at hs
    · exact absurd hs (by simp)
    · obtain rfl := Option.some.inj hs
      exact ⟨h.now, (h.setNone i).only, (h.setNone i).live⟩
    · rename_i op c k tx hl
      obtain ⟨⟨r, sh, tx'⟩, hx, rfl⟩ := Option.map_eq_some_iff.mp hs
      obtain ⟨hc, hk⟩ := h.live i _ hl _ fault o r sh tx' hx hA'
      -- Nobody but `i` is in flight, before and after.
      have hother : ∀ j, j ≠ i → s.live j = none := fun j hj => by
        by_contra hne
        exact hj (h.only j i hne (by simp [hl]))
      have hnew : ∀ j ss, Function.update s.live i (some ⟨op, k r, tx'⟩) j = some ss →
          j = i ∧ ss = ⟨op, k r, tx'⟩ := by
        intro j ss hj
        by_cases hji : j = i
        · exact ⟨hji, by simpa [hji, eq_comm] using hj⟩
        · exact absurd hj (by simp [hji, hother j hji])
      refine ⟨hc, fun j k hj hk => ?_, fun j ss hj => ?_⟩
      · obtain ⟨ss, hss⟩ := Option.ne_none_iff_exists'.mp hj
        obtain ⟨ss', hss'⟩ := Option.ne_none_iff_exists'.mp hk
        exact (hnew j ss hss).1.trans (hnew _ ss' hss').1.symm
      · obtain ⟨rfl, rfl⟩ := hnew j ss hj
        exact hk

/-- An answer satisfies the postcondition in the state it is given in. -/
theorem Tended.answer (h : s.Tended A C Q) {e : Event S} (hs : s.step e = some s')
    {a : Answer S} (ha : a ∈ s'.answers) (hnew : a ∉ s.answers) :
    s'.shared = s.shared ∧ s'.live = Function.update s.live a.call none ∧
      ∃ tx, Q a.call a.op a.ans tx s.shared := by
  cases e with
  | start op =>
    obtain ⟨m, -, rfl⟩ := Option.map_eq_some_iff.mp hs
    exact absurd ha hnew
  | drop i =>
    obtain rfl := Option.some.inj hs
    exact absurd ha hnew
  | crash κ =>
    obtain rfl := Option.some.inj hs
    exact absurd ha hnew
  | step i fault o =>
    simp only [Sys.step] at hs
    split at hs
    · exact absurd hs (by simp)
    · rename_i op ans tx hl
      obtain rfl := Option.some.inj hs
      rcases List.mem_cons.mp ha with rfl | ha
      · exact ⟨rfl, rfl, tx, h.live i _ hl⟩
      · exact absurd ha hnew
    · obtain ⟨r, -, rfl⟩ := Option.map_eq_some_iff.mp hs
      exact absurd ha hnew

end Sys

/-! ## Services with one call at a time -/

/-- A call begins where the memory is not taken, and takes it. Only a crash gives it back. -/
structure Service.Exclusive (S : Service D) (taken : D.Mem → Bool) : Prop where
  enter : ∀ op m m', S.enter op m = some m' → taken m = false ∧ taken m' = true
  ext : ∀ i e o m r m', D.ext i e o m = some (r, m') → taken m' = taken m

/-- Where the memory is not taken, no call is in flight. -/
theorem Service.Exclusive.idle {taken : D.Mem → Bool} (h : S.Exclusive taken) {s s' : Sys S}
    {e : Event S} (h0 : taken s.shared.mem = false → s.Idle) (hs : s.step e = some s') :
    taken s'.shared.mem = false → s'.Idle := by
  have hnone : ∀ i, s.Idle → (s.setLive i none).Idle := fun i hidle j => by
    change Function.update s.live i none j = none
    by_cases hj : j = i
    · simp [hj]
    · simpa [hj] using hidle j
  cases e with
  | start op =>
    obtain ⟨m, hm, rfl⟩ := Option.map_eq_some_iff.mp hs
    intro hfree
    exact absurd (h.enter op _ m hm).2 (by simpa using hfree)
  | drop i =>
    obtain rfl := Option.some.inj hs
    exact fun hfree => hnone i (h0 hfree)
  | crash κ =>
    obtain rfl := Option.some.inj hs
    exact fun _ _ => rfl
  | step i fault o =>
    simp only [Sys.step] at hs
    split at hs
    · exact absurd hs (by simp)
    · obtain rfl := Option.some.inj hs
      exact fun hfree => hnone i (h0 hfree)
    · rename_i op c k tx hl
      obtain ⟨⟨r, sh, tx'⟩, hx, rfl⟩ := Option.map_eq_some_iff.mp hs
      intro hfree
      have hmem : taken sh.mem = taken s.shared.mem := by
        rcases execCmd_mem hx with heq | ⟨e, r', -, hext⟩
        · rw [heq]
        · exact h.ext i e o _ r' _ hext
      exact absurd (h0 (hmem.symm.trans hfree) i) (by simp [hl])

namespace Sys

variable {A : Outcomes S} {C : Shared D S.Op → Prop}
  {Q : CallId → S.Op → S.Ans → Option (Tx D) → Shared D S.Op → Prop} {s s' : Sys S}
  {G : Sys S → Event S → Sys S → Prop}

/-- **The runs of a service with one call at a time.** What every operation keeps, alone and
    wherever it is stopped, and a call that begins and a crash do not change, is kept by every
    run. -/
theorem tended_memory {taken : D.Mem → Bool} (hS : S.Exclusive taken) (h : StepsIn G s s')
    (hidle : s.Idle) (h0 : C s.shared)
    (hA : ∀ {s s' i fault o}, G s (.step i fault o) s' → A fault o s.shared s'.shared)
    (henter : ∀ {sh op m}, C sh → S.enter op sh.mem = some m → C { sh with mem := m })
    (hreboot : ∀ {sh}, C sh → C { sh with mem := S.reboot sh.mem })
    (hcode : ∀ {i κ op sh}, C sh → Alone A i op C (Q i op) (S.code κ op) none sh) :
    s'.Tended A C Q ∧ (taken s'.shared.mem = false → s'.Idle) := by
  induction h with
  | refl =>
    exact ⟨hidle.tended h0, fun _ => hidle⟩
  | @tail s₁ s₂ _ hstep ih =>
    obtain ⟨e, he, hG⟩ := hstep
    obtain ⟨htended, hfree⟩ := ih
    refine ⟨htended.step he (fun i fault o heq => hA (heq ▸ hG)) (fun op heq => ?_)
      fun κ heq => ?_, hS.idle hfree he⟩
    · subst heq
      obtain ⟨m, hm, rfl⟩ := Option.map_eq_some_iff.mp he
      have hc := henter htended.now hm
      exact ⟨hfree (hS.enter op _ m hm).1, hc, hcode hc⟩
    · subst heq
      obtain rfl := Option.some.inj he
      exact hreboot htended.now

/-- The same for a property that is not about the memory. -/
theorem tended {taken : D.Mem → Bool} (hS : S.Exclusive taken) (h : StepsIn G s s')
    (hidle : s.Idle) (h0 : C s.shared)
    (hA : ∀ {s s' i fault o}, G s (.step i fault o) s' → A fault o s.shared s'.shared)
    (hmem : ∀ {sh} m, C sh → C { sh with mem := m })
    (hcode : ∀ {i κ op sh}, C sh → Alone A i op C (Q i op) (S.code κ op) none sh) :
    s'.Tended A C Q ∧ (taken s'.shared.mem = false → s'.Idle) :=
  tended_memory hS h hidle h0 hA (fun hc _ => hmem _ hc) (fun hc => hmem _ hc) hcode

/-- **What a call promised, it has kept when it is answered**, and if nothing changes that once
    the call is over, it stays so. -/
theorem Tended.answered {taken : D.Mem → Bool} (hS : S.Exclusive taken) (h : s.Tended A C Q)
    (hfree : taken s.shared.mem = false → s.Idle) (hcalls : s.Calls) (hrun : StepsIn G s s')
    {i : CallId} {K : S.Ans → Shared D S.Op → Prop} (hi : i < s.next)
    (hA : ∀ {s s' i fault o}, G s (.step i fault o) s' → A fault o s.shared s'.shared)
    (henter : ∀ {sh op m}, C sh → S.enter op sh.mem = some m → C { sh with mem := m })
    (hreboot : ∀ {sh}, C sh → C { sh with mem := S.reboot sh.mem })
    (hcode : ∀ {j κ op sh}, i < j → C sh → Alone A j op C (Q j op) (S.code κ op) none sh)
    (hQ : ∀ {op a tx sh}, Q i op a tx sh → K a sh)
    (hK : ∀ {s s' : Sys S} {e a}, s.step e = some s' → s.live i = none → K a s.shared →
      K a s'.shared) : ∀ a ∈ s'.answers, a.call = i → a ∈ s.answers ∨ K a.ans s'.shared := by
  have hall : s'.Tended A C Q ∧ (taken s'.shared.mem = false → s'.Idle) ∧ s'.Calls ∧
      s.next ≤ s'.next ∧ ∀ a ∈ s'.answers, a.call = i → a ∈ s.answers ∨ K a.ans s'.shared := by
    induction hrun with
    | refl => exact ⟨h, hfree, hcalls, Nat.le_refl _, fun a ha _ => Or.inl ha⟩
    | @tail s₁ s₂ _ hstep ih =>
      obtain ⟨e, he, hG⟩ := hstep
      obtain ⟨htended, hfree₁, hcalls₁, hle, hans⟩ := ih
      refine ⟨htended.step he (fun i fault o heq => hA (heq ▸ hG)) (fun op heq => ?_)
        (fun κ heq => ?_), hS.idle hfree₁ he, hcalls₁.step he, Nat.le_trans hle (next_le he),
        fun a ha hai => ?_⟩
      · subst heq
        obtain ⟨m, hm, rfl⟩ := Option.map_eq_some_iff.mp he
        have hc := henter htended.now hm
        exact ⟨hfree₁ (hS.enter op _ m hm).1, hc, hcode (Nat.lt_of_lt_of_le hi hle) hc⟩
      · subst heq
        obtain rfl := Option.some.inj he
        exact hreboot htended.now
      · by_cases hold : a ∈ s₁.answers
        · exact (hans a hold hai).imp id (hK he (hai ▸ (hcalls₁.answered a hold).2))
        · obtain ⟨hsh, -, tx, hQa⟩ := htended.answer he ha hold
          subst hai
          exact Or.inr (hsh ▸ hQ hQa)
  exact hall.2.2.2.2

theorem next_le_steps (h : StepsIn G s s') : s.next ≤ s'.next := by
  induction h with
  | refl => exact Nat.le_refl _
  | tail _ hstep ih =>
    obtain ⟨e, he, -⟩ := hstep
    exact Nat.le_trans ih (Sys.next_le he)

/-- Until the next call begins, what an answer promised stays true of the contents. -/
theorem Tended.until (h : s.Tended A C Q) (hrun : StepsIn G s s') (hnext : s'.next = s.next)
    (hA : ∀ {s s' i fault o}, G s (.step i fault o) s' → A fault o s.shared s'.shared)
    (hmem : ∀ {sh} m, C sh → C { sh with mem := m }) :
    s'.Tended A C Q ∧ ∀ a ∈ s'.answers, a ∈ s.answers ∨ s'.Idle ∧
      ∃ tx sh, Q a.call a.op a.ans tx sh ∧ sh.db = s'.shared.db ∧ sh.hist = s'.shared.hist := by
  induction hrun with
  | refl => exact ⟨h, fun a ha => Or.inl ha⟩
  | @tail s₁ s₂ hrun hstep ih =>
    obtain ⟨e, he, hG⟩ := hstep
    have hle : s.next ≤ s₁.next := next_le_steps hrun
    have hsame : s₁.next = s.next := Nat.le_antisymm (hnext ▸ Sys.next_le he) hle
    obtain ⟨htended, hans⟩ := ih hsame
    have hstart : ∀ op, e ≠ .start op := by
      rintro op rfl
      obtain ⟨m, -, rfl⟩ := Option.map_eq_some_iff.mp he
      exact Nat.succ_ne_self _ (hnext.trans hsame.symm)
    have htended' := htended.step he (fun i fault o heq => hA (heq ▸ hG))
      (fun op heq => absurd heq (hstart op)) (fun κ heq => by
        subst heq
        obtain rfl := Option.some.inj he
        exact hmem _ htended.now)
    refine ⟨htended', fun a ha => ?_⟩
    by_cases hold : a ∈ s₁.answers
    · refine (hans a hold).imp id fun ⟨hidle, tx, sh, hQ, hdb, hhist⟩ => ?_
      -- With no call in flight nothing but the memory can change.
      cases e with
      | start op => exact absurd rfl (hstart op)
      | step i fault o => exact absurd he (by simp [Sys.step, hidle i])
      | crash κ =>
        obtain rfl := Option.some.inj he
        exact ⟨fun _ => rfl, tx, sh, hQ, hdb, hhist⟩
      | drop i =>
        obtain rfl := Option.some.inj he
        refine ⟨fun j => ?_, tx, sh, hQ, hdb, hhist⟩
        change Function.update s₁.live i none j = none
        by_cases hj : j = i
        · simp [hj]
        · simpa [hj] using hidle j
    · obtain ⟨hsh, hlive, tx, hQ⟩ := htended.answer he ha hold
      refine Or.inr ⟨fun j => ?_, tx, _, hQ, by rw [hsh], by rw [hsh]⟩
      by_contra hj
      have hne : j ≠ a.call := fun heq => hj (by rw [hlive, heq, Function.update_self])
      obtain ⟨ss, hss⟩ := Option.ne_none_iff_exists'.mp hj
      rw [hlive, Function.update_of_ne hne] at hss
      rcases Sys.live_of_answer he ha with hold' | ⟨tx', hl⟩
      · exact hold hold'
      · exact hne (htended.only j a.call (by simp [hss]) (by simp [hl]))

end Sys

end Lib
