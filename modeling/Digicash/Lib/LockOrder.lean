import Mathlib.Data.DFinsupp.WellFounded
import Mathlib.SetTheory.Ordinal.Family
import Digicash.Lib.Telling

/-!
# Lock order

Calls wait for one another's locks, and two that wait for each other wait forever. They never
do where every transaction takes its rows in the ascending order of some rank: among the rows
waited for, one of the highest rank is held by a call that itself waits for nothing.

`Climbs` says of code that it keeps to such an order, and `Sys.Good.someone_moves` is what
follows: where a call waits, one that has a transaction open can go on. Code is a well-founded
tree, so the calls in flight cannot go on forever either (`Sys.Calls.acc`).

A key that a sequence gives out is one nobody else was given, so such a row is taken without
waiting, whatever its place.

What a call waits for here are rows, and a statement takes all of its rows or none. What it has
to wait for before that, a connection, comes in `Pooled`.
-/

namespace Lib

open Relation

/-- A rank of the rows, and which rows have their key from a sequence. -/
structure LockOrder (D : Database) where
  rank : D.Row → ℕ
  drawn : D.Row → Prop

variable {D : Database} {α β ε : Type}

/-! ## What a statement needs -/

namespace Effect

variable {Row : Type} {Cell : Row → Type} {ρ : Type}

/-- The rows a statement needs for itself: those it waits for and those it writes. -/
def rows (eff : Effect Cell ρ) : List Row :=
  eff.waits ++ match eff.result with
    | .ok (_, ws) => ws.map Sigma.fst
    | .error _ => []

@[simp] theorem rows_read (a : ρ) : (read a : Effect Cell ρ).rows = [] := rfl

@[simp] theorem rows_write (waits : List Row) (a : ρ) (ws : List (Write Cell)) :
    (write waits a ws).rows = waits ++ ws.map Sigma.fst := rfl

@[simp] theorem rows_fail (waits : List Row) (e : SqlError) :
    (fail waits e : Effect Cell ρ).rows = waits := List.append_nil _

theorem enabled_of_rows {eff : Effect Cell ρ} {free : Row → Bool}
    (h : ∀ r ∈ eff.rows, free r = true) : eff.enabled free = true := by
  obtain ⟨waits, result⟩ := eff
  rw [enabled, Bool.and_eq_true]
  refine ⟨List.all_eq_true.mpr fun r hr => h r (List.mem_append_left _ hr), ?_⟩
  cases result with
  | error _ => rfl
  | ok done =>
    refine List.all_eq_true.mpr fun w hw => h w.1 (List.mem_append_right _ ?_)
    exact List.mem_map_of_mem hw

end Effect

/-- The contents a statement of a session sees. -/
def viewOf (tx : Option (Tx D)) (db : D.Db) : D.Db := tx.elim db fun t => t.view db

/-- A statement whose rows are free does not wait. -/
theorem exists_execStmt {Op : Type} {free : D.Row → Bool} {i : CallId} {op : Op} {o : D.Oracle}
    {sh : Shared D Op} {tx : Option (Tx D)} {s : D.Stmt}
    (h : ∀ r ∈ (D.exec s o (viewOf tx sh.db)).rows, free r = true) :
    ∃ r, execStmt free i op .none o sh tx s = some r := by
  have hen := Effect.enabled_of_rows h
  cases tx with
  | none =>
    change (D.exec s o sh.db).enabled free = true at hen
    simp only [execStmt, hen, reduceCtorEq, if_false, if_true]
    split <;> exact ⟨_, rfl⟩
  | some t =>
    change (D.exec s o (t.view sh.db)).enabled free = true at hen
    simp only [execStmt, hen, ne_eq, not_true_eq_false, if_false, if_true]
    split <;> exact ⟨_, rfl⟩

/-! ## Code that closes its transactions -/

/-- The code ends with no transaction open, whatever it is told. -/
def Closes : Bool → Code D α → Prop
  | b, .pure _ => b = false
  | b, .cmd c k => ∀ r, Closes (opens b c r) (k r)

namespace Closes

theorem bind {f : α → Code D β} (hf : ∀ a, Closes false (f a)) :
    ∀ {b : Bool} {x : Code D α}, Closes b x → Closes b (x >>= f)
  | _, .pure a, h => (show _ = false from h) ▸ hf a
  | _, .cmd _ _, h => fun r => bind hf (h r)

/-- What is left over is closed by what follows. -/
theorem followed {f : α → Code D β} (hf : ∀ b a, Closes b (f a)) :
    ∀ {b : Bool} {x : Code D α}, Closes b (x >>= f)
  | b, .pure a => hf b a
  | _, .cmd _ _ => fun _ => followed hf

theorem transaction [FromSql ε] (body : Fallible D ε (Ending α)) :
    Closes false (transaction body).run := by
  rintro (e | u)
  · exact rfl
  refine followed fun b r => ?_
  match r with
  | .ok (.commit a) => exact fun _ => rfl
  | .ok (.drop a) => exact fun _ => rfl
  | .error e => exact fun _ => rfl

end Closes

/-! ## Code that climbs -/

section Climbing

variable (O : LockOrder D)

/-- What a transaction may need next: a row it has, a drawn one, or one above all it has. -/
def LockOrder.Admits (t : Tx D) (rows : List D.Row) : Prop :=
  ∀ r ∈ rows, r ∈ t.locks ∨ O.drawn r ∨ ∀ r' ∈ t.locks, O.drawn r' ∨ O.rank r' < O.rank r

/-- Inside its transactions the code takes rows in ascending order, and it ends with `R`. A
    statement is taken to lock all its rows at once, so that one outside a transaction has
    nothing when it waits. That is an assumption about a `DELETE` of several rows, which a
    database may lock one by one. -/
def Climbs (R : α → Option (Tx D) → Prop) : Code D α → Option (Tx D) → Prop
  | .pure a, tx => R a tx
  | .cmd .begin k, _ => Climbs R (k (.ok ())) (some .empty) ∧ ∀ e, Climbs R (k (.error e)) none
  | .cmd .commit k, _ => ∀ r, Climbs R (k r) none
  | .cmd .rollback k, _ => ∀ r, Climbs R (k r) none
  | .cmd (.ext _) k, tx => ∀ r, Climbs R (k r) tx
  | .cmd (.stmt _) k, none => ∀ r, Climbs R (k r) none
  | .cmd (.stmt s) k, some t => (∀ e, Climbs R (k (.error e)) none) ∧ ∀ o db,
      O.Admits t (D.exec s o (t.view db)).rows ∧
      ∀ r ws, (D.exec s o (t.view db)).result = .ok (r, ws) →
        Climbs R (k (.ok r)) (some (t.push s r (D.exec s o (t.view db)).waits ws))

/-- Code that begins and ends with no transaction open. -/
structure ClimbsAlone (x : Code D α) : Prop where
  climbs : Climbs O (fun _ tx => tx = none) x none
  closes : Closes false x

variable {O}

namespace Climbs

variable {R : β → Option (Tx D) → Prop}

theorem bind {R₁ : α → Option (Tx D) → Prop} {f : α → Code D β}
    (hf : ∀ a tx, R₁ a tx → Climbs O R (f a) tx) :
    ∀ {x : Code D α} {tx : Option (Tx D)}, Climbs O R₁ x tx → Climbs O R (x >>= f) tx
  | .pure a, tx, h => hf a tx h
  | .cmd .begin _, _, h => ⟨bind hf h.1, fun e => bind hf (h.2 e)⟩
  | .cmd .commit _, _, h => fun r => bind hf (h r)
  | .cmd .rollback _, _, h => fun r => bind hf (h r)
  | .cmd (.ext _) _, _, h => fun r => bind hf (h r)
  | .cmd (.stmt _) _, none, h => fun r => bind hf (h r)
  | .cmd (.stmt _) _, some _, h =>
    ⟨fun e => bind hf (h.1 e), fun o db =>
      ⟨(h.2 o db).1, fun r ws hres => bind hf ((h.2 o db).2 r ws hres)⟩⟩

/-- What is left after a command climbs from the transaction the command leaves. -/
theorem next {Op : Type} {free : D.Row → Bool} {i : CallId} {op : Op} {fault : Fault}
    {o : D.Oracle} {sh sh' : Shared D Op} {tx tx' : Option (Tx D)} {c : Cmd D} {r : c.Reply}
    {k : c.Reply → Code D β} (h : Climbs O R (.cmd c k) tx)
    (hx : execCmd free i op fault o sh tx c = some (r, sh', tx')) : Climbs O R (k r) tx' := by
  cases c with
  | begin =>
    simp only [execCmd] at hx
    split at hx
    · cases hx
      exact h.1
    · cases hx
      exact h.2 _
  | commit =>
    cases tx <;> cases fault <;> cases hx <;> exact h _
  | rollback =>
    cases hx
    exact h ()
  | ext e =>
    obtain ⟨⟨r', m⟩, -, heq⟩ := Option.map_eq_some_iff.mp hx
    cases heq
    exact h _
  | stmt s =>
    cases tx with
    | none =>
      obtain rfl := execCmd_tx_none hx (by simp)
      exact h r
    | some t =>
      simp only [execCmd, execStmt] at hx
      split at hx
      · cases hx
        exact h.1 _
      split at hx
      · split at hx
        · cases hx
          exact h.1 _
        · rename_i a ws hres
          cases hx
          exact (h.2 o sh.db).2 a ws hres
      · exact absurd hx (by simp)

end Climbs

/-! ### Outside a transaction -/

namespace ClimbsAlone

theorem pure {a : α} : ClimbsAlone O (.pure a : Code D α) := ⟨rfl, rfl⟩

theorem map {x : Code D α} {f : α → β} (hx : ClimbsAlone O x) : ClimbsAlone O (f <$> x) :=
  ⟨Climbs.bind (f := fun a => .pure (f a)) (fun _ _ h => h) hx.climbs,
    Closes.bind (f := fun a => .pure (f a)) (fun _ => rfl) hx.closes⟩

theorem query [FromSql ε] {s : D.Stmt} : ClimbsAlone O (query s : Fallible D ε (D.Res s)).run := by
  refine ⟨fun _ => rfl, fun r => ?_⟩
  cases r <;> exact rfl

theorem orThrow {x : Except ε α} : ClimbsAlone O (orThrow x : Fallible D ε α).run := ⟨rfl, rfl⟩

theorem perform {e : D.Ext} : ClimbsAlone O (perform e : Fallible D ε (D.ExtRes e)).run :=
  ⟨fun _ => rfl, fun _ => rfl⟩

theorem bind {x : Fallible D ε α} {f : α → Fallible D ε β} (hx : ClimbsAlone O x.run)
    (hf : ∀ a, ClimbsAlone O (f a).run) : ClimbsAlone O (x >>= f).run := by
  refine ⟨Climbs.bind (fun r tx htx => ?_) hx.climbs, Closes.bind (fun r => ?_) hx.closes⟩
  · subst htx
    cases r with
    | ok a => exact (hf a).climbs
    | error e => exact rfl
  · cases r with
    | ok a => exact (hf a).closes
    | error e => exact rfl

theorem attempt {x : Fallible D ε α} (hx : ClimbsAlone O x.run) : ClimbsAlone O (attempt x).run :=
  ⟨Climbs.bind (f := fun r : Except ε α => Prog.pure (Except.ok r)) (fun _ _ h => h) hx.climbs,
    Closes.bind (f := fun r : Except ε α => Prog.pure (Except.ok r)) (fun _ => rfl) hx.closes⟩

theorem mapErr {ε' : Type} {f : ε → ε'} {x : Fallible D ε α} (hx : ClimbsAlone O x.run) :
    ClimbsAlone O (mapErr f x).run :=
  ⟨Climbs.bind (f := fun r : Except ε α => Prog.pure (r.mapError f)) (fun _ _ h => h) hx.climbs,
    Closes.bind (f := fun r : Except ε α => Prog.pure (r.mapError f)) (fun _ => rfl) hx.closes⟩

end ClimbsAlone

/-! ### Inside one -/

variable (O) in
/-- Code inside a transaction: if it had no rows but those of `held`, it gets to its value with
    none but those of `held'`. -/
def ClimbsWith (held held' : Set D.Row) (x : Fallible D ε α) : Prop :=
  ∀ t : Tx D, (∀ r ∈ t.locks, r ∈ held) →
    Climbs O (fun result tx => ∀ a, result = .ok a → ∃ t', tx = some t' ∧ ∀ r ∈ t'.locks, r ∈ held')
      x.run (some t)

namespace ClimbsWith

variable {held held₁ held' : Set D.Row}

theorem pure {a : α} (h : held ⊆ held') : ClimbsWith O held held' (pure a : Fallible D ε α) :=
  fun t ht _ _ => ⟨t, rfl, fun r hr => h (ht r hr)⟩

theorem throw {e : ε} : ClimbsWith O held held' (throw e : Fallible D ε α) :=
  fun _ _ _ h => by cases h

theorem weaken {x : Fallible D ε α} (hx : ClimbsWith O held₁ held' x) (h : held ⊆ held₁) :
    ClimbsWith O held held' x := fun t ht => hx t fun r hr => h (ht r hr)

theorem bind {x : Fallible D ε α} {f : α → Fallible D ε β} (hx : ClimbsWith O held held₁ x)
    (hf : ∀ a, ClimbsWith O held₁ held' (f a)) : ClimbsWith O held held' (x >>= f) := by
  intro t ht
  refine Climbs.bind (fun result tx hres => ?_) (hx t ht)
  cases result with
  | ok a =>
    obtain ⟨t', rfl, ht'⟩ := hres a rfl
    exact hf a t' ht'
  | error e => exact fun _ h => by cases h

theorem orThrow_bind {x : Except ε α} {f : α → Fallible D ε β}
    (hf : ∀ a, ClimbsWith O held held' (f a)) : ClimbsWith O held held' (orThrow x >>= f) := by
  cases x with
  | ok a => exact hf a
  | error e => exact throw

/-- A statement that needs only rows of `taken`, each of them one the code has or above all it
    has. -/
theorem query [FromSql ε] {s : D.Stmt} (taken : Set D.Row)
    (hrows : ∀ o db, ∀ r ∈ (D.exec s o db).rows, r ∈ taken)
    (habove : ∀ r ∈ taken, O.drawn r ∨
      ∀ r' ∈ held, r' = r ∨ O.drawn r' ∨ O.rank r' < O.rank r) :
    ClimbsWith O held (held ∪ taken) (query s : Fallible D ε (D.Res s)) := by
  intro t ht
  refine ⟨fun _ _ h => (by cases h), fun o db => ⟨fun r hr => ?_, fun a ws hres a' _ => ?_⟩⟩
  · by_cases hown : r ∈ t.locks
    · exact Or.inl hown
    rcases habove r (hrows o _ r hr) with hdrawn | hall
    · exact Or.inr (Or.inl hdrawn)
    refine Or.inr (Or.inr fun r' hr' => (hall r' (ht r' hr')).resolve_left ?_)
    rintro rfl
    exact hown hr'
  · refine ⟨_, rfl, fun r hr => ?_⟩
    have hneeds : r ∈ t.locks ∨ r ∈ (D.exec s o (t.view db)).rows := by
      rw [Effect.rows, hres]
      simpa [or_assoc] using Tx.mem_locks_push.mp hr
    exact hneeds.imp (ht r) (hrows o _ r)

/-- The whole of a transaction block. -/
theorem transaction [FromSql ε] {body : Fallible D ε (Ending α)}
    (hbody : ClimbsWith O ∅ Set.univ body) : ClimbsAlone O (transaction body).run := by
  refine ⟨⟨Climbs.bind (fun r tx _ => ?_) (hbody .empty fun r hr => absurd hr (by simp)),
    fun e => rfl⟩, .transaction body⟩
  -- However the body ends, the transaction is over.
  match r with
  | .ok (.commit a) => exact fun _ => rfl
  | .ok (.drop a) => exact fun _ => rfl
  | .error e => exact fun _ => rfl

end ClimbsWith

end Climbing

/-! ## Nobody waits forever -/

variable {S : Service D} {P : Protocol S} {π : Policy S} {O : LockOrder D}

/-- What is left of every call in flight climbs. -/
def Sys.Climbing (O : LockOrder D) (s : Sys S) : Prop :=
  ∀ i ss, s.live i = some ss → Climbs O (fun _ tx => tx = none) ss.code ss.tx

theorem Sys.Climbing.step (hcode : ∀ κ op, ClimbsAlone O (S.code κ op)) {s s' : Sys S}
    (hc : s.Climbing O) {e : Event S} (he : s.step e = some s') : s'.Climbing O := by
  intro i ss hl
  rcases Sys.live_exec he hl with ⟨op, rfl⟩ | hold | ⟨op, c, k, tx, fault, o, r, tx', hold, rfl, hx⟩
  · exact (hcode s.conf op).climbs
  · exact hc i ss hold
  · exact (hc i _ hold).next hx

theorem Sys.Climbing.steps (hcode : ∀ κ op, ClimbsAlone O (S.code κ op)) {s s' : Sys S}
    (hc : s.Climbing O) (h : Sys.Steps π s s') : s'.Climbing O := by
  induction h with
  | refl => exact hc
  | tail _ hstep ih =>
    obtain ⟨e, he, -⟩ := hstep
    exact ih.step hcode he

/-- The rows call `i` needs next, as `o` decides. -/
def Sys.needs (s : Sys S) (i : CallId) (o : D.Oracle) : List D.Row :=
  match s.live i with
  | some ⟨_, .cmd (.stmt st) _, tx⟩ => (D.exec st o (viewOf tx s.shared.db)).rows
  | _ => []

/-- What a sequence gives call `i` under `o`, nobody else has. -/
def Sys.Draws (O : LockOrder D) (s : Sys S) (i : CallId) (o : D.Oracle) : Prop :=
  ∀ r ∈ s.needs i o, O.drawn r → s.free i r = true

/-- A call goes on, unless one of the rows it needs is somebody else's. -/
theorem Sys.step_or_waits (hext : ∀ i e o m, ∃ r, D.ext i e o m = some r) {s : Sys S}
    {i : CallId} {ss : Session S} (hl : s.live i = some ss) (o : D.Oracle) :
    (∃ s', s.step (.step i .none o) = some s') ∨ ∃ r ∈ s.needs i o, s.free i r = false := by
  obtain ⟨op, code, tx⟩ := ss
  by_cases hfree : ∀ r ∈ s.needs i o, s.free i r = true
  · refine Or.inl ?_
    have hcmd : ∀ c k, code = .cmd c k →
        ∃ x, execCmd (s.free i) i op .none o s.shared tx c = some x := by
      intro c k hcode
      subst hcode
      cases c with
      | begin => exact ⟨_, rfl⟩
      | commit => cases tx <;> exact ⟨_, rfl⟩
      | rollback => exact ⟨_, rfl⟩
      | ext e =>
        obtain ⟨r, hr⟩ := hext i e o s.shared.mem
        exact ⟨_, congrArg (Option.map _) hr⟩
      | stmt st =>
        rw [Sys.needs, hl] at hfree
        exact exists_execStmt hfree
    simp only [Sys.step, hl]
    cases code with
    | pure a => exact ⟨_, rfl⟩
    | cmd c k =>
      obtain ⟨x, hx⟩ := hcmd c k rfl
      exact ⟨_, congrArg (Option.map _) hx⟩
  · refine Or.inr ?_
    push Not at hfree
    obtain ⟨r, hr, hf⟩ := hfree
    exact ⟨r, hr, by simpa using hf⟩

/-- A row that is not free is locked by another call in flight. -/
theorem Sys.holder {s : Sys S} {i : CallId} {r : D.Row} (h : s.free i r = false) :
    ∃ j, j ≠ i ∧ r ∈ locksOf (s.txOf j) := by
  by_contra hno
  push Not at hno
  refine absurd h ?_
  rw [Bool.not_eq_false, Sys.free]
  refine List.all_eq_true.mpr fun j _ => ?_
  by_cases hj : j = i
  · simp [hj]
  · simp [hno j hj]

/-- Whoever waits for a row that no sequence gave out waits above all it has. -/
theorem Sys.Good.climbs_above {s : Sys S} (hg : s.Good P) (hc : s.Climbing O) {i : CallId}
    {o : D.Oracle} {r r' : D.Row} (hr : r ∈ s.needs i o) (hfree : s.free i r = false)
    (hdraw : ¬ O.drawn r) (hr' : r' ∈ locksOf (s.txOf i)) (hdraw' : ¬ O.drawn r') :
    O.rank r' < O.rank r := by
  unfold Sys.needs at hr
  split at hr
  · rename_i op st k tx hl
    rw [Sys.txOf_of_live hl] at hr'
    cases tx with
    | none => exact absurd hr' (by simp)
    | some t =>
      rcases ((hc i _ hl).2 o s.shared.db).1 r hr with hown | hd | habove
      · -- Its own rows are free to it.
        obtain ⟨j, hj, hrj⟩ := Sys.holder hfree
        have hri : r ∈ locksOf (s.txOf i) := by
          rw [Sys.txOf_of_live hl]
          exact hown
        exact absurd hrj (hg.disjoint i j (Ne.symm hj) r hri)
      · exact absurd hd hdraw
      · exact (habove r' hr').resolve_left hdraw'
  · exact absurd hr (by simp)

/-- **Where a call waits, one that has a transaction open can go on**, whatever the outside decides
    for each, where all code climbs. -/
theorem Sys.Good.someone_moves {s : Sys S} (hg : s.Good P) (hc : s.Climbing O)
    (hext : ∀ i e o m, ∃ r, D.ext i e o m = some r) (o : CallId → D.Oracle)
    (hdraw : ∀ i, s.Draws O i (o i)) {i : CallId} {ss : Session S} (hl : s.live i = some ss)
    (hwait : ∀ s', s.step (.step i .none (o i)) ≠ some s') :
    ∃ j t s', s.txOf j = some t ∧ s.step (.step j .none (o j)) = some s' := by
  by_contra hstuck
  push Not at hstuck
  have hwaits : ∀ j ss, s.live j = some ss → (∀ s', s.step (.step j .none (o j)) ≠ some s') →
      ∃ r ∈ s.needs j (o j), s.free j r = false := by
    intro j ss hl hno
    rcases Sys.step_or_waits hext hl (o j) with ⟨s', hs'⟩ | hw
    · exact absurd hs' (hno s')
    · exact hw
  -- All the rows waited for; one of the highest rank is held by a call that waits still higher.
  let waited := (List.range s.next).flatMap fun i =>
    (s.needs i (o i)).filter fun r => s.free i r = false
  have hmem : ∀ i r, r ∈ s.needs i (o i) → s.free i r = false → r ∈ waited := by
    intro i r hr hf
    have hlt : i < s.next := by
      cases hl : s.live i with
      | some ss => exact (hg.live i ss hl).1
      | none =>
        rw [Sys.needs, hl] at hr
        exact absurd hr (by simp)
    exact List.mem_flatMap.mpr ⟨i, List.mem_range.mpr hlt, List.mem_filter.mpr ⟨hr, by simp [hf]⟩⟩
  have hne : waited ≠ [] := by
    obtain ⟨r, hr, hf⟩ := hwaits i ss hl hwait
    exact List.ne_nil_of_mem (hmem i r hr hf)
  obtain ⟨r, hr, hmax⟩ := Finset.exists_max_image waited.toFinset O.rank
    (List.toFinset_nonempty_iff _ |>.mpr hne)
  rw [List.mem_toFinset] at hr
  obtain ⟨i, -, hri⟩ := List.mem_flatMap.mp hr
  obtain ⟨hneed, hf⟩ := List.mem_filter.mp hri
  have hfree : s.free i r = false := by simpa using hf
  obtain ⟨j, -, hrj⟩ := Sys.holder hfree
  obtain ⟨t, ht⟩ : ∃ t, s.txOf j = some t := by
    cases ht : s.txOf j with
    | some t => exact ⟨t, rfl⟩
    | none =>
      rw [ht] at hrj
      exact absurd hrj (by simp)
  obtain ⟨ss, hlj, -⟩ := Option.bind_eq_some_iff.mp ht
  obtain ⟨r', hneed', hfree'⟩ := hwaits j ss hlj (hstuck j t · ht)
  have hnd : ∀ {i r}, r ∈ s.needs i (o i) → s.free i r = false → ¬ O.drawn r :=
    fun hr hf hd => absurd (hdraw _ _ hr hd) (by simp [hf])
  have hlt := hg.climbs_above hc hneed' hfree' (hnd hneed' hfree') hrj (hnd hneed hfree)
  exact absurd (hmax r' (List.mem_toFinset.mpr (hmem j r' hneed' hfree'))) (Nat.not_le.mpr hlt)

/-! ## Nobody goes on forever -/

/-- How much of a program there is to run: more than of anything that may be left of it. -/
noncomputable def Prog.rank {C : Type} {R : C → Type} : Prog R α → Ordinal.{0}
  | .pure _ => 0
  | .cmd _ k => ⨆ r, Order.succ (k r).rank

theorem Prog.rank_lt {C : Type} {R : C → Type} (c : C) (k : R c → Prog R α) (r : R c) :
    (k r).rank < (Prog.cmd c k).rank :=
  Ordinal.lt_iSup_iff.mpr ⟨r, Order.lt_succ _⟩

/-- What there is left to run of each call. -/
noncomputable def Sys.work (s : Sys S) (i : CallId) : Ordinal.{0} :=
  (s.live i).elim 0 fun ss => Order.succ ss.code.rank

/-- One of the calls in flight goes on, with or without a fault. -/
def Sys.Serves (s s' : Sys S) : Prop := ∃ i fault o, s.step (.step i fault o) = some s'

theorem Sys.work_step {s s' : Sys S} {i : CallId} {fault : Fault} {o : D.Oracle}
    (h : s.step (.step i fault o) = some s') :
    s'.work i < s.work i ∧ (∀ j, j ≠ i → s'.work j = s.work j) ∧ s'.next = s.next ∧
      ∃ ss, s.live i = some ss := by
  simp only [Sys.step] at h
  split at h
  · exact absurd h (by simp)
  · rename_i op a tx hl
    obtain rfl := Option.some.inj h
    refine ⟨?_, fun j hj => ?_, rfl, _, hl⟩
    · show (Function.update s.live i none i).elim 0 _ < (s.live i).elim 0 _
      rw [hl, Function.update_self]
      exact Order.bot_lt_succ _
    · show (Function.update s.live i none j).elim 0 _ = (s.live j).elim 0 _
      rw [Function.update_of_ne hj]
  · rename_i op c k tx hl
    obtain ⟨⟨r, sh, tx'⟩, -, rfl⟩ := Option.map_eq_some_iff.mp h
    refine ⟨?_, fun j hj => ?_, rfl, _, hl⟩
    · show (Function.update s.live i _ i).elim 0 _ < (s.live i).elim 0 _
      rw [hl, Function.update_self]
      exact Order.succ_lt_succ (Prog.rank_lt c k r)
    · show (Function.update s.live i _ j).elim 0 _ = (s.live j).elim 0 _
      rw [Function.update_of_ne hj]

/-- **The calls in flight cannot go on forever**, if no more begin. -/
theorem Sys.Calls.acc {s : Sys S} (hc : s.Calls) : Acc (fun s' s : Sys S => s.Serves s') s := by
  have hall : ∀ (n : ℕ) (v : Fin n → Ordinal.{0}) (s : Sys S), s.Calls → s.next = n →
      (fun j : Fin n => s.work j) = v → Acc (fun s' s : Sys S => s.Serves s') s := by
    intro n v
    induction v using WellFoundedLT.induction with
    | _ v ih =>
      intro s hc hn hv
      refine ⟨s, fun s' ⟨i, fault, o, hs'⟩ => ?_⟩
      obtain ⟨hlt, hrest, hnext, ss, hl⟩ := Sys.work_step hs'
      refine ih _ ?_ s' (hc.step hs') (hnext.trans hn) rfl
      rw [← hv, Pi.lt_def]
      refine ⟨fun j => ?_, ⟨i, hn ▸ hc.live i ss hl⟩, hlt⟩
      by_cases hj : (j : CallId) = i
      · show s'.work j ≤ s.work j
        rw [hj]
        exact hlt.le
      · exact (hrest j hj).le
  exact hall s.next _ s hc rfl rfl

/-- A call that is no longer in flight was answered, if nothing was dropped. -/
theorem Sys.Serves.answered {s s' : Sys S} (h : ReflTransGen Sys.Serves s s') {i : CallId}
    {ss : Session S} (hl : s.live i = some ss) :
    (∃ ss', s'.live i = some ss' ∧ ss'.op = ss.op) ∨
      ∃ a ∈ s'.answers, a.call = i ∧ a.op = ss.op := by
  induction h with
  | refl => exact Or.inl ⟨ss, hl, rfl⟩
  | tail _ hstep ih =>
    obtain ⟨j, fault, o, he⟩ := hstep
    rcases ih with ⟨ss₁, hl₁, hop⟩ | ⟨a, ha, hcall⟩
    · by_cases hij : i = j
      · subst hij
        obtain ⟨op, code, tx⟩ := ss₁
        simp only [Sys.step, hl₁] at he
        cases code with
        | pure a =>
          obtain rfl := Option.some.inj he
          exact Or.inr ⟨_, List.mem_cons_self .., rfl, hop⟩
        | cmd c k =>
          obtain ⟨⟨r, sh, tx'⟩, -, rfl⟩ := Option.map_eq_some_iff.mp he
          exact Or.inl ⟨_, Function.update_self .., hop⟩
      · refine Or.inl ⟨ss₁, ?_, hop⟩
        simp only [Sys.step] at he
        split at he
        · exact absurd he (by simp)
        · obtain rfl := Option.some.inj he
          exact (Function.update_of_ne hij ..).trans hl₁
        · obtain ⟨r, -, rfl⟩ := Option.map_eq_some_iff.mp he
          exact (Function.update_of_ne hij ..).trans hl₁
    · exact Or.inr ⟨a, Sys.mem_answers_step he ha, hcall⟩

end Lib
