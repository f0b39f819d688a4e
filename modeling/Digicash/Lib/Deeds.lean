import Digicash.Lib.Alone

/-!
# What a call has done

Why a call is where it is, and why it is answered as it is, lies in its *deeds*: the commands it
has made, with their replies. `Prog.Along` is a program logic over deeds alone; it knows nothing
of the contents of the database nor of the other calls, so its proofs only follow the code.
`Sys.Did` puts the deeds of a call back into the run, each at the step where it was done, so that
a reply can be compared with what the database held then. `Sys.deeds` says that this can always
be done.
-/

namespace Lib

open Relation Protocol

/-! ## The deeds of a program -/

section Programs

variable {C : Type} {R : C → Type} {α β : Type}

/-- A command and its reply. -/
abbrev Deed (R : C → Type) := Σ c : C, R c

/-- After the deeds given, newest first, the program only issues commands in `P` and ends with
    results in `Q`, each in view of the deeds before it. -/
def Prog.Along (P : List (Deed R) → C → Prop) (Q : List (Deed R) → α → Prop) :
    List (Deed R) → Prog R α → Prop
  | ds, .pure a => Q ds a
  | ds, .cmd c k => P ds c ∧ ∀ r, Along P Q (⟨c, r⟩ :: ds) (k r)

namespace Prog.Along

variable {P : List (Deed R) → C → Prop} {ds : List (Deed R)}

theorem bind {M : List (Deed R) → α → Prop} {Q : List (Deed R) → β → Prop} {f : α → Prog R β}
    (hf : ∀ ds a, M ds a → Along P Q ds (f a)) :
    ∀ {x : Prog R α} {ds : List (Deed R)}, Along P M ds x → Along P Q ds (x >>= f)
  | .pure a, ds, h => hf ds a h
  | .cmd _ _, _, h => ⟨h.1, fun r => bind hf (h.2 r)⟩

theorem mono {P' : List (Deed R) → C → Prop} {Q Q' : List (Deed R) → α → Prop}
    (hp : ∀ ds c, P ds c → P' ds c) (hq : ∀ ds a, Q ds a → Q' ds a) :
    ∀ {x : Prog R α} {ds : List (Deed R)}, Along P Q ds x → Along P' Q' ds x
  | .pure a, ds, h => hq ds a h
  | .cmd c _, ds, h => ⟨hp ds c h.1, fun r => mono hp hq (h.2 r)⟩

theorem map {M : List (Deed R) → α → Prop} {Q : List (Deed R) → β → Prop} {f : α → β}
    (hf : ∀ ds a, M ds a → Q ds (f a)) {x : Prog R α} (h : Along P M ds x) :
    Along P Q ds (f <$> x) :=
  bind (f := fun a => .pure (f a)) hf h

/-- A program whose commands and results are not looked at. -/
theorem of_forall {Q : List (Deed R) → α → Prop} (hp : ∀ ds c, P ds c) (hq : ∀ ds a, Q ds a) :
    ∀ {x : Prog R α} {ds : List (Deed R)}, Along P Q ds x
  | .pure a, ds => hq ds a
  | .cmd c _, ds => ⟨hp ds c, fun _ => of_forall hp hq⟩

/-- What was done stays done. -/
theorem grows : ∀ {x : Prog R α} {ds : List (Deed R)},
    Along (fun _ _ => True) (fun ds' _ => ds <:+ ds') ds x
  | .pure _, _ => List.suffix_refl _
  | .cmd _ _, _ => ⟨trivial, fun _ =>
    grows.mono (fun _ _ h => h) fun _ _ h => (List.suffix_cons ..).trans h⟩

/-- Whatever is done from now on is done after `ds₀`. -/
theorem since {ds₀ : List (Deed R)} : ∀ {x : Prog R α} {ds : List (Deed R)}, ds₀ <:+ ds →
    Along (fun ds _ => ds₀ <:+ ds) (fun _ _ => True) ds x
  | .pure _, _, _ => trivial
  | .cmd _ _, _, h => ⟨h, fun _ => since (h.trans (List.suffix_cons ..))⟩

end Prog.Along

end Programs

/-! ## Code that can fail -/

variable {D : Database} {α β ε : Type}

/-- The deeds of a call, newest first. -/
abbrev Deeds (D : Database) := List (Deed (Cmd.Reply (D := D)))

namespace Prog.Along

variable {P : Deeds D → Cmd D → Prop} {ds : Deeds D}

theorem bind_ok {x : Fallible D ε α} {f : α → Fallible D ε β} {M : Deeds D → Except ε α → Prop}
    {Q : Deeds D → Except ε β → Prop} (h : Along P M ds x.run)
    (hok : ∀ ds a, M ds (.ok a) → Along P Q ds (f a).run)
    (herr : ∀ ds e, M ds (.error e) → Q ds (.error e)) : Along P Q ds (x >>= f).run := by
  refine bind (fun ds r hr => ?_) h
  cases r with
  | ok a => exact hok ds a hr
  | error e => exact herr ds e hr

theorem orThrow_bind {x : Except ε α} {f : α → Fallible D ε β} {Q : Deeds D → Except ε β → Prop}
    (herr : ∀ e, x = .error e → Q ds (.error e))
    (hok : ∀ a, x = .ok a → Along P Q ds (f a).run) : Along P Q ds (orThrow x >>= f).run := by
  cases x with
  | ok a => exact hok a rfl
  | error e => exact herr e rfl

theorem query_bind [FromSql ε] {s : D.Stmt} {f : D.Res s → Fallible D ε α}
    {Q : Deeds D → Except ε α → Prop} (hp : P ds (.stmt s))
    (herr : ∀ e, Q (⟨.stmt s, .error e⟩ :: ds) (.error (fromSql e)))
    (hok : ∀ a, Along P Q (⟨.stmt s, .ok a⟩ :: ds) (f a).run) :
    Along P Q ds (query s >>= f).run := by
  refine ⟨hp, fun r => ?_⟩
  cases r with
  | ok a => exact hok a
  | error e => exact herr e

theorem perform_bind {e : D.Ext} {f : D.ExtRes e → Fallible D ε α}
    {Q : Deeds D → Except ε α → Prop} (hp : P ds (.ext e))
    (hok : ∀ a, Along P Q (⟨.ext e, a⟩ :: ds) (f a).run) : Along P Q ds (perform e >>= f).run :=
  ⟨hp, hok⟩

theorem mapErr {ε' : Type} {f : ε → ε'} {x : Fallible D ε α} {M : Deeds D → Except ε α → Prop}
    {Q : Deeds D → Except ε' α → Prop} (hq : ∀ ds r, M ds r → Q ds (r.mapError f))
    (h : Along P M ds x.run) : Along P Q ds (Lib.mapErr f x).run :=
  bind (f := fun r => .pure (r.mapError f)) hq h

/-- What the body of a transaction block has to end with. -/
@[reducible] def Ends [FromSql ε] (P : Deeds D → Cmd D → Prop) (Q : Deeds D → Except ε α → Prop)
    (ds : Deeds D) : Except ε (Ending α) → Prop
  | .ok (.commit a) => P ds .commit ∧ Q (⟨.commit, .ok ()⟩ :: ds) (.ok a) ∧
      ∀ e, Q (⟨.commit, .error e⟩ :: ds) (.error (fromSql e))
  | .ok (.drop a) => P ds .rollback ∧ Q (⟨.rollback, ()⟩ :: ds) (.ok a)
  | .error e => P ds .rollback ∧ Q (⟨.rollback, ()⟩ :: ds) (.error e)

theorem transaction [FromSql ε] {body : Fallible D ε (Ending α)} {Q : Deeds D → Except ε α → Prop}
    (hbegin : P ds .begin) (hfail : ∀ e, Q (⟨.begin, .error e⟩ :: ds) (.error (fromSql e)))
    (hbody : Along P (Ends P Q) (⟨.begin, .ok ()⟩ :: ds) body.run) :
    Along P Q ds (transaction body).run := by
  refine ⟨hbegin, fun r => ?_⟩
  cases r with
  | error e => exact hfail e
  | ok _ =>
    refine bind (fun ds r hr => ?_) hbody
    match r, hr with
    | .ok (.commit a), hr =>
      refine ⟨hr.1, fun r => ?_⟩
      cases r with
      | ok _ => exact hr.2.1
      | error e => exact hr.2.2 e
    | .ok (.drop a), hr => exact ⟨hr.1, fun _ => hr.2⟩
    | .error e, hr => exact ⟨hr.1, fun _ => hr.2⟩

end Prog.Along

/-! ## The deeds of a call -/

variable {S : Service D} {G : Sys S → Event S → Sys S → Prop} {s s₀ s' : Sys S} {i : CallId}
  {op : S.Op} {tx tx' : Option (Tx D)} {ds : Deeds D}

namespace Sys

/-- In the step from `s` to `s'` call `i` does `d`, which takes its transaction from `tx` to
    `tx'`. -/
structure Does (G : Sys S → Event S → Sys S → Prop) (s s' : Sys S) (i : CallId) (op : S.Op)
    (tx : Option (Tx D)) (d : Deed (Cmd.Reply (D := D))) (tx' : Option (Tx D)) : Prop where
  live : ∃ k, s.live i = some ⟨op, .cmd d.1 k, tx⟩
  exec : ∃ fault o, s.step (.step i fault o) = some s' ∧ G s (.step i fault o) s' ∧
    execCmd (s.free i) i op fault o s.shared tx d.1 = some (d.2, s'.shared, tx')

/-- One step of the others, which leaves call `i` where it is. -/
def Rests (G : Sys S → Event S → Sys S → Prop) (i : CallId) (s s' : Sys S) : Prop :=
  ∃ e, s.step e = some s' ∧ G s e s' ∧ (∀ fault o, e ≠ .step i fault o) ∧ s'.live i = s.live i

/-- In a run from `s₀`, call `i` has done `ds` and has the transaction `tx` now. -/
inductive Did (G : Sys S → Event S → Sys S → Prop) (s₀ : Sys S) (i : CallId) (op : S.Op) :
    Deeds D → Option (Tx D) → Sys S → Prop where
  | begun {s : Sys S} : Did G s₀ i op [] none s
  | did {ds : Deeds D} {tx tx' : Option (Tx D)} {d : Deed (Cmd.Reply (D := D))} {s₁ s₂ s : Sys S}
      (hd : Did G s₀ i op ds tx s₁) (hbefore : StepsIn G s₀ s₁) (hdoes : Does G s₁ s₂ i op tx d tx')
      (hrests : ReflTransGen (Rests G i) s₂ s) : Did G s₀ i op (d :: ds) tx' s

theorem Does.step {d : Deed (Cmd.Reply (D := D))} (h : Does G s s' i op tx d tx') :
    StepsIn G s s' := by
  obtain ⟨fault, o, hs, hG, -⟩ := h.exec
  exact .single ⟨_, hs, hG⟩

/-- Where the call is afterwards. -/
theorem Does.live_after {d : Deed (Cmd.Reply (D := D))} (h : Does G s s' i op tx d tx') :
    ∃ k, s.live i = some ⟨op, .cmd d.1 k, tx⟩ ∧ s'.live i = some ⟨op, k d.2, tx'⟩ := by
  obtain ⟨k, hl⟩ := h.live
  obtain ⟨fault, o, hs, -, hx⟩ := h.exec
  simp only [Sys.step, hl, hx, Option.map_some, Option.some.injEq] at hs
  refine ⟨k, hl, ?_⟩
  rw [← hs]
  exact Function.update_self ..

theorem stepsIn_of_rests (h : ReflTransGen (Rests G i) s s') : StepsIn G s s' := by
  induction h with
  | refl => exact .refl
  | tail _ hstep ih =>
    obtain ⟨e, hs, hG, -⟩ := hstep
    exact .tail ih ⟨e, hs, hG⟩

theorem Did.later (h : Did G s₀ i op ds tx s) (hs : Rests G i s s') : Did G s₀ i op ds tx s' := by
  cases h with
  | begun => exact .begun
  | did hd hbefore hdoes hrests => exact .did hd hbefore hdoes (hrests.tail hs)

/-- The last deed. -/
theorem Did.last {d : Deed (Cmd.Reply (D := D))} (h : Did G s₀ i op (d :: ds) tx s) :
    ∃ s₁ s₂ tx₁, Did G s₀ i op ds tx₁ s₁ ∧ StepsIn G s₀ s₁ ∧ Does G s₁ s₂ i op tx₁ d tx ∧
      ReflTransGen (Rests G i) s₂ s := by
  cases h with
  | did hd hbefore hdoes hrests => exact ⟨_, _, _, hd, hbefore, hdoes, hrests⟩

/-- **Each deed was done at a step of the run.** -/
theorem Did.mem (h : Did G s₀ i op ds tx s) {d : Deed (Cmd.Reply (D := D))} (hd : d ∈ ds) :
    ∃ s₁ s₂ tx₁ tx₂, StepsIn G s₀ s₁ ∧ Does G s₁ s₂ i op tx₁ d tx₂ ∧ StepsIn G s₂ s := by
  induction h with
  | begun => exact absurd hd (by simp)
  | did _ hbefore hdoes hrests ih =>
    have hlater := stepsIn_of_rests hrests
    rcases List.mem_cons.mp hd with rfl | hd
    · exact ⟨_, _, _, _, hbefore, hdoes, hlater⟩
    · obtain ⟨s₁, s₂, tx₁, tx₂, h₁, h₂, h₃⟩ := ih hd
      exact ⟨s₁, s₂, tx₁, tx₂, h₁, h₂, (h₃.trans hdoes.step).trans hlater⟩

/-- The first deed of all was done before any transaction. -/
theorem Did.oldest (h : Did G s₀ i op ds tx s) {d : Deed (Cmd.Reply (D := D))} (hd : [d] <:+ ds) :
    ∃ s₁ s₂ tx₂, StepsIn G s₀ s₁ ∧ Does G s₁ s₂ i op none d tx₂ ∧ StepsIn G s₂ s := by
  induction h with
  | begun => exact absurd hd (by simp)
  | @did ds tx tx' d' s₁ s₂ s hdid hbefore hdoes hrests ih =>
    have hlater := stepsIn_of_rests hrests
    rcases List.suffix_cons_iff.mp hd with heq | hd
    · obtain ⟨rfl, rfl⟩ := List.cons.inj heq
      cases hdid
      exact ⟨_, _, _, hbefore, hdoes, hlater⟩
    · obtain ⟨s₃, s₄, tx₂, h₁, h₂, h₃⟩ := ih hd
      exact ⟨s₃, s₄, tx₂, h₁, h₂, (h₃.trans hdoes.step).trans hlater⟩

/-! ## What a deed does -/

theorem Does.begin (h : Does G s s' i op tx ⟨.begin, .ok ()⟩ tx') : tx' = some .empty := by
  obtain ⟨fault, o, -, -, hx⟩ := h.exec
  simp only [execCmd] at hx
  split at hx
  · exact (Prod.mk.inj (Prod.mk.inj (Option.some.inj hx)).2).2.symm
  · exact absurd (Prod.mk.inj (Option.some.inj hx)).1 (by simp)

/-- A statement that succeeds in an open transaction. -/
theorem Does.stmt {t : Tx D} {st : D.Stmt} {a : D.Res st}
    (h : Does G s s' i op (some t) ⟨.stmt st, .ok a⟩ tx') : s'.shared = s.shared ∧ ∃ o ws,
      (D.exec st o (t.view s.shared.db)).result = .ok (a, ws) ∧
        tx' = some (t.push st a (D.exec st o (t.view s.shared.db)).waits ws) := by
  obtain ⟨fault, o, -, -, hx⟩ := h.exec
  simp only [execCmd, execStmt] at hx
  split at hx
  · exact absurd (Prod.mk.inj (Option.some.inj hx)).1 (by simp)
  split at hx
  · split at hx
    · exact absurd (Prod.mk.inj (Option.some.inj hx)).1 (by simp)
    · rename_i a' ws hres
      obtain ⟨ha, hrest⟩ := Prod.mk.inj (Option.some.inj hx)
      obtain ⟨hsh, htx⟩ := Prod.mk.inj hrest
      obtain rfl := Except.ok.inj ha
      exact ⟨hsh.symm, o, ws, hres, htx.symm⟩
  · exact absurd hx (by simp)

/-- The first statement of a transaction acts on the contents as they are. -/
theorem Did.first {st : D.Stmt} {a : D.Res st}
    (h : Did G s₀ i op (⟨.stmt st, .ok a⟩ :: ⟨.begin, .ok ()⟩ :: ds) tx s) :
    ∃ s₁ s₂, StepsIn G s₀ s₁ ∧ Does G s₁ s₂ i op (some .empty) ⟨.stmt st, .ok a⟩ tx ∧
      s₂.shared = s₁.shared ∧ ReflTransGen (Rests G i) s₂ s ∧ ∃ o ws,
        (D.exec st o s₁.shared.db).result = .ok (a, ws) ∧
          tx = some (Tx.empty.push st a (D.exec st o s₁.shared.db).waits ws) := by
  obtain ⟨s₁, s₂, tx₁, hbegun, h₁, hdoes, hrests⟩ := h.last
  obtain ⟨_, _, _, -, -, hbegin, -⟩ := hbegun.last
  obtain rfl := hbegin.begin
  obtain ⟨hshared, o, ws, hres, htx⟩ := hdoes.stmt
  exact ⟨s₁, s₂, h₁, hdoes, hshared, hrests, o, ws, hres, htx⟩

/-- And the next one on what the transaction has made of them. -/
theorem Did.next {st : D.Stmt} {a : D.Res st} {T : Tx D → Prop}
    (h : Did G s₀ i op (⟨.stmt st, .ok a⟩ :: ds) tx s)
    (ht : ∀ {tx' s'}, Did G s₀ i op ds tx' s' → ∃ t, tx' = some t ∧ T t) :
    ∃ s₁ s₂ t, StepsIn G s₀ s₁ ∧ T t ∧ Does G s₁ s₂ i op (some t) ⟨.stmt st, .ok a⟩ tx ∧
      ∃ o ws, (D.exec st o (t.view s₁.shared.db)).result = .ok (a, ws) ∧
        tx = some (t.push st a (D.exec st o (t.view s₁.shared.db)).waits ws) := by
  obtain ⟨s₁, s₂, tx₁, hdid, h₁, hdoes, -⟩ := h.last
  obtain ⟨t, rfl, hT⟩ := ht hdid
  obtain ⟨-, o, ws, hres, htx⟩ := hdoes.stmt
  exact ⟨s₁, s₂, t, h₁, hT, hdoes, o, ws, hres, htx⟩

/-- The events that can end a transaction of call `i`: its own steps, and what abandons it. -/
def Concerns (i : CallId) : Event S → Prop
  | .start _ => False
  | .step j _ _ => j = i
  | .drop j => j = i
  | .crash _ => True

/-- **A transaction is all or nothing.** Whatever happens to a call with an open transaction, the
    contents stay, or the call has come to its commit and the transaction is committed whole. -/
theorem Good.atomic {P : Protocol S} (hg : s.Good P) (hS : P.Sound) {e : Event S}
    (h : s.step e = some s') {x : Code D S.Ans} {t : Tx D} (hl : s.live i = some ⟨op, x, some t⟩)
    (he : Concerns i e) : s'.shared.db = s.shared.db ∨ ∃ k, x = .cmd .commit k ∧
      P.Legal s.conf s.shared ⟨i, op, t, s.shared.db⟩ ∧
      s'.shared.db = applyWrites s.shared.db t.writes := by
  cases e with
  | start op => exact he.elim
  | drop j =>
    obtain rfl := Option.some.inj h
    exact Or.inl rfl
  | crash κ =>
    obtain rfl := Option.some.inj h
    exact Or.inl rfl
  | step j fault o =>
    obtain rfl : j = i := he
    have hstep := h
    simp only [Sys.step, hl] at hstep
    cases x with
    | pure a =>
      obtain rfl := Option.some.inj hstep
      exact Or.inl rfl
    | cmd c k =>
      obtain ⟨⟨r, sh, tx'⟩, hx, rfl⟩ := Option.map_eq_some_iff.mp hstep
      rcases execCmd_shared hx with ⟨hdb, -⟩ | ⟨t', rfl, ⟨rfl, ht⟩ | ⟨htx, -⟩⟩
      · exact Or.inl hdb
      · obtain rfl := Option.some.inj ht
        exact Or.inr ⟨k, rfl, (hg.legal hS h rfl).1, rfl⟩
      · exact absurd htx (by simp)

/-- A statement of a transaction that succeeds met no fault. -/
theorem Does.calm {t : Tx D} {st : D.Stmt} {a : D.Res st}
    (h : Does G s s' i op (some t) ⟨.stmt st, .ok a⟩ tx') :
    ∃ o, s.step (.step i .none o) = some s' ∧ G s (.step i .none o) s' := by
  obtain ⟨fault, o, hs, hG, hx⟩ := h.exec
  cases fault with
  | none => exact ⟨o, hs, hG⟩
  | _ => exact absurd (Prod.mk.inj (Option.some.inj hx)).1 (by simp)

/-! ## Every call has its deeds -/

/-- **Every call that began in the run has done what its code needs to be where it is, and every
    answer of one is an answer that its code gives after what it has done.** -/
theorem deeds {P : S.Conf → S.Op → Deeds D → Cmd D → Prop}
    {Q : S.Conf → S.Op → Deeds D → S.Ans → Prop}
    (hcode : ∀ κ op, Prog.Along (P κ op) (Q κ op) [] (S.code κ op)) (h : StepsIn G s₀ s)
    (hcalls : s₀.Calls) :
    (∀ i ss, s₀.next ≤ i → s.live i = some ss → ∃ ds, Did G s₀ i ss.op ds ss.tx s ∧
      Prog.Along (P s.conf ss.op) (Q s.conf ss.op) ds ss.code) ∧
    ∀ a ∈ s.answers, s₀.next ≤ a.call → ∃ s₁ ds tx, StepsIn G s₀ s₁ ∧ StepsIn G s₁ s ∧
      Did G s₀ a.call a.op ds tx s₁ ∧ s₁.live a.call = some ⟨a.op, .pure a.ans, tx⟩ ∧
        s₁.conf = a.conf ∧ Q a.conf a.op ds a.ans := by
  induction h with
  | refl =>
    refine ⟨fun i ss hi hl => ?_, fun a ha hi => ?_⟩
    · exact absurd (hcalls.live i ss hl) (Nat.not_lt.mpr hi)
    · exact absurd (hcalls.answered a ha).1 (Nat.not_lt.mpr hi)
  | @tail s₁ s₂ hrun hstep ih =>
    obtain ⟨e, he, hG⟩ := hstep
    obtain ⟨hlive, hans⟩ := ih
    have hc := hcalls.steps (steps_of_stepsIn hrun)
    refine ⟨fun i ss' hi hl' => ?_, fun a ha hi => ?_⟩
    · have hconf := conf_of_live he hl'
      rw [hconf]
      cases hl : s₁.live i with
      | none =>
        rcases live_step he hl' with ⟨-, op, -, rfl⟩ | hold | ⟨_, _, _, _, _, _, hold, -⟩
        · exact ⟨[], .begun, hcode _ op⟩
        · exact absurd (hl.symm.trans hold) (by simp)
        · exact absurd (hl.symm.trans hold) (by simp)
      | some ss =>
        obtain ⟨ds, hdid, halong⟩ := hlive i ss hi hl
        by_cases hown : ∃ fault o, e = .step i fault o
        · obtain ⟨fault, o, rfl⟩ := hown
          obtain ⟨op, x, tx⟩ := ss
          have hstep := he
          simp only [Sys.step, hl] at hstep
          cases x with
          | pure a =>
            obtain rfl := Option.some.inj hstep
            exact absurd hl' (by simp [setLive])
          | cmd c k =>
            obtain ⟨⟨r, sh, tx'⟩, hx, rfl⟩ := Option.map_eq_some_iff.mp hstep
            obtain rfl : (⟨op, k r, tx'⟩ : Session S) = ss' := by simpa [setLive] using hl'
            exact ⟨⟨c, r⟩ :: ds, .did hdid hrun ⟨⟨k, hl⟩, fault, o, he, hG, hx⟩ .refl, halong.2 r⟩
        · have hne : ∀ fault o, e ≠ .step i fault o := fun fault o heq => hown ⟨fault, o, heq⟩
          have hsame : s₂.live i = s₁.live i := by
            rcases live_next hc he hl with hsame | rfl | ⟨κ, rfl⟩ | ⟨fault, o, heq, -⟩
            · exact hsame.trans hl.symm
            · obtain rfl := Option.some.inj he
              exact absurd hl' (by simp [setLive])
            · obtain rfl := Option.some.inj he
              exact absurd hl' (by simp)
            · exact absurd heq (hne fault o)
          obtain rfl : ss = ss' := Option.some.inj (hl.symm.trans (hsame.symm.trans hl'))
          exact ⟨ds, hdid.later ⟨e, he, hG, hne, hsame⟩, halong⟩
    · have hone : StepsIn G s₁ s₂ := .single ⟨e, he, hG⟩
      by_cases hold : a ∈ s₁.answers
      · obtain ⟨s₃, ds, tx, h₁, h₂, hrest⟩ := hans a hold hi
        exact ⟨s₃, ds, tx, h₁, h₂.trans hone, hrest⟩
      · obtain ⟨tx, hl⟩ := (live_of_answer he ha).resolve_left hold
        obtain ⟨ds, hdid, hQ⟩ := hlive _ _ hi hl
        have hconf : s₁.conf = a.conf := by
          cases e with
          | start op =>
            obtain ⟨m, -, rfl⟩ := Option.map_eq_some_iff.mp he
            exact absurd ha hold
          | drop i =>
            obtain rfl := Option.some.inj he
            exact absurd ha hold
          | crash κ =>
            obtain rfl := Option.some.inj he
            exact absurd ha hold
          | step i fault o =>
            simp only [Sys.step] at he
            split at he
            · exact absurd he (by simp)
            · obtain rfl := Option.some.inj he
              rcases List.mem_cons.mp ha with rfl | ha
              · rfl
              · exact absurd ha hold
            · obtain ⟨r, -, rfl⟩ := Option.map_eq_some_iff.mp he
              exact absurd ha hold
        exact ⟨s₁, ds, tx, hrun, hone, hdid, hl, hconf, hconf ▸ hQ⟩

/-- **Whoever commits has done what its code asks for first.** The commit is the open transaction
    by a `commit`, or a statement that is its own transaction. -/
theorem committed {P : S.Conf → S.Op → Deeds D → Cmd D → Prop}
    (hcode : ∀ κ op, Prog.Along (P κ op) (fun _ _ => True) [] (S.code κ op))
    (h : StepsIn G s₀ s) (hcalls : s₀.Calls) (hfirst : s₀.next = 0) {e : Event S}
    (he : s.step e = some s') : (s'.shared.db = s.shared.db ∧ s'.shared.hist = s.shared.hist) ∨
      ∃ i op c k tx t ds, s.live i = some ⟨op, .cmd c k, tx⟩ ∧
        s'.shared = s.shared.commit i op t ∧ Did G s₀ i op ds tx s ∧ P s.conf op ds c ∧
        ((c = .commit ∧ tx = some t) ∨ tx = none ∧ ∃ o st a ws, c = .stmt st ∧
          (D.exec st o s.shared.db).result = .ok (a, ws) ∧
            t = Tx.empty.push st a (D.exec st o s.shared.db).waits ws) := by
  cases e with
  | start op =>
    obtain ⟨m, -, rfl⟩ := Option.map_eq_some_iff.mp he
    exact Or.inl ⟨rfl, rfl⟩
  | drop i =>
    obtain rfl := Option.some.inj he
    exact Or.inl ⟨rfl, rfl⟩
  | crash κ =>
    obtain rfl := Option.some.inj he
    exact Or.inl ⟨rfl, rfl⟩
  | step i fault o =>
    simp only [Sys.step] at he
    split at he
    · exact absurd he (by simp)
    · obtain rfl := Option.some.inj he
      exact Or.inl ⟨rfl, rfl⟩
    · rename_i op c k tx hl
      obtain ⟨⟨r, sh, tx'⟩, hx, rfl⟩ := Option.map_eq_some_iff.mp he
      rcases execCmd_shared hx with hsame | ⟨t, rfl, hcommit⟩
      · exact Or.inl hsame
      obtain ⟨ds, hdid, halong⟩ := (deeds hcode h hcalls).1 i _ (hfirst ▸ Nat.zero_le _) hl
      refine Or.inr ⟨i, op, c, k, tx, t, ds, hl, rfl, hdid, halong.1, hcommit.imp id ?_⟩
      rintro ⟨htx, st, a, ws, hst, hres, ht⟩
      exact ⟨htx, o, st, a, ws, hst, hres, ht⟩

/-! ## Locks -/

/-- **While a call rests, nobody writes the rows it has locked.** -/
theorem Good.rests {P : Protocol S} (hg : s.Good P) (hS : P.Sound)
    (h : ReflTransGen (Rests G i) s s') {ss : Session S} (hl : s.live i = some ss) :
    ∀ r ∈ locksOf ss.tx, D.get s'.shared.db r = D.get s.shared.db r := by
  have key : s'.Good P ∧ s'.live i = some ss ∧
      ∀ r ∈ locksOf ss.tx, D.get s'.shared.db r = D.get s.shared.db r := by
    induction h with
    | refl => exact ⟨hg, hl, fun _ _ => rfl⟩
    | @tail s₁ s₂ _ hstep ih =>
      obtain ⟨e, he, -, hne, hsame⟩ := hstep
      obtain ⟨hg₁, hl₁, hframe⟩ := ih
      refine ⟨(hg₁.step hS he (Policy.any_allows _ _ _)).1, hsame.trans hl₁, fun r hr => ?_⟩
      refine Eq.trans ?_ (hframe r hr)
      cases e with
      | start op =>
        obtain ⟨m, -, rfl⟩ := Option.map_eq_some_iff.mp he
        rfl
      | drop j =>
        obtain rfl := Option.some.inj he
        rfl
      | crash κ =>
        obtain rfl := Option.some.inj he
        rfl
      | step j fault o =>
        have hji : i ≠ j := fun heq => hne fault o (heq ▸ rfl)
        simp only [Sys.step] at he
        split at he
        · exact absurd he (by simp)
        · obtain rfl := Option.some.inj he
          rfl
        · rename_i op c k tx hlj
          obtain ⟨⟨a, sh, tx'⟩, hx, rfl⟩ := Option.map_eq_some_iff.mp he
          have hr' : r ∈ locksOf (s₁.txOf i) := by
            rw [txOf_of_live hl₁]
            exact hr
          refine (execCmd_locks hx).2 r ?_ (hg₁.free_eq_false hji hr')
          have hdisj := hg₁.disjoint i j hji r hr'
          rw [txOf_of_live hlj] at hdisj
          exact hdisj
  exact key.2.2

/-! ## The one call there is -/

/-- A call in flight; where there is one at a time, the one. -/
def current (s : Sys S) : Option (CallId × Session S) :=
  (List.range s.next).findSome? fun i => (s.live i).map fun ss => (i, ss)

variable {e : Event S} {ss : Session S}

theorem live_of_current (h : s.current = some (i, ss)) : s.live i = some ss := by
  obtain ⟨j, -, hj⟩ := List.exists_of_findSome?_eq_some h
  obtain ⟨ss', hl, heq⟩ := Option.map_eq_some_iff.mp hj
  obtain ⟨rfl, rfl⟩ := Prod.mk.inj heq
  exact hl

theorem current_of_live (hc : s.Calls) (hone : ∀ i j, s.live i ≠ none → s.live j ≠ none → i = j)
    (hl : s.live i = some ss) : s.current = some (i, ss) := by
  cases hcur : s.current with
  | none =>
    have hnone := List.findSome?_eq_none_iff.mp hcur i (List.mem_range.mpr (hc.live i ss hl))
    exact absurd hnone (by simp [hl])
  | some p =>
    obtain ⟨j, ss'⟩ := p
    have hlj := live_of_current hcur
    obtain rfl : j = i := hone j i (by simp [hlj]) (by simp [hl])
    rw [Option.some.inj (hlj.symm.trans hl)]

theorem Idle.current (h : s.Idle) : s.current = none :=
  List.findSome?_eq_none_iff.mpr fun j _ => by rw [h j]; rfl

/-- What a step means for the one call there is. -/
inductive Goes (s s' : Sys S) (e : Event S) : Prop where
  | rests (h' : s'.current = s.current) (hist : s'.shared.hist = s.shared.hist)
  | begins {i : CallId} {op : S.Op} (h : s.current = none)
      (h' : s'.current = some (i, ⟨op, S.code s.conf op, none⟩))
      (hist : s'.shared.hist = s.shared.hist)
  | steps {i : CallId} {op : S.Op} {c : Cmd D} {k : c.Reply → Code D S.Ans}
      {tx tx' : Option (Tx D)} {r : c.Reply} {fault : Fault} {o : D.Oracle}
      (event : e = .step i fault o) (h : s.current = some (i, ⟨op, .cmd c k, tx⟩))
      (h' : s'.current = some (i, ⟨op, k r, tx'⟩))
      (exec : execCmd (s.free i) i op fault o s.shared tx c = some (r, s'.shared, tx'))
  | ends {i : CallId} {ss : Session S} (event : Concerns i e) (h : s.current = some (i, ss))
      (h' : s'.current = none) (hist : s'.shared.hist = s.shared.hist)
      (last : ∀ fault o, e = .step i fault o → ∃ a, ss.code = .pure a)

theorem current_step (hc : s.Calls) (hone : ∀ i j, s.live i ≠ none → s.live j ≠ none → i = j)
    (hone' : ∀ i j, s'.live i ≠ none → s'.live j ≠ none → i = j) (hs : s.step e = some s') :
    Goes s s' e := by
  have hidle : ∀ {i ss}, s.live i = some ss → (s.setLive i none).Idle := fun {i ss} hl j => by
    change Function.update s.live i none j = none
    by_cases hj : j = i
    · simp [hj]
    · rw [Function.update_of_ne hj]
      by_contra hlj
      exact hj (hone j i hlj (by simp [hl]))
  have hc' := hc.step hs
  cases e with
  | start op =>
    obtain ⟨m, -, rfl⟩ := Option.map_eq_some_iff.mp hs
    refine .begins (Idle.current fun i => ?_) (current_of_live hc' hone' (i := s.next)
      (Function.update_self ..)) rfl
    by_contra hi
    obtain ⟨ss, hl⟩ := Option.ne_none_iff_exists'.mp hi
    have hne : i ≠ s.next := Nat.ne_of_lt (hc.live i ss hl)
    refine hne (hone' i s.next ?_ (by simp))
    change Function.update s.live s.next _ i ≠ none
    rw [Function.update_of_ne hne]
    exact hi
  | drop i =>
    obtain rfl := Option.some.inj hs
    cases hl : s.live i with
    | none =>
      have hsame : Function.update s.live i none = s.live := by
        rw [← hl]
        exact Function.update_eq_self ..
      refine .rests ?_ rfl
      rw [setLive, hsame]
    | some ss =>
      exact .ends rfl (current_of_live hc hone hl) (hidle hl).current rfl fun _ _ he => by cases he
  | crash κ =>
    obtain rfl := Option.some.inj hs
    cases hcur : s.current with
    | none => exact .rests ((Idle.current fun _ => rfl).trans hcur.symm) rfl
    | some p => exact .ends trivial hcur (Idle.current fun _ => rfl) rfl fun _ _ he => by cases he
  | step i fault o =>
    have hstep := hs
    simp only [Sys.step] at hstep
    split at hstep
    · exact absurd hstep (by simp)
    · rename_i op a tx hl
      obtain rfl := Option.some.inj hstep
      exact .ends rfl (current_of_live hc hone hl) (hidle hl).current rfl fun _ _ _ => ⟨a, rfl⟩
    · rename_i op c k tx hl
      obtain ⟨⟨r, sh, tx'⟩, hx, rfl⟩ := Option.map_eq_some_iff.mp hstep
      exact .steps rfl (current_of_live hc hone hl)
        (current_of_live hc' hone' (Function.update_self ..)) hx

end Sys

end Lib
