import Digicash.Lib.Alone
import Digicash.Lib.Pool

/-!
# A service behind its pool

The pool has `N` connections. A call that asks for one when they are all taken waits until
another call gives one back (`Sys.served`), however long that takes: there is no timeout. So
calls can wait for each other in a second way, beside the locks: each of them has a connection
and wants another.

Behind its pool a service does nothing that it could not do without (`Sys.Runs.unpool`), so all
that is known of its runs still holds. What it may lose is that it goes on. It does go on as
long as its calls cannot between them take up all connections and want more (`Sys.spare`), and
then they all get their answers (`Sys.completes`).
-/

namespace Lib

open Relation

variable {D : Database} {S : Service D}

/-- The service with code that goes to the pool for its connections. -/
abbrev Service.pooled (S : Service D) (code : S.Conf → S.Op → Code D.pooled S.Ans) :
    Service D.pooled where
  Conf := S.Conf
  Op := S.Op
  Ans := S.Ans
  code := code
  enter op m := (S.enter op m.1).map fun m' => (m', m.2)
  reboot m := (S.reboot m.1, fun _ => 0)

variable {code : S.Conf → S.Op → Code D.pooled S.Ans} {O : LockOrder D} {P : Protocol S} {N : ℕ}
  {need : S.Op → ℕ}

namespace Sys

/-- The connections of call `i`. -/
def held (s : Sys (S.pooled code)) (i : CallId) : ℕ := s.shared.mem.2 i

/-- Summed over those of the first `n` calls that are in flight. -/
def total (s : Sys (S.pooled code)) (n : ℕ) (f : CallId → Session (S.pooled code) → ℕ) : ℕ :=
  ((List.range n).map fun i => (s.live i).elim 0 (f i)).sum

/-- The connections that are in use. -/
def inUse (s : Sys (S.pooled code)) : ℕ := s.total s.next fun i _ => s.held i

/-- What the pool of `N` connections lets happen: a call gets a connection when one is left, and
    talks to the database when it has one. -/
def served (N : ℕ) (s : Sys (S.pooled code)) : Event (S.pooled code) → Bool
  | .step i _ _ =>
    match s.live i with
    | some ⟨_, .cmd (.ext .get) _, _⟩ => decide (s.inUse < N)
    | some ⟨_, .cmd (.ext _) _, _⟩ => true
    | some ⟨_, .cmd _ _, _⟩ => decide (0 < s.held i)
    | _ => true
  | _ => true

/-- Every call in flight is as frugal as it should be, and nobody else has a connection. -/
structure Thrifty (need : S.Op → ℕ) (s : Sys (S.pooled code)) : Prop where
  live : ∀ i ss, s.live i = some ss →
    Frugal (need ss.op) (fun n b _ => n = 0 ∧ b = false) (s.held i) ss.tx.isSome ss.code
  fresh : ∀ i, s.next ≤ i → s.held i = 0

end Sys

theorem execCmd_held {Op : Type} {free : D.Row → Bool} {i : CallId} {op : Op} {fault : Fault}
    {o : D.Oracle} {sh sh' : Shared D.pooled Op} {tx tx' : Option (Tx D.pooled)} {c : Cmd D.pooled}
    {r : c.Reply} (h : execCmd (D := D.pooled) free i op fault o sh tx c = some (r, sh', tx')) :
    sh'.mem.2 = Function.update sh.mem.2 i (c.held (sh.mem.2 i)) := by
  have hsame : (∀ e, c ≠ .ext e) → sh'.mem.2 = Function.update sh.mem.2 i (sh.mem.2 i) := by
    intro hc
    rcases execCmd_mem h with hmem | ⟨e, -, he, -⟩
    · rw [hmem, Function.update_eq_self]
    · exact absurd he (hc e)
  cases c with
  | ext e =>
    cases e with
    | get =>
      cases h
      rfl
    | put =>
      cases h
      rfl
    | ext e =>
      obtain ⟨⟨r', m⟩, hext, heq⟩ := Option.map_eq_some_iff.mp h
      obtain ⟨⟨r'', m'⟩, -, heq'⟩ := Option.map_eq_some_iff.mp hext
      cases heq'
      cases heq
      exact (Function.update_eq_self ..).symm
  | _ => exact hsame fun e he => by cases he

theorem Sys.Thrifty.step {s s' : Sys (S.pooled code)}
    (hcode : ∀ κ op, FrugalAlone (need op) 0 (code κ op))
    (hcalls : s.Calls) (h : s.Thrifty need) {e : Event (S.pooled code)}
    (he : s.step e = some s') : s'.Thrifty need := by
  cases e with
  | start op =>
    obtain ⟨m, hm, rfl⟩ := Option.map_eq_some_iff.mp he
    obtain ⟨m', -, rfl⟩ := Option.map_eq_some_iff.mp hm
    refine ⟨fun i ss hl => ?_, fun i hi => h.fresh i (Nat.le_of_succ_le hi)⟩
    change Function.update s.live s.next (some ⟨op, code s.conf op, none⟩) i = some ss at hl
    by_cases hi : i = s.next
    · rw [hi, Function.update_self] at hl
      obtain rfl := Option.some.inj hl
      have hzero : s.held i = 0 := h.fresh i hi.ge
      show Frugal _ _ (s.held i) _ _
      rw [hzero]
      exact hcode s.conf op
    · rw [Function.update_of_ne hi] at hl
      exact h.live i ss hl
  | drop i =>
    obtain rfl := Option.some.inj he
    refine ⟨fun j ss hl => ?_, h.fresh⟩
    by_cases hj : j = i
    · change Function.update s.live i none j = some ss at hl
      rw [hj, Function.update_self] at hl
      cases hl
    · change Function.update s.live i none j = some ss at hl
      rw [Function.update_of_ne hj] at hl
      exact h.live j ss hl
  | crash κ =>
    obtain rfl := Option.some.inj he
    exact ⟨fun _ _ hl => (by cases hl), fun _ _ => rfl⟩
  | step i fault o =>
    simp only [Sys.step] at he
    split at he
    · exact absurd he (by simp)
    · rename_i op a tx hl
      obtain rfl := Option.some.inj he
      refine ⟨fun j ss hl' => ?_, h.fresh⟩
      change Function.update s.live i none j = some ss at hl'
      by_cases hj : j = i
      · rw [hj, Function.update_self] at hl'
        cases hl'
      · rw [Function.update_of_ne hj] at hl'
        exact h.live j ss hl'
    · rename_i op c k tx hl
      obtain ⟨⟨r, sh, tx'⟩, hx, rfl⟩ := Option.map_eq_some_iff.mp he
      have hheld := execCmd_held hx
      refine ⟨fun j ss hl' => ?_, fun j hj => ?_⟩
      · change Function.update s.live i (some ⟨op, k r, tx'⟩) j = some ss at hl'
        show Frugal _ _ (sh.mem.2 j) _ _
        rw [hheld]
        by_cases hj : j = i
        · subst hj
          rw [Function.update_self] at hl' ⊢
          obtain rfl := Option.some.inj hl'
          have hnow := (h.live j _ hl).2 r
          rw [← opens_of_exec hx] at hnow
          exact hnow
        · rw [Function.update_of_ne hj] at hl' ⊢
          exact h.live j ss hl'
      · have hne : j ≠ i := fun heq => absurd (heq ▸ hcalls.live i _ hl) (Nat.not_lt.mpr hj)
        show sh.mem.2 j = 0
        rw [hheld, Function.update_of_ne hne]
        exact h.fresh j hj


/-- The call asks for a connection, with a connection or without. -/
def Session.waits : Session (S.pooled code) → Bool
  | ⟨_, .cmd (.ext .get) _, _⟩ => true
  | _ => false

theorem Session.waits_iff {ss : Session (S.pooled code)} :
    ss.waits = true ↔ ∃ k, ss.code = .cmd (.ext .get) k := by
  obtain ⟨op, p, tx⟩ := ss
  constructor
  · intro h
    cases p with
    | pure a => exact Bool.noConfusion h
    | cmd c k =>
      cases c with
      | ext e =>
        cases e with
        | get => exact ⟨k, rfl⟩
        | _ => exact Bool.noConfusion h
      | _ => exact Bool.noConfusion h
  · rintro ⟨k, rfl⟩
    rfl

/-- What a call can do that does not wait for a connection, the pool lets it do. -/
theorem Sys.Thrifty.served {s : Sys (S.pooled code)} (h : s.Thrifty need) {i : CallId}
    {ss : Session (S.pooled code)} (hl : s.live i = some ss) (hno : ss.waits = false)
    (fault : Fault) (o : D.Oracle) : s.served N (.step i fault o) = true := by
  obtain ⟨op, p, tx⟩ := ss
  simp only [Sys.served, hl]
  cases p with
  | pure a => rfl
  | cmd c k =>
    have hmodest := (h.live i _ hl).1
    cases c with
    | ext e =>
      cases e with
      | get => exact Bool.noConfusion hno
      | _ => rfl
    | _ => exact decide_eq_true hmodest

/-- A call with an open transaction does not wait for a connection. -/
theorem Sys.Thrifty.not_waits {s : Sys (S.pooled code)} (h : s.Thrifty need) {i : CallId}
    {t : Tx D.pooled} (ht : s.txOf i = some t) :
    ∃ ss, s.live i = some ss ∧ ss.waits = false := by
  obtain ⟨⟨op, p, tx⟩, hl, htx⟩ := Option.bind_eq_some_iff.mp ht
  refine ⟨_, hl, Bool.eq_false_iff.mpr fun hwaits => ?_⟩
  obtain ⟨k, rfl⟩ := Session.waits_iff.mp hwaits
  obtain rfl : tx = some t := htx
  exact Bool.noConfusion (h.live i _ hl).1.1

/-- How many connections the calls in flight may hold while each waits for one more. -/
def Sys.spare (need : S.Op → ℕ) (s : Sys (S.pooled code)) : ℕ :=
  s.total s.next fun _ ss => need ss.op - 1

/-- None, where no code ever has more than one. -/
theorem Sys.spare_one (s : Sys (S.pooled code)) : s.spare (fun _ => 1) = 0 := by
  refine List.sum_eq_zero fun n hn => ?_
  obtain ⟨i, -, rfl⟩ := List.mem_map.mp hn
  cases s.live i <;> rfl

theorem Sys.total_le {s : Sys (S.pooled code)} {n : ℕ}
    {f g : CallId → Session (S.pooled code) → ℕ}
    (h : ∀ i ss, s.live i = some ss → f i ss ≤ g i ss) : s.total n f ≤ s.total n g := by
  refine List.sum_le_sum fun i _ => ?_
  cases hl : s.live i with
  | none => exact Nat.le_refl 0
  | some ss => exact h i ss hl

/-- Calls that go on and end leave no more to wait for than there was. -/
theorem Sys.spare_step {s s' : Sys (S.pooled code)} {i : CallId} {fault : Fault}
    {o : D.Oracle} (he : s.step (.step i fault o) = some s') : s'.spare need ≤ s.spare need := by
  have hlive : ∀ j, (s'.live j).elim 0 (fun ss => need ss.op - 1) ≤
      (s.live j).elim 0 fun ss => need ss.op - 1 := by
    intro j
    simp only [Sys.step] at he
    split at he
    · exact absurd he (by simp)
    · rename_i op a tx hl
      obtain rfl := Option.some.inj he
      change (Function.update s.live i none j).elim 0 _ ≤ _
      by_cases hj : j = i
      · rw [hj, Function.update_self]
        exact Nat.zero_le _
      · rw [Function.update_of_ne hj]
    · rename_i op c k tx hl
      obtain ⟨r, -, rfl⟩ := Option.map_eq_some_iff.mp he
      change (Function.update s.live i _ j).elim 0 _ ≤ _
      by_cases hj : j = i
      · rw [hj, Function.update_self, hl]
        exact Nat.le_refl _
      · rw [Function.update_of_ne hj]
  have hnext : s'.next = s.next := (Sys.work_step he).2.2.1
  unfold Sys.spare Sys.total
  rw [hnext]
  exact List.sum_le_sum fun j _ => hlive j


/-! ## What the pool leaves out of sight -/

def Tx.unpool (t : Tx D.pooled) : Tx D := ⟨t.waited, t.writes, t.trace⟩

def Shared.unpool {Op : Type} (sh : Shared D.pooled Op) : Shared D Op :=
  ⟨sh.db, sh.mem.1, sh.hist.map fun c => ⟨c.call, c.op, c.tx.unpool, c.before⟩⟩

def Session.unpool (ss : Session (S.pooled code)) : Session S :=
  ⟨ss.op, ss.code.erase, ss.tx.map Tx.unpool⟩

/-- The service as it would be without the pool. -/
def Sys.unpool (s : Sys (S.pooled code)) : Sys S where
  conf := s.conf
  shared := s.shared.unpool
  next := s.next
  live := Option.map Session.unpool ∘ s.live
  answers := s.answers.map fun a => ⟨a.call, a.op, a.ans, a.conf⟩

theorem locksOf_unpool (tx : Option (Tx D.pooled)) : locksOf (tx.map Tx.unpool) = locksOf tx := by
  cases tx <;> rfl

theorem Sys.unpool_txOf (s : Sys (S.pooled code)) (i : CallId) :
    s.unpool.txOf i = (s.txOf i).map Tx.unpool := by
  show ((s.live i).map _).bind Session.tx = ((s.live i).bind Session.tx).map Tx.unpool
  cases s.live i <;> rfl

theorem Sys.unpool_free (s : Sys (S.pooled code)) (i : CallId) : s.unpool.free i = s.free i := by
  funext r
  show (List.range s.next).all _ = (List.range s.next).all _
  refine congrArg _ (funext fun j => ?_)
  rw [s.unpool_txOf, locksOf_unpool]

/-- What a command gets to, without the pool. -/
def unpooled {ρ Op : Type} (x : ρ × Shared D.pooled Op × Option (Tx D.pooled)) :
    ρ × Shared D Op × Option (Tx D) := (x.1, x.2.1.unpool, x.2.2.map Tx.unpool)

theorem execStmt_unpool {Op : Type} (free : D.Row → Bool) (i : CallId) (op : Op) (fault : Fault)
    (o : D.Oracle) (sh : Shared D.pooled Op) (tx : Option (Tx D.pooled)) (s : D.Stmt) :
    execStmt (D := D) free i op fault o sh.unpool (tx.map Tx.unpool) s =
      (execStmt (D := D.pooled) free i op fault o sh tx s).map unpooled := by
  cases tx with
  | none =>
    have hexec : D.exec s o sh.unpool.db = D.exec s o sh.db := rfl
    simp only [execStmt, Option.map_none, hexec]
    generalize D.exec s o sh.db = eff
    obtain ⟨waits, result⟩ := eff
    split
    · rfl
    split
    · cases result with
      | error e => rfl
      | ok done =>
        obtain ⟨a, ws⟩ := done
        cases ws <;> rfl
    · rfl
  | some t =>
    have hexec : D.exec s o (t.unpool.view sh.unpool.db) = D.exec s o (t.view sh.db) := rfl
    simp only [execStmt, Option.map_some, hexec]
    generalize D.exec s o (t.view sh.db) = eff
    obtain ⟨waits, result⟩ := eff
    split
    · rfl
    split
    · cases result with
      | error e => rfl
      | ok done => rfl
    · rfl

theorem Sys.unpool_setLive (s : Sys (S.pooled code)) (i : CallId)
    (x : Option (Session (S.pooled code))) (sh : Shared D.pooled S.Op) :
    ({ s.setLive i x with shared := sh } : Sys (S.pooled code)).unpool =
      { s.unpool.setLive i (x.map Session.unpool) with shared := sh.unpool } := by
  simp only [Sys.unpool, Sys.setLive, Function.comp_update]

theorem Sys.setLive_self {s : Sys S} {i : CallId} {ss : Session S}
    (hl : s.live i = some ss) : s.setLive i (some ss) = s := by
  rw [Sys.setLive, ← hl, Function.update_eq_self]

theorem Sys.step_cmd {s : Sys S} {i : CallId} {op : S.Op} {c : Cmd D} {k : c.Reply → Code D S.Ans} {tx tx' : Option (Tx D)} {fault : Fault} {o : D.Oracle}
    {r : c.Reply} {sh : Shared D S.Op} (hl : s.live i = some ⟨op, .cmd c k, tx⟩)
    (hx : execCmd (s.free i) i op fault o s.shared tx c = some (r, sh, tx')) :
    s.step (.step i fault o) = some { s.setLive i (some ⟨op, k r, tx'⟩) with shared := sh } := by
  simp only [Sys.step, hl, hx, Option.map_some]

/-- **What the service does behind the pool it could do without**, or it is a matter of the pool
    alone. -/
theorem Sys.unpool_step (herase : ∀ κ op, (code κ op).erase = S.code κ op)
    {s s' : Sys (S.pooled code)} {e : Event (S.pooled code)} (he : s.step e = some s') :
    s'.unpool = s.unpool ∨ ∃ e', s.unpool.step e' = some s'.unpool := by
  cases e with
  | start op =>
    obtain ⟨m, hm, rfl⟩ := Option.map_eq_some_iff.mp he
    obtain ⟨m', hm', rfl⟩ := Option.map_eq_some_iff.mp hm
    refine Or.inr ⟨.start op, ?_⟩
    show Option.map _ (S.enter op s.shared.mem.1) = _
    rw [hm', Option.map_some]
    simp only [Sys.unpool, Function.comp_update, Option.map_some, Session.unpool, herase]
    rfl
  | drop i =>
    obtain rfl := Option.some.inj he
    exact Or.inr ⟨.drop i, congrArg some (s.unpool_setLive i none s.shared).symm⟩
  | crash κ =>
    obtain rfl := Option.some.inj he
    exact Or.inr ⟨.crash κ, rfl⟩
  | step i fault o =>
    simp only [Sys.step] at he
    split at he
    · exact absurd he (by simp)
    · rename_i op a tx hl
      obtain rfl := Option.some.inj he
      have hl' : s.unpool.live i = some ⟨op, .pure a, tx.map Tx.unpool⟩ :=
        congrArg (Option.map Session.unpool) hl
      refine Or.inr ⟨.step i fault o, ?_⟩
      simp only [Sys.step, hl']
      simp only [Sys.unpool, Sys.setLive, Function.comp_update]
      rfl
    · rename_i op c k tx hl
      obtain ⟨⟨r, sh, tx'⟩, hx, rfl⟩ := Option.map_eq_some_iff.mp he
      rw [s.unpool_setLive]
      have hl' : s.unpool.live i = some ⟨op, Prog.erase (.cmd c k), tx.map Tx.unpool⟩ :=
        congrArg (Option.map Session.unpool) hl
      have hrun : ∀ (c' : Cmd D) (r' : c'.Reply) {k' : c'.Reply → Code D S.Ans},
          Prog.erase (.cmd c k) = .cmd c' k' → k' r' = (k r).erase →
            execCmd (s.unpool.free i) i op fault o s.unpool.shared (tx.map Tx.unpool) c' =
              some (r', sh.unpool, tx'.map Tx.unpool) →
            ∃ e', s.unpool.step e' = some { s.unpool.setLive i
              ((some ⟨op, k r, tx'⟩ : Option (Session (S.pooled code))).map Session.unpool) with
                shared := sh.unpool } := by
        intro c' r' k' hc hk hx'
        rw [hc] at hl'
        refine ⟨.step i fault o, (Sys.step_cmd hl' hx').trans ?_⟩
        rw [hk]
        rfl
      rw [s.unpool_free] at hrun
      cases c with
      | ext e =>
        cases e with
        | ext e =>
          obtain ⟨⟨r', m⟩, hext, heq⟩ := Option.map_eq_some_iff.mp hx
          obtain ⟨⟨r'', m'⟩, hext', heq'⟩ := Option.map_eq_some_iff.mp hext
          cases heq'
          cases heq
          refine Or.inr (hrun (.ext e) r'' rfl rfl ?_)
          exact congrArg (Option.map _) hext'
        | get | put =>
          cases hx
          refine Or.inl ?_
          show { s.unpool.setLive i (some _) with shared := s.unpool.shared } = s.unpool
          exact congrArg (fun u : Sys S => { u with shared := s.unpool.shared })
            (Sys.setLive_self hl')
      | begin =>
        simp only [execCmd] at hx
        split at hx
        · rename_i hnone
          cases hx
          exact Or.inr (hrun .begin (.ok ()) rfl rfl (if_pos hnone))
        · rename_i hfault
          cases hx
          exact Or.inr (hrun .begin (.error .connection) rfl rfl (if_neg hfault))
      | commit =>
        cases tx with
        | none =>
          cases hx
          exact Or.inr (hrun .commit (.error .connection) rfl rfl rfl)
        | some t =>
          cases fault <;> cases hx <;> exact Or.inr (hrun .commit _ rfl rfl rfl)
      | rollback =>
        cases hx
        exact Or.inr (hrun .rollback () rfl rfl rfl)
      | stmt st =>
        refine Or.inr (hrun (.stmt st) r rfl rfl ?_)
        exact (execStmt_unpool ..).trans (congrArg (Option.map unpooled) hx)

theorem Sys.unpool_live (s : Sys (S.pooled code)) (i : CallId) :
    s.unpool.live i = (s.live i).map Session.unpool := rfl

/-- What a call could do without the pool, it can do where it has its connections. -/
theorem Sys.exists_step_of_unpool {s : Sys (S.pooled code)} {u : Sys S} {i : CallId}
    {ss : Session (S.pooled code)} {fault : Fault} {o : D.Oracle} (hl : s.live i = some ss)
    (h : s.unpool.step (.step i fault o) = some u) :
    ∃ s', s.step (.step i fault o) = some s' := by
  obtain ⟨op, p, tx⟩ := ss
  have hl' : s.unpool.live i = some ⟨op, p.erase, tx.map Tx.unpool⟩ :=
    congrArg (Option.map Session.unpool) hl
  cases p with
  | pure a => exact ⟨_, by simp only [Sys.step, hl]; rfl⟩
  | cmd c k =>
    suffices hx : ∃ x, execCmd (D := D.pooled) (s.free i) i op fault o s.shared tx c = some x by
      obtain ⟨⟨r, sh, tx'⟩, hx⟩ := hx
      exact ⟨_, Sys.step_cmd hl hx⟩
    cases c with
    | ext e =>
      cases e with
      | get | put => exact ⟨_, rfl⟩
      | ext e =>
        simp only [Sys.step, hl', Prog.erase] at h
        obtain ⟨x, hx, -⟩ := Option.map_eq_some_iff.mp h
        obtain ⟨r, hr, -⟩ := Option.map_eq_some_iff.mp hx
        have hext : D.ext i e o s.shared.mem.1 = some r := hr
        exact ⟨_, congrArg (Option.map _) (congrArg (Option.map _) hext)⟩
    | begin => by_cases hf : fault = .none <;> simp [execCmd, hf]
    | commit => cases tx <;> cases fault <;> exact ⟨_, rfl⟩
    | rollback => exact ⟨_, rfl⟩
    | stmt st =>
      simp only [Sys.step, hl', Prog.erase] at h
      obtain ⟨x, hx, -⟩ := Option.map_eq_some_iff.mp h
      rw [s.unpool_free] at hx
      obtain ⟨y, hy, -⟩ := Option.map_eq_some_iff.mp ((execStmt_unpool ..).symm.trans hx)
      exact ⟨y, hy⟩

/-! ## Nobody waits forever -/

/-- Those of the first `n` calls that are in flight have all connections between them, and each
    of them asks for another. -/
def Sys.starved (N n : ℕ) (s : Sys (S.pooled code)) : Bool :=
  decide (N ≤ s.total n fun i _ => s.held i) &&
    (List.range n).all fun i => (s.live i).all Session.waits

section Starved

variable {n : ℕ} {s s' : Sys (S.pooled code)}

theorem Sys.starved_waits (h : s.starved N n = true) {i : CallId} {ss : Session (S.pooled code)}
    (hi : i < n) (hl : s.live i = some ss) : ss.waits = true := by
  have hall := List.all_eq_true.mp (Bool.and_eq_true_iff.mp h).2 i (List.mem_range.mpr hi)
  rwa [hl, Option.all_some] at hall

/-- Then no connection is left. -/
theorem Sys.starved_full (h : s.starved N n = true) (hn : n ≤ s.next) : N ≤ s.inUse := by
  refine (of_decide_eq_true (Bool.and_eq_true_iff.mp h).1).trans ?_
  exact ((List.range_sublist.mpr hn).map _).sum_le_sum fun _ _ => Nat.zero_le _

/-- And none of them can go on. -/
theorem Sys.starved_stuck (h : s.starved N n = true) (hn : n ≤ s.next) {i : CallId} (hi : i < n)
    {fault : Fault} {o : D.Oracle} (hserved : s.served N (.step i fault o) = true) :
    s.step (.step i fault o) ≠ some s' := by
  intro he
  obtain ⟨⟨op, p, tx⟩, hl⟩ := (Sys.work_step he).2.2.2
  obtain ⟨k, rfl⟩ := Session.waits_iff.mp (Sys.starved_waits h hi hl)
  simp only [Sys.served, hl] at hserved
  exact absurd (of_decide_eq_true hserved) (Nat.not_lt.mpr (Sys.starved_full h hn))

/-- The event neither abandons one of the first `n` calls nor ends the process. -/
def Event.spares (n : ℕ) : Event (S.pooled code) → Prop
  | .drop i => n ≤ i
  | .crash _ => False
  | _ => True

/-- Whatever else goes on, they stay where they are. -/
theorem Sys.starved_step (h : s.starved N n = true) (hn : n ≤ s.next) {e : Event (S.pooled code)}
    (hserved : s.served N e = true) (hspares : e.spares n) (he : s.step e = some s') :
    s'.starved N n = true ∧ n ≤ s'.next ∧ ∀ i, i < n → s'.live i = s.live i := by
  have hstay : ∀ i, i < n → s'.live i = s.live i ∧ s'.held i = s.held i := by
    intro i hi
    cases e with
    | start op =>
      obtain ⟨m, hm, rfl⟩ := Option.map_eq_some_iff.mp he
      obtain ⟨m', -, rfl⟩ := Option.map_eq_some_iff.mp hm
      exact ⟨Function.update_of_ne (Nat.ne_of_lt (Nat.lt_of_lt_of_le hi hn)) _ _, rfl⟩
    | drop j =>
      obtain rfl := Option.some.inj he
      exact ⟨Function.update_of_ne (Nat.ne_of_lt (Nat.lt_of_lt_of_le hi hspares)) _ _, rfl⟩
    | crash κ => exact hspares.elim
    | step j fault o =>
      have hij : i ≠ j := by
        rintro rfl
        exact Sys.starved_stuck h hn hi hserved he
      simp only [Sys.step] at he
      split at he
      · exact absurd he (by simp)
      · obtain rfl := Option.some.inj he
        exact ⟨Function.update_of_ne hij _ _, rfl⟩
      · obtain ⟨⟨r, sh, tx'⟩, hx, rfl⟩ := Option.map_eq_some_iff.mp he
        refine ⟨Function.update_of_ne hij _ _, ?_⟩
        show sh.mem.2 i = s.held i
        rw [execCmd_held hx, Function.update_of_ne hij]
        rfl
  refine ⟨?_, hn.trans (Sys.next_le he), fun i hi => (hstay i hi).1⟩
  obtain ⟨hfull, hall⟩ := Bool.and_eq_true_iff.mp h
  refine Bool.and_eq_true_iff.mpr ⟨?_, ?_⟩
  · have hsum : s'.total n (fun i _ => s'.held i) = s.total n fun i _ => s.held i := by
      refine congrArg List.sum (List.map_congr_left fun i hi => ?_)
      obtain ⟨hlive, hheld⟩ := hstay i (List.mem_range.mp hi)
      show (s'.live i).elim 0 (fun _ => s'.held i) = (s.live i).elim 0 fun _ => s.held i
      rw [hlive, hheld]
    rw [hsum]
    exact hfull
  · refine List.all_eq_true.mpr fun i hi => ?_
    rw [(hstay i (List.mem_range.mp hi)).1]
    exact List.all_eq_true.mp hall i hi

/-- **For good.** -/
theorem Sys.starved_steps (h : s.starved N n = true) (hn : n ≤ s.next)
    (hrun : Sys.StepsIn (fun s e _ => s.served N e = true ∧ e.spares n) s s') :
    ∀ i, i < n → s'.live i = s.live i := by
  have hall : s'.starved N n = true ∧ n ≤ s'.next ∧ ∀ i, i < n → s'.live i = s.live i := by
    induction hrun with
    | refl => exact ⟨h, hn, fun _ _ => rfl⟩
    | tail _ hstep ih =>
      obtain ⟨e, he, hserved, hspares⟩ := hstep
      obtain ⟨hstarved, hle, hsame⟩ := Sys.starved_step ih.1 ih.2.1 hserved hspares he
      exact ⟨hstarved, hle, fun i hi => (hsame i hi).trans (ih.2.2 i hi)⟩
  exact hall.2.2

end Starved

/-- **Nothing else keeps all calls in flight from going on.** -/
theorem Sys.Thrifty.moves_or_starved {s : Sys (S.pooled code)} (h : s.Thrifty need)
    (hg : s.unpool.Good P) (hc : s.unpool.Climbing O)
    (hext : ∀ i e o m, ∃ r, D.ext i e o m = some r) (hbusy : ¬ s.Idle) (o : CallId → D.Oracle)
    (hdraw : ∀ i, s.unpool.Draws O i (o i)) :
    (∃ i s', s.served N (.step i .none (o i)) = true ∧ s.step (.step i .none (o i)) = some s') ∨
      s.starved N s.next = true := by
  by_contra hstuck
  push Not at hstuck
  obtain ⟨hnone, hstarved⟩ := hstuck
  -- Whoever does not ask for a connection waits for a row, and then somebody can go on.
  have hget : ∀ i ss, s.live i = some ss → ss.waits = true := by
    intro i ss hl
    by_contra hno
    rw [Bool.not_eq_true] at hno
    have hrow : ∀ u, s.unpool.step (.step i .none (o i)) ≠ some u := by
      intro u hu
      obtain ⟨s', hs'⟩ := Sys.exists_step_of_unpool hl hu
      exact hnone i s' (h.served hl hno .none (o i)) hs'
    have hl' : s.unpool.live i = some ss.unpool := congrArg (Option.map Session.unpool) hl
    obtain ⟨j, t, u, ht, hu⟩ := hg.someone_moves hc hext o hdraw hl' hrow
    rw [s.unpool_txOf] at ht
    obtain ⟨t', ht', -⟩ := Option.map_eq_some_iff.mp ht
    obtain ⟨ss', hlj, hno'⟩ := h.not_waits ht'
    obtain ⟨s', hs'⟩ := Sys.exists_step_of_unpool hlj hu
    exact hnone j s' (h.served hlj hno' .none (o j)) hs'
  simp only [Sys.Idle, not_forall] at hbusy
  obtain ⟨i, hi⟩ := hbusy
  obtain ⟨⟨op, p, tx⟩, hl⟩ := Option.ne_none_iff_exists'.mp hi
  obtain ⟨k, rfl⟩ := Session.waits_iff.mp (hget i _ hl)
  have hfull : N ≤ s.inUse := by
    by_contra hlt
    refine hnone i _ ?_ (by simp only [Sys.step, hl]; rfl)
    simp only [Sys.served, hl]
    exact decide_eq_true (Nat.lt_of_not_le hlt)
  refine hstarved (Bool.and_eq_true_iff.mpr ⟨decide_eq_true hfull, ?_⟩)
  refine List.all_eq_true.mpr fun j _ => ?_
  cases hlj : s.live j with
  | none => rfl
  | some ss => exact hget j ss hlj

/-- Calls that cannot take up all connections and want more do not starve. -/
theorem Sys.Thrifty.not_starved {s : Sys (S.pooled code)} (h : s.Thrifty need) (hcalls : s.Calls)
    (hspare : s.spare need < N) : s.starved N s.next = false := by
  by_contra hstarved
  rw [Bool.not_eq_false] at hstarved
  have hle : s.inUse ≤ s.spare need := by
    refine Sys.total_le fun i ss hl => Nat.le_sub_one_of_lt ?_
    obtain ⟨op, p, tx⟩ := ss
    obtain ⟨k, rfl⟩ := Session.waits_iff.mp (Sys.starved_waits hstarved (hcalls.live i _ hl) hl)
    exact (h.live i _ hl).1.2
  exact absurd ((Sys.starved_full hstarved le_rfl).trans hle) (Nat.not_le.mpr hspare)

/-! ## Every call gets its answer -/

/-- One of the calls in flight goes on, with or without a fault, if the pool lets it. -/
def Sys.Takes (N : ℕ) (s s' : Sys (S.pooled code)) : Prop :=
  ∃ i fault o, s.served N (.step i fault o) = true ∧ s.step (.step i fault o) = some s'

/-- And goes on without a fault. -/
def Sys.Advances (N : ℕ) (s s' : Sys (S.pooled code)) : Prop :=
  ∃ i o, s.served N (.step i .none o) = true ∧ s.step (.step i .none o) = some s'

theorem Sys.Takes.serves {s s' : Sys (S.pooled code)} (h : s.Takes N s') : s.Serves s' := by
  obtain ⟨i, fault, o, -, he⟩ := h
  exact ⟨i, fault, o, he⟩

theorem Sys.Advances.takes {s s' : Sys (S.pooled code)} (h : s.Advances N s') : s.Takes N s' := by
  obtain ⟨i, o, hserved, he⟩ := h
  exact ⟨i, .none, o, hserved, he⟩

/-- The runs that a pool of `N` connections lets happen. -/
abbrev Sys.Runs (N : ℕ) : Sys (S.pooled code) → Sys (S.pooled code) → Prop :=
  Sys.StepsIn fun s e _ => s.served N e = true

/-- **A run behind the pool is a run of the service.** -/
theorem Sys.Runs.unpool (herase : ∀ κ op, (code κ op).erase = S.code κ op)
    {s₀ s : Sys (S.pooled code)} (h : Sys.Runs N s₀ s) : Sys.Steps .any s₀.unpool s.unpool := by
  induction h with
  | refl => exact .refl
  | tail _ hstep ih =>
    obtain ⟨e, he, -⟩ := hstep
    rcases Sys.unpool_step herase he with hsame | ⟨e', he'⟩
    · rw [hsame]
      exact ih
    · exact .tail ih ⟨e', he', Policy.any_allows _ _ _⟩

theorem Sys.Runs.takes {s₀ s s' : Sys (S.pooled code)} (h : Sys.Runs N s₀ s)
    (hs : ReflTransGen (Sys.Takes N) s s') : Sys.Runs N s₀ s' := by
  induction hs with
  | refl => exact h
  | tail _ hstep ih =>
    obtain ⟨i, fault, o, hserved, he⟩ := hstep
    exact .tail ih ⟨_, he, hserved⟩

theorem Sys.Runs.thrifty (hcode : ∀ κ op, FrugalAlone (need op) 0 (code κ op))
    {s₀ s : Sys (S.pooled code)} (hcalls : s₀.Calls) (h₀ : s₀.Thrifty need) (h : Sys.Runs N s₀ s) :
    s.Calls ∧ s.Thrifty need := by
  induction h with
  | refl => exact ⟨hcalls, h₀⟩
  | tail _ hstep ih =>
    obtain ⟨e, he, -⟩ := hstep
    exact ⟨ih.1.step he, ih.2.step hcode ih.1 he⟩

theorem Sys.spare_takes {s s' : Sys (S.pooled code)} (h : ReflTransGen (Sys.Takes N) s s') :
    s'.spare need ≤ s.spare need := by
  induction h with
  | refl => exact Nat.le_refl _
  | tail _ hstep ih =>
    obtain ⟨i, fault, o, -, he⟩ := hstep
    exact (Sys.spare_step he).trans ih

/-- The calls in flight can all be brought to their ends, where in the states that satisfy `p` one
    of them can always go on. -/
theorem Sys.exists_idle {p : Sys (S.pooled code) → Prop}
    (htakes : ∀ {s s'}, p s → s.Takes N s' → p s')
    (hmoves : ∀ {s}, p s → ¬ s.Idle → ∃ s', s.Advances N s') {s : Sys (S.pooled code)}
    (hacc : Acc (fun s' s => s.Takes N s') s) (hp : p s) :
    ∃ s', ReflTransGen (Sys.Advances N) s s' ∧ s'.Idle := by
  induction hacc with
  | intro s _ ih =>
    by_cases hidle : s.Idle
    · exact ⟨s, .refl, hidle⟩
    · obtain ⟨s₁, hs₁⟩ := hmoves hp hidle
      obtain ⟨s', hrun, hend⟩ := ih s₁ hs₁.takes (htakes hp hs₁.takes)
      exact ⟨s', .head hs₁ hrun, hend⟩

/-- By then each of them has its answer. -/
theorem Sys.Advances.answered {s s' : Sys (S.pooled code)}
    (h : ReflTransGen (Sys.Advances N) s s') (hidle : s'.Idle) {i : CallId}
    {ss : Session (S.pooled code)} (hl : s.live i = some ss) :
    ∃ a ∈ s'.answers, a.call = i ∧ a.op = ss.op := by
  have hserves : ReflTransGen Sys.Serves s s' :=
    ReflTransGen.mono (fun _ _ hs => hs.takes.serves) _ _ h
  rcases Sys.Serves.answered hserves hl with ⟨ss', hl', -⟩ | hans
  · exact absurd (hl'.symm.trans (hidle i)) (by simp)
  · exact hans

/-- What is promised of the calls in flight behind a pool of `N` connections, if no more begin
    and no sequence gives out a key twice. -/
structure Sys.Completes (N : ℕ) (O : LockOrder D) (s : Sys (S.pooled code)) : Prop where
  /-- However they go on and whatever fails, one of those left can go on without a fault,
      whatever the outside decides for each. -/
  moves : ∀ s', ReflTransGen (Sys.Takes N) s s' → ¬ s'.Idle → ∀ o : CallId → D.Oracle,
    (∀ i, s'.unpool.Draws O i (o i)) →
      ∃ i s'', s'.served N (.step i .none (o i)) = true ∧ s'.step (.step i .none (o i)) = some s''
  /-- They do not go on forever. -/
  ends : Acc (fun s' s : Sys (S.pooled code) => s.Takes N s') s
  /-- And each can get its answer. -/
  answered : ∃ s', ReflTransGen (Sys.Advances N) s s' ∧ s'.Idle ∧
    ∀ i ss, s.live i = some ss → ∃ a ∈ s'.answers, a.call = i ∧ a.op = ss.op

/-- **In every state that a service gets to behind its pool, the calls in flight complete**, where
    its code climbs and cannot take up all connections and want more. -/
theorem Sys.completes {s₀ s : Sys (S.pooled code)}
    (hfrugal : ∀ κ op, FrugalAlone (need op) 0 (code κ op))
    (herase : ∀ κ op, (code κ op).erase = S.code κ op)
    (hclimbs : ∀ κ op, ClimbsAlone O (S.code κ op))
    (hext : ∀ i e o m, ∃ r, D.ext i e o m = some r) (hcalls : s₀.Calls) (h₀ : s₀.Thrifty need)
    (hidle : s₀.Idle) (hgood : ∀ {u}, Sys.Steps .any s₀.unpool u → u.Good P)
    (hdraws : ∀ {u}, Sys.Steps .any s₀.unpool u → ∃ o : CallId → D.Oracle, ∀ i, u.Draws O i (o i))
    (h : Sys.Runs N s₀ s) (hspare : s.spare need < N) : s.Completes N O := by
  have hclimbing : ∀ {u}, Sys.Steps .any s₀.unpool u → u.Climbing O := fun h =>
    Sys.Climbing.steps hclimbs
      (fun i _ hl => absurd hl (by simp [Sys.unpool_live, hidle i])) h
  have hmoves : ∀ {s'}, ReflTransGen (Sys.Takes N) s s' → ¬ s'.Idle → ∀ o : CallId → D.Oracle,
      (∀ i, s'.unpool.Draws O i (o i)) →
        ∃ i s'', s'.served N (.step i .none (o i)) = true ∧
          s'.step (.step i .none (o i)) = some s'' := by
    intro s' hs' hbusy o ho
    have hrun := (h.takes hs').unpool herase
    obtain ⟨hcalls', hthrifty⟩ := (h.takes hs').thrifty hfrugal hcalls h₀
    have hfed := hthrifty.not_starved hcalls' ((Sys.spare_takes hs').trans_lt hspare)
    rcases hthrifty.moves_or_starved (hgood hrun) (hclimbing hrun) hext hbusy o ho with hmove | hst
    · exact hmove
    · exact absurd (hfed.symm.trans hst) Bool.false_ne_true
  have hends : Acc (fun s' s : Sys (S.pooled code) => s.Takes N s') s :=
    Subrelation.accessible (fun hs => hs.serves) (h.thrifty hfrugal hcalls h₀).1.acc
  refine ⟨fun s' => hmoves, hends, ?_⟩
  have hadvances : ∀ {s₁}, ReflTransGen (Sys.Takes N) s s₁ → ¬ s₁.Idle →
      ∃ s₂, s₁.Advances N s₂ := by
    intro s₁ hs₁ hbusy
    obtain ⟨o, ho⟩ := hdraws ((h.takes hs₁).unpool herase)
    obtain ⟨i, s₂, hserved, he⟩ := hmoves hs₁ hbusy o ho
    exact ⟨s₂, i, o i, hserved, he⟩
  obtain ⟨s', hrun, hidle'⟩ :=
    Sys.exists_idle (fun hs₁ hs₂ => hs₁.tail hs₂) hadvances hends .refl
  exact ⟨s', hrun, hidle', fun i ss hl => Sys.Advances.answered hrun hidle' hl⟩

end Lib
