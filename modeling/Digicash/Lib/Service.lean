import Digicash.Lib.Database
import Mathlib.Logic.Relation

/-!
# A service: concurrent calls over one database

A `Service` says what calls there are, which program each one runs under a given
configuration, and what a crash does to the process's memory. `Sys` is the running
service: the shared state, the calls in flight, the answers given so far. Its `step`
is a function of an explicit event, so a run is a list of events and can be evaluated.

* `start op` begins a call;
* `step i fault o` runs the next command of call `i`, or returns its answer;
* `drop i` abandons call `i` where it stands: its transaction rolls back;
* `crash κ` loses every call and the process's memory; the next process runs under `κ`.

A `Policy` restricts runs: which reconfigurations a crash may bring, and which commits may
happen. `Policy.any` restricts nothing. A property that holds only while something is
avoided is a property of the runs of a policy that rules it out.
-/

namespace Lib

/-- Whether a server's process is not running, is still in its `connect`, or serves. -/
inductive Phase where
  | down
  | starting
  | up
deriving DecidableEq, Repr

structure Service (D : Database) where
  /-- What the process is configured with when it starts. -/
  Conf : Type
  Op : Type
  Ans : Type
  code : Conf → Op → Code D Ans
  /-- Whether a call may begin now, and what that leaves in memory. -/
  enter : Op → D.Mem → Option D.Mem
  /-- What a crash leaves of the process's memory. -/
  reboot : D.Mem → D.Mem

variable {D : Database}

/-- A call in flight. -/
structure Session (S : Service D) where
  op : S.Op
  code : Code D S.Ans
  tx : Option (Tx D)

/-- An answer given to a caller, and the configuration it was given under. -/
structure Answer (S : Service D) where
  call : CallId
  op : S.Op
  ans : S.Ans
  conf : S.Conf

inductive Event (S : Service D) where
  | start (op : S.Op)
  | step (i : CallId) (fault : Fault) (o : D.Oracle)
  | drop (i : CallId)
  | crash (κ : S.Conf)

/-- `n` steps of call `i` in which nothing goes wrong. -/
def Event.steps {S : Service D} [Inhabited D.Oracle] (i : CallId) (n : Nat) : List (Event S) :=
  List.replicate n (.step i .none default)

structure Sys (S : Service D) where
  conf : S.Conf
  shared : Shared D S.Op
  /-- The id the next call gets. -/
  next : CallId
  live : CallId → Option (Session S)
  answers : List (Answer S)

namespace Sys

variable {S : Service D}

def init (κ : S.Conf) (db : D.Db) (mem : D.Mem) : Sys S :=
  ⟨κ, ⟨db, mem, []⟩, 0, fun _ => none, []⟩

/-- The transaction of call `j`. -/
def txOf (s : Sys S) (j : CallId) : Option (Tx D) := (s.live j).bind Session.tx

/-- No call but `i` has locked `r`. -/
def free (s : Sys S) (i : CallId) (r : D.Row) : Bool :=
  (List.range s.next).all fun j => j == i || !(decide (r ∈ locksOf (s.txOf j)))

def setLive (s : Sys S) (i : CallId) (x : Option (Session S)) : Sys S :=
  { s with live := Function.update s.live i x }

def step (s : Sys S) : Event S → Option (Sys S)
  | .start op =>
    (S.enter op s.shared.mem).map fun m =>
      { s with
        shared := { s.shared with mem := m }
        next := s.next + 1
        live := Function.update s.live s.next (some ⟨op, S.code s.conf op, none⟩) }
  | .step i fault o =>
    match s.live i with
    | none => none
    | some ⟨op, .pure a, _⟩ =>
      some { s.setLive i none with answers := ⟨i, op, a, s.conf⟩ :: s.answers }
    | some ⟨op, .cmd c k, tx⟩ =>
      (execCmd (s.free i) i op fault o s.shared tx c).map fun r =>
        { s.setLive i (some ⟨op, k r.1, r.2.2⟩) with shared := r.2.1 }
  | .drop i => some (s.setLive i none)
  | .crash κ =>
    some { s with
      conf := κ
      shared := { s.shared with mem := S.reboot s.shared.mem }
      live := fun _ => none }

/-- Run a list of events; `none` as soon as one is not enabled. -/
def run (s : Sys S) : List (Event S) → Option (Sys S)
  | [] => some s
  | e :: es => (s.step e).bind fun s' => s'.run es

/-- No call is in flight. -/
def Idle (s : Sys S) : Prop := ∀ i, s.live i = none

/-- No transaction is open. -/
def Quiescent (s : Sys S) : Prop := ∀ i, s.txOf i = none

end Sys

/-- Which reconfigurations and which commits the runs considered contain. -/
structure Policy (S : Service D) where
  reboot : S.Conf → S.Conf → Prop
  commit : Shared D S.Op → Commit D S.Op → Prop

namespace Policy

variable {S : Service D}

/-- Every run. -/
def any : Policy S := ⟨fun _ _ => True, fun _ _ => True⟩

/-- The runs in which every restart is related by `p` to what ran before. -/
def reboots (p : S.Conf → S.Conf → Prop) : Policy S := ⟨p, fun _ _ => True⟩

/-- The runs in which every commit satisfies `p`. -/
def commits (p : Shared D S.Op → Commit D S.Op → Prop) : Policy S := ⟨fun _ _ => True, p⟩

/-- What the policy asks of the step from `s` to `s'` by `e`. -/
structure Allows (π : Policy S) (s : Sys S) (e : Event S) (s' : Sys S) : Prop where
  reboot : ∀ κ, e = .crash κ → π.reboot s.conf κ
  commit : ∀ c, s'.shared.hist = c :: s.shared.hist → π.commit s.shared c

theorem any_allows (s s' : Sys S) (e : Event S) : any.Allows s e s' :=
  ⟨fun _ _ => trivial, fun _ _ => trivial⟩

end Policy

variable {S : Service D}

/-- One step of a run of policy `π`. -/
def Sys.Step (π : Policy S) (s s' : Sys S) : Prop :=
  ∃ e, s.step e = some s' ∧ π.Allows s e s'

/-- The runs of policy `π`. -/
abbrev Sys.Steps (π : Policy S) : Sys S → Sys S → Prop := Relation.ReflTransGen (Sys.Step π)

/-! ## Call ids -/

/-- Ids are given out once, and a call that was answered is over. -/
structure Sys.Calls (s : Sys S) : Prop where
  live : ∀ i ss, s.live i = some ss → i < s.next
  answered : ∀ a ∈ s.answers, a.call < s.next ∧ s.live a.call = none
  nodup : (s.answers.map Answer.call).Nodup

theorem Sys.calls_init {κ : S.Conf} {db : D.Db} {mem : D.Mem} :
    (Sys.init κ db mem : Sys S).Calls :=
  ⟨fun _ _ h => absurd h (by simp [Sys.init]), fun _ h => absurd h (by simp [Sys.init]),
    List.nodup_nil⟩

/-- A call goes on, or ends without an answer. -/
theorem Sys.Calls.setLive {s : Sys S} (h : s.Calls) {i : CallId} {x : Option (Session S)}
    (hx : x = none ∨ ∃ ss, s.live i = some ss) (sh : Shared D S.Op) :
    ({ s.setLive i x with shared := sh } : Sys S).Calls := by
  have hlive : ∀ j ss, Function.update s.live i x j = some ss → j < s.next := by
    intro j ss hj
    by_cases hji : j = i
    · subst hji
      rw [Function.update_self] at hj
      subst hj
      obtain ⟨ss', hss'⟩ := hx.resolve_left (by simp)
      exact h.live j ss' hss'
    · rw [Function.update_of_ne hji] at hj
      exact h.live j ss hj
  refine ⟨hlive, fun a ha => ⟨(h.answered a ha).1, ?_⟩, h.nodup⟩
  show Function.update s.live i x a.call = none
  by_cases hai : a.call = i
  · rcases hx with rfl | ⟨ss, hss⟩
    · rw [hai, Function.update_self]
    · exact absurd (hss.symm.trans (hai ▸ (h.answered a ha).2)) (by simp)
  · rw [Function.update_of_ne hai]
    exact (h.answered a ha).2

theorem Sys.Calls.step {s s' : Sys S} (h : s.Calls) {e : Event S} (hs : s.step e = some s') :
    s'.Calls := by
  cases e with
  | start op =>
    simp only [Sys.step, Option.map_eq_some_iff] at hs
    obtain ⟨m, -, rfl⟩ := hs
    refine ⟨fun j ss hj => ?_, fun a ha => ?_, h.nodup⟩
    · by_cases hjn : j = s.next
      · exact hjn ▸ Nat.lt_succ_self _
      · exact Nat.lt_succ_of_lt (h.live j ss (by simpa [hjn] using hj))
    · obtain ⟨hlt, hnone⟩ := h.answered a ha
      exact ⟨Nat.lt_succ_of_lt hlt, by simpa [Nat.ne_of_lt hlt] using hnone⟩
  | drop i =>
    obtain rfl := Option.some.inj hs
    exact h.setLive (Or.inl rfl) s.shared
  | crash κ =>
    obtain rfl := Option.some.inj hs
    exact ⟨fun _ _ hj => absurd hj (by simp), fun a ha => ⟨(h.answered a ha).1, rfl⟩, h.nodup⟩
  | step i fault o =>
    simp only [Sys.step] at hs
    split at hs
    · exact absurd hs (by simp)
    · rename_i op a tx hl
      obtain rfl := Option.some.inj hs
      have h' := h.setLive (i := i) (Or.inl rfl) s.shared
      refine ⟨h'.live, fun b hb => ?_, ?_⟩
      · rcases List.mem_cons.mp hb with rfl | hb
        · exact ⟨h.live i _ hl, Function.update_self ..⟩
        · exact h'.answered b hb
      · -- What is answered now was live, so it had not been answered.
        refine List.nodup_cons.mpr ⟨fun hmem => ?_, h.nodup⟩
        obtain ⟨b, hb, hcall⟩ := List.mem_map.mp hmem
        obtain rfl : b.call = i := hcall
        exact absurd (hl.symm.trans (h.answered b hb).2) (by simp)
    · rename_i op c k tx hl
      simp only [Option.map_eq_some_iff] at hs
      obtain ⟨r, -, rfl⟩ := hs
      exact h.setLive (Or.inr ⟨_, hl⟩) r.2.1

theorem Sys.Calls.steps {π : Policy S} {s s' : Sys S} (h : s.Calls) (hs : Sys.Steps π s s') :
    s'.Calls := by
  induction hs with
  | refl => exact h
  | tail _ hstep ih =>
    obtain ⟨e, he, -⟩ := hstep
    exact ih.step he

/-- Only calls that have begun can be in flight. -/
theorem Sys.Calls.idle {s : Sys S} (h : s.Calls)
    (hnone : ∀ i < s.next, (s.live i).isNone = true) : s.Idle := by
  intro i
  cases hl : s.live i with
  | none => rfl
  | some ss => exact absurd (hnone i (h.live i ss hl)) (by simp [hl])

/-- Answers that all belong to one call are one answer. -/
theorem Sys.Calls.length_le_one {s : Sys S} (h : s.Calls) {p : Answer S → Bool}
    (hp : ∀ a ∈ s.answers, ∀ b ∈ s.answers, p a = true → p b = true → a.call = b.call) :
    (s.answers.filter p).length ≤ 1 := by
  have hnodup : ((s.answers.filter p).map Answer.call).Nodup :=
    h.nodup.sublist (List.filter_sublist.map _)
  have hmem : ∀ a ∈ s.answers.filter p, a ∈ s.answers ∧ p a = true := fun a ha =>
    List.mem_filter.mp ha
  generalize s.answers.filter p = l at hnodup hmem
  match l with
  | [] => exact Nat.zero_le 1
  | [_] => exact Nat.le_refl 1
  | a :: b :: l =>
    obtain ⟨ha, hpa⟩ := hmem a (by simp)
    obtain ⟨hb, hpb⟩ := hmem b (by simp)
    have hne : a.call ≠ b.call := by
      rw [List.map_cons, List.map_cons, List.nodup_cons] at hnodup
      exact fun heq => hnodup.1 (heq ▸ List.mem_cons_self ..)
    exact absurd (hp a ha b hb hpa hpb) hne

/-- An answer is never taken back. -/
theorem Sys.mem_answers_step {s s' : Sys S} {e : Event S} (hs : s.step e = some s')
    {a : Answer S} (ha : a ∈ s.answers) : a ∈ s'.answers := by
  cases e with
  | start op =>
    simp only [Sys.step, Option.map_eq_some_iff] at hs
    obtain ⟨m, -, rfl⟩ := hs
    exact ha
  | drop i =>
    obtain rfl := Option.some.inj hs
    exact ha
  | crash κ =>
    obtain rfl := Option.some.inj hs
    exact ha
  | step i fault o =>
    simp only [Sys.step] at hs
    split at hs
    · exact absurd hs (by simp)
    · obtain rfl := Option.some.inj hs
      exact List.mem_cons_of_mem _ ha
    · simp only [Option.map_eq_some_iff] at hs
      obtain ⟨r, -, rfl⟩ := hs
      exact ha

/-- A new answer is that of a call that had ended. -/
theorem Sys.live_of_answer {s s' : Sys S} {e : Event S} (hs : s.step e = some s')
    {a : Answer S} (ha : a ∈ s'.answers) :
    a ∈ s.answers ∨ ∃ tx, s.live a.call = some ⟨a.op, .pure a.ans, tx⟩ := by
  cases e with
  | start op =>
    obtain ⟨m, -, rfl⟩ := Option.map_eq_some_iff.mp hs
    exact Or.inl ha
  | drop i =>
    obtain rfl := Option.some.inj hs
    exact Or.inl ha
  | crash κ =>
    obtain rfl := Option.some.inj hs
    exact Or.inl ha
  | step i fault o =>
    simp only [Sys.step] at hs
    split at hs
    · exact absurd hs (by simp)
    · rename_i op ans tx hl
      obtain rfl := Option.some.inj hs
      rcases List.mem_cons.mp ha with rfl | ha
      · exact Or.inr ⟨tx, hl⟩
      · exact Or.inl ha
    · obtain ⟨r, -, rfl⟩ := Option.map_eq_some_iff.mp hs
      exact Or.inl ha

/-- Call `i` was begun with `op`. -/
structure Sys.Begun (s : Sys S) (i : CallId) (op : S.Op) : Prop where
  lt : i < s.next
  live : ∀ ss, s.live i = some ss → ss.op = op
  answered : ∀ a ∈ s.answers, a.call = i → a.op = op

/-- A call goes on with its operation, or ends without an answer. -/
theorem Sys.Begun.setLive {s : Sys S} {i j : CallId} {op : S.Op} (h : s.Begun i op)
    {x : Option (Session S)} (hx : ∀ ss', x = some ss' → ∃ ss, s.live j = some ss ∧ ss'.op = ss.op)
    (sh : Shared D S.Op) : ({ s.setLive j x with shared := sh } : Sys S).Begun i op := by
  refine ⟨h.lt, fun ss hss => ?_, h.answered⟩
  change Function.update s.live j x i = some ss at hss
  by_cases hij : i = j
  · subst hij
    rw [Function.update_self] at hss
    obtain ⟨ss₀, hss₀, hop⟩ := hx ss hss
    exact hop.trans (h.live ss₀ hss₀)
  · rw [Function.update_of_ne hij] at hss
    exact h.live ss hss

/-- What a call is about never changes. -/
theorem Sys.Begun.step {s s' : Sys S} {i : CallId} {op : S.Op} (h : s.Begun i op) {e : Event S}
    (hs : s.step e = some s') : s'.Begun i op := by
  cases e with
  | start op' =>
    simp only [Sys.step, Option.map_eq_some_iff] at hs
    obtain ⟨m, -, rfl⟩ := hs
    refine ⟨Nat.lt_succ_of_lt h.lt, fun ss hss => h.live ss ?_, h.answered⟩
    simpa [Nat.ne_of_lt h.lt] using hss
  | drop j =>
    obtain rfl := Option.some.inj hs
    exact h.setLive (x := none) (fun _ hx => absurd hx (by simp)) s.shared
  | crash κ =>
    obtain rfl := Option.some.inj hs
    exact ⟨h.lt, fun _ hss => absurd hss (by simp), h.answered⟩
  | step j fault o =>
    simp only [Sys.step] at hs
    split at hs
    · exact absurd hs (by simp)
    · rename_i op' a tx hl
      obtain rfl := Option.some.inj hs
      have h' := h.setLive (j := j) (x := none) (fun _ hx => absurd hx (by simp)) s.shared
      refine ⟨h'.lt, h'.live, fun b hb hbi => ?_⟩
      rcases List.mem_cons.mp hb with rfl | hb
      · subst hbi
        exact h.live _ hl
      · exact h.answered b hb hbi
    · rename_i op' c k tx hl
      simp only [Option.map_eq_some_iff] at hs
      obtain ⟨r, -, rfl⟩ := hs
      refine h.setLive (fun ss' hss' => ⟨_, hl, ?_⟩) r.2.1
      obtain rfl := Option.some.inj hss'
      rfl

theorem Sys.begun_start {s s' : Sys S} (h : s.Calls) {op : S.Op}
    (hs : s.step (.start op) = some s') : s'.Begun s.next op := by
  simp only [Sys.step, Option.map_eq_some_iff] at hs
  obtain ⟨m, -, rfl⟩ := hs
  refine ⟨Nat.lt_succ_self _, fun ss hss => ?_, fun a ha hai => ?_⟩
  · obtain rfl : (⟨op, S.code s.conf op, none⟩ : Session S) = ss := by simpa using hss
    rfl
  · exact absurd (h.answered a ha).1 (by simp [hai])

/-! ## Calls in flight -/

/-- Where a call in flight came from: it has just begun, it made one command, or it is where it
    was. -/
theorem Sys.live_step {s s' : Sys S} {e : Event S} (hs : s.step e = some s') {i : CallId}
    {ss' : Session S} (hl : s'.live i = some ss') :
    (i = s.next ∧ ∃ op, e = .start op ∧ ss' = ⟨op, S.code s.conf op, none⟩) ∨
      s.live i = some ss' ∨
      ∃ op c k tx r tx', s.live i = some ⟨op, .cmd c k, tx⟩ ∧ ss' = ⟨op, k r, tx'⟩ := by
  cases e with
  | start op =>
    obtain ⟨m, -, rfl⟩ := Option.map_eq_some_iff.mp hs
    by_cases hi : i = s.next
    · exact Or.inl ⟨hi, op, rfl, by simpa [hi, eq_comm] using hl⟩
    · exact Or.inr (Or.inl (by simpa [hi] using hl))
  | drop j =>
    obtain rfl := Option.some.inj hs
    change Function.update s.live j none i = some ss' at hl
    by_cases hi : i = j
    · exact absurd hl (by simp [hi])
    · exact Or.inr (Or.inl (by simpa [hi] using hl))
  | crash κ =>
    obtain rfl := Option.some.inj hs
    exact absurd hl (by simp)
  | step j fault o =>
    simp only [Sys.step] at hs
    split at hs
    · exact absurd hs (by simp)
    · obtain rfl := Option.some.inj hs
      change Function.update s.live j none i = some ss' at hl
      by_cases hi : i = j
      · exact absurd hl (by simp [hi])
      · exact Or.inr (Or.inl (by simpa [hi] using hl))
    · rename_i op c k tx hlive
      obtain ⟨⟨r, sh, tx'⟩, -, rfl⟩ := Option.map_eq_some_iff.mp hs
      change Function.update s.live j (some ⟨op, k r, tx'⟩) i = some ss' at hl
      by_cases hi : i = j
      · subst hi
        rw [Function.update_self] at hl
        exact Or.inr (Or.inr ⟨op, c, k, tx, r, tx', hlive, (Option.some.inj hl).symm⟩)
      · exact Or.inr (Or.inl (by simpa [hi] using hl))

/-- Where a call in flight comes from, and by which command. -/
theorem Sys.live_exec {s s' : Sys S} {e : Event S} (hs : s.step e = some s') {i : CallId}
    {ss : Session S} (hl : s'.live i = some ss) :
    (∃ op, ss = ⟨op, S.code s.conf op, none⟩) ∨ s.live i = some ss ∨
      ∃ op c k tx fault o r tx', s.live i = some ⟨op, .cmd c k, tx⟩ ∧ ss = ⟨op, k r, tx'⟩ ∧
        execCmd (s.free i) i op fault o s.shared tx c = some (r, s'.shared, tx') := by
  cases e with
  | start op' =>
    obtain ⟨m, -, rfl⟩ := Option.map_eq_some_iff.mp hs
    change Function.update s.live s.next (some ⟨op', S.code s.conf op', none⟩) i = some ss at hl
    by_cases hi : i = s.next
    · rw [hi, Function.update_self] at hl
      exact Or.inl ⟨op', (Option.some.inj hl).symm⟩
    · rw [Function.update_of_ne hi] at hl
      exact Or.inr (Or.inl hl)
  | drop j =>
    obtain rfl := Option.some.inj hs
    change Function.update s.live j none i = some ss at hl
    by_cases hi : i = j
    · exact absurd hl (by simp [hi])
    · rw [Function.update_of_ne hi] at hl
      exact Or.inr (Or.inl hl)
  | crash κ =>
    obtain rfl := Option.some.inj hs
    exact absurd hl (by simp)
  | step j fault o =>
    simp only [Sys.step] at hs
    split at hs
    · exact absurd hs (by simp)
    · obtain rfl := Option.some.inj hs
      change Function.update s.live j none i = some ss at hl
      by_cases hi : i = j
      · exact absurd hl (by simp [hi])
      · rw [Function.update_of_ne hi] at hl
        exact Or.inr (Or.inl hl)
    · rename_i op' c' k' tx₁ hj
      obtain ⟨⟨r', sh, tx₂⟩, hx, rfl⟩ := Option.map_eq_some_iff.mp hs
      change Function.update s.live j (some ⟨op', k' r', tx₂⟩) i = some ss at hl
      by_cases hi : i = j
      · subst hi
        rw [Function.update_self] at hl
        exact Or.inr (Or.inr ⟨op', c', k', tx₁, fault, o, r', tx₂, hj, (Option.some.inj hl).symm,
          hx⟩)
      · rw [Function.update_of_ne hi] at hl
        exact Or.inr (Or.inl hl)

/-- Only a crash changes the configuration. -/
theorem Sys.conf_step {s s' : Sys S} {e : Event S} (hs : s.step e = some s') :
    s'.conf = s.conf ∨ e = .crash s'.conf := by
  cases e with
  | start op =>
    obtain ⟨m, -, rfl⟩ := Option.map_eq_some_iff.mp hs
    exact Or.inl rfl
  | drop j =>
    obtain rfl := Option.some.inj hs
    exact Or.inl rfl
  | crash κ =>
    obtain rfl := Option.some.inj hs
    exact Or.inr rfl
  | step j fault o =>
    simp only [Sys.step] at hs
    split at hs
    · exact absurd hs (by simp)
    · obtain rfl := Option.some.inj hs
      exact Or.inl rfl
    · obtain ⟨r, -, rfl⟩ := Option.map_eq_some_iff.mp hs
      exact Or.inl rfl

theorem Sys.conf_of_run : ∀ {es : List (Event S)} {s s' : Sys S}, s.run es = some s' →
    (∀ κ, Event.crash κ ∉ es) → s'.conf = s.conf
  | [], s, s', h, _ => by
    obtain rfl : s = s' := Option.some.inj h
    rfl
  | e :: es, s, s', h, hes => by
    rw [Sys.run, Option.bind_eq_some_iff] at h
    obtain ⟨s₁, h₁, h₂⟩ := h
    rw [Sys.conf_of_run h₂ fun κ hκ => hes κ (List.mem_cons_of_mem _ hκ)]
    rcases Sys.conf_step h₁ with hconf | rfl
    · exact hconf
    · exact absurd (List.mem_cons_self ..) (hes _)

/-- A crash leaves no call in flight. -/
theorem Sys.conf_of_live {s s' : Sys S} {e : Event S} (hs : s.step e = some s') {i : CallId}
    {ss : Session S} (hl : s'.live i = some ss) : s'.conf = s.conf := by
  rcases Sys.conf_step hs with hconf | rfl
  · exact hconf
  · rw [← Option.some.inj hs] at hl
    exact absurd hl (by simp)

/-- Where a call in flight goes: it stays where it is, or this step is its own. -/
theorem Sys.live_next {s s' : Sys S} (hc : s.Calls) {e : Event S} (hs : s.step e = some s')
    {i : CallId} {ss : Session S} (hl : s.live i = some ss) :
    s'.live i = some ss ∨ e = .drop i ∨ (∃ κ, e = .crash κ) ∨ ∃ fault o, e = .step i fault o ∧
      ∀ c k, ss.code = .cmd c k → ∃ r tx', s'.live i = some ⟨ss.op, k r, tx'⟩ ∧
        execCmd (s.free i) i ss.op fault o s.shared ss.tx c = some (r, s'.shared, tx') := by
  cases e with
  | start op =>
    obtain ⟨m, -, rfl⟩ := Option.map_eq_some_iff.mp hs
    refine Or.inl ((Function.update_of_ne ?_ ..).trans hl)
    exact Nat.ne_of_lt (hc.live i ss hl)
  | drop j =>
    obtain rfl := Option.some.inj hs
    by_cases hi : i = j
    · exact Or.inr (Or.inl (hi ▸ rfl))
    · exact Or.inl ((Function.update_of_ne hi ..).trans hl)
  | crash κ => exact Or.inr (Or.inr (Or.inl ⟨κ, rfl⟩))
  | step j fault o =>
    by_cases hi : i = j
    · subst hi
      refine Or.inr (Or.inr (Or.inr ⟨fault, o, rfl, fun c k hcode => ?_⟩))
      obtain ⟨op, code, tx⟩ := ss
      obtain rfl : code = .cmd c k := hcode
      simp only [Sys.step, hl] at hs
      obtain ⟨⟨r, sh, tx'⟩, hx, rfl⟩ := Option.map_eq_some_iff.mp hs
      exact ⟨r, tx', Function.update_self .., hx⟩
    · refine Or.inl ?_
      simp only [Sys.step] at hs
      split at hs
      · exact absurd hs (by simp)
      · obtain rfl := Option.some.inj hs
        exact (Function.update_of_ne hi ..).trans hl
      · obtain ⟨r, -, rfl⟩ := Option.map_eq_some_iff.mp hs
        exact (Function.update_of_ne hi ..).trans hl

theorem Sys.next_le {s s' : Sys S} {e : Event S} (hs : s.step e = some s') :
    s.next ≤ s'.next := by
  cases e with
  | start op =>
    obtain ⟨m, -, rfl⟩ := Option.map_eq_some_iff.mp hs
    exact Nat.le_succ _
  | drop i =>
    obtain rfl := Option.some.inj hs
    exact Nat.le_refl _
  | crash κ =>
    obtain rfl := Option.some.inj hs
    exact Nat.le_refl _
  | step i fault o =>
    simp only [Sys.step] at hs
    split at hs
    · exact absurd hs (by simp)
    · obtain rfl := Option.some.inj hs
      exact Nat.le_refl _
    · obtain ⟨r, -, rfl⟩ := Option.map_eq_some_iff.mp hs
      exact Nat.le_refl _

/-- Ids are given out to calls that begin. -/
theorem Sys.next_step {s s' : Sys S} {e : Event S} (hs : s.step e = some s') :
    s'.next = s.next ∨ ∃ op, e = .start op := by
  cases e with
  | start op => exact Or.inr ⟨op, rfl⟩
  | drop i =>
    obtain rfl := Option.some.inj hs
    exact Or.inl rfl
  | crash κ =>
    obtain rfl := Option.some.inj hs
    exact Or.inl rfl
  | step i fault o =>
    simp only [Sys.step] at hs
    split at hs
    · exact absurd hs (by simp)
    · obtain rfl := Option.some.inj hs
      exact Or.inl rfl
    · obtain ⟨r, -, rfl⟩ := Option.map_eq_some_iff.mp hs
      exact Or.inl rfl

/-- What is true of the code of every operation, and of what is left of it after each command,
    is true of every call in flight. -/
theorem Sys.code_of_steps {π : Policy S} {C : S.Op → Code D S.Ans → Prop}
    (hcode : ∀ κ op, C op (S.code κ op)) (hnext : ∀ op c k, C op (.cmd c k) → ∀ r, C op (k r))
    {s s' : Sys S} (h : Sys.Steps π s s') (h0 : ∀ i ss, s.live i = some ss → C ss.op ss.code) :
    ∀ i ss, s'.live i = some ss → C ss.op ss.code := by
  induction h with
  | refl => exact h0
  | tail _ hstep ih =>
    obtain ⟨e, he, -⟩ := hstep
    intro i ss hl
    rcases Sys.live_step he hl with ⟨-, op, -, rfl⟩ | hold | ⟨op, c, k, tx, r, tx', hold, rfl⟩
    · exact hcode _ op
    · exact ih i ss hold
    · exact hnext op c k (ih i _ hold) r

/-- And of how it ended. -/
theorem Sys.answers_of_code {π : Policy S} {C : S.Op → Code D S.Ans → Prop}
    (hcode : ∀ κ op, C op (S.code κ op)) (hnext : ∀ op c k, C op (.cmd c k) → ∀ r, C op (k r))
    {s s' : Sys S} (h : Sys.Steps π s s') (h0 : ∀ i ss, s.live i = some ss → C ss.op ss.code) :
    ∀ a ∈ s'.answers, a ∈ s.answers ∨ C a.op (.pure a.ans) := by
  induction h with
  | refl => exact fun _ ha => Or.inl ha
  | tail hrun hstep ih =>
    obtain ⟨e, he, -⟩ := hstep
    intro a ha
    rcases Sys.live_of_answer he ha with hold | ⟨tx, hl⟩
    · exact ih a hold
    · exact Or.inr (Sys.code_of_steps hcode hnext hrun h0 _ _ hl)

/-- What is true of a call in flight, and of what is left of it after each command, is true of
    it until it ends, and of how it ends. -/
theorem Sys.follow {π : Policy S} {C : Code D S.Ans → Prop}
    (hnext : ∀ c k, C (.cmd c k) → ∀ r, C (k r)) {s s' : Sys S} (h : Sys.Steps π s s')
    {i : CallId} (hi : i < s.next) (h0 : ∀ ss, s.live i = some ss → C ss.code) :
    (∀ ss, s'.live i = some ss → C ss.code) ∧
      ∀ a ∈ s'.answers, a.call = i → a ∈ s.answers ∨ C (.pure a.ans) := by
  have hall : i < s'.next ∧ (∀ ss, s'.live i = some ss → C ss.code) ∧
      ∀ a ∈ s'.answers, a.call = i → a ∈ s.answers ∨ C (.pure a.ans) := by
    induction h with
    | refl => exact ⟨hi, h0, fun a ha _ => Or.inl ha⟩
    | tail _ hstep ih =>
      obtain ⟨e, he, -⟩ := hstep
      obtain ⟨hlt, hlive, hans⟩ := ih
      refine ⟨Nat.lt_of_lt_of_le hlt (Sys.next_le he), fun ss hl => ?_, fun a ha hai => ?_⟩
      · rcases Sys.live_step he hl with ⟨hnew, -⟩ | hold | ⟨op, c, k, tx, r, tx', hold, rfl⟩
        · exact absurd hlt (by simp [hnew])
        · exact hlive ss hold
        · exact hnext c k (hlive _ hold) r
      · rcases Sys.live_of_answer he ha with hold | ⟨tx, hl⟩
        · exact hans a hold hai
        · exact Or.inr (hlive _ (hai ▸ hl))
  exact hall.2

/-! ## Commits -/

/-- The contents change with a commit, and that is in the name of a call in flight. -/
theorem Sys.shared_step {s s' : Sys S} {e : Event S} (hs : s.step e = some s') :
    (s'.shared.db = s.shared.db ∧ s'.shared.hist = s.shared.hist) ∨
      ∃ c ss, s.live c.call = some ss ∧ c.op = ss.op ∧
        s'.shared.hist = c :: s.shared.hist := by
  cases e with
  | start op =>
    obtain ⟨m, -, rfl⟩ := Option.map_eq_some_iff.mp hs
    exact Or.inl ⟨rfl, rfl⟩
  | drop i =>
    obtain rfl := Option.some.inj hs
    exact Or.inl ⟨rfl, rfl⟩
  | crash κ =>
    obtain rfl := Option.some.inj hs
    exact Or.inl ⟨rfl, rfl⟩
  | step i fault o =>
    simp only [Sys.step] at hs
    split at hs
    · exact absurd hs (by simp)
    · obtain rfl := Option.some.inj hs
      exact Or.inl ⟨rfl, rfl⟩
    · rename_i op c k tx hl
      obtain ⟨⟨r, sh, tx'⟩, hx, rfl⟩ := Option.map_eq_some_iff.mp hs
      rcases execCmd_shared hx with hh | ⟨t, rfl, -⟩
      · exact Or.inl hh
      · exact Or.inr ⟨⟨i, op, t, s.shared.db⟩, _, hl, rfl, rfl⟩

/-- A step makes at most one commit. -/
theorem Sys.hist_step {s s' : Sys S} {e : Event S} (hs : s.step e = some s') :
    s'.shared.hist = s.shared.hist ∨ ∃ c ss, s.live c.call = some ss ∧ c.op = ss.op ∧
      s'.shared.hist = c :: s.shared.hist :=
  (Sys.shared_step hs).imp And.right id

/-- Whoever committed has begun. -/
theorem Sys.lt_of_mem_hist {π : Policy S} {s s' : Sys S} (h : Sys.Steps π s s') (hc : s.Calls)
    (h0 : ∀ c ∈ s.shared.hist, c.call < s.next) : ∀ c ∈ s'.shared.hist, c.call < s'.next := by
  induction h with
  | refl => exact h0
  | @tail s₁ s₂ hrun hstep ih =>
    obtain ⟨e, he, -⟩ := hstep
    have hle : s₁.next ≤ s₂.next := Sys.next_le he
    intro c hcm
    rcases Sys.hist_step he with heq | ⟨c', ss, hl, -, heq⟩
    · exact Nat.lt_of_lt_of_le (ih c (heq ▸ hcm)) hle
    · rw [heq] at hcm
      rcases List.mem_cons.mp hcm with rfl | hcm
      · exact Nat.lt_of_lt_of_le ((hc.steps hrun).live _ ss hl) hle
      · exact Nat.lt_of_lt_of_le (ih c hcm) hle

/-! ## Configurations -/

/-- Where every restart brings a configuration that satisfies `p`, everything ever answered was
    answered under one. -/
theorem Sys.conf_of_steps {π : Policy S} {p : S.Conf → Prop}
    (hπ : ∀ κ κ', π.reboot κ κ' → p κ') {s s' : Sys S} (h : Sys.Steps π s s')
    (h0 : p s.conf ∧ ∀ a ∈ s.answers, p a.conf) : p s'.conf ∧ ∀ a ∈ s'.answers, p a.conf := by
  induction h with
  | refl => exact h0
  | @tail s₁ s₂ _ hstep ih =>
    obtain ⟨hconf, hans⟩ := ih
    obtain ⟨e, he, hallows⟩ := hstep
    cases e with
    | start op =>
      simp only [Sys.step, Option.map_eq_some_iff] at he
      obtain ⟨m, -, rfl⟩ := he
      exact ⟨hconf, hans⟩
    | drop i =>
      obtain rfl := Option.some.inj he
      exact ⟨hconf, hans⟩
    | crash κ =>
      obtain rfl := Option.some.inj he
      exact ⟨hπ _ _ (hallows.reboot κ rfl), hans⟩
    | step i fault o =>
      simp only [Sys.step] at he
      split at he
      · exact absurd he (by simp)
      · obtain rfl := Option.some.inj he
        exact ⟨hconf, fun a ha => (List.mem_cons.mp ha).elim (fun h => h ▸ hconf) (hans a)⟩
      · simp only [Option.map_eq_some_iff] at he
        obtain ⟨r, -, rfl⟩ := he
        exact ⟨hconf, hans⟩

/-! ## Guarded runs -/

/-- One step, refused if it makes a commit that fails `g`. -/
def Sys.stepGuarded (g : Shared D S.Op → Commit D S.Op → Bool) (s : Sys S) (e : Event S) :
    Option (Sys S) :=
  (s.step e).filter fun s' =>
    s'.shared.hist.length ≤ s.shared.hist.length || s'.shared.hist.head?.all (g s.shared)

def Sys.runGuarded (g : Shared D S.Op → Commit D S.Op → Bool) (s : Sys S) :
    List (Event S) → Option (Sys S)
  | [] => some s
  | e :: es => (s.stepGuarded g e).bind fun s' => s'.runGuarded g es

theorem Sys.step_of_stepGuarded {g : Shared D S.Op → Commit D S.Op → Bool} {s s' : Sys S}
    {e : Event S} (h : s.stepGuarded g e = some s') :
    Sys.Step (.commits fun sh c => g sh c = true) s s' := by
  obtain ⟨h₁, hguard⟩ := Option.filter_eq_some_iff.mp h
  refine ⟨e, h₁, fun _ _ => trivial, fun c hc => ?_⟩
  rw [hc] at hguard
  have hg : s.shared.hist.length + 1 ≤ s.shared.hist.length ∨ g s.shared c = true := by
    simpa using hguard
  exact hg.resolve_left (by omega)

/-- A guarded list of events that runs through is a run of `Policy.commits`. -/
theorem Sys.steps_of_runGuarded {g : Shared D S.Op → Commit D S.Op → Bool} :
    ∀ {es : List (Event S)} {s s' : Sys S}, s.runGuarded g es = some s' →
      Sys.Steps (.commits fun sh c => g sh c = true) s s'
  | [], s, s', h => by
    obtain rfl : s = s' := Option.some.inj h
    exact .refl
  | e :: es, s, s', h => by
    rw [Sys.runGuarded, Option.bind_eq_some_iff] at h
    obtain ⟨s₁, h₁, h₂⟩ := h
    exact .head (Sys.step_of_stepGuarded h₁) (Sys.steps_of_runGuarded h₂)

/-- Without a restart, a guarded step is one of every policy that allows such commits. -/
theorem Sys.allows_of_stepGuarded {g : Shared D S.Op → Commit D S.Op → Bool} {π : Policy S}
    (hπ : ∀ sh c, g sh c = true → π.commit sh c) {s s' : Sys S} {e : Event S}
    (hκ : ∀ κ, e ≠ .crash κ) (h : s.stepGuarded g e = some s') :
    s.step e = some s' ∧ π.Allows s e s' := by
  obtain ⟨h₁, hguard⟩ := Option.filter_eq_some_iff.mp h
  refine ⟨h₁, fun κ he => absurd he (hκ κ), fun c hc => hπ _ _ ?_⟩
  rw [hc] at hguard
  have hg : s.shared.hist.length + 1 ≤ s.shared.hist.length ∨ g s.shared c = true := by
    simpa using hguard
  exact hg.resolve_left (by omega)

theorem Sys.steps_of_runGuarded_steady {g : Shared D S.Op → Commit D S.Op → Bool}
    {π : Policy S} (hπ : ∀ sh c, g sh c = true → π.commit sh c) :
    ∀ {es : List (Event S)} {s s' : Sys S}, (∀ e ∈ es, ∀ κ, e ≠ .crash κ) →
      s.runGuarded g es = some s' → Sys.Steps π s s'
  | [], s, s', _, h => by
    obtain rfl : s = s' := Option.some.inj h
    exact .refl
  | e :: es, s, s', hes, h => by
    rw [Sys.runGuarded, Option.bind_eq_some_iff] at h
    obtain ⟨s₁, h₁, h₂⟩ := h
    exact .head ⟨e, Sys.allows_of_stepGuarded hπ (hes e (List.mem_cons_self ..)) h₁⟩
      (Sys.steps_of_runGuarded_steady hπ (fun e' he => hes e' (List.mem_cons_of_mem _ he)) h₂)

/-- A list of events that runs through is a run of `Policy.any`. -/
theorem Sys.steps_of_run : ∀ {es : List (Event S)} {s s' : Sys S},
    s.run es = some s' → Sys.Steps .any s s'
  | [], s, s', h => by
    obtain rfl : s = s' := Option.some.inj h
    exact .refl
  | e :: es, s, s', h => by
    rw [Sys.run, Option.bind_eq_some_iff] at h
    obtain ⟨s₁, h₁, h₂⟩ := h
    exact .head ⟨e, h₁, Policy.any_allows _ _ _⟩ (Sys.steps_of_run h₂)

/-- A list of events that restarts only with the configuration `κ` is a run of every policy
    that lets `κ` restart as it is and restricts nothing else. -/
theorem Sys.steps_of_run_steady {π : Policy S} {κ : S.Conf} (hcommit : ∀ sh c, π.commit sh c)
    (hreboot : π.reboot κ κ) : ∀ {es : List (Event S)} {s s' : Sys S}, s.conf = κ →
      (∀ κ', Event.crash κ' ∈ es → κ' = κ) → s.run es = some s' → Sys.Steps π s s'
  | [], s, s', _, _, h => by
    obtain rfl : s = s' := Option.some.inj h
    exact .refl
  | e :: es, s, s', hκ, hes, h => by
    rw [Sys.run, Option.bind_eq_some_iff] at h
    obtain ⟨s₁, h₁, h₂⟩ := h
    have hκ₁ : s₁.conf = κ := by
      cases e with
      | crash κ' =>
        obtain rfl := Option.some.inj h₁
        exact hes κ' (List.mem_cons_self ..)
      | start op =>
        simp only [Sys.step, Option.map_eq_some_iff] at h₁
        obtain ⟨m, -, rfl⟩ := h₁
        exact hκ
      | drop i =>
        obtain rfl := Option.some.inj h₁
        exact hκ
      | step i fault o =>
        simp only [Sys.step] at h₁
        split at h₁
        · exact absurd h₁ (by simp)
        · obtain rfl := Option.some.inj h₁
          exact hκ
        · simp only [Option.map_eq_some_iff] at h₁
          obtain ⟨r, -, rfl⟩ := h₁
          exact hκ
    refine .head ⟨e, h₁, fun κ' he => ?_, fun c _ => hcommit _ c⟩
      (Sys.steps_of_run_steady hcommit hreboot hκ₁
        (fun κ' h => hes κ' (List.mem_cons_of_mem _ h)) h₂)
    rw [hes κ' (he ▸ List.mem_cons_self ..), hκ]
    exact hreboot

/-- A run that is computed: it gets through, and ends where `p` holds. -/
theorem Sys.exists_of_run {s : Sys S} {l : List (Event S)} {p : Sys S → Bool}
    (h : (s.run l).any p = true) : ∃ s', Sys.Steps .any s s' ∧ p s' = true := by
  obtain ⟨s', hs', hp⟩ := (Option.any_eq_true _ _).mp h
  exact ⟨s', Sys.steps_of_run hs', hp⟩

theorem Sys.exists_of_runGuarded {g : Shared D S.Op → Commit D S.Op → Bool} {s : Sys S}
    {l : List (Event S)} {p : Sys S → Bool} (h : (s.runGuarded g l).any p = true) :
    ∃ s', Sys.Steps (.commits fun sh c => g sh c = true) s s' ∧ p s' = true := by
  obtain ⟨s', hs', hp⟩ := (Option.any_eq_true _ _).mp h
  exact ⟨s', Sys.steps_of_runGuarded hs', hp⟩

/-- A computed run and one more step. -/
theorem Sys.exists_step_of_run {s : Sys S} {l : List (Event S)} {e : Event S}
    {p : Sys S → Sys S → Bool}
    (h : (s.run l).any (fun s₁ => (s₁.step e).any (p s₁)) = true) :
    ∃ s₁ s₂, Sys.Steps .any s s₁ ∧ Sys.Step .any s₁ s₂ ∧ p s₁ s₂ = true := by
  obtain ⟨s₁, hs, h₁⟩ := Sys.exists_of_run h
  obtain ⟨s₂, hs₂, hp⟩ := (Option.any_eq_true _ _).mp h₁
  exact ⟨s₁, s₂, hs, ⟨e, hs₂, Policy.any_allows _ _ _⟩, hp⟩

theorem Sys.exists_step_of_runGuarded {g : Shared D S.Op → Commit D S.Op → Bool} {s : Sys S}
    {l : List (Event S)} {e : Event S} {p : Sys S → Sys S → Bool}
    (h : (s.runGuarded g l).any (fun s₁ => (s₁.stepGuarded g e).any (p s₁)) = true) :
    ∃ s₁ s₂, Sys.Steps (.commits fun sh c => g sh c = true) s s₁ ∧
      Sys.Step (.commits fun sh c => g sh c = true) s₁ s₂ ∧ p s₁ s₂ = true := by
  obtain ⟨s₁, hs, h₁⟩ := Sys.exists_of_runGuarded h
  obtain ⟨s₂, hs₂, hp⟩ := (Option.any_eq_true _ _).mp h₁
  exact ⟨s₁, s₂, hs, Sys.step_of_stepGuarded hs₂, hp⟩

end Lib
