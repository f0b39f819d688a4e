import Digicash.Bank.Refinement
import Digicash.Registry.Serials

/-!
# Banks and their registry

Several banks, each with its own database, and the one registry they share. Nothing joins them
but messages: a bank's call that waits at `postSerials` posts its submission, a posted
submission is delivered late, once, twice or never, and the bank's call hears an answer the
registry gave to it, or an error. A crash of either side, a dropped call and a lost answer are
steps like any other.

The registry hears from others too: `NetEvent.registry` begins any call there, also a
submission under any bank's name. Requests are authenticated before `postSerial` is reached,
so what a bank posts arrives under the name its client has.
-/

namespace Digicash

open Lib

variable {X : Crypto} {B : Type}

/-- The configurations of a bank with a registry client. -/
abbrev Member (X : Crypto) := {κ : Bank.Config X // κ.registryClient.isSome = true}

/-- A submission on its way: whose call posted it, and under which name. -/
structure Envelope (B : Type) where
  bank : B
  call : CallId
  caller : String
  submission : SerialSubmission

structure Net (X : Crypto) (B : Type) where
  bank : B → Sys (Bank.service X)
  registry : Sys (Registry.service X)
  /-- Everything ever posted, newest first. -/
  posted : List (Envelope B)
  /-- The submission that began a call of the registry. -/
  about : CallId → Option (Envelope B)

inductive NetEvent (X : Crypto) (B : Type) where
  | bank (b : B) (e : Event (Bank.service X))
  | registry (e : Event (Registry.service X))
  | post (b : B) (i : CallId)
  | deliver (n : Nat)

/-- The submission a call is waiting with. -/
def Bank.waiting (s : Sys (Bank.service X)) (i : CallId) : Option SerialSubmission :=
  match s.live i with
  | some ⟨_, .cmd (.ext (.postSerials submission)) _, _⟩ => some submission
  | _ => none

namespace Net

variable [DecidableEq B]

/-- The registry answered `response` to this submission of call `i` of bank `b`. -/
def replied (s : Net X B) (b : B) (i : CallId) (submission : SerialSubmission)
    (response : SerialResponse) : Bool :=
  s.registry.answers.any fun a => decide (a.ans = .postSerial (.ok response)) &&
    (s.about a.call).any fun m =>
      decide (m.bank = b ∧ m.call = i ∧ m.submission = submission)

/-- What the network asks of a bank's step: a response it hears was given, and the process
    restarts as a member. -/
def permits (s : Net X B) (b : B) : Event (Bank.service X) → Bool
  | .step i _ o =>
    match Bank.waiting (s.bank b) i, o.reply with
    | some submission, .ok response => s.replied b i submission response
    | _, _ => true
  | .crash κ => κ.registryClient.isSome
  | _ => true

def step (s : Net X B) : NetEvent X B → Option (Net X B)
  | .bank b e =>
    if s.permits b e then
      ((s.bank b).step e).map fun t => { s with bank := Function.update s.bank b t }
    else none
  | .registry e => (s.registry.step e).map fun t => { s with registry := t }
  | .post b i =>
    match Bank.waiting (s.bank b) i, (s.bank b).conf.registryClient with
    | some submission, some client =>
      some { s with posted := ⟨b, i, client.bankId, submission⟩ :: s.posted }
    | _, _ => none
  | .deliver n =>
    s.posted[n]?.bind fun m =>
      (s.registry.step (.start (.postSerial m.caller m.submission))).map fun t =>
        { s with
          registry := t
          about := Function.update s.about s.registry.next (some m) }

/-- Members and a registry that have never run. -/
def start (κ : B → Member X) : Net X B :=
  ⟨fun b => Bank.start (κ b).1, Registry.start X, [], fun _ => none⟩

end Net

/-! ## Runs -/

/-- Which steps the runs considered take. -/
abbrev NetPolicy (X : Crypto) (B : Type) := Net X B → NetEvent X B → Net X B → Prop

/-- Every run. -/
@[reducible] def NetPolicy.any : NetPolicy X B := fun _ _ _ => True

namespace Net

variable [DecidableEq B]

def Step (π : NetPolicy X B) (s s' : Net X B) : Prop := ∃ e, s.step e = some s' ∧ π s e s'

abbrev Steps (π : NetPolicy X B) : Net X B → Net X B → Prop :=
  Relation.ReflTransGen (Step π)

/-- Run a list of events; `none` as soon as one is not enabled or not in the policy. -/
def run (π : NetPolicy X B) [∀ s e s', Decidable (π s e s')] (s : Net X B) :
    List (NetEvent X B) → Option (Net X B)
  | [] => some s
  | e :: es => (s.step e).bind fun s' => if π s e s' then s'.run π es else none

theorem steps_of_run {π : NetPolicy X B} [∀ s e s', Decidable (π s e s')] :
    ∀ {es : List (NetEvent X B)} {s s' : Net X B}, s.run π es = some s' → Steps π s s'
  | [], s, s', h => by
    obtain rfl : s = s' := Option.some.inj h
    exact .refl
  | e :: es, s, s', h => by
    obtain ⟨s₁, h₁, h₂⟩ := Option.bind_eq_some_iff.mp h
    split at h₂
    · rename_i hπ
      exact .head ⟨e, h₁, hπ⟩ (steps_of_run h₂)
    · exact absurd h₂ (by simp)

/-- A run that is computed: it gets through, and ends where `p` holds. -/
theorem exists_of_run {π : NetPolicy X B} [∀ s e s', Decidable (π s e s')] {s : Net X B}
    {l : List (NetEvent X B)} {p : Net X B → Bool} (h : (s.run π l).any p = true) :
    ∃ s', Steps π s s' ∧ p s' = true := by
  obtain ⟨s', hs', hp⟩ := (Option.any_eq_true _ _).mp h
  exact ⟨s', steps_of_run hs', hp⟩

/-! ## What a step does -/

/-- A step, by the kind of its event. -/
inductive Stepped (s : Net X B) : NetEvent X B → Net X B → Prop
  | bank {b e t} (hp : s.permits b e = true) (ht : (s.bank b).step e = some t) :
    Stepped s (.bank b e) { s with bank := Function.update s.bank b t }
  | registry {e t} (ht : s.registry.step e = some t) :
    Stepped s (.registry e) { s with registry := t }
  | post {b i submission client} (hwait : Bank.waiting (s.bank b) i = some submission)
    (hclient : (s.bank b).conf.registryClient = some client) :
    Stepped s (.post b i) { s with posted := ⟨b, i, client.bankId, submission⟩ :: s.posted }
  | deliver {n m t} (hm : s.posted[n]? = some m)
    (ht : s.registry.step (.start (.postSerial m.caller m.submission)) = some t) :
    Stepped s (.deliver n)
      { s with registry := t, about := Function.update s.about s.registry.next (some m) }

theorem stepped {s s' : Net X B} {e : NetEvent X B} (hs : s.step e = some s') : s.Stepped e s' := by
  cases e with
  | bank b e =>
    simp only [step] at hs
    split at hs
    · rename_i hp
      obtain ⟨t, ht, rfl⟩ := Option.map_eq_some_iff.mp hs
      exact .bank hp ht
    · exact absurd hs (by simp)
  | registry e =>
    obtain ⟨t, ht, rfl⟩ := Option.map_eq_some_iff.mp hs
    exact .registry ht
  | post b i =>
    simp only [step] at hs
    split at hs
    · rename_i hwait hclient
      obtain rfl := Option.some.inj hs
      exact .post hwait hclient
    · exact absurd hs (by simp)
  | deliver n =>
    obtain ⟨m, hm, hs⟩ := Option.bind_eq_some_iff.mp hs
    obtain ⟨t, ht, rfl⟩ := Option.map_eq_some_iff.mp hs
    exact .deliver hm ht

/-! ## Each party's own run -/

variable {π : NetPolicy X B} {κ : B → Member X} {s s' : Net X B}

/-- The runs of a bank that is a member whenever it runs. -/
@[reducible] def membership : Policy (Bank.service X) :=
  .reboots fun _ κ => κ.registryClient.isSome = true

/-- A step is a step of one bank, of the registry, or of the network alone. -/
theorem bank_step {e : NetEvent X B} (hs : s.step e = some s') (b : B) :
    s'.bank b = s.bank b ∨ Sys.Step membership (s.bank b) (s'.bank b) := by
  cases stepped hs with
  | @bank b' e t hp ht =>
    by_cases hb : b = b'
    · subst hb
      refine Or.inr ⟨e, ?_, fun κ' he => ?_, fun _ _ => trivial⟩
      · show (s.bank b).step e = some (Function.update s.bank b t b)
        rw [ht, Function.update_self]
      · subst he
        exact hp
    · exact Or.inl (Function.update_of_ne hb ..)
  | _ => exact Or.inl rfl

theorem registry_step {e : NetEvent X B} (hs : s.step e = some s') :
    s'.registry = s.registry ∨ ∃ e', s.registry.step e' = some s'.registry := by
  cases stepped hs with
  | bank _ _ => exact Or.inl rfl
  | registry ht => exact Or.inr ⟨_, ht⟩
  | post _ _ => exact Or.inl rfl
  | deliver _ ht => exact Or.inr ⟨_, ht⟩

/-- What a bank does in the network is a run of that bank. -/
theorem steps_bank (h : Steps π (start κ) s) (b : B) :
    Sys.Steps membership (Bank.start (κ b).1) (s.bank b) := by
  induction h with
  | refl => exact .refl
  | tail _ hstep ih =>
    obtain ⟨e, he, -⟩ := hstep
    rcases bank_step he b with heq | hb
    · rw [heq]
      exact ih
    · exact ih.tail hb

theorem steps_registry (h : Steps π (start κ) s) :
    Sys.Steps .any (Registry.start X) s.registry := by
  induction h with
  | refl => exact .refl
  | tail _ hstep ih =>
    obtain ⟨e, he, -⟩ := hstep
    rcases registry_step he with heq | ⟨e', he'⟩
    · rw [heq]
      exact ih
    · exact ih.tail ⟨e', he', Policy.any_allows _ _ _⟩

end Net

/-! ## What a bank has heard -/

/-- Only a call that waits at `postSerials` adds to what was asked. -/
theorem Bank.asked_step {s s' : Sys (Bank.service X)} {e : Event (Bank.service X)}
    (hs : s.step e = some s') :
    s'.shared.mem.asked = s.shared.mem.asked ∨ ∃ i fault o submission, e = .step i fault o ∧
      Bank.waiting s i = some submission ∧
      s'.shared.mem.asked = ⟨i, submission, o.reply⟩ :: s.shared.mem.asked := by
  cases e with
  | start op =>
    obtain ⟨m, hm, rfl⟩ := Option.map_eq_some_iff.mp hs
    refine Or.inl ?_
    cases op <;> simp only [Bank.enter] at hm <;> split at hm <;> cases hm <;> rfl
  | drop i =>
    obtain rfl := Option.some.inj hs
    exact Or.inl rfl
  | crash κ =>
    obtain rfl := Option.some.inj hs
    exact Or.inl rfl
  | step i fault o =>
    simp only [Sys.step] at hs
    split at hs
    · exact absurd hs (by simp)
    · obtain rfl := Option.some.inj hs
      exact Or.inl rfl
    · rename_i op c k tx hl
      obtain ⟨⟨r, sh, tx'⟩, hx, rfl⟩ := Option.map_eq_some_iff.mp hs
      rcases execCmd_mem hx with heq | ⟨e, r', rfl, hext⟩
      · exact Or.inl (congrArg Bank.Memory.asked heq)
      · show sh.mem.asked = _ ∨ ∃ i' fault' o' submission, _ ∧ _ ∧ sh.mem.asked = _
        generalize sh.mem = m at hext
        cases e with
        | postSerials submission =>
          cases hext
          exact Or.inr ⟨i, fault, o, submission, rfl, by rw [Bank.waiting, hl], rfl⟩
        | _ =>
          cases hext
          exact Or.inl rfl

namespace Net

variable [DecidableEq B] {π : NetPolicy X B} {κ : B → Member X} {s s' : Net X B}

/-- An answer of the registry is on record that says `response` to this submission. -/
def Answered (s : Net X B) (b : B) (i : CallId) (submission : SerialSubmission)
    (response : SerialResponse) : Prop :=
  ∃ a ∈ s.registry.answers, a.ans = .postSerial (.ok response) ∧
    ∃ caller, s.about a.call = some ⟨b, i, caller, submission⟩

theorem answered_of_replied {b : B} {i : CallId} {submission : SerialSubmission}
    {response : SerialResponse} (h : s.replied b i submission response = true) :
    s.Answered b i submission response := by
  obtain ⟨a, ha, hboth⟩ := List.any_eq_true.mp h
  obtain ⟨hans, habout⟩ := Bool.and_eq_true .. |>.mp hboth
  obtain ⟨⟨b', i', caller, submission'⟩, hm, heq⟩ := (Option.any_eq_true _ _).mp habout
  obtain ⟨rfl, rfl, rfl⟩ : b' = b ∧ i' = i ∧ submission' = submission := of_decide_eq_true heq
  exact ⟨a, ha, of_decide_eq_true hans, caller, hm⟩

/-- What the parties have of each other: a call of the registry that a submission began is that
    submission's, and every response a bank heard is one the registry gave. -/
structure Linked (s : Net X B) : Prop where
  about : ∀ j m, s.about j = some m → s.registry.Begun j (.postSerial m.caller m.submission)
  heard : ∀ b, ∀ q ∈ (s.bank b).shared.mem.asked, ∀ response, q.reply = .ok response →
    s.Answered b q.call q.submission response

omit [DecidableEq B] in
theorem Linked.start : (start κ).Linked :=
  ⟨fun _ _ h => absurd h (by simp [Net.start]), fun _ _ h => absurd h (by
    simp [Net.start, Bank.start, Sys.init, Bank.Memory.fresh])⟩

/-- A step of a bank: what it hears was answered. -/
theorem Linked.bank {b : B} {e : Event (Bank.service X)} {t : Sys (Bank.service X)}
    (h : s.Linked) (hp : s.permits b e = true) (ht : (s.bank b).step e = some t) :
    ({ s with bank := Function.update s.bank b t } : Net X B).Linked := by
  refine ⟨h.about, fun b' q hq response hr => ?_⟩
  change q ∈ (Function.update s.bank b t b').shared.mem.asked at hq
  by_cases hb : b' = b
  · subst hb
    rw [Function.update_self] at hq
    rcases Bank.asked_step ht with heq | ⟨i, fault, o, submission, rfl, hw, heq⟩
    · rw [heq] at hq
      exact h.heard b' q hq response hr
    · rw [heq] at hq
      rcases List.mem_cons.mp hq with rfl | hq
      · change o.reply = .ok response at hr
        simp only [permits, hw, hr] at hp
        exact answered_of_replied hp
      · exact h.heard b' q hq response hr
  · rw [Function.update_of_ne hb] at hq
    exact h.heard b' q hq response hr

omit [DecidableEq B] in
/-- A step of the registry, which may begin the call of a submission. -/
theorem Linked.registry {e : Event (Registry.service X)} {t : Sys (Registry.service X)}
    {f : CallId → Option (Envelope B)} (h : s.Linked) (ht : s.registry.step e = some t)
    (hf : ∀ j m, f j = some m →
      s.about j = some m ∨ t.Begun j (.postSerial m.caller m.submission))
    (hold : ∀ j < s.registry.next, f j = s.about j) (hc : s.registry.Calls) :
    ({ s with registry := t, about := f } : Net X B).Linked := by
  refine ⟨fun j m hj => ?_, fun b q hq response hr => ?_⟩
  · rcases hf j m hj with hj | hj
    · exact (h.about j m hj).step ht
    · exact hj
  · obtain ⟨a, ha, hans, caller, hm⟩ := h.heard b q hq response hr
    refine ⟨a, Sys.mem_answers_step ht ha, hans, caller, ?_⟩
    show f a.call = _
    rw [hold _ (hc.answered a ha).1, hm]

theorem Linked.step (h : s.Linked) (hc : s.registry.Calls) {e : NetEvent X B}
    (hs : s.step e = some s') : s'.Linked := by
  cases stepped hs with
  | bank hp ht => exact h.bank hp ht
  | registry ht => exact h.registry ht (fun _ _ hj => Or.inl hj) (fun _ _ => rfl) hc
  | post _ _ => exact ⟨h.about, h.heard⟩
  | @deliver n m t _ ht =>
    refine h.registry ht (fun j m' hj => ?_) (fun j hj => ?_) hc
    · by_cases hjn : j = s.registry.next
      · subst hjn
        rw [Function.update_self] at hj
        obtain rfl := Option.some.inj hj
        exact Or.inr (Sys.begun_start hc ht)
      · rw [Function.update_of_ne hjn] at hj
        exact Or.inl hj
    · exact Function.update_of_ne (Nat.ne_of_lt hj) ..

theorem linked (h : Steps π (start κ) s) : s.Linked := by
  induction h with
  | refl => exact .start
  | tail hrun hstep ih =>
    obtain ⟨e, he, -⟩ := hstep
    exact ih.step (Sys.calls_init.steps (steps_registry hrun)) he

end Net

end Digicash
