import Digicash.Lib.Service

/-!
# Rely and guarantee

How a claim about every interleaving becomes a claim about one program at a time.

A `Protocol` names three things: an invariant of the shared state, the commits that are
*legal* there, and what each answer promises. `WP` says of one program that, whatever the
others legally do between its commands, each commit it makes is legal and its answer keeps
its promise. Three facts come for free from the engine and are built into `Env`, the moves
of the others that a session can observe: they are legal, they keep the invariant, and they
leave alone the rows this session has locked.

`Protocol.Sound` collects what has to be proved of a service. What it buys is
`Sys.steps_refine`: the running service, statement by statement and with every fault and
crash, refines the machine `Protocol.Whole` that only ever makes whole legal commits. From
there on an invariant is checked against that machine, with no programs and no interleaving
in sight.
-/

namespace Lib

open Relation

variable {D : Database} {S : Service D} {α β ε : Type}

/-- A change of the process's memory, by a command or by a call that begins. -/
def Service.MemStep (S : Service D) (m m' : D.Mem) : Prop :=
  (∃ i e o r, D.ext i e o m = some (r, m')) ∨ ∃ op, S.enter op m = some m'

structure Protocol (S : Service D) where
  Inv : Shared D S.Op → Prop
  /-- The commits a session may make under a configuration. -/
  Legal : S.Conf → Shared D S.Op → Commit D S.Op → Prop
  /-- What an answer given under a configuration promises from then on. -/
  Post : S.Conf → CallId → S.Op → S.Ans → Shared D S.Op → Prop

namespace Protocol

variable {P : Protocol S} {κ : S.Conf} {i : CallId} {op : S.Op}

/-- One visible move of one session. -/
inductive Move (P : Protocol S) (κ : S.Conf) : Shared D S.Op → Shared D S.Op → Prop where
  | commit {sh : Shared D S.Op} (c : Commit D S.Op) (hb : c.before = sh.db)
      (hl : P.Legal κ sh c) : Move P κ sh (sh.push c)
  | mem {sh : Shared D S.Op} (m : D.Mem) (hm : S.MemStep sh.mem m) :
      Move P κ sh { sh with mem := m }

/-- Any number of moves, ending where the invariant holds. -/
structure Reaches (P : Protocol S) (κ : S.Conf) (sh sh' : Shared D S.Op) : Prop where
  moves : ReflTransGen (P.Move κ) sh sh'
  inv : P.Inv sh'

/-- What a session with transaction `tx` may find has happened since it last looked. -/
structure Env (P : Protocol S) (κ : S.Conf) (tx : Option (Tx D)) (sh sh' : Shared D S.Op) :
    Prop where
  moves : ReflTransGen (P.Move κ) sh sh'
  inv : P.Inv sh'
  frame : ∀ r ∈ locksOf tx, D.get sh'.db r = D.get sh.db r

theorem Reaches.trans {a b c : Shared D S.Op} (h : P.Reaches κ a b) (h' : P.Reaches κ b c) :
    P.Reaches κ a c := ⟨h.moves.trans h'.moves, h'.inv⟩

theorem Env.reaches {tx : Option (Tx D)} {a b : Shared D S.Op} (h : P.Env κ tx a b) :
    P.Reaches κ a b := ⟨h.moves, h.inv⟩

theorem Reaches.env {a b : Shared D S.Op} (h : P.Reaches κ a b) : P.Env κ none a b :=
  ⟨h.moves, h.inv, fun _ hr => absurd hr (by simp)⟩

theorem Env.refl {tx : Option (Tx D)} {a : Shared D S.Op} (h : P.Inv a) : P.Env κ tx a a :=
  ⟨.refl, h, fun _ _ => rfl⟩

theorem Env.trans {tx : Option (Tx D)} {a b c : Shared D S.Op} (h : P.Env κ tx a b)
    (h' : P.Env κ tx b c) : P.Env κ tx a c :=
  ⟨h.moves.trans h'.moves, h'.inv, fun r hr => (h'.frame r hr).trans (h.frame r hr)⟩

/-- What every move keeps is still there at the end. -/
theorem Reaches.keeps {J : Shared D S.Op → Prop} {a b : Shared D S.Op} (h : P.Reaches κ a b)
    (hJ : ∀ {x y}, J x → P.Move κ x y → J y) (ha : J a) : J b := by
  have key : ∀ {y}, ReflTransGen (P.Move κ) a y → J y := by
    intro y hy
    induction hy with
    | refl => exact ha
    | tail _ hm ih => exact hJ ih hm
  exact key h.moves

/-- What was committed stays committed. -/
theorem Reaches.mem_hist {a b : Shared D S.Op} {c : Commit D S.Op} (h : P.Reaches κ a b)
    (hc : c ∈ a.hist) : c ∈ b.hist := by
  refine h.keeps (J := fun sh => c ∈ sh.hist) (fun {x y} hx hm => ?_) hc
  cases hm with
  | commit c' _ _ => exact List.mem_cons_of_mem _ hx
  | mem m _ => exact hx

/-! ## Programs -/

/-- Whatever the others do meanwhile, the program makes only legal moves, and ends with `Q`. -/
def WP (P : Protocol S) (κ : S.Conf) (i : CallId) (op : S.Op)
    (Q : α → Option (Tx D) → Shared D S.Op → Prop) :
    Code D α → Option (Tx D) → Shared D S.Op → Prop
  | .pure a, tx, sh => ∀ sh', P.Env κ tx sh sh' → Q a tx sh'
  | .cmd c k, tx, sh => ∀ sh', P.Env κ tx sh sh' → ∀ free fault o r sh'' tx',
      execCmd free i op fault o sh' tx c = some (r, sh'', tx') →
        (sh'' = sh' ∨ P.Move κ sh' sh'') ∧ (P.Inv sh'' → WP P κ i op Q (k r) tx' sh'')

theorem WP.env {Q : α → Option (Tx D) → Shared D S.Op → Prop} {p : Code D α}
    {tx : Option (Tx D)} {sh sh' : Shared D S.Op} (h : P.WP κ i op Q p tx sh)
    (he : P.Env κ tx sh sh') : P.WP κ i op Q p tx sh' := by
  cases p with
  | pure a => exact fun sh₂ h₂ => h sh₂ (he.trans h₂)
  | cmd c k => exact fun sh₂ h₂ => h sh₂ (he.trans h₂)

/-- Sequencing. The postcondition of the first part is handed over in the form that is
    already closed under what the others do. -/
theorem WP.bind_closed {Q₁ : α → Option (Tx D) → Shared D S.Op → Prop}
    {Q : β → Option (Tx D) → Shared D S.Op → Prop} {f : α → Code D β}
    (hk : ∀ a tx sh, P.Inv sh → (∀ sh', P.Env κ tx sh sh' → Q₁ a tx sh') →
      P.WP κ i op Q (f a) tx sh) :
    ∀ {p : Code D α} {tx : Option (Tx D)} {sh : Shared D S.Op}, P.Inv sh →
      P.WP κ i op Q₁ p tx sh → P.WP κ i op Q (p >>= f) tx sh
  | .pure a, tx, sh, hi, h => hk a tx sh hi h
  | .cmd c k, tx, sh, _, h => by
    intro sh' he free fault o r sh'' tx' hx
    obtain ⟨hm, hr⟩ := h sh' he free fault o r sh'' tx' hx
    exact ⟨hm, fun hi => WP.bind_closed hk hi (hr hi)⟩

theorem WP.mono {Q Q' : α → Option (Tx D) → Shared D S.Op → Prop}
    (hq : ∀ a tx sh, P.Inv sh → Q a tx sh → Q' a tx sh) :
    ∀ {p : Code D α} {tx : Option (Tx D)} {sh : Shared D S.Op},
      P.WP κ i op Q p tx sh → P.WP κ i op Q' p tx sh
  | .pure a, tx, _, h => fun sh' he => hq a tx sh' he.inv (h sh' he)
  | .cmd c k, _, _, h => by
    intro sh' he free fault o r sh'' tx' hx
    obtain ⟨hm, hr⟩ := h sh' he free fault o r sh'' tx' hx
    exact ⟨hm, fun hi => WP.mono hq (hr hi)⟩

/-- Where a program ends can be reached from where it began. -/
theorem WP.reaches {Q : α → Option (Tx D) → Shared D S.Op → Prop} {b : Shared D S.Op} :
    ∀ {p : Code D α} {tx : Option (Tx D)} {sh : Shared D S.Op}, P.Reaches κ b sh →
      P.WP κ i op Q p tx sh → P.WP κ i op (fun a tx sh => P.Reaches κ b sh ∧ Q a tx sh) p tx sh
  | .pure _, _, _, hr, h => fun sh' he => ⟨hr.trans he.reaches, h sh' he⟩
  | .cmd c k, _, _, hr, h => by
    intro sh' he free fault o r sh'' tx' hx
    obtain ⟨hm, hk⟩ := h sh' he free fault o r sh'' tx' hx
    refine ⟨hm, fun hi => WP.reaches (hr.trans (he.reaches.trans ⟨?_, hi⟩)) (hk hi)⟩
    rcases hm with rfl | hm
    · exact .refl
    · exact .single hm

/-! ## Soundness -/

/-- What has to be proved of a service. -/
structure Sound (P : Protocol S) : Prop where
  inv_move : ∀ {κ sh sh'}, P.Inv sh → P.Move κ sh sh' → P.Inv sh'
  inv_reboot : ∀ {sh}, P.Inv sh → P.Inv { sh with mem := S.reboot sh.mem }
  post_move : ∀ {κ κ₀ i op a sh sh'}, P.Inv sh → P.Post κ₀ i op a sh → P.Move κ sh sh' →
    P.Post κ₀ i op a sh'
  post_reboot : ∀ {κ i op a sh}, P.Inv sh → P.Post κ i op a sh →
    P.Post κ i op a { sh with mem := S.reboot sh.mem }
  code : ∀ {κ i op sh}, P.Inv sh →
    P.WP κ i op (fun a _ sh => P.Post κ i op a sh) (S.code κ op) none sh

/-- The machine that makes one whole legal commit at a time. -/
inductive Whole (P : Protocol S) (π : Policy S) :
    S.Conf × Shared D S.Op → S.Conf × Shared D S.Op → Prop where
  | commit {κ : S.Conf} {sh : Shared D S.Op} (c : Commit D S.Op) (hb : c.before = sh.db)
      (hl : P.Legal κ sh c) (hp : π.commit sh c) : Whole P π (κ, sh) (κ, sh.push c)
  | mem {κ : S.Conf} {sh : Shared D S.Op} (m : D.Mem) (hm : S.MemStep sh.mem m) :
      Whole P π (κ, sh) (κ, { sh with mem := m })
  | reboot {κ κ' : S.Conf} {sh : Shared D S.Op} (hp : π.reboot κ κ') :
      Whole P π (κ, sh) (κ', { sh with mem := S.reboot sh.mem })

end Protocol

/-- What is true of the running service between any two steps. -/
structure Sys.Good (P : Protocol S) (s : Sys S) : Prop where
  inv : P.Inv s.shared
  live : ∀ i ss, s.live i = some ss → i < s.next ∧
    P.WP s.conf i ss.op (fun a _ sh => P.Post s.conf i ss.op a sh) ss.code ss.tx s.shared
  disjoint : ∀ i j, i ≠ j → ∀ r ∈ locksOf (s.txOf i), r ∉ locksOf (s.txOf j)
  answers : ∀ a ∈ s.answers, P.Post a.conf a.call a.op a.ans s.shared

namespace Sys

variable {P : Protocol S} {π : Policy S}

@[simp] theorem txOf_setLive (s : Sys S) (i j : CallId) (x : Option (Session S)) :
    (s.setLive i x).txOf j = if j = i then x.bind Session.tx else s.txOf j := by
  unfold txOf setLive
  by_cases h : j = i
  · subst h
    simp
  · simp [h]

theorem txOf_of_live {s : Sys S} {i : CallId} {ss : Session S} (h : s.live i = some ss) :
    s.txOf i = ss.tx := by rw [txOf, h]; rfl

/-- `free` is what it says. -/
theorem notMem_locks_of_free {s : Sys S} {i j : CallId} {r : D.Row} (h : s.free i r = true)
    (hj : j ≠ i) (hlt : ∀ ss, s.live j = some ss → j < s.next) : r ∉ locksOf (s.txOf j) := by
  cases hl : s.live j with
  | none => simp [txOf, hl]
  | some ss =>
    have hmem := (List.all_eq_true.mp h) j (List.mem_range.mpr (hlt ss hl))
    rcases Bool.or_eq_true .. |>.mp hmem with h1 | h1
    · exact absurd (by simpa using h1) hj
    · simpa using h1

/-- What one command of call `i` does to the locks and to the shared contents: every lock it
    holds afterwards it held before or found free, and it writes only such rows. -/
theorem execCmd_locks {free : D.Row → Bool} {i : CallId} {op : S.Op} {fault : Fault}
    {o : D.Oracle} {sh sh' : Shared D S.Op} {tx tx' : Option (Tx D)} {c : Cmd D} {r : c.Reply}
    (h : execCmd free i op fault o sh tx c = some (r, sh', tx')) :
    (∀ row ∈ locksOf tx', row ∈ locksOf tx ∨ free row = true) ∧
      (∀ row, row ∉ locksOf tx → free row = false → D.get sh'.db row = D.get sh.db row) := by
  have hcommit : ∀ t : Tx D, ∀ row, row ∉ t.locks →
      D.get (sh.commit i op t).db row = D.get sh.db row := fun t row hr =>
    get_applyWrites_of_notMem fun hm => hr (List.mem_append_right _ hm)
  cases c with
  | begin =>
    simp only [execCmd] at h
    split at h <;> obtain ⟨-, rfl, rfl⟩ := by simpa using h
    · exact ⟨fun row hr => absurd hr (by simp), fun _ _ _ => rfl⟩
    · exact ⟨fun row hr => absurd hr (by simp), fun _ _ _ => rfl⟩
  | commit =>
    cases tx with
    | none =>
      obtain ⟨-, rfl, rfl⟩ := by simpa [execCmd] using h
      exact ⟨fun row hr => absurd hr (by simp), fun _ _ _ => rfl⟩
    | some t =>
      cases fault <;> obtain ⟨-, rfl, rfl⟩ := by simpa [execCmd] using h
      · exact ⟨fun row hr => absurd hr (by simp), fun row hr _ => hcommit t row hr⟩
      · exact ⟨fun row hr => absurd hr (by simp), fun _ _ _ => rfl⟩
      · exact ⟨fun row hr => absurd hr (by simp), fun row hr _ => hcommit t row hr⟩
  | rollback =>
    obtain ⟨rfl, rfl⟩ := by simpa [execCmd] using h
    exact ⟨fun row hr => absurd hr (by simp), fun _ _ _ => rfl⟩
  | ext e =>
    simp only [execCmd, Option.map_eq_some_iff] at h
    obtain ⟨rm, -, hrm⟩ := h
    obtain ⟨-, rfl, rfl⟩ := by simpa using hrm
    exact ⟨fun row hr => Or.inl hr, fun _ _ _ => rfl⟩
  | stmt s =>
    cases tx with
    | some t =>
      simp only [execCmd, execStmt] at h
      split at h
      · obtain ⟨-, rfl, rfl⟩ := by simpa using h
        exact ⟨fun row hr => absurd hr (by simp), fun _ _ _ => rfl⟩
      · split at h
        · rename_i hen
          split at h
          · obtain ⟨-, rfl, rfl⟩ := by simpa using h
            exact ⟨fun row hr => absurd hr (by simp), fun _ _ _ => rfl⟩
          · rename_i a ws hres
            obtain ⟨-, rfl, rfl⟩ := by simpa using h
            refine ⟨fun row hr => ?_, fun _ _ _ => rfl⟩
            rw [Effect.enabled, Bool.and_eq_true, hres] at hen
            rcases Tx.mem_locks_push.mp hr with h1 | h1 | h1
            · exact Or.inl h1
            · exact Or.inr (List.all_eq_true.mp hen.1 row h1)
            · obtain ⟨w, hw, rfl⟩ := List.mem_map.mp h1
              exact Or.inr (List.all_eq_true.mp hen.2 w hw)
        · exact absurd h (by simp)
    | none =>
      simp only [execCmd, execStmt] at h
      split at h
      · obtain ⟨-, rfl, rfl⟩ := by simpa using h
        exact ⟨fun row hr => absurd hr (by simp), fun _ _ _ => rfl⟩
      · split at h
        · rename_i hen
          split at h
          · obtain ⟨-, rfl, rfl⟩ := by simpa using h
            exact ⟨fun row hr => absurd hr (by simp), fun _ _ _ => rfl⟩
          · rename_i a ws hres
            simp only [Option.some.injEq, Prod.mk.injEq] at h
            obtain ⟨-, rfl, rfl⟩ := h
            refine ⟨fun row hr => absurd hr (by simp), fun row _ hf => ?_⟩
            rw [Effect.enabled, Bool.and_eq_true, hres] at hen
            split
            · rfl
            · refine get_applyWrites_of_notMem fun hm => ?_
              obtain ⟨w, hw, rfl⟩ := List.mem_map.mp hm
              have := List.all_eq_true.mp hen.2 w (by simpa [Tx.push, Tx.empty] using hw)
              rw [hf] at this
              exact absurd this (by simp)
        · exact absurd h (by simp)

/-- A row somebody else holds is not free. -/
theorem Good.free_eq_false {s : Sys S} (hg : s.Good P) {i j : CallId} (hj : j ≠ i) {r : D.Row}
    (hr : r ∈ locksOf (s.txOf j)) : s.free i r = false := by
  by_contra hf
  exact notMem_locks_of_free (by simpa using hf) hj
    (fun ss hl => (hg.live j ss hl).1) hr

/-- Call `i` made a move that the others may rely on; they go on undisturbed. -/
theorem Good.env_other {s : Sys S} (hg : s.Good P) {i j : CallId} (hj : j ≠ i)
    {sh : Shared D S.Op} (hm : P.Reaches s.conf s.shared sh)
    (hf : ∀ row, row ∉ locksOf (s.txOf i) → s.free i row = false →
      D.get sh.db row = D.get s.shared.db row) :
    P.Env s.conf (s.txOf j) s.shared sh :=
  ⟨hm.moves, hm.inv, fun r hr =>
    hf r (hg.disjoint j i hj r hr) (hg.free_eq_false hj hr)⟩

/-- The state after call `i` went on as `x`, having taken only free locks. -/
theorem Good.update {s : Sys S} (hg : s.Good P) (hS : P.Sound) {i : CallId} (hi : i < s.next)
    {x : Option (Session S)} {sh : Shared D S.Op}
    (hm : sh = s.shared ∨ P.Move s.conf s.shared sh)
    (hf : ∀ row, row ∉ locksOf (s.txOf i) → s.free i row = false →
      D.get sh.db row = D.get s.shared.db row)
    (hl : ∀ row ∈ locksOf (x.bind Session.tx), row ∈ locksOf (s.txOf i) ∨ s.free i row = true)
    (hx : P.Inv sh → ∀ ss, x = some ss →
      P.WP s.conf i ss.op (fun a _ sh => P.Post s.conf i ss.op a sh) ss.code ss.tx sh) :
    ({ s.setLive i x with shared := sh } : Sys S).Good P := by
  have hinv : P.Inv sh := by
    rcases hm with rfl | hm
    · exact hg.inv
    · exact hS.inv_move hg.inv hm
  have hreach : P.Reaches s.conf s.shared sh := by
    rcases hm with rfl | hm
    · exact ⟨.refl, hinv⟩
    · exact ⟨.single hm, hinv⟩
  have htx : ∀ j, Sys.txOf ({ s.setLive i x with shared := sh } : Sys S) j =
      if j = i then x.bind Session.tx else s.txOf j := fun j => txOf_setLive s i j x
  refine ⟨hinv, fun j ss hj => ?_, fun j k hjk r hr => ?_, fun a ha => ?_⟩
  · by_cases hji : j = i
    · subst hji
      have hxs : x = some ss := by simpa [setLive] using hj
      exact ⟨hi, hx hinv ss hxs⟩
    · have hjs : s.live j = some ss := by simpa [setLive, hji] using hj
      have henv := hg.env_other hji hreach hf
      rw [txOf_of_live hjs] at henv
      exact ⟨(hg.live j ss hjs).1, (hg.live j ss hjs).2.env henv⟩
  · rw [htx] at hr ⊢
    by_cases hji : j = i
    · subst hji
      rw [if_pos rfl] at hr
      rw [if_neg (Ne.symm hjk)]
      rcases hl r hr with h1 | h1
      · exact hg.disjoint j k hjk r h1
      · exact fun hk => absurd (hg.free_eq_false (Ne.symm hjk) hk) (by simp [h1])
    · rw [if_neg hji] at hr
      by_cases hki : k = i
      · subst hki
        rw [if_pos rfl]
        intro hk
        rcases hl r hk with h1 | h1
        · exact hg.disjoint k j (Ne.symm hjk) r h1 hr
        · exact absurd (hg.free_eq_false hji hr) (by simp [h1])
      · rw [if_neg hki]
        exact hg.disjoint j k hjk r hr
  · rcases hm with rfl | hm
    · exact hg.answers a ha
    · exact hS.post_move hg.inv (hg.answers a ha) hm

/-- A change of memory alone. -/
theorem Good.mem_step {s : Sys S} (hg : s.Good P) (hS : P.Sound) {m : D.Mem}
    (hm : S.MemStep s.shared.mem m) :
    ({ s with shared := { s.shared with mem := m } } : Sys S).Good P := by
  have hmove : P.Move s.conf s.shared { s.shared with mem := m } := .mem m hm
  refine ⟨hS.inv_move hg.inv hmove, fun j ss hj => ⟨(hg.live j ss hj).1, ?_⟩, hg.disjoint,
    fun a ha => hS.post_move hg.inv (hg.answers a ha) hmove⟩
  exact (hg.live j ss hj).2.env
    ⟨.single hmove, hS.inv_move hg.inv hmove, fun _ _ => rfl⟩

/-- **One step of the service is at most one move of the whole-commit machine**, and what
    is true between steps stays true. -/
theorem Good.step {s s' : Sys S} (hg : s.Good P) (hS : P.Sound) {e : Event S}
    (h : s.step e = some s') (hπ : π.Allows s e s') :
    s'.Good P ∧ ReflGen (P.Whole π) (s.conf, s.shared) (s'.conf, s'.shared) := by
  cases e with
  | start op =>
    simp only [Sys.step, Option.map_eq_some_iff] at h
    obtain ⟨m, hent, rfl⟩ := h
    have hmem : S.MemStep s.shared.mem m := Or.inr ⟨op, hent⟩
    have hg' := hg.mem_step hS hmem
    have hfresh : s.live s.next = none := by
      cases hl : s.live s.next with
      | none => rfl
      | some ss => exact absurd (hg.live _ ss hl).1 (Nat.lt_irrefl _)
    refine ⟨⟨hg'.inv, fun j ss hj => ?_, fun j k hjk r hr => ?_, hg'.answers⟩,
      .single (.mem m hmem)⟩
    · by_cases hjn : j = s.next
      · subst hjn
        obtain rfl : (⟨op, S.code s.conf op, none⟩ : Session S) = ss := by simpa using hj
        exact ⟨Nat.lt_succ_self _, hS.code hg'.inv⟩
      · have hjs : s.live j = some ss := by simpa [hjn] using hj
        exact ⟨Nat.lt_succ_of_lt (hg.live j ss hjs).1, (hg'.live j ss hjs).2⟩
    · have htx : ∀ j, Sys.txOf (⟨s.conf, { s.shared with mem := m }, s.next + 1,
          Function.update s.live s.next (some ⟨op, S.code s.conf op, none⟩), s.answers⟩ : Sys S) j
            = s.txOf j := by
        intro j
        unfold Sys.txOf
        by_cases hjn : j = s.next
        · subst hjn
          simp [hfresh]
        · simp [hjn]
      rw [htx] at hr ⊢
      exact hg.disjoint j k hjk r hr
  | step i fault o =>
    simp only [Sys.step] at h
    split at h
    · exact absurd h (by simp)
    · rename_i op a tx hl
      obtain rfl := Option.some.inj h
      refine ⟨?_, .refl⟩
      have hup := hg.update hS (x := none) (hg.live i _ hl).1 (Or.inl rfl)
        (fun _ _ _ => rfl) (fun row hr => absurd hr (by simp)) (fun _ ss hss => by simp at hss)
      refine ⟨hup.inv, hup.live, hup.disjoint, fun b hb => ?_⟩
      rcases List.mem_cons.mp hb with rfl | hb
      · exact (hg.live i _ hl).2 _ (.refl hg.inv)
      · exact hup.answers b hb
    · rename_i op c k tx hl
      simp only [Option.map_eq_some_iff] at h
      obtain ⟨⟨r, sh', tx'⟩, hx, rfl⟩ := h
      obtain ⟨hilt, hwp⟩ := hg.live i _ hl
      obtain ⟨hm, hk⟩ := hwp s.shared (.refl hg.inv) _ fault o r sh' tx' hx
      obtain ⟨hlocks, hframe⟩ := execCmd_locks hx
      refine ⟨hg.update hS hilt hm ?_ ?_ ?_, ?_⟩
      · rw [txOf_of_live hl]
        exact hframe
      · rw [txOf_of_live hl]
        exact hlocks
      · rintro hi ss hss
        obtain rfl := Option.some.inj hss
        exact hk hi
      · rcases hm with rfl | hm
        · exact .refl
        · cases hm with
          | commit c hb hlg => exact .single (.commit c hb hlg (hπ.commit c rfl))
          | mem m hm => exact .single (.mem m hm)
  | drop i =>
    obtain rfl := Option.some.inj h
    refine ⟨?_, .refl⟩
    by_cases hl : s.live i = none
    · have hs : s.setLive i none = s := by
        have hu : Function.update s.live i none = s.live := by rw [← hl, Function.update_eq_self]
        simp only [setLive, hu]
      rw [hs]
      exact hg
    · obtain ⟨ss, hl⟩ := Option.ne_none_iff_exists'.mp hl
      exact hg.update hS (x := none) (hg.live i ss hl).1 (Or.inl rfl)
        (fun _ _ _ => rfl) (fun row hr => absurd hr (by simp)) (fun _ ss hss => by simp at hss)
  | crash κ =>
    obtain rfl := Option.some.inj h
    refine ⟨⟨hS.inv_reboot hg.inv, fun j ss hj => by simp at hj, fun j k _ r hr => ?_,
      fun a ha => hS.post_reboot hg.inv (hg.answers a ha)⟩, .single (.reboot (hπ.reboot κ rfl))⟩
    exact absurd hr (by simp [txOf])

theorem good_init {κ : S.Conf} {db : D.Db} {mem : D.Mem} (h : P.Inv ⟨db, mem, []⟩) :
    (Sys.init κ db mem : Sys S).Good P :=
  ⟨h, fun _ _ hj => by simp [init] at hj, fun j _ _ r hr => absurd hr (by simp [txOf, init]),
    fun _ ha => by simp [init] at ha⟩

/-- **A run of the service refines a run of the whole-commit machine.** -/
theorem Good.steps {s s' : Sys S} (hg : s.Good P) (hS : P.Sound) (h : Sys.Steps π s s') :
    s'.Good P ∧ ReflTransGen (P.Whole π) (s.conf, s.shared) (s'.conf, s'.shared) := by
  induction h with
  | refl => exact ⟨hg, .refl⟩
  | tail _ hstep ih =>
    obtain ⟨e, he, hπ⟩ := hstep
    obtain ⟨hgood, hw⟩ := ih.1.step hS he hπ
    exact ⟨hgood, ih.2.trans hw.to_reflTransGen⟩

/-- Whatever a step commits is legal where it is committed. -/
theorem Good.legal {s s' : Sys S} (hg : s.Good P) (hS : P.Sound) {e : Event S}
    (h : s.step e = some s') {c : Commit D S.Op} (hc : s'.shared.hist = c :: s.shared.hist) :
    P.Legal s.conf s.shared c ∧ c.before = s.shared.db ∧ s'.shared.db = c.after := by
  obtain ⟨-, hwhole⟩ := hg.step hS h (Policy.any_allows _ _ _)
  generalize hx : (s.conf, s.shared) = x at hwhole
  generalize hy : (s'.conf, s'.shared) = y at hwhole
  cases hwhole with
  | refl =>
    obtain ⟨-, heq⟩ := Prod.mk.inj (hx.trans hy.symm)
    exact absurd (congrArg List.length (congrArg Shared.hist heq)) (by simp [hc])
  | single hw =>
    cases hw with
    | commit c' hb hl hp =>
      obtain ⟨rfl, rfl⟩ := Prod.mk.inj hx
      obtain ⟨-, heq⟩ := Prod.mk.inj hy
      rw [heq, Shared.push_hist] at hc
      obtain rfl : c' = c := (List.cons.inj hc).1
      exact ⟨hl, hb, by rw [heq, Shared.push_db]⟩
    | mem m hm =>
      obtain ⟨-, rfl⟩ := Prod.mk.inj hx
      obtain ⟨-, heq⟩ := Prod.mk.inj hy
      exact absurd (congrArg List.length (congrArg Shared.hist heq)) (by simp [hc])
    | reboot hp =>
      obtain ⟨-, rfl⟩ := Prod.mk.inj hx
      obtain ⟨-, heq⟩ := Prod.mk.inj hy
      exact absurd (congrArg List.length (congrArg Shared.hist heq)) (by simp [hc])

/-- What a call in flight is good for beyond its promise: as long as it goes on it keeps any
    `WP` it has, and its answer is good for that too. -/
theorem Good.follow {s s' : Sys S} (hg : s.Good P) (hS : P.Sound) {e : Event S}
    (h : s.step e = some s') (hπ : π.Allows s e s') {i : CallId} {ss : Session S}
    {Q : S.Ans → Option (Tx D) → Shared D S.Op → Prop} (hl : s.live i = some ss)
    (hw : P.WP s.conf i ss.op Q ss.code ss.tx s.shared) :
    (∀ ss', s'.live i = some ss' → s'.conf = s.conf ∧ ss'.op = ss.op ∧
      P.WP s'.conf i ss'.op Q ss'.code ss'.tx s'.shared) ∧
    ∀ a ∈ s'.answers, a.call = i → a ∈ s.answers ∨
      a.op = ss.op ∧ a.conf = s.conf ∧ s'.shared = s.shared ∧ Q a.ans ss.tx s.shared := by
  have hlt := (hg.live i ss hl).1
  cases e with
  | start op =>
    simp only [Sys.step, Option.map_eq_some_iff] at h
    obtain ⟨m, hent, rfl⟩ := h
    have hmem : P.Move s.conf s.shared { s.shared with mem := m } := .mem m (Or.inr ⟨op, hent⟩)
    refine ⟨fun ss' hl' => ?_, fun a ha _ => Or.inl ha⟩
    obtain rfl : ss = ss' := by simpa [Nat.ne_of_lt hlt, hl] using hl'
    exact ⟨rfl, rfl, hw.env ⟨.single hmem, hS.inv_move hg.inv hmem, fun _ _ => rfl⟩⟩
  | drop j =>
    obtain rfl := Option.some.inj h
    refine ⟨fun ss' hl' => ?_, fun a ha _ => Or.inl ha⟩
    change Function.update s.live j none i = some ss' at hl'
    by_cases hij : i = j
    · exact absurd hl' (by simp [hij])
    · obtain rfl : ss = ss' := by simpa [hij, hl] using hl'
      exact ⟨rfl, rfl, hw⟩
  | crash κ =>
    obtain rfl := Option.some.inj h
    exact ⟨fun _ hl' => absurd hl' (by simp), fun a ha _ => Or.inl ha⟩
  | step j fault o =>
    simp only [Sys.step] at h
    split at h
    · exact absurd h (by simp)
    · rename_i op b tx hlj
      obtain rfl := Option.some.inj h
      refine ⟨fun ss' hl' => ?_, fun a ha hai => ?_⟩
      · change Function.update s.live j none i = some ss' at hl'
        by_cases hij : i = j
        · exact absurd hl' (by simp [hij])
        · obtain rfl : ss = ss' := by simpa [hij, hl] using hl'
          exact ⟨rfl, rfl, hw⟩
      · rcases List.mem_cons.mp ha with rfl | ha
        · subst hai
          obtain rfl := Option.some.inj (hl.symm.trans hlj)
          exact Or.inr ⟨rfl, rfl, rfl, hw s.shared (.refl hg.inv)⟩
        · exact Or.inl ha
    · rename_i op c k tx hlj
      obtain ⟨⟨r, sh, tx'⟩, hx, rfl⟩ := Option.map_eq_some_iff.mp h
      refine ⟨fun ss' hl' => ?_, fun a ha _ => Or.inl ha⟩
      change Function.update s.live j (some ⟨op, k r, tx'⟩) i = some ss' at hl'
      by_cases hij : i = j
      · subst hij
        obtain rfl := Option.some.inj (hl.symm.trans hlj)
        obtain rfl : (⟨op, k r, tx'⟩ : Session S) = ss' := by simpa using hl'
        obtain ⟨hm, hk⟩ := hw s.shared (.refl hg.inv) _ fault o r sh tx' hx
        have hinv : P.Inv sh := by
          rcases hm with rfl | hm
          · exact hg.inv
          · exact hS.inv_move hg.inv hm
        exact ⟨rfl, rfl, hk hinv⟩
      · obtain rfl : ss = ss' := by simpa [hij, hl] using hl'
        -- Somebody else moved, as this call allows for.
        obtain ⟨hm, -⟩ := (hg.live j _ hlj).2 s.shared (.refl hg.inv) _ fault o r sh tx' hx
        have hreach : P.Reaches s.conf s.shared sh := by
          rcases hm with rfl | hm
          · exact ⟨.refl, hg.inv⟩
          · exact ⟨.single hm, hS.inv_move hg.inv hm⟩
        have henv := hg.env_other hij hreach fun row hrow hfree => by
          rw [txOf_of_live hlj] at hrow
          exact (execCmd_locks hx).2 row hrow hfree
        rw [txOf_of_live hl] at henv
        exact ⟨rfl, rfl, hw.env henv⟩

/-- Only calls that have begun can have a transaction open. -/
theorem Good.quiescent {s : Sys S} (hg : s.Good P)
    (h : ∀ i < s.next, (s.txOf i).isNone = true) : s.Quiescent := by
  intro i
  cases hl : s.live i with
  | none => rw [txOf, hl]; rfl
  | some ss => exact Option.isNone_iff_eq_none.mp (h i (hg.live i ss hl).1)

/-- An invariant of the whole-commit machine is an invariant of the service. -/
theorem Good.invariant {s s' : Sys S} (hg : s.Good P) (hS : P.Sound) (h : Sys.Steps π s s')
    {J : S.Conf × Shared D S.Op → Prop} (h0 : J (s.conf, s.shared))
    (hJ : ∀ {x y}, P.Inv x.2 → J x → P.Whole π x y → J y) : J (s'.conf, s'.shared) := by
  have hinv : ∀ {x y}, P.Inv x.2 → P.Whole π x y → P.Inv y.2 := by
    intro x y hx hw
    cases hw with
    | commit c hb hl _ => exact hS.inv_move hx (.commit c hb hl)
    | @mem κ sh m hm =>
      have hmove : P.Move κ sh { sh with mem := m } := .mem m hm
      exact hS.inv_move hx hmove
    | reboot _ => exact hS.inv_reboot hx
  have hboth : ∀ {y}, ReflTransGen (P.Whole π) (s.conf, s.shared) y → P.Inv y.2 ∧ J y := by
    intro y hy
    induction hy with
    | refl => exact ⟨hg.inv, h0⟩
    | tail _ hw ih => exact ⟨hinv ih.1 hw, hJ ih.1 ih.2 hw⟩
  exact (hboth (hg.steps hS h).2).2

end Sys

end Lib
