import Digicash.Auth

/-!
# Nonces

Both servers keep the nonces they have seen in a table, with the time each one expires, and
both purge it now and then. What happens to such a table is a short story in itself: a request
is accepted and its nonce recorded, or expired nonces go. `NonceMove` is that story, one
commit at a time, and `Remembers` is what it preserves.

A request is accepted while its timestamp is within 60 seconds of the clock, and its nonce is
remembered for 120 seconds from then. The two just fail to overlap. A timestamp 60 seconds
ahead is still in the window 120 seconds after it was accepted, when its nonce has just
expired; and a call that read the clock before that instant can reach the table after a purge
that read it later. `timely` rules out both, and nothing else.
-/

namespace Digicash

open Lib

/-- Two presentations of one signed request. -/
def Request.Same (r r' : Request) : Prop :=
  r.method = r'.method ∧ r.path = r'.path ∧ r.body = r'.body ∧
    AuthHeaders.fromLookup r.header = AuthHeaders.fromLookup r'.header

instance : DecidableEq (Except AuthHeaderError AuthHeaders)
  | .ok a, .ok b => decidable_of_iff (a = b) (by simp)
  | .error a, .error b => decidable_of_iff (a = b) (by simp)
  | .ok _, .error _ => isFalse (by simp)
  | .error _, .ok _ => isFalse (by simp)

instance (r r' : Request) : Decidable (r.Same r') := inferInstanceAs (Decidable (_ ∧ _))

theorem Request.Same.symm {r r' : Request} (h : r.Same r') : r'.Same r :=
  ⟨h.1.symm, h.2.1.symm, h.2.2.1.symm, h.2.2.2.symm⟩

theorem Request.Same.trans {r r' r'' : Request} (h : r.Same r') (h' : r'.Same r'') :
    r.Same r'' :=
  ⟨h.1.trans h'.1, h.2.1.trans h'.2.1, h.2.2.1.trans h'.2.2.1, h.2.2.2.trans h'.2.2.2⟩

theorem Request.Same.readHeaders_eq {r r' : Request} (h : r.Same r') :
    readHeaders r = readHeaders r' := by
  unfold readHeaders
  rw [h.2.2.1, h.2.2.2]

/-! ## Events -/

/-- What a commit is to the nonces: a request accepted at a reading of the clock, or a purge
    at one. -/
inductive NonceEvent where
  | accept (request : Request) (now : Int)
  | purge (now : Int)

/-- The request may be accepted at `now` after the events `older`, to which `newer` have been
    added since: no acceptance of the same request among `older` stops being remembered at
    `now`, or was purged ahead of time. -/
def timelyAfter (request : Request) (now : Int) (newer : List NonceEvent) :
    List NonceEvent → Bool
  | [] => true
  | .purge p :: older => timelyAfter request now (.purge p :: newer) older
  | .accept r now₁ :: older =>
    (!decide (r.Same request) || decide (now ≠ now₁ + 120) && (decide (now₁ + 120 < now) ||
      newer.all fun e =>
        match e with
        | .purge p => decide (p < now₁ + 120)
        | .accept _ _ => true)) && timelyAfter request now (.accept r now₁ :: newer) older

/-- `timelyAfter` for a log, newest event first. -/
def timely (request : Request) (now : Int) (log : List NonceEvent) : Bool :=
  timelyAfter request now [] log

theorem timelyAfter_append {request r : Request} {now now₁ : Int} {older : List NonceEvent} :
    ∀ {mid newer : List NonceEvent},
      timelyAfter request now newer (mid ++ .accept r now₁ :: older) = true → r.Same request →
        now ≠ now₁ + 120 ∧ (now < now₁ + 120 →
          ∀ p, .purge p ∈ newer ∨ .purge p ∈ mid → p < now₁ + 120) := by
  intro mid
  induction mid with
  | nil =>
    intro newer h hsame
    simp only [List.nil_append, timelyAfter, Bool.and_eq_true, Bool.or_eq_true, Bool.not_eq_true',
      decide_eq_false_iff_not, decide_eq_true_eq, List.all_eq_true] at h
    obtain ⟨hne, hpurges⟩ := h.1.resolve_left (fun hn => hn hsame)
    refine ⟨hne, fun hlt p hp => ?_⟩
    have hall := hpurges.resolve_left (by omega)
    simpa using hall _ (hp.resolve_right (by simp))
  | cons e mid ih =>
    intro newer h hsame
    -- Either way the event moves over to the newer ones.
    have htail : timelyAfter request now (e :: newer) (mid ++ .accept r now₁ :: older) = true := by
      cases e with
      | purge p => exact h
      | accept r' now' =>
        simp only [List.cons_append, timelyAfter, Bool.and_eq_true] at h
        exact h.2
    obtain ⟨hne, hpurges⟩ := ih htail hsame
    refine ⟨hne, fun hlt p hp => hpurges hlt p ?_⟩
    simp only [List.mem_cons] at hp ⊢
    tauto

/-! ## The store -/

/-- One commit, as the nonces see it. -/
inductive NonceMove : Table String Int → Option NonceEvent → Table String Int → Prop where
  | accept {t : Table String Int} {request : Request} {auth : AuthHeaders} {clock : UInt64}
      {now expiry : Int} (hauth : readHeaders request = .ok auth)
      (hwindow : outsideWindow auth.timestamp clock = false) (hnow : i64TryFrom clock = some now)
      (hexpiry : i64TryFrom (saturatingAdd clock nonceTtlSecs) = some expiry)
      (hfree : ∀ expiresAt, t.lookup auth.nonce = some expiresAt → expiresAt ≤ now) :
      NonceMove t (some (.accept request now)) (t.put auth.nonce (some expiry))
  | purge {t : Table String Int} {now : Int} {expired : List String}
      (hexpired : ∀ n, n ∈ expired ↔ ∃ expiresAt ≤ now, t.lookup n = some expiresAt) :
      NonceMove t (some (.purge now)) (t.eraseAll expired)
  | other {t : Table String Int} : NonceMove t none t

/-- The window, without the saturation. -/
theorem within_window {timestamp clock : UInt64} (h : outsideWindow timestamp clock = false) :
    clock.toNat ≤ timestamp.toNat + 60 ∧ timestamp.toNat ≤ clock.toNat + 60 := by
  have h60 : maxTimestampSkewSecs.toNat = 60 := rfl
  simp only [outsideWindow, Bool.or_eq_false_iff, decide_eq_false_iff_not, UInt64.lt_iff_toNat_lt,
    toNat_saturatingAdd, h60] at h
  omega

theorem expiry_eq {clock : UInt64} {now expiry : Int} (hnow : i64TryFrom clock = some now)
    (hexpiry : i64TryFrom (saturatingAdd clock nonceTtlSecs) = some expiry) :
    expiry = now + 120 := by
  have h120 : nonceTtlSecs.toNat = 120 := rfl
  obtain ⟨rfl, hle⟩ := i64TryFrom_eq_some hnow
  obtain ⟨rfl, -⟩ := i64TryFrom_eq_some hexpiry
  rw [toNat_saturatingAdd, h120]
  unfold i64Max at hle
  unfold u64Max
  omega

/-- The two are not acceptances of one request. -/
def NonceEvent.Apart (e e' : NonceEvent) : Prop :=
  ∀ r now r' now', e = .accept r now → e' = .accept r' now' → ¬ r.Same r'

theorem NonceEvent.Apart.symm {e e' : NonceEvent} (h : e.Apart e') : e'.Apart e :=
  fun r now r' now' he he' hsame => h r' now' r now he' he hsame.symm

/-- **What the store remembers of its log.** -/
structure Remembers (t : Table String Int) (log : List NonceEvent) : Prop where
  window : ∀ r (now : Int), .accept r now ∈ log → ∃ auth, readHeaders r = .ok auth ∧
    now ≤ auth.timestamp.toNat + 60 ∧ (auth.timestamp.toNat : Int) ≤ now + 60
  /-- The nonce of a request that was accepted is there until something purges 120 seconds
      later. -/
  kept : ∀ newer r now older auth, log = newer ++ .accept r now :: older →
    readHeaders r = .ok auth → (∀ p, .purge p ∈ newer → p < now + 120) →
      ∃ expiresAt, t.lookup auth.nonce = some expiresAt ∧ now + 120 ≤ expiresAt
  once : log.Pairwise NonceEvent.Apart

theorem Remembers.empty : Remembers ∅ [] :=
  ⟨fun _ _ h => absurd h (by simp), fun newer r now older _ h => absurd h (by simp), .nil⟩

/-- **No request is accepted twice in time.** -/
theorem Remembers.fresh {t : Table String Int} {log : List NonceEvent} (h : Remembers t log)
    {request : Request} {auth : AuthHeaders} {now : Int} (hauth : readHeaders request = .ok auth)
    (hwindow : now ≤ auth.timestamp.toNat + 60)
    (hfree : ∀ expiresAt, t.lookup auth.nonce = some expiresAt → expiresAt ≤ now)
    (htimely : timely request now log = true) {r : Request} {now₁ : Int}
    (hmem : .accept r now₁ ∈ log) : ¬ r.Same request := by
  intro hsame
  obtain ⟨newer, older, rfl⟩ := List.append_of_mem hmem
  obtain ⟨auth₁, hauth₁, -, hahead⟩ := h.window r now₁ hmem
  obtain rfl : auth₁ = auth := by
    rw [hsame.readHeaders_eq, hauth] at hauth₁
    exact (Except.ok.inj hauth₁).symm
  obtain ⟨hne, hpurges⟩ := timelyAfter_append htimely hsame
  have hlt : now < now₁ + 120 := by omega
  obtain ⟨expiresAt, hrow, hlate⟩ := h.kept newer r now₁ older auth₁ rfl hauth₁
    fun p hp => hpurges hlt p (Or.inr hp)
  have := hfree expiresAt hrow
  omega

/-- An acceptance under a nonce that is free extends every row it overwrites. -/
theorem lookup_accept {t : Table String Int} {n : String} {now : Int}
    (hfree : ∀ expiresAt, t.lookup n = some expiresAt → expiresAt ≤ now) {m : String} {e : Int}
    (hrow : t.lookup m = some e) :
    ∃ e', (t.put n (some (now + 120))).lookup m = some e' ∧ e ≤ e' := by
  by_cases hm : m = n
  · subst hm
    have := hfree e hrow
    exact ⟨now + 120, Table.lookup_put_self _ _ _, by omega⟩
  · exact ⟨e, (Table.lookup_put_ne hm).trans hrow, Int.le_refl e⟩

theorem Remembers.accept {t : Table String Int} {log : List NonceEvent} (h : Remembers t log)
    {request : Request} {auth : AuthHeaders} {clock : UInt64} {now expiry : Int}
    (hauth : readHeaders request = .ok auth)
    (hwindow : outsideWindow auth.timestamp clock = false) (hnow : i64TryFrom clock = some now)
    (hexpiry : i64TryFrom (saturatingAdd clock nonceTtlSecs) = some expiry)
    (hfree : ∀ expiresAt, t.lookup auth.nonce = some expiresAt → expiresAt ≤ now)
    (htimely : timely request now log = true) :
    Remembers (t.put auth.nonce (some expiry)) (.accept request now :: log) := by
  obtain rfl := expiry_eq hnow hexpiry
  obtain ⟨hbehind, hahead⟩ := within_window hwindow
  have hclock := (i64TryFrom_eq_some hnow).1
  refine ⟨fun r now₁ hmem => ?_, fun newer r now₁ older auth₁ hlog hauth₁ hpurges => ?_, ?_⟩
  · rcases List.mem_cons.mp hmem with heq | hmem
    · obtain ⟨rfl, rfl⟩ := NonceEvent.accept.inj heq
      exact ⟨auth, hauth, by omega, by omega⟩
    · exact h.window r now₁ hmem
  · cases newer with
    | nil =>
      obtain ⟨heq, rfl⟩ := List.cons.inj hlog
      obtain ⟨rfl, rfl⟩ := NonceEvent.accept.inj heq
      obtain rfl : auth = auth₁ := Except.ok.inj (hauth.symm.trans hauth₁)
      exact ⟨now + 120, Table.lookup_put_self _ _ _, Int.le_refl _⟩
    | cons e newer =>
      obtain ⟨-, rfl⟩ := List.cons.inj hlog
      obtain ⟨expiresAt, hrow, hlate⟩ := h.kept newer r now₁ older auth₁ rfl hauth₁
        fun p hp => hpurges p (List.mem_cons_of_mem _ hp)
      obtain ⟨e', hrow', hle⟩ := lookup_accept hfree hrow
      exact ⟨e', hrow', by omega⟩
  · refine List.pairwise_cons.mpr ⟨fun e he r now₁ r' now' heq heq' hsame => ?_, h.once⟩
    obtain ⟨rfl, rfl⟩ := NonceEvent.accept.inj heq
    subst heq'
    exact h.fresh hauth (by omega) hfree htimely he hsame.symm

theorem Remembers.purge {t : Table String Int} {log : List NonceEvent} (h : Remembers t log)
    {now : Int} {expired : List String}
    (hexpired : ∀ n, n ∈ expired ↔ ∃ expiresAt ≤ now, t.lookup n = some expiresAt) :
    Remembers (t.eraseAll expired) (.purge now :: log) := by
  refine ⟨fun r now₁ hmem => ?_, fun newer r now₁ older auth₁ hlog hauth₁ hpurges => ?_, ?_⟩
  · exact h.window r now₁ ((List.mem_cons.mp hmem).resolve_left (by simp))
  · cases newer with
    | nil => exact absurd (List.cons.inj hlog).1 (by simp)
    | cons e newer =>
      obtain ⟨rfl, rfl⟩ := List.cons.inj hlog
      obtain ⟨expiresAt, hrow, hlate⟩ := h.kept newer r now₁ older auth₁ rfl hauth₁
        fun p hp => hpurges p (List.mem_cons_of_mem _ hp)
      have hlt := hpurges now (List.mem_cons_self ..)
      -- The row expires later than the purge, so it stays.
      have hstays : auth₁.nonce ∉ expired := fun hmem => by
        obtain ⟨e', hle, hrow'⟩ := (hexpired _).mp hmem
        rw [hrow] at hrow'
        obtain rfl := Option.some.inj hrow'
        omega
      exact ⟨expiresAt, by rw [Table.lookup_eraseAll, if_neg hstays, hrow], hlate⟩
  · exact List.pairwise_cons.mpr ⟨fun e _ r now₁ r' now' heq => absurd heq (by simp), h.once⟩

/-- The log with one more event, if it is one. -/
def logged (event : Option NonceEvent) (log : List NonceEvent) : List NonceEvent :=
  event.toList ++ log

/-- What a run has to avoid: an acceptance that is not `timely`. -/
def timelyEvent (event : Option NonceEvent) (log : List NonceEvent) : Bool :=
  match event with
  | some (.accept r now) => timely r now log
  | _ => true

/-- **The store keeps remembering**, one commit after the other. -/
theorem Remembers.move {t t' : Table String Int} {log : List NonceEvent}
    {event : Option NonceEvent} (h : Remembers t log) (hm : NonceMove t event t')
    (htimely : timelyEvent event log = true) : Remembers t' (logged event log) := by
  cases hm with
  | accept hauth hwindow hnow hexpiry hfree =>
    exact h.accept hauth hwindow hnow hexpiry hfree htimely
  | purge hexpired => exact h.purge hexpired
  | other => exact h

/-! ## Answers -/

variable {D : Database} {S : Service D}

/-- The events of a history. -/
def nonceLog (event : Commit D S.Op → Option NonceEvent) (hist : List (Commit D S.Op)) :
    List NonceEvent := hist.filterMap event

theorem nonceLog_cons (event : Commit D S.Op → Option NonceEvent) (c : Commit D S.Op)
    (hist : List (Commit D S.Op)) :
    nonceLog event (c :: hist) = logged (event c) (nonceLog event hist) := by
  unfold nonceLog logged
  cases hc : event c with
  | none => rw [List.filterMap_cons_none hc]; rfl
  | some e => rw [List.filterMap_cons_some hc]; rfl

/-- **A service that remembers answers a request at most once.** `accepts` says which answers
    accept the request; each of them stands for a commit of its own. -/
theorem Remembers.answered_once {s : Sys S} (hcalls : s.Calls)
    {event : Commit D S.Op → Option NonceEvent} {t : Table String Int}
    (h : Remembers t (nonceLog event s.shared.hist)) {request : Request} {accepts : Answer S → Bool}
    (hrec : ∀ a ∈ s.answers, accepts a = true → ∃ c ∈ s.shared.hist, c.call = a.call ∧
      ∃ r now, request.Same r ∧ event c = some (.accept r now)) :
    (s.answers.filter accepts).length ≤ 1 := by
  refine hcalls.length_le_one fun a ha b hb hpa hpb => ?_
  obtain ⟨c, hc, hcall, r, now, hsame, hev⟩ := hrec a ha hpa
  obtain ⟨c', hc', hcall', r', now', hsame', hev'⟩ := hrec b hb hpb
  rw [← hcall, ← hcall']
  by_contra hne
  let apart (x y : Commit D S.Op) : Prop :=
    ∀ e, event x = some e → ∀ e', event y = some e' → e.Apart e'
  have hsymm : Std.Symm apart := ⟨fun x y h e he e' he' => (h e' he' e he).symm⟩
  have hpair : s.shared.hist.Pairwise apart := List.pairwise_filterMap.mp h.once
  have hapart : apart c c' := hpair.forall hc hc' fun heq => hne (heq ▸ rfl)
  exact hapart _ hev _ hev' r now r' now' rfl rfl (hsame.symm.trans hsame')

end Digicash
