import Digicash.Lib.Table

/-!
# Stores that forget what has expired

A store that is asked whether a key is fresh, and records it until it expires if it is. Now and
then it deletes what has expired by then. Next to it, a log that only grows, and says a key is
fresh if its latest recording has expired. `Runs.answers` says that the two cannot be told apart
where nobody asks at an instant before one that was seen already.
-/

namespace Lib.Expiring

variable {K T : Type} [DecidableEq K] [LinearOrder T]

/-! ## The store -/

/-- The key is not there, or has expired. -/
def free (t : Table K T) (k : K) (now : T) : Bool := (t.lookup k).all (· ≤ now)

/-- Whoever takes a key that has expired for one that is not there asks whether it is free. -/
theorem eq_ite_free {α : Type} {t : Table K T} {k : K} {now : T} {x a b : α}
    (hnone : t.lookup k = none → x = a)
    (hsome : ∀ e, t.lookup k = some e → x = if e ≤ now then a else b) :
    x = if free t k now then a else b := by
  unfold free
  cases hl : t.lookup k with
  | none => exact hnone hl
  | some e => simpa only [Option.all_some, decide_eq_true_eq] using hsome e hl

theorem le_of_free {t : Table K T} {k : K} {now e : T} (h : free t k now = true)
    (hl : t.lookup k = some e) : e ≤ now := by
  rw [free, hl, Option.all_some] at h
  exact of_decide_eq_true h

/-- Record a key that is free. -/
def record (expires : T → T) (t : Table K T) (k : K) (now : T) : Table K T :=
  if free t k now then t.put k (some (expires now)) else t

/-- Delete what has expired. -/
def purge (t : Table K T) (now : T) : Table K T :=
  t.eraseAll ((t.rows.filter fun r => r.2 ≤ now).map Prod.fst)

theorem mem_expired {t : Table K T} {now : T} {k : K} :
    k ∈ (t.rows.filter fun r => r.2 ≤ now).map Prod.fst ↔ ∃ e ≤ now, t.lookup k = some e := by
  simp only [List.mem_map, List.mem_filter, decide_eq_true_eq, Prod.exists]
  constructor
  · rintro ⟨k', e, ⟨hmem, hle⟩, rfl⟩
    exact ⟨e, hle, Table.mem_rows.mp hmem⟩
  · rintro ⟨e, hle, hl⟩
    exact ⟨k, e, ⟨Table.mem_rows.mpr hl, hle⟩, rfl⟩

theorem lookup_purge (t : Table K T) (now : T) (k : K) :
    (purge t now).lookup k = (t.lookup k).filter fun e => !decide (e ≤ now) := by
  rw [purge, Table.lookup_eraseAll]
  cases hl : t.lookup k with
  | none => split <;> rfl
  | some e =>
    have hmem : k ∈ (t.rows.filter fun r => r.2 ≤ now).map Prod.fst ↔ e ≤ now := by
      rw [mem_expired]
      constructor
      · rintro ⟨e', hle, hl'⟩
        obtain rfl := Option.some.inj (hl'.symm.trans hl)
        exact hle
      · exact fun hle => ⟨e, hle, hl⟩
    by_cases hle : e ≤ now
    · rw [if_pos (hmem.mpr hle), Option.filter_some, if_neg (by simpa using hle)]
    · rw [if_neg fun h => hle (hmem.mp h), Option.filter_some, if_pos (by simpa using hle)]

/-! What is free stays free until it is recorded, and a purge frees only what has expired. -/

section

variable {t : Table K T} {k k' : K} {now now' : T}

theorem free_later (h : free t k now = true) (hle : now ≤ now') : free t k now' = true := by
  unfold free at h ⊢
  cases hl : t.lookup k with
  | none => rfl
  | some e =>
    rw [hl] at h
    exact decide_eq_true ((of_decide_eq_true h).trans hle)

theorem free_purge_of_free (h : free t k now' = true) : free (purge t now) k now' = true := by
  unfold free at h ⊢
  rw [lookup_purge]
  cases hl : t.lookup k with
  | none => rfl
  | some e =>
    rw [hl] at h
    rw [Option.filter_some]
    split
    · exact h
    · rfl

theorem free_purge (hle : now ≤ now') : free (purge t now) k now' = free t k now' := by
  unfold free
  rw [lookup_purge]
  cases hl : t.lookup k with
  | none => rfl
  | some e =>
    rw [Option.filter_some]
    split
    · rfl
    · rename_i hexpired
      have hexpired : e ≤ now := by simpa using hexpired
      exact (decide_eq_true (hexpired.trans hle)).symm

theorem free_record_self {expires : T → T} (h : free t k now = true) :
    free (record expires t k now) k now' = decide (expires now ≤ now') := by
  rw [record, if_pos h, free, Table.lookup_put_self, Option.all_some]

theorem free_record_ne {expires : T → T} (h : k' ≠ k) :
    free (record expires t k now) k' now' = free t k' now' := by
  unfold record
  split
  · rw [free, Table.lookup_put_ne h, free]
  · rfl

/-- After a recording a key is free as before, but for the one that was recorded. -/
theorem free_record {expires : T → T} :
    free (record expires t k now) k' now' =
      if k' = k ∧ free t k now = true then decide (expires now ≤ now') else free t k' now' := by
  by_cases hk : k' = k
  · subst hk
    by_cases h : free t k' now = true
    · rw [free_record_self h, if_pos ⟨rfl, h⟩]
    · rw [record, if_neg h, if_neg fun h' => h h'.2]
  · rw [free_record_ne hk, if_neg fun h => hk h.1]

end

/-! ## The log -/

/-- What was recorded as fresh, and when, newest first. -/
abbrev Log (K T : Type) := List (K × T)

/-- The key was never recorded, or its latest recording has expired. -/
def Log.fresh (expires : T → T) (log : Log K T) (k : K) (now : T) : Bool :=
  (log.lookup k).all fun recorded => expires recorded ≤ now

def Log.record (expires : T → T) (log : Log K T) (k : K) (now : T) : Log K T :=
  if log.fresh expires k now then (k, now) :: log else log

/-- The store has what the log says, but for keys that had expired at an instant up to `seen`. -/
def Agrees (expires : T → T) (t : Table K T) (log : Log K T) (seen : T) : Prop :=
  ∀ k, t.lookup k = (log.lookup k).map expires ∨
    t.lookup k = none ∧ ∃ recorded, log.lookup k = some recorded ∧ expires recorded ≤ seen

namespace Agrees

variable {expires : T → T} {t : Table K T} {log : Log K T} {seen now : T}

theorem empty (expires : T → T) (seen : T) : Agrees (K := K) expires ∅ [] seen :=
  fun _ => Or.inl rfl

theorem later (h : Agrees expires t log seen) (hle : seen ≤ now) : Agrees expires t log now := by
  intro k
  rcases h k with hsame | ⟨hnone, recorded, hlog, hexpired⟩
  · exact Or.inl hsame
  · exact Or.inr ⟨hnone, recorded, hlog, hexpired.trans hle⟩

/-- **At no earlier instant do the two disagree.** -/
theorem free_eq (h : Agrees expires t log seen) (hle : seen ≤ now) (k : K) :
    free t k now = log.fresh expires k now := by
  unfold free Log.fresh
  rcases h k with hsame | ⟨hnone, recorded, hlog, hexpired⟩
  · rw [hsame, Option.all_map]
  · rw [hnone, hlog, Option.all_none, Option.all_some]
    exact (decide_eq_true (hexpired.trans hle)).symm

theorem record (h : Agrees expires t log seen) (hle : seen ≤ now) (k : K) :
    Agrees expires (record expires t k now) (log.record expires k now) seen := by
  unfold Expiring.record Log.record
  rw [h.free_eq hle]
  split
  · intro k'
    by_cases hk : k' = k
    · subst hk
      exact Or.inl (by simp [Table.lookup_put_self])
    · rw [Table.lookup_put_ne hk, List.lookup_cons, beq_eq_false_iff_ne.mpr hk]
      exact h k'
  · exact h

/-- **A purge is not seen** at an instant that is not before it. -/
theorem purge (h : Agrees expires t log seen) (hle : now ≤ seen) :
    Agrees expires (purge t now) log seen := by
  intro k
  rw [lookup_purge]
  rcases h k with hsame | ⟨hnone, recorded, hlog, hexpired⟩
  · cases hlog : log.lookup k with
    | none =>
      rw [hsame, hlog]
      exact Or.inl rfl
    | some recorded =>
      rw [hsame, hlog, Option.map_some, Option.filter_some]
      by_cases hexpired : expires recorded ≤ now
      · exact Or.inr ⟨if_neg (by simpa using hexpired), recorded, rfl, hexpired.trans hle⟩
      · exact Or.inl (if_pos (by simpa using hexpired))
  · exact Or.inr ⟨by rw [hnone]; rfl, recorded, hlog, hexpired⟩

end Agrees

/-! ## Calls -/

inductive Call (K T : Type) where
  | check (key : K) (now : T)
  | purge (now : T)

/-- The instant a call sees. -/
def Call.now : Call K T → T
  | .check _ now | .purge now => now

/-- The instant a check is asked at. -/
def Call.asked : Call K T → Option T
  | .check _ now => some now
  | .purge _ => none

/-- Nobody checks at an instant before one that was seen already. -/
def Timed (calls : List (Call K T)) : Prop :=
  calls.Pairwise fun earlier later => ∀ now ∈ later.asked, earlier.now ≤ now

instance (calls : List (Call K T)) : Decidable (Timed calls) :=
  inferInstanceAs (Decidable (List.Pairwise _ _))

/-- What the log answers. -/
def answers (expires : T → T) : Log K T → List (Call K T) → List Bool
  | _, [] => []
  | log, .check k now :: calls =>
    log.fresh expires k now :: answers expires (log.record expires k now) calls
  | log, .purge _ :: calls => answers expires log calls

/-- What the store answers. It may purge after any check. -/
inductive Runs (expires : T → T) : Table K T → List (Call K T) → List Bool → Table K T → Prop where
  | nil {t : Table K T} : Runs expires t [] [] t
  | check {t t' t'' : Table K T} {k : K} {now : T} {calls : List (Call K T)} {bs : List Bool}
      (h : t' = record expires t k now ∨ t' = purge (record expires t k now) now)
      (hrest : Runs expires t' calls bs t'') :
      Runs expires t (.check k now :: calls) (free t k now :: bs) t''
  | purge {t t'' : Table K T} {now : T} {calls : List (Call K T)} {bs : List Bool}
      (hrest : Runs expires (purge t now) calls bs t'') :
      Runs expires t (.purge now :: calls) bs t''

/-- **Purging is invisible**, from any store that agrees with the log. -/
theorem Runs.answers {expires : T → T} {t t' : Table K T} {calls : List (Call K T)} {bs : List Bool}
    (h : Runs expires t calls bs t') : ∀ {log : Log K T} {seen : T}, Agrees expires t log seen →
      (∀ c ∈ calls, ∀ now ∈ c.asked, seen ≤ now) → Timed calls →
        bs = Expiring.answers expires log calls := by
  induction h with
  | nil => exact fun _ _ _ => rfl
  | @check t t' _ k now calls bs hnext _ ih =>
    intro log seen hagree hseen htimed
    obtain ⟨hlater, htimed⟩ := List.pairwise_cons.mp htimed
    have hle := hseen _ (List.mem_cons_self ..) now rfl
    have hrecord := (hagree.record hle k).later hle
    have hagree' : Agrees expires t' (log.record expires k now) now := by
      rcases hnext with rfl | rfl
      · exact hrecord
      · exact hrecord.purge (le_refl now)
    rw [Expiring.answers, hagree.free_eq hle, ih hagree' hlater htimed]
  | @purge t _ now calls bs _ ih =>
    intro log seen hagree hseen htimed
    obtain ⟨hlater, htimed⟩ := List.pairwise_cons.mp htimed
    refine ih ((hagree.later (le_max_left seen now)).purge (le_max_right seen now))
      (fun c hc now' hnow => ?_) htimed
    exact max_le (hseen c (List.mem_cons_of_mem _ hc) now' hnow) (hlater c hc now' hnow)

end Lib.Expiring
