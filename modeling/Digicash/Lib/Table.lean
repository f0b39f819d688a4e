import Mathlib.Data.List.AList
import Mathlib.Algebra.BigOperators.Group.List.Basic
import Mathlib.Algebra.Order.BigOperators.Group.List
import Mathlib.Algebra.Order.Ring.Int

/-!
# Tables with a primary key

A table is an `AList`: rows in some order, no key twice. That is all a `PRIMARY KEY`
says, so a value of the type *is* a table that respects its key and nothing has to be
re-proved about it later.

Two things are added here. `put` is the one write a row can suffer — an insert, an
overwrite or a delete — and `total` is a sum over the rows; `total_put` is the only fact
about sums anything downstream needs.
-/

namespace Lib

/-- A table whose primary key has type `K` and whose other columns have type `V`. -/
abbrev Table (K V : Type) := AList (fun _ : K => V)

namespace Table

variable {K V M : Type}

/-- The rows, as a multi-row `SELECT` returns them. -/
def rows (t : Table K V) : List (K × V) := t.entries.map fun e => (e.1, e.2)

/-- No key occurs twice among the rows. -/
theorem nodup_rows (t : Table K V) : (t.rows.map Prod.fst).Nodup := by
  have h : t.rows.map Prod.fst = t.entries.map Sigma.fst := by
    rw [rows, List.map_map]
    rfl
  rw [h]
  exact t.nodupKeys

/-- The sum of `f` over the rows. -/
def total [AddCommGroup M] (f : K → V → M) (t : Table K V) : M :=
  (t.entries.map fun e => f e.1 e.2).sum

/-- What one row contributes to a sum: `0` when it is absent. -/
def share [AddCommGroup M] (f : K → V → M) (k : K) (v : Option V) : M := v.elim 0 (f k)

@[simp] theorem share_none [AddCommGroup M] (f : K → V → M) (k : K) : share f k none = 0 := rfl

@[simp] theorem share_some [AddCommGroup M] (f : K → V → M) (k : K) (v : V) :
    share f k (some v) = f k v := rfl

@[simp] theorem total_empty [AddCommGroup M] (f : K → V → M) :
    total f (∅ : Table K V) = 0 := rfl

variable [DecidableEq K]

theorem mem_rows {t : Table K V} {k : K} {v : V} :
    (k, v) ∈ t.rows ↔ t.lookup k = some v := by
  rw [← Option.mem_def, AList.mem_lookup_iff, rows, List.mem_map]
  constructor
  · rintro ⟨⟨k', v'⟩, hm, he⟩
    obtain ⟨rfl, rfl⟩ := Prod.mk.inj he
    exact hm
  · exact fun hm => ⟨⟨k, v⟩, hm, rfl⟩

/-- Write one row: `some v` inserts or overwrites it, `none` deletes it. -/
def put (t : Table K V) (k : K) : Option V → Table K V
  | some v => AList.insert k v t
  | none => AList.erase k t

@[simp] theorem lookup_put_self (t : Table K V) (k : K) (v : Option V) :
    (t.put k v).lookup k = v := by
  cases v with
  | some v => exact AList.lookup_insert t
  | none => exact AList.lookup_erase k t

theorem lookup_put_ne {t : Table K V} {k k' : K} {v : Option V} (h : k' ≠ k) :
    (t.put k v).lookup k' = t.lookup k' := by
  cases v with
  | some v => exact AList.lookup_insert_ne h
  | none => exact AList.lookup_erase_ne h

theorem lookup_put (t : Table K V) (k k' : K) (v : Option V) :
    (t.put k v).lookup k' = if k' = k then v else t.lookup k' := by
  by_cases h : k' = k
  · rw [h, lookup_put_self, if_pos rfl]
  · rw [lookup_put_ne h, if_neg h]

/-- Deleting a row takes it, and only it, out of the rows. -/
theorem perm_rows_put_none {t : Table K V} {k : K} {v : V} (h : t.lookup k = some v) :
    ((k, v) :: (t.put k none).rows).Perm t.rows := by
  have hmem : (⟨k, v⟩ : Σ _ : K, V) ∈ t.entries := AList.mem_lookup_iff.mp h
  obtain ⟨b, l₁, l₂, hl₁, heq, herase⟩ := List.exists_of_kerase (List.mem_keys_of_mem hmem)
  have hb : b = v := by
    have hb' : (⟨k, b⟩ : Σ _ : K, V) ∈ t.entries := by simp [heq]
    exact Option.some.inj ((AList.mem_lookup_iff.mpr hb').symm.trans h)
  have hput : (t.put k none).entries = l₁ ++ l₂ := herase
  rw [rows, rows, hput, heq, hb, List.map_append, List.map_append, List.map_cons]
  exact List.perm_middle.symm

/-- A row under a new key joins the rows. -/
theorem perm_rows_put_some {t : Table K V} {k : K} {v : V} (h : t.lookup k = none) :
    (t.put k (some v)).rows.Perm ((k, v) :: t.rows) := by
  refine (perm_rows_put_none (lookup_put_self t k (some v))).symm.trans (.cons _ ?_)
  have hput : ((t.put k (some v)).put k none).entries = t.entries := by
    have hself : (t.entries.kerase k) = t.entries :=
      List.kerase_of_notMem_keys (AList.lookup_eq_none.mp h)
    change List.kerase k (⟨k, v⟩ :: t.entries.kerase k) = t.entries
    rw [hself]
    exact List.kerase_cons_eq rfl
  rw [rows, rows, hput]

/-! ## Many rows at once -/

def insertAll (t : Table K V) (l : List (K × V)) : Table K V :=
  l.foldl (fun t e => t.put e.1 (some e.2)) t

def eraseAll (t : Table K V) (l : List K) : Table K V := l.foldl (fun t k => t.put k none) t

theorem lookup_eraseAll (k : K) : ∀ (l : List K) (t : Table K V),
    (t.eraseAll l).lookup k = if k ∈ l then none else t.lookup k
  | [], t => by simp [eraseAll]
  | k' :: l, t => by
    rw [eraseAll, List.foldl_cons, ← eraseAll, lookup_eraseAll k l, lookup_put]
    by_cases h : k = k'
    · simp [h]
    · simp [h]

/-- What is there after many inserts was there before, or was inserted. -/
theorem mem_of_lookup_insertAll {k : K} {v : V} : ∀ {l : List (K × V)} {t : Table K V},
    (t.insertAll l).lookup k = some v → t.lookup k = some v ∨ (k, v) ∈ l
  | [], t, h => Or.inl h
  | e :: l, t, h => by
    rw [insertAll, List.foldl_cons, ← insertAll] at h
    rcases mem_of_lookup_insertAll h with hold | hmem
    · rw [lookup_put] at hold
      split at hold
      · rename_i hk
        obtain rfl := Option.some.inj hold
        exact Or.inr (by simp [hk])
      · exact Or.inl hold
    · exact Or.inr (List.mem_cons_of_mem _ hmem)

theorem lookup_insertAll_eq_none {k : K} : ∀ {l : List (K × V)} {t : Table K V},
    (t.insertAll l).lookup k = none ↔ t.lookup k = none ∧ k ∉ l.map Prod.fst
  | [], t => by simp [insertAll]
  | e :: l, t => by
    rw [insertAll, List.foldl_cons, ← insertAll, lookup_insertAll_eq_none, lookup_put]
    by_cases h : k = e.1
    · simp [h]
    · simp [h]

theorem eq_empty {t : Table K V} (h : ∀ k, t.lookup k = none) : t = ∅ := by
  refine AList.ext (List.eq_nil_iff_forall_not_mem.mpr fun e he => ?_)
  have hsome := AList.mem_lookup_iff.mpr he
  rw [h e.1] at hsome
  exact absurd hsome (by simp)

/-- A `DELETE` without a predicate. -/
theorem eraseAll_rows (t : Table K V) : t.eraseAll (t.rows.map Prod.fst) = ∅ := by
  refine eq_empty fun k => ?_
  rw [lookup_eraseAll]
  split
  · rfl
  · rename_i hk
    cases hl : t.lookup k with
    | none => rfl
    | some v => exact absurd (List.mem_map.mpr ⟨(k, v), mem_rows.mpr hl, rfl⟩) hk

/-! ## Sequences -/

/-- A key above all keys there are, and at least `chosen`: what a `BIGSERIAL` column hands
    out. How far above depends on transactions that rolled back, so it is somebody else's
    choice. -/
def nextKey (t : Table Nat V) (chosen : Nat) : Nat :=
  t.entries.foldr (fun e n => max (e.1 + 1) n) chosen

theorem le_nextKey (t : Table Nat V) (chosen : Nat) : chosen ≤ t.nextKey chosen := by
  unfold nextKey
  induction t.entries with
  | nil => exact Nat.le_refl _
  | cons e l ih => exact Nat.le_trans ih (Nat.le_max_right _ _)

theorem lookup_nextKey (t : Table Nat V) (chosen : Nat) :
    t.lookup (t.nextKey chosen) = none := by
  have hlt : ∀ (l : List (Σ _ : Nat, V)), ∀ e ∈ l,
      e.1 < l.foldr (fun e n => max (e.1 + 1) n) chosen := by
    intro l
    induction l with
    | nil => exact fun e he => absurd he (by simp)
    | cons d l ih =>
      intro e he
      rw [List.foldr_cons]
      rcases List.mem_cons.mp he with rfl | he
      · exact Nat.lt_of_lt_of_le (Nat.lt_succ_self _) (Nat.le_max_left _ _)
      · exact Nat.lt_of_lt_of_le (ih e he) (Nat.le_max_right _ _)
  rw [AList.lookup_eq_none]
  intro hk
  obtain ⟨e, he, hkey⟩ := List.mem_map.mp hk
  have hself : e.1 < t.nextKey chosen := hlt t.entries e he
  rw [hkey] at hself
  exact Nat.lt_irrefl _ hself

/-! ## Sums over the rows -/

variable [AddCommGroup M]

theorem sum_kerase (f : K → V → M) (k : K) : ∀ l : List (Σ _ : K, V),
    (l.map fun e => f e.1 e.2).sum =
      ((l.kerase k).map fun e => f e.1 e.2).sum + share f k (l.dlookup k)
  | [] => by simp
  | ⟨k', v⟩ :: l => by
    by_cases h : k = k'
    · subst h
      simp [add_comm]
    · rw [List.kerase_cons_ne h, List.dlookup_cons_ne _ _ h, List.map_cons, List.map_cons,
        List.sum_cons, List.sum_cons, sum_kerase f k l, add_assoc]

/-- **What one write does to a sum**: the old row's share goes and the new one's comes. -/
theorem total_put (f : K → V → M) (t : Table K V) (k : K) (v : Option V) :
    (t.put k v).total f = t.total f - share f k (t.lookup k) + share f k v := by
  have hs : t.total f =
      ((t.entries.kerase k).map fun e => f e.1 e.2).sum + share f k (t.lookup k) :=
    sum_kerase f k t.entries
  cases v with
  | some v =>
    rw [hs, add_sub_cancel_right, share_some, add_comm]
    exact List.sum_cons
  | none =>
    rw [hs, add_sub_cancel_right, share_none, add_zero]
    rfl

theorem total_congr {f g : K → V → M} {t : Table K V}
    (h : ∀ k v, t.lookup k = some v → f k v = g k v) : t.total f = t.total g :=
  congrArg List.sum (List.map_congr_left fun e he => h e.1 e.2 (AList.mem_lookup_iff.mpr he))

theorem total_eq_zero {f : K → V → M} {t : Table K V}
    (h : ∀ k v, t.lookup k = some v → f k v = 0) : t.total f = 0 := by
  refine List.sum_eq_zero fun n hn => ?_
  obtain ⟨e, he, rfl⟩ := List.mem_map.mp hn
  exact h e.1 e.2 (AList.mem_lookup_iff.mpr he)

/-- A sum of what is not negative is not negative. -/
theorem total_nonneg {f : K → V → Int} {t : Table K V}
    (h : ∀ k v, t.lookup k = some v → 0 ≤ f k v) : 0 ≤ t.total f := by
  refine List.sum_nonneg fun n hn => ?_
  obtain ⟨e, he, rfl⟩ := List.mem_map.mp hn
  exact h e.1 e.2 (AList.mem_lookup_iff.mpr he)

theorem total_le {f g : K → V → Int} {t : Table K V}
    (h : ∀ k v, t.lookup k = some v → f k v ≤ g k v) : t.total f ≤ t.total g :=
  List.sum_le_sum fun e he => h e.1 e.2 (AList.mem_lookup_iff.mpr he)

/-- One row's share is at most the sum. -/
theorem share_le_total {f : K → V → Int} {t : Table K V} {k : K} {v : V}
    (h : ∀ k v, t.lookup k = some v → 0 ≤ f k v) (hk : t.lookup k = some v) :
    f k v ≤ t.total f := by
  have hrest : 0 ≤ (t.put k none).total f := total_nonneg fun k' v' hk' => by
    rw [lookup_put] at hk'
    split at hk'
    · exact absurd hk' (by simp)
    · exact h k' v' hk'
  rw [total_put, hk, share_some, share_none] at hrest
  omega

/-- Rows inserted under new keys add up. -/
theorem total_insertAll (f : K → V → M) : ∀ {l : List (K × V)} {t : Table K V},
    (l.map Prod.fst).Nodup → (∀ e ∈ l, t.lookup e.1 = none) →
      (t.insertAll l).total f = t.total f + (l.map fun e => f e.1 e.2).sum
  | [], t, _, _ => by simp [insertAll]
  | e :: l, t, hnd, hnew => by
    rw [List.map_cons, List.nodup_cons] at hnd
    have hnew' : ∀ d ∈ l, (t.put e.1 (some e.2)).lookup d.1 = none := fun d hd => by
      have hne : d.1 ≠ e.1 := fun h => hnd.1 (h ▸ List.mem_map_of_mem hd)
      rw [lookup_put_ne hne]
      exact hnew d (List.mem_cons_of_mem _ hd)
    rw [insertAll, List.foldl_cons, ← insertAll, total_insertAll f hnd.2 hnew', total_put,
      hnew e (List.mem_cons_self ..), share_none, sub_zero, share_some, List.map_cons,
      List.sum_cons, add_assoc]

end Table

/-! ## Unspecified order -/

/-- The rows `l` in the order somebody else chose, where that is an order of `l`. -/
def arrange {α : Type} [BEq α] (l chosen : List α) : List α :=
  if chosen.isPerm l then chosen else l

theorem arrange_perm {α : Type} [BEq α] [LawfulBEq α] (l chosen : List α) :
    (arrange l chosen).Perm l := by
  unfold arrange
  split
  · exact List.isPerm_iff.mp ‹_›
  · exact .refl _

end Lib
