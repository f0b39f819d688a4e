import Digicash.Lib.Table

/-!
# Records written key by key

A record that is written over an older one in place, one key after the other, can be cut short.
`contents` is what is there after some records were written, each up to some key: every key holds
what the latest one to reach it wrote. For which cuts that is always one record, and when it
can be two, `whole` and `mixed` say between them.
-/

namespace Lib.Torn

variable {K V R : Type} [DecidableEq K] {keys : List K} {field : R → K → V}

/-- The inserts of a record, in order. -/
def inserts (keys : List K) (field : R → K → V) (r : R) : List (K × V) :=
  keys.map fun k => (k, field r k)

/-- What is there after these records were written, newest first, each up to that many of its
    inserts. -/
def contents (keys : List K) (field : R → K → V) : List (R × Nat) → Table K V
  | [] => ∅
  | w :: older => (contents keys field older).insertAll ((inserts keys field w.1).take w.2)

/-- Where `m` keys are written: no record came to its last key, or the latest one that wrote
    anything did. -/
def Untorn (m : Nat) (cuts : List Nat) : Prop :=
  (∀ n ∈ cuts, n < m) ∨ ∃ n, cuts.find? (0 < ·) = some n ∧ m ≤ n

theorem lookup_insertAll_of_notMem {k : K} : ∀ {l : List (K × V)} {t : Table K V},
    k ∉ l.map Prod.fst → (t.insertAll l).lookup k = t.lookup k
  | [], _, _ => rfl
  | e :: l, t, h => by
    rw [List.map_cons, List.mem_cons, not_or] at h
    rw [Table.insertAll, List.foldl_cons, ← Table.insertAll, lookup_insertAll_of_notMem h.2,
      Table.lookup_put_ne h.1]

/-- What a record that is cut short leaves of a key. -/
theorem lookup_inserts {r : R} {k : K} (hnd : keys.Nodup) {n i : Nat} {t : Table K V}
    (hk : keys[i]? = some k) : (t.insertAll ((inserts keys field r).take n)).lookup k =
      if i < n then some (field r k) else t.lookup k := by
  induction keys generalizing n i t with
  | nil => cases hk
  | cons k' keys ih =>
    rw [List.nodup_cons] at hnd
    cases n with
    | zero => simp [Table.insertAll]
    | succ n =>
      have hcons : t.insertAll ((inserts (k' :: keys) field r).take (n + 1)) =
          (t.put k' (some (field r k'))).insertAll ((inserts keys field r).take n) := rfl
      rw [hcons]
      cases i with
      | zero =>
        obtain rfl : k' = k := Option.some.inj hk
        have hlater : k' ∉ ((inserts keys field r).take n).map Prod.fst := by
          intro hmem
          rw [List.map_take, inserts, List.map_map] at hmem
          have hmem := List.mem_of_mem_take hmem
          rw [show (Prod.fst ∘ fun k => (k, field r k)) = id from rfl, List.map_id] at hmem
          exact hnd.1 hmem
        rw [lookup_insertAll_of_notMem hlater, Table.lookup_put_self, if_pos (Nat.succ_pos n)]
      | succ i =>
        have hk : keys[i]? = some k := hk
        have hne : k ≠ k' := by
          rintro rfl
          exact hnd.1 (List.mem_of_getElem? hk)
        rw [ih hnd.2 hk, Table.lookup_put_ne hne]
        simp only [Nat.succ_lt_succ_iff]

/-- **Every key holds what the latest record to reach it wrote.** -/
theorem lookup_contents {k : K} {i : Nat} (hnd : keys.Nodup) (hk : keys[i]? = some k)
    (ws : List (R × Nat)) : (contents keys field ws).lookup k =
      (ws.find? fun w => i < w.2).map fun w => field w.1 k := by
  induction ws with
  | nil => rfl
  | cons w older ih =>
    rw [contents, lookup_inserts hnd hk, ih]
    by_cases hw : i < w.2
    · simp [hw]
    · simp [hw]

/-- Where the latest record that wrote anything came to the end, every key is its own. -/
theorem find_latest {m n i : Nat} (hi : i < m) (hm : m ≤ n) :
    ∀ {ws : List (R × Nat)} {w : R × Nat}, ws.find? (fun w => 0 < w.2) = some w → w.2 = n →
      ws.find? (fun w => i < w.2) = some w := by
  intro ws w hw hn
  rw [List.find?_eq_some_iff_append] at hw ⊢
  obtain ⟨hpos, older, newer, rfl, hnone⟩ := hw
  refine ⟨by simp only [decide_eq_true_eq]; omega, older, newer, rfl, fun w' hw' => ?_⟩
  have hzero := hnone w' hw'
  simp only [Bool.not_eq_true', decide_eq_false_iff_not] at hzero ⊢
  omega

/-- **Cuts that leave no mixture**: whatever the records are, if every key is there then all of
    them are of one record. -/
theorem whole {ws : List (R × Nat)} (hnd : keys.Nodup) (hkeys : keys ≠ [])
    (h : Untorn keys.length (ws.map Prod.snd))
    (hall : ∀ k ∈ keys, (contents keys field ws).lookup k ≠ none) :
    ∃ w ∈ ws, ∀ k ∈ keys, (contents keys field ws).lookup k = some (field w.1 k) := by
  rcases h with hshort | ⟨n, hfind, hn⟩
  · -- Nobody came to the last key.
    have hlast : keys[keys.length - 1]? = some (keys.getLast hkeys) := by
      rw [List.getLast_eq_getElem, List.getElem?_eq_getElem]
    have hnone : ws.find? (fun w => keys.length - 1 < w.2) = none := by
      rw [List.find?_eq_none]
      intro w hw
      have hlt := hshort w.2 (List.mem_map_of_mem hw)
      simp only [decide_eq_true_eq]
      omega
    refine absurd ?_ (hall _ (List.getLast_mem hkeys))
    rw [lookup_contents hnd hlast, hnone, Option.map_none]
  · rw [List.find?_map, Option.map_eq_some_iff] at hfind
    obtain ⟨w, hw, hwn⟩ := hfind
    refine ⟨w, List.mem_of_find?_eq_some hw, fun k hk => ?_⟩
    obtain ⟨i, hi, hik⟩ := List.getElem_of_mem hk
    have hget : keys[i]? = some k := by rw [List.getElem?_eq_getElem hi, hik]
    rw [lookup_contents hnd hget, find_latest hi hn hw hwn, Option.map_some]

/-- **And cuts that do**: every key is there, the first of a record that was cut short and the
    last of one that was not. -/
theorem mixed {ws : List (R × Nat)} (hnd : keys.Nodup) (hkeys : keys ≠ [])
    (h : ¬ Untorn keys.length (ws.map Prod.snd)) :
    (∀ k ∈ keys, ∃ w ∈ ws, (contents keys field ws).lookup k = some (field w.1 k)) ∧
      ∃ w ∈ ws, ∃ w' ∈ ws, w.2 < keys.length ∧ keys.length ≤ w'.2 ∧
        (contents keys field ws).lookup (keys.head hkeys) = some (field w.1 (keys.head hkeys)) ∧
        (contents keys field ws).lookup (keys.getLast hkeys) =
          some (field w'.1 (keys.getLast hkeys)) := by
  rw [Untorn, not_or] at h
  obtain ⟨hcomplete, hlatest⟩ := h
  have hpos : 0 < keys.length := List.length_pos_iff.mpr hkeys
  obtain ⟨w₀, hw₀, hm⟩ : ∃ w ∈ ws, keys.length ≤ w.2 := by
    by_contra hnone
    refine hcomplete fun n hn => ?_
    obtain ⟨w, hw, rfl⟩ := List.mem_map.mp hn
    by_contra hge
    exact hnone ⟨w, hw, Nat.not_lt.mp hge⟩
  have hfound : ∀ i < keys.length, ∃ w, ws.find? (fun w => i < w.2) = some w := by
    intro i hi
    cases hf : ws.find? (fun w => i < w.2) with
    | some w => exact ⟨w, rfl⟩
    | none =>
      have hnot := List.find?_eq_none.mp hf w₀ hw₀
      simp only [decide_eq_true_eq] at hnot
      omega
  refine ⟨fun k hk => ?_, ?_⟩
  · obtain ⟨i, hi, hik⟩ := List.getElem_of_mem hk
    have hget : keys[i]? = some k := by rw [List.getElem?_eq_getElem hi, hik]
    obtain ⟨w, hw⟩ := hfound i hi
    exact ⟨w, List.mem_of_find?_eq_some hw, by rw [lookup_contents hnd hget, hw, Option.map_some]⟩
  obtain ⟨w, hw⟩ := hfound 0 hpos
  obtain ⟨w', hw'⟩ := hfound (keys.length - 1) (by omega)
  have hcut : w.2 < keys.length := by
    by_contra hge
    refine hlatest ⟨w.2, ?_, Nat.not_lt.mp hge⟩
    rw [List.find?_map, Option.map_eq_some_iff]
    exact ⟨w, hw, rfl⟩
  have hend : keys.length - 1 < w'.2 := by simpa using List.find?_some hw'
  have hhead : keys[0]? = some (keys.head hkeys) := by
    rw [List.head_eq_getElem, List.getElem?_eq_getElem]
  have hlast : keys[keys.length - 1]? = some (keys.getLast hkeys) := by
    rw [List.getLast_eq_getElem, List.getElem?_eq_getElem]
  refine ⟨w, List.mem_of_find?_eq_some hw, w', List.mem_of_find?_eq_some hw', hcut, by omega, ?_, ?_⟩
  · rw [lookup_contents hnd hhead, hw, Option.map_some]
  · rw [lookup_contents hnd hlast, hw', Option.map_some]

end Lib.Torn
