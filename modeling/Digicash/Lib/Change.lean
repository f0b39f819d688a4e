import Mathlib.Algebra.BigOperators.Group.List.Basic
import Mathlib.Algebra.GroupWithZero.Nat
import Mathlib.Algebra.Order.Group.Nat
import Mathlib.Data.List.Sort

/-!
# Making change

Two greedy algorithms over denominations. `change` breaks an amount up, largest denomination
first; with a 1 among them nothing is left over. `greedy` picks from a given list each item that
still fits. Where each denomination divides the larger ones, `greedy` makes every amount that any
selection of the items makes (`greedy_exact`), and no way of breaking an amount up has fewer parts
than `change` (`length_change_le`).
-/

namespace Lib

/-! ## Breaking an amount up -/

def change : List ℕ → ℕ → List ℕ
  | [], _ => []
  | d :: ds, n => List.replicate (n / d) d ++ change ds (n % d)

theorem change_zero : ∀ ds : List ℕ, change ds 0 = []
  | [] => rfl
  | d :: ds => by
    rw [change, Nat.zero_div, Nat.zero_mod, change_zero ds]
    rfl

/-- With a 1 among the denominations, the parts add up to the amount. -/
theorem sum_change : ∀ {ds : List ℕ} (n : ℕ), 1 ∈ ds → (change ds n).sum = n
  | [], _, h => absurd h (by simp)
  | d :: ds, n, h => by
    rw [change, List.sum_append, List.sum_replicate, Nat.nsmul_eq_mul]
    by_cases hd : d = 1
    · subst hd
      rw [Nat.mod_one, change_zero, Nat.div_one]
      simp
    · have hds : 1 ∈ ds := (List.mem_cons.mp h).resolve_left fun h1 => hd h1.symm
      rw [sum_change (n % d) hds]
      exact Nat.div_add_mod' n d

theorem mem_of_mem_change : ∀ {ds : List ℕ} {n d : ℕ}, d ∈ change ds n → d ∈ ds
  | [], _, _, h => absurd h (by simp [change])
  | d' :: ds, n, d, h => by
    rcases List.mem_append.mp h with h | h
    · obtain ⟨-, rfl⟩ := List.mem_replicate.mp h
      exact List.mem_cons_self ..
    · exact List.mem_cons_of_mem _ (mem_of_mem_change h)

theorem pairwise_change : ∀ {ds : List ℕ} (n : ℕ), ds.Pairwise (· ≥ ·) →
    (change ds n).Pairwise (· ≥ ·)
  | [], _, _ => .nil
  | d :: ds, n, h => by
    obtain ⟨hd, hds⟩ := List.pairwise_cons.mp h
    refine List.pairwise_append.mpr ⟨?_, pairwise_change (n % d) hds, fun a ha b hb => ?_⟩
    · exact List.pairwise_replicate.mpr (Or.inr (Nat.le_refl d))
    · obtain ⟨-, rfl⟩ := List.mem_replicate.mp ha
      exact hd b (mem_of_mem_change hb)

/-! ## Picking from a list -/

variable {α : Type} (w : α → ℕ)

/-- Each item that still fits is taken: the items taken, and what is left of the amount. -/
def greedy : List α → ℕ → List α × ℕ
  | [], n => ([], n)
  | a :: l, n =>
    if w a ≤ n then (a :: (greedy l (n - w a)).1, (greedy l (n - w a)).2) else greedy l n

/-- What is taken and what is left make the amount. -/
theorem greedy_sum : ∀ (l : List α) (n : ℕ),
    ((greedy w l n).1.map w).sum + (greedy w l n).2 = n
  | [], n => Nat.zero_add n
  | a :: l, n => by
    unfold greedy
    split
    · rename_i hle
      have ih := greedy_sum l (n - w a)
      simp only [List.map_cons, List.sum_cons]
      omega
    · exact greedy_sum l n

theorem greedy_zero : ∀ {l : List α}, (∀ a ∈ l, 0 < w a) → greedy w l 0 = ([], 0)
  | [], _ => rfl
  | a :: l, h => by
    have hpos : ¬ w a ≤ 0 := Nat.not_le.mpr (h a (List.mem_cons_self ..))
    rw [greedy, if_neg hpos]
    exact greedy_zero fun b hb => h b (List.mem_cons_of_mem _ hb)

variable {w}

/-- Each later weight divides each earlier one. -/
abbrev Descending (w : α → ℕ) (l : List α) : Prop := l.Pairwise fun a b => w b ∣ w a

/-- In a chain whose members all divide `d`, some prefix makes `d` if the whole makes it. -/
theorem exists_prefix_sum {d : ℕ} : ∀ {l : List α}, Descending w l → (∀ a ∈ l, w a ∣ d) →
    d ≤ (l.map w).sum → ∃ l₁ l₂, l = l₁ ++ l₂ ∧ (l₁.map w).sum = d
  | [], _, _, hle => ⟨[], [], rfl, (Nat.le_zero.mp hle).symm⟩
  | a :: l, hchain, hdvd, hle => by
    rcases Nat.eq_zero_or_pos d with rfl | hpos
    · exact ⟨[], a :: l, rfl, rfl⟩
    obtain ⟨ha, hl⟩ := List.pairwise_cons.mp hchain
    have hwa : w a ∣ d := hdvd a (List.mem_cons_self ..)
    have hwle : w a ≤ d := Nat.le_of_dvd hpos hwa
    rw [List.map_cons, List.sum_cons] at hle
    -- The rest has to make what `a` leaves of `d`.
    obtain ⟨l₁, l₂, rfl, hsum⟩ := exists_prefix_sum (d := d - w a) hl
      (fun b hb => Nat.dvd_sub (hdvd b (List.mem_cons_of_mem _ hb)) (ha b hb)) (by omega)
    refine ⟨a :: l₁, l₂, rfl, ?_⟩
    rw [List.map_cons, List.sum_cons, hsum]
    omega

/-- Where some selection of `a :: l` makes `n` and `a` fits, some selection of `l` makes the rest:
    if `a` is not in the selection, part of it weighs just as much. -/
theorem exists_rest {a : α} {l s : List α} (hchain : Descending w (a :: l))
    (hs : s.Sublist (a :: l)) (hfit : w a ≤ (s.map w).sum) :
    ∃ s' : List α, s'.Sublist l ∧ (s'.map w).sum = (s.map w).sum - w a := by
  obtain ⟨ha, hl⟩ := List.pairwise_cons.mp hchain
  cases hs with
  | cons _ hs =>
    obtain ⟨l₁, l₂, rfl, hsum⟩ := exists_prefix_sum (d := w a) (hl.sublist hs)
      (fun b hb => ha b (hs.subset hb)) hfit
    refine ⟨l₂, (List.sublist_append_right l₁ l₂).trans hs, ?_⟩
    rw [List.map_append, List.sum_append]
    omega
  | cons_cons _ hs =>
    refine ⟨_, hs, ?_⟩
    rw [List.map_cons, List.sum_cons]
    omega

/-- **Greedy is exact on a divisibility chain.** -/
theorem greedy_exact : ∀ {l s : List α}, Descending w l → (∀ a ∈ l, 0 < w a) → s.Sublist l →
    (greedy w l (s.map w).sum).2 = 0
  | [], s, _, _, hs => by
    obtain rfl := List.sublist_nil.mp hs
    rfl
  | a :: l, s, hchain, hpos, hs => by
    have hl := (List.pairwise_cons.mp hchain).2
    have hpos' : ∀ b ∈ l, 0 < w b := fun b hb => hpos b (List.mem_cons_of_mem _ hb)
    unfold greedy
    split
    · rename_i hfit
      obtain ⟨s', hs', hsum⟩ := exists_rest hchain hs hfit
      rw [← hsum]
      exact greedy_exact hl hpos' hs'
    · rename_i hnofit
      cases hs with
      | cons _ hs => exact greedy_exact hl hpos' hs
      | cons_cons _ hs =>
        rw [List.map_cons, List.sum_cons] at hnofit
        exact absurd (Nat.le_add_right _ _) hnofit

/-! ## Fewest parts -/

/-- Of a chain whose members all divide `d`, enough can be left out to make `d` as often as the
    whole makes it, and each time at least one member goes. -/
theorem exists_remainder {d : ℕ} (hd : 0 < d) : ∀ (k : ℕ) {l : List ℕ}, Descending id l →
    (∀ a ∈ l, a ∣ d) → l.sum / d = k →
      ∃ l' : List ℕ, l'.Sublist l ∧ l'.sum = l.sum % d ∧ l'.length + k ≤ l.length := by
  intro k
  induction k with
  | zero =>
    intro l _ _ hk
    have hlt : l.sum < d := (Nat.div_eq_zero_iff.mp hk).resolve_left (Nat.ne_of_gt hd)
    exact ⟨l, .refl l, (Nat.mod_eq_of_lt hlt).symm, Nat.le_refl _⟩
  | succ k ih =>
    intro l hchain hdvd hk
    have hle : d ≤ l.sum := by
      by_contra hlt
      rw [Nat.div_eq_of_lt (Nat.not_le.mp hlt)] at hk
      exact absurd hk (Nat.zero_ne_add_one k)
    obtain ⟨l₁, l₂, rfl, hsum⟩ := exists_prefix_sum (w := id) hchain hdvd (by simpa using hle)
    rw [List.map_id] at hsum
    rw [List.sum_append, hsum, Nat.add_div_left _ hd] at hk
    have hsub : l₂.Sublist (l₁ ++ l₂) := List.sublist_append_right l₁ l₂
    obtain ⟨l', hl', hmod, hlen⟩ := ih (hchain.sublist hsub)
      (fun a ha => hdvd a (hsub.subset ha)) (Nat.succ.inj hk)
    have hne : 0 < l₁.length := by
      refine List.length_pos_iff.mpr fun hnil => ?_
      rw [hnil] at hsum
      exact Nat.ne_of_gt hd hsum.symm
    refine ⟨l', hl'.trans hsub, ?_, ?_⟩
    · rw [List.sum_append, hsum, Nat.add_mod_left]
      exact hmod
    · rw [List.length_append]
      omega

/-- No chain over the denominations has fewer members than the change of its sum. -/
theorem length_change_le_of_descending : ∀ {ds l : List ℕ}, Descending id ds → (∀ d ∈ ds, 0 < d) →
    Descending id l → (∀ a ∈ l, a ∈ ds) → (change ds l.sum).length ≤ l.length
  | [], _, _, _, _, _ => Nat.zero_le _
  | d :: ds, l, hds, hpos, hl, hmem => by
    obtain ⟨hd, hds'⟩ := List.pairwise_cons.mp hds
    have hd0 : 0 < d := hpos d (List.mem_cons_self ..)
    -- The members that are `d`, and the others.
    have hperm := List.filter_append_perm (fun a => decide (a = d)) l
    generalize hA : l.filter (fun a => decide (a = d)) = A at hperm
    generalize hB : l.filter (fun a => !decide (a = d)) = B at hperm
    have hBl : B.Sublist l := hB ▸ List.filter_sublist
    have hA' : A = List.replicate A.length d := by
      refine List.eq_replicate_iff.mpr ⟨rfl, fun a ha => ?_⟩
      rw [← hA] at ha
      simpa using (List.mem_filter.mp ha).2
    have hBmem : ∀ a ∈ B, a ∈ ds := by
      intro a ha
      have hal := hmem a (hBl.subset ha)
      rw [← hB] at ha
      have hne : a ≠ d := by simpa using (List.mem_filter.mp ha).2
      exact (List.mem_cons.mp hal).resolve_left hne
    have hsum : l.sum = A.length * d + B.sum := by
      rw [← hperm.sum_eq, List.sum_append]
      conv_lhs => rw [hA', List.sum_replicate, Nat.nsmul_eq_mul]
    have hlen : A.length + B.length = l.length := by
      rw [← List.length_append]
      exact hperm.length_eq
    obtain ⟨B', hB', hmod, hshort⟩ := exists_remainder hd0 _ (hl.sublist hBl)
      (fun a ha => hd a (hBmem a ha)) rfl
    have hdiv : l.sum / d = A.length + B.sum / d := by
      rw [hsum, Nat.add_comm, Nat.add_mul_div_right _ _ hd0, Nat.add_comm]
    have hrest : l.sum % d = B'.sum := by rw [hsum, Nat.add_comm, Nat.add_mul_mod_self_right, hmod]
    have ih : (change ds B'.sum).length ≤ B'.length :=
      length_change_le_of_descending hds' (fun a ha => hpos a (List.mem_cons_of_mem _ ha))
        ((hl.sublist hBl).sublist hB') fun a ha => hBmem a (hB'.subset ha)
    rw [change, List.length_append, List.length_replicate, hdiv, hrest]
    omega

/-- **Change is made in as few parts as possible** where each denomination divides the larger
    ones. -/
theorem length_change_le {ds l : List ℕ} (hds : Descending id ds) (hpos : ∀ d ∈ ds, 0 < d)
    (hmem : ∀ a ∈ l, a ∈ ds) : (change ds l.sum).length ≤ l.length := by
  have hperm := List.perm_insertionSort (· ≥ ·) l
  have hmem' : ∀ a ∈ l.insertionSort (· ≥ ·), a ∈ ds := fun a ha => hmem a (hperm.mem_iff.mp ha)
  -- Of two denominations the smaller one divides the other, so sorting makes a chain.
  have hdvd : ∀ a ∈ ds, ∀ b ∈ ds, b ≤ a → b ∣ a := by
    intro a ha b hb hle
    have hself : ∀ x ∈ ds, x ∣ x ∨ x ∣ x := fun x _ => Or.inl dvd_rfl
    have hfirst : ds.Pairwise fun a b => a ∣ b ∨ b ∣ a := hds.imp Or.inr
    have hsecond : ds.Pairwise fun a b => b ∣ a ∨ a ∣ b := hds.imp Or.inl
    rcases List.Pairwise.forall_of_forall_of_flip (R := fun a b => a ∣ b ∨ b ∣ a) hself hfirst
      hsecond ha hb with h | h
    · rw [Nat.le_antisymm hle (Nat.le_of_dvd (hpos b hb) h)]
    · exact h
  have hsorted := List.pairwise_insertionSort (· ≥ ·) l
  have hchain : Descending id (l.insertionSort (· ≥ ·)) :=
    hsorted.imp_of_mem fun ha hb hle => hdvd _ (hmem' _ ha) _ (hmem' _ hb) hle
  have hle := length_change_le_of_descending hds hpos hchain hmem'
  rwa [hperm.sum_eq, hperm.length_eq] at hle

end Lib
