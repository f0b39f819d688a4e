import Mathlib.Algebra.BigOperators.Ring.Finset
import Mathlib.Algebra.Order.BigOperators.Group.List
import Mathlib.Algebra.Order.Group.Nat
import Mathlib.Data.Fintype.Basic
import Mathlib.Data.List.Perm.Subperm

/-!
# Sums of things of a kind

`gather` lists what every member of a finite family has, each item with its owner. And where
the items of each kind are at most as many here as there, and an item weighs what its kind
weighs, all items here weigh at most what all items there do (`sum_le_of_kinds`). So they do
where each item here has one of its own there that weighs as much (`sum_le_of_matched`).
-/

namespace Lib

variable {B α β γ : Type}

section Gather

variable [Fintype B] {f : B → List α}

/-- The items of every member, each with its owner. -/
noncomputable def gather (f : B → List α) : List (B × α) :=
  Finset.univ.toList.flatMap fun b => (f b).map fun a => (b, a)

theorem mem_gather {x : B × α} : x ∈ gather f ↔ x.2 ∈ f x.1 := by
  simp only [gather, List.mem_flatMap, Finset.mem_toList, Finset.mem_univ, true_and, List.mem_map]
  constructor
  · rintro ⟨b, a, ha, rfl⟩
    exact ha
  · exact fun h => ⟨x.1, x.2, h, rfl⟩

/-- What is named apart by each member, and by no two members alike, is named apart. -/
theorem nodup_map_gather {g : α → β} (hone : ∀ b, ((f b).map g).Nodup)
    (hapart : ∀ b b' a a', a ∈ f b → a' ∈ f b' → g a = g a' → b = b') :
    ((gather f).map fun x => g x.2).Nodup := by
  rw [gather, List.map_flatMap, List.nodup_flatMap]
  refine ⟨fun b _ => ?_, (Finset.nodup_toList _).imp fun {b b'} hne n hn hn' => ?_⟩
  · rw [List.map_map]
    exact hone b
  · obtain ⟨x, hx, rfl⟩ := List.mem_map.mp hn
    obtain ⟨x', hx', hname⟩ := List.mem_map.mp hn'
    obtain ⟨a, ha, rfl⟩ := List.mem_map.mp hx
    obtain ⟨a', ha', rfl⟩ := List.mem_map.mp hx'
    exact hne (hapart b b' a a' ha ha' hname.symm)

theorem sum_gather (w : B → α → Nat) :
    ((gather f).map fun x => w x.1 x.2).sum = ∑ b, ((f b).map (w b)).sum := by
  rw [gather, List.map_flatMap, List.flatMap_def, List.sum_flatten, List.map_map,
    ← Finset.sum_map_toList]
  refine congrArg List.sum (List.map_congr_left fun b _ => ?_)
  rw [Function.comp_apply, List.map_map]
  rfl

end Gather

/-- **Fewer of each kind weigh less.** -/
theorem sum_le_of_kinds [DecidableEq γ] (w : γ → Nat) {f : α → γ} {g : β → γ} {l : List α}
    {l' : List β} (h : ∀ k, (l.filter fun a => f a = k).length ≤
      (l'.filter fun b => g b = k).length) :
    (l.map fun a => w (f a)).sum ≤ (l'.map fun b => w (g b)).sum := by
  have hkinds : (l.map f).Subperm (l'.map g) := by
    refine List.subperm_ext_iff.mpr fun k _ => ?_
    rw [List.count_eq_countP, List.countP_map, List.count_eq_countP, List.countP_map,
      List.countP_eq_length_filter, List.countP_eq_length_filter]
    exact h k
  obtain ⟨m, hperm, hsub⟩ := hkinds
  calc (l.map fun a => w (f a)).sum
    _ = (m.map w).sum := by
      rw [(hperm.map w).sum_eq, List.map_map]
      rfl
    _ ≤ ((l'.map g).map w).sum := (hsub.map w).sum_le_sum fun _ _ => Nat.zero_le _
    _ = (l'.map fun b => w (g b)).sum := by
      rw [List.map_map]
      rfl

/-- **What is matched one to one weighs less.** -/
theorem sum_le_of_matched {M : α → β → Prop} {w : α → Int} {v : β → Int} {l : List α}
    {l' : List β} (hl : l.Nodup) (hmatch : ∀ a ∈ l, ∃ b ∈ l', M a b ∧ w a ≤ v b)
    (hone : ∀ a ∈ l, ∀ a' ∈ l, ∀ b, M a b → M a' b → a = a') (hv : ∀ b ∈ l', 0 ≤ v b) :
    (l.map w).sum ≤ (l'.map v).sum := by
  rcases l.eq_nil_or_concat with rfl | ⟨_, a₀, hl₀⟩
  · exact List.sum_nonneg fun x hx => by
      obtain ⟨b, hb, rfl⟩ := List.mem_map.mp hx
      exact hv b hb
  have : Nonempty β := ⟨(hmatch a₀ (by simp [hl₀])).choose⟩
  choose! f hf using hmatch
  have hnodup : (l.map f).Nodup :=
    hl.map_on fun a ha a' ha' heq =>
      hone a ha a' ha' (f a) (hf a ha).2.1 (heq ▸ (hf a' ha').2.1)
  have hsub : l.map f ⊆ l' := by
    intro b hb
    obtain ⟨a, ha, rfl⟩ := List.mem_map.mp hb
    exact (hf a ha).1
  obtain ⟨m, hperm, hm⟩ := hnodup.subperm hsub
  calc (l.map w).sum
    _ ≤ ((l.map f).map v).sum := by
      rw [List.map_map]
      exact List.sum_le_sum fun a ha => (hf a ha).2.2
    _ = (m.map v).sum := ((hperm.map v).sum_eq).symm
    _ ≤ (l'.map v).sum := (hm.map v).sum_le_sum fun x hx => by
      obtain ⟨b, hb, rfl⟩ := List.mem_map.mp hx
      exact hv b hb

end Lib
