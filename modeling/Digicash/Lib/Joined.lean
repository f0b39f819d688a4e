import Mathlib.Data.List.Count

/-!
# Joined fields

A text put together from fields comes apart again only where both readings agree on where a
field ends. They do if the separator occurs equally often in it, in particular if it does not
occur at all; without a separator, if the field is equally long.
-/

namespace Lib.Joined

variable {α : Type} [DecidableEq α] {sep : α}

/-- **A field ends at the same separator** in both texts if it has equally many of its own. -/
theorem split {x x' y y' : List α} (hcount : x.count sep = x'.count sep)
    (h : x ++ sep :: y = x' ++ sep :: y') : x = x' ∧ y = y' := by
  induction x generalizing x' with
  | nil =>
    cases x' with
    | nil => exact ⟨rfl, (List.cons.inj h).2⟩
    | cons b x' =>
      obtain ⟨rfl, -⟩ := List.cons.inj h
      exact absurd hcount (by simp)
  | cons a x ih =>
    cases x' with
    | nil =>
      obtain ⟨rfl, -⟩ := List.cons.inj h
      exact absurd hcount (by simp)
    | cons b x' =>
      obtain ⟨rfl, htail⟩ := List.cons.inj h
      have hrest : x.count sep = x'.count sep := by
        simp only [List.count_cons] at hcount
        omega
      obtain ⟨rfl, hy⟩ := ih hrest htail
      exact ⟨rfl, hy⟩

theorem split_of_notMem {x x' y y' : List α} (hx : sep ∉ x) (hx' : sep ∉ x')
    (h : x ++ sep :: y = x' ++ sep :: y') : x = x' ∧ y = y' :=
  split ((List.count_eq_zero_of_not_mem hx).trans (List.count_eq_zero_of_not_mem hx').symm) h

end Lib.Joined
