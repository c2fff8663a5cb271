import Mathlib.Algebra.Ring.Parity
import Mathlib.Data.List.Count
import Mathlib.Data.List.Iterate

/-!
# Taking turns

Two parties that take turns are an involution `f` without fixed points, and the first `n` turns
from `a` on are `List.iterate f a n`. Each party has about half of them (`count_iterate`), and
whoever is next has had half of them exactly, rounded down (`count_iterate_next`).
-/

namespace Alternation

variable {α : Type*} {f : α → α} {a : α}

/-- The turns up to the next one. -/
theorem iterate_succ (f : α → α) (a : α) (n : Nat) :
    List.iterate f a (n + 1) = List.iterate f a n ++ [f^[n] a] :=
  List.iterate_add f a n 1

/-- Whoever is next. -/
theorem next (hf : Function.Involutive f) (n : Nat) : f^[n] a = if Even n then a else f a := by
  split_ifs with heven
  · rw [hf.iterate_even heven, id]
  · rw [hf.iterate_odd (Nat.not_even_iff_odd.1 heven)]

variable [DecidableEq α]

/-- How many of the turns each of the two has. -/
theorem count_iterate (hf : Function.Involutive f) (hne : f a ≠ a) (n : Nat) :
    (List.iterate f a n).count a = (n + 1) / 2 ∧ (List.iterate f a n).count (f a) = n / 2 := by
  induction n with
  | zero => exact ⟨rfl, rfl⟩
  | succ n ih =>
    rw [iterate_succ, List.count_append, List.count_append, ih.1, ih.2, next hf]
    rcases Nat.even_or_odd n with heven | hodd
    · obtain ⟨k, rfl⟩ := heven.two_dvd
      simp [hne.symm]
      omega
    · obtain ⟨k, rfl⟩ := hodd
      simp [hne]
      omega

/-- Whoever is next has had half of the turns. -/
theorem count_iterate_next (hf : Function.Involutive f) (hne : f a ≠ a) (n : Nat) :
    (List.iterate f a n).count (f^[n] a) = n / 2 := by
  obtain ⟨hself, hother⟩ := count_iterate hf hne n
  rw [next hf]
  split_ifs with heven
  · obtain ⟨k, rfl⟩ := heven.two_dvd
    omega
  · exact hother

/-- No one is ahead by more than a turn. -/
theorem count_iterate_le (hf : Function.Involutive f) (hne : f a ≠ a) (n : Nat) {b c : α}
    (hb : b = a ∨ b = f a) (hc : c = a ∨ c = f a) :
    (List.iterate f a n).count b ≤ (List.iterate f a n).count c + 1 := by
  obtain ⟨hself, hother⟩ := count_iterate hf hne n
  rcases hb with rfl | rfl <;> rcases hc with rfl | rfl <;> omega

end Alternation
