import Mathlib.Data.List.Rotate

/-!
# Around a list

A reader with an index of its own goes around a list : from index `t` its reading number `i` is
the entry at `t + i` modulo the length. `readings l a t k` counts how often it reads `a` in its
first `k` readings. Wherever it starts, a full round reads every entry once
(`readings_length`), so `q` rounds read `a` exactly `q` times as often as `a` stands in the list
(`readings_rounds`).
-/

namespace Cyclic

variable {α : Type*}

/-- A full round reads the list, turned to where it starts. -/
theorem map_round (l : List α) (t : Nat) :
    (List.range l.length).map (fun i => l[(t + i) % l.length]?) = (l.rotate t).map some := by
  refine List.ext_getElem? fun i => ?_
  rw [List.getElem?_map, List.getElem?_map]
  rcases Nat.lt_or_ge i l.length with hi | hi
  · rw [List.getElem?_range hi, List.getElem?_rotate hi, Nat.add_comm i t]
    have hlt : (t + i) % l.length < l.length := Nat.mod_lt _ (Nat.zero_lt_of_lt hi)
    simp [List.getElem?_eq_getElem hlt]
  · rw [List.getElem?_eq_none (by simpa using hi), List.getElem?_eq_none (by simpa using hi)]
    rfl

variable [DecidableEq α]

/-- How often the first `k` readings from index `t` read `a`. -/
def readings (l : List α) (a : α) (t k : Nat) : Nat :=
  (List.range k).countP fun i => l[(t + i) % l.length]? = some a

@[simp] theorem readings_zero (l : List α) (a : α) (t : Nat) : readings l a t 0 = 0 :=
  rfl

theorem readings_succ (l : List α) (a : α) (t k : Nat) :
    readings l a t (k + 1) =
      readings l a t k + if l[(t + k) % l.length]? = some a then 1 else 0 := by
  rw [readings, List.range_succ, List.countP_append, List.countP_singleton, ← readings]
  simp

theorem readings_add (l : List α) (a : α) (t j k : Nat) :
    readings l a t (j + k) = readings l a t j + readings l a (t + j) k := by
  induction k with
  | zero => rfl
  | succ k ih =>
    rw [← Nat.add_assoc, readings_succ, readings_succ, ih, Nat.add_assoc, Nat.add_assoc t j k]

/-- A full round reads every entry once. -/
theorem readings_length (l : List α) (a : α) (t : Nat) :
    readings l a t l.length = l.count a := by
  have hmap : readings l a t l.length =
      ((List.range l.length).map fun i => l[(t + i) % l.length]?).countP (· = some a) := by
    rw [List.countP_map]
    rfl
  rw [hmap, map_round, List.countP_map, ← (List.rotate_perm l t).count_eq a, List.count]
  refine List.countP_congr fun b _ => ?_
  simp

/-- What `q` rounds read. -/
theorem readings_rounds (l : List α) (a : α) (t q : Nat) :
    readings l a t (q * l.length) = q * l.count a := by
  induction q generalizing t with
  | zero => simp
  | succ q ih => rw [Nat.succ_mul, readings_add, ih, readings_length, Nat.succ_mul]

end Cyclic
