import Mathlib.Data.List.Count

/-!
# Edit buffers

A key appends a character to a buffer or erases its last one, if there is one (`press`). An
erasure that finds the buffer empty is `idle`, any other removes a character, so a buffer holds
the characters typed except for those erased (`length_edit`).
-/

namespace EditBuffer

universe u

/-- A key. -/
inductive Key (α : Type u)
  | char (a : α)
  | erase
deriving DecidableEq, Repr

namespace Key

variable {α : Type u}

/-- The key types a character. -/
def isChar : Key α → Bool
  | char _ => true
  | erase => false

end Key

variable {α : Type u} {a : α} {buffer : List α} {ks ks' : List (Key α)}

/-- A key pressed. -/
def press (buffer : List α) : Key α → List α
  | .char a => buffer ++ [a]
  | .erase => buffer.dropLast

/-- The buffer after some keys. -/
def edit (buffer : List α) (ks : List (Key α)) : List α :=
  ks.foldl press buffer

/-- The erasures among the keys that find the buffer empty. -/
def idle : List α → List (Key α) → Nat
  | _, [] => 0
  | buffer, .char a :: ks => idle (buffer ++ [a]) ks
  | [], .erase :: ks => idle [] ks + 1
  | b :: buffer, .erase :: ks => idle (b :: buffer).dropLast ks

/-- The erasures among the keys that remove a character. -/
def erased : List α → List (Key α) → Nat
  | _, [] => 0
  | buffer, .char a :: ks => erased (buffer ++ [a]) ks
  | [], .erase :: ks => erased [] ks
  | b :: buffer, .erase :: ks => erased (b :: buffer).dropLast ks + 1

@[simp] theorem edit_nil (buffer : List α) : edit buffer [] = buffer :=
  rfl

@[simp] theorem edit_cons (buffer : List α) (k : Key α) (ks : List (Key α)) :
    edit buffer (k :: ks) = edit (press buffer k) ks :=
  rfl

theorem edit_append (buffer : List α) (ks ks' : List (Key α)) :
    edit buffer (ks ++ ks') = edit (edit buffer ks) ks' :=
  List.foldl_append

theorem idle_append (buffer : List α) (ks ks' : List (Key α)) :
    idle buffer (ks ++ ks') = idle buffer ks + idle (edit buffer ks) ks' := by
  induction ks generalizing buffer with
  | nil => simp [idle]
  | cons k ks ih =>
    cases k with
    | char a => exact ih (buffer ++ [a])
    | erase =>
      cases buffer with
      | nil =>
        rw [List.cons_append, idle, idle, ih, Nat.add_right_comm]
        rfl
      | cons b buffer => exact ih (b :: buffer).dropLast

theorem idle_erase_of_ne_nil (h : buffer ≠ []) (ks : List (Key α)) :
    idle buffer (.erase :: ks) = idle buffer.dropLast ks := by
  cases buffer with
  | nil => exact absurd rfl h
  | cons b buffer => rfl

/-- The buffer holds what was typed. -/
theorem mem_edit (h : a ∈ edit buffer ks) : a ∈ buffer ∨ .char a ∈ ks := by
  induction ks generalizing buffer with
  | nil => exact Or.inl h
  | cons k ks ih =>
    rcases ih h with hmem | hmem
    · cases k with
      | char b =>
        rcases List.mem_append.1 hmem with hmem | hmem
        · exact Or.inl hmem
        · exact Or.inr (by simp [List.mem_singleton.1 hmem])
      | erase => exact Or.inl (List.dropLast_subset buffer hmem)
    · exact Or.inr (List.mem_cons_of_mem k hmem)

/-- The buffer holds as many characters as were typed and not erased. -/
theorem length_edit (buffer : List α) (ks : List (Key α)) :
    (edit buffer ks).length + erased buffer ks = buffer.length + ks.countP Key.isChar := by
  induction ks generalizing buffer with
  | nil => rfl
  | cons k ks ih =>
    have htail := ih (press buffer k)
    cases k with
    | char a =>
      simp only [press, List.length_append, List.length_singleton] at htail
      rw [List.countP_cons_of_pos rfl, edit_cons, erased, press]
      omega
    | erase =>
      rw [List.countP_cons_of_neg (by simp [Key.isChar]), edit_cons]
      cases buffer with
      | nil => exact htail
      | cons b buffer =>
        simp only [press, List.length_dropLast, List.length_cons] at htail
        simp only [erased, press, List.length_cons]
        omega

end EditBuffer
