import DesperateStruggle.Machine

/-!
# Traces

Two lists are the same trace if swaps of neighbours that do not depend on each other lead from one
to the other (`TraceEq`). They have the same entries, and any entries that all depend on each other
stand in the same order (`TraceEq.filter_eq`).

A run is reordered by swapping two labels that are independent in the state before them
(`Machine.Reorder`). Where independent steps commute, a reordered run leads to the same state, and
what it emits is the same trace (`Machine.Reorder.run`).
-/

universe u v w

/-- Lists that differ by swaps of neighbours that do not depend on each other. -/
inductive TraceEq {α : Type u} (D : α → α → Prop) (l : List α) : List α → Prop
  | refl : TraceEq D l l
  | swap {l₁ l₂ : List α} {a b : α} (before : TraceEq D l (l₁ ++ a :: b :: l₂)) (indep : ¬D a b) :
      TraceEq D l (l₁ ++ b :: a :: l₂)

namespace TraceEq

variable {α : Type u} {D : α → α → Prop} {l l' l'' : List α}

theorem trans (h : TraceEq D l l') (h' : TraceEq D l' l'') : TraceEq D l l'' := by
  induction h' with
  | refl => exact h
  | swap _ indep ih => exact ih.swap indep

theorem append_left (h : TraceEq D l l') (k : List α) : TraceEq D (k ++ l) (k ++ l') := by
  induction h with
  | refl => exact .refl
  | @swap l₁ l₂ a b _ indep ih =>
    rw [← List.append_assoc] at ih ⊢
    exact ih.swap indep

theorem append_right (h : TraceEq D l l') (k : List α) : TraceEq D (l ++ k) (l' ++ k) := by
  induction h with
  | refl => exact .refl
  | @swap l₁ l₂ a b _ indep ih =>
    have hsplit : ∀ x y : α, l₁ ++ x :: y :: l₂ ++ k = l₁ ++ x :: y :: (l₂ ++ k) := by simp
    rw [hsplit] at ih ⊢
    exact ih.swap indep

/-- One entry moves behind a list that does not depend on it. -/
theorem cons_append {a : α} (h : ∀ b ∈ l, ¬D a b) : TraceEq D (a :: l) (l ++ [a]) := by
  induction l with
  | nil => exact .refl
  | cons b l ih =>
    have hstart : TraceEq D (a :: b :: l) ([] ++ a :: b :: l) := .refl
    have hswap : TraceEq D (a :: b :: l) (b :: a :: l) := hstart.swap (h b List.mem_cons_self)
    exact hswap.trans ((ih fun b' hb' => h b' (List.mem_cons_of_mem b hb')).append_left [b])

/-- Two lists whose entries do not depend on each other change places. -/
theorem append_comm (h : ∀ a ∈ l, ∀ b ∈ l', ¬D a b) : TraceEq D (l ++ l') (l' ++ l) := by
  induction l with
  | nil =>
    rw [List.append_nil]
    exact .refl
  | cons a l ih =>
    have htail := ih fun a' ha' => h a' (List.mem_cons_of_mem a ha')
    have hhead : TraceEq D (a :: l') (l' ++ [a]) := cons_append (h a List.mem_cons_self)
    have hmove := hhead.append_right l
    rw [List.append_assoc] at hmove
    exact (htail.append_left [a]).trans hmove

/-- Both lists have the same entries. -/
theorem perm (h : TraceEq D l l') : l.Perm l' := by
  induction h with
  | refl => exact .refl l
  | swap _ _ ih => exact ih.trans ((List.Perm.swap _ _ _).append_left _)

/-- Entries that all depend on each other stand in the same order. -/
theorem filter_eq {p : α → Bool} (hp : ∀ a b, p a = true → p b = true → D a b)
    (h : TraceEq D l l') : l.filter p = l'.filter p := by
  induction h with
  | refl => rfl
  | @swap l₁ l₂ a b _ indep ih =>
    rw [ih, List.filter_append, List.filter_append]
    congr 1
    by_cases ha : p a = true
    · have hb : p b = false := Bool.eq_false_iff.2 fun hb => indep (hp a b ha hb)
      simp [List.filter_cons, hb]
    · simp [List.filter_cons, ha]

end TraceEq

namespace Machine

variable {σ : Type u} {ℓ : Type v} {ω : Type w} {M : Machine σ ℓ ω}

/-- Labels reordered by swaps of two that are independent in the state before them. -/
inductive Reorder (M : Machine σ ℓ ω) (I : σ → ℓ → ℓ → Prop) (s : σ) (ls : List ℓ) :
    List ℓ → Prop
  | refl : M.Reorder I s ls ls
  | swap {ls₁ ls₂ : List ℓ} {os : List ω} {t : σ} {l l' : ℓ}
      (before : M.Reorder I s ls (ls₁ ++ l :: l' :: ls₂)) (run : M.Run s ls₁ os t)
      (indep : I t l l') : M.Reorder I s ls (ls₁ ++ l' :: l :: ls₂)

/-- Independent steps commute, and what they emit does not depend on each other. -/
def Commutes (M : Machine σ ℓ ω) (I : σ → ℓ → ℓ → Prop) (D : ω → ω → Prop) : Prop :=
  ∀ s l l' t u o o', I s l l' → M.step s l = some (t, o) → M.step t l' = some (u, o') →
    (∃ t', M.step s l' = some (t', o') ∧ M.step t' l = some (u, o)) ∧ ∀ a ∈ o, ∀ b ∈ o', ¬D a b

variable {I : σ → ℓ → ℓ → Prop} {D : ω → ω → Prop} {s t : σ} {ls ls' : List ℓ} {os : List ω}

/-- A reordered run leads to the same state and emits the same trace. -/
theorem Reorder.run (hI : M.Commutes I D) (h : M.Reorder I s ls ls') (hrun : M.Run s ls os t) :
    ∃ os', M.Run s ls' os' t ∧ TraceEq D os os' := by
  induction h with
  | refl => exact ⟨os, hrun, .refl⟩
  | @swap ls₁ ls₂ os₁ u l l' _ run indep ih =>
    obtain ⟨os', hrun', htrace⟩ := ih
    obtain ⟨os₂, v, os₃, hstart, hpair, rfl⟩ := hrun'.split
    obtain ⟨rfl, rfl⟩ := run.det hstart
    obtain ⟨v, o, os₄, hfirst, htail, rfl⟩ := hpair.exists_head
    obtain ⟨w, o', os₅, hsecond, hrest, rfl⟩ := htail.exists_head
    obtain ⟨⟨v', hfirst', hsecond'⟩, hindep⟩ := hI u l l' v w o o' indep hfirst hsecond
    refine ⟨_, hstart.trans (.head hfirst' (.head hsecond' hrest)), htrace.trans ?_⟩
    have hcomm := ((TraceEq.append_comm hindep).append_right os₅).append_left os₁
    simpa only [List.append_assoc] using hcomm

end Machine
