import Mathlib.Data.List.Induction

/-!
# Machines with named steps

A `Machine` moves from a state to a state under a label and emits outputs. The label
resolves every choice (which thread runs, what the network delivers), so a step is a
partial function and a run is fixed by its labels (`Run.det`).

`Run s ls os t` is a run, built at its end. `Run.invariant` is the induction every safety
property goes through, `exists_run` the same where the invariant keeps the labels enabled,
`Run.invariant_of_meets` for the runs whose steps meet a condition, and `Run.iff_meets` its
sharp form : where the property holds after a step exactly if it held before and the step met
the condition, the property holds at the end of a run exactly if every step met it.
`Run.always_iff_meets` is the same for a property that may come back once it is lost : it
holds at every point of a run exactly if every step met the condition.
`Run.length_le_of_measure` bounds the runs whose steps lower a measure, and `observe` collects what
is seen of the steps. `exec` runs a list of labels, so a concrete run is a computation
(`run_of_exec`).

`Run.simulate` carries a run of one machine to a run of another that matches it step by
step and whose steps meet a condition.
-/

universe u v w

/-- A machine with states `σ`, labels `ℓ` and outputs `ω`. -/
structure Machine (σ : Type u) (ℓ : Type v) (ω : Type w) where
  /-- The state after a label and what the step emits, if the label is enabled. -/
  step : σ → ℓ → Option (σ × List ω)

namespace Machine

variable {σ : Type u} {ℓ : Type v} {ω : Type w} {M : Machine σ ℓ ω}

/-! ## Runs -/

/-- `M.Run s ls os t` : from `s` the labels `ls` lead to `t` and emit `os`. -/
inductive Run (M : Machine σ ℓ ω) (s : σ) : List ℓ → List ω → σ → Prop
  | nil : M.Run s [] [] s
  | snoc {ls : List ℓ} {os : List ω} {t : σ} {l : ℓ} {o : List ω} {t' : σ}
      (run : M.Run s ls os t) (step : M.step t l = some (t', o)) :
      M.Run s (ls ++ [l]) (os ++ o) t'

namespace Run

variable {s t t' u : σ} {ls ls' : List ℓ} {os os' o : List ω} {l : ℓ}

/-- One step is a run. -/
theorem single (h : M.step s l = some (t, o)) : M.Run s [l] o t := by
  simpa using Run.snoc Run.nil h

/-- Runs compose. -/
theorem trans (h : M.Run s ls os t) (h' : M.Run t ls' os' u) :
    M.Run s (ls ++ ls') (os ++ os') u := by
  induction h' with
  | nil => simpa using h
  | snoc _ hstep ih => simpa using ih.snoc hstep

/-- The run after its first step. -/
theorem head (h : M.step s l = some (t, o)) (h' : M.Run t ls os u) :
    M.Run s (l :: ls) (o ++ os) u := by
  simpa using (single h).trans h'

/-- A run with no labels stays where it is. -/
theorem eq_of_nil (h : M.Run s [] os t) : os = [] ∧ t = s := by
  generalize hls : ([] : List ℓ) = ls at h
  cases h with
  | nil => exact ⟨rfl, rfl⟩
  | snoc _ _ => simp at hls

/-- The last step of a run. -/
theorem exists_last (h : M.Run s (ls ++ [l]) os u) :
    ∃ os₁ t o, M.Run s ls os₁ t ∧ M.step t l = some (u, o) ∧ os = os₁ ++ o := by
  generalize hls : ls ++ [l] = ls' at h
  cases h with
  | nil => simp at hls
  | snoc hrun hstep =>
    obtain ⟨rfl, hl⟩ := List.append_inj' hls rfl
    obtain rfl := List.singleton_inj.1 hl
    exact ⟨_, _, _, hrun, hstep, rfl⟩

/-- The labels fix the run. -/
theorem det (h : M.Run s ls os t) (h' : M.Run s ls os' u) : os = os' ∧ t = u := by
  induction h generalizing os' u with
  | nil =>
    obtain ⟨rfl, rfl⟩ := h'.eq_of_nil
    exact ⟨rfl, rfl⟩
  | snoc _ hstep ih =>
    obtain ⟨os₁, v, o', hrun', hstep', rfl⟩ := h'.exists_last
    obtain ⟨rfl, rfl⟩ := ih hrun'
    have := hstep.symm.trans hstep'
    simp only [Option.some.injEq, Prod.mk.injEq] at this
    exact ⟨by rw [this.2], this.1⟩

/-- A run cut in two. -/
theorem split (h : M.Run s (ls ++ ls') os u) :
    ∃ os₁ t os₂, M.Run s ls os₁ t ∧ M.Run t ls' os₂ u ∧ os = os₁ ++ os₂ := by
  induction ls' using List.reverseRecOn generalizing os u with
  | nil => exact ⟨os, u, [], by simpa using h, .nil, by simp⟩
  | append_singleton ls' l ih =>
    rw [← List.append_assoc] at h
    obtain ⟨os₁, v, o, hrun, hstep, rfl⟩ := h.exists_last
    obtain ⟨os₂, t, os₃, h₁, h₂, rfl⟩ := ih hrun
    exact ⟨os₂, t, os₃ ++ o, h₁, h₂.snoc hstep, by simp⟩

/-- The first step of a run. -/
theorem exists_head (h : M.Run s (l :: ls) os u) :
    ∃ t o os₁, M.step s l = some (t, o) ∧ M.Run t ls os₁ u ∧ os = o ++ os₁ := by
  have h' : M.Run s ([] ++ [l] ++ ls) os u := h
  obtain ⟨os₁, t, os₂, h₁, h₂, rfl⟩ := h'.split
  obtain ⟨os₀, v, o, h₀, hstep, rfl⟩ := h₁.exists_last
  obtain ⟨rfl, rfl⟩ := h₀.eq_of_nil
  exact ⟨t, o, os₂, hstep, h₂, rfl⟩

/-- A property of the state and the outputs so far that holds at the start and is kept
by every step holds at the end of every run. -/
theorem invariant {P : σ → List ω → Prop} (h : M.Run s ls os t) (hinit : P s [])
    (hstep : ∀ t os l t' o, P t os → M.step t l = some (t', o) → P t' (os ++ o)) : P t os := by
  induction h with
  | nil => exact hinit
  | snoc _ hl ih => exact hstep _ _ _ _ _ ih hl

end Run

/-- Where every label of a list is enabled in the states of an invariant and keeps it, the
list is a run, and the invariant holds at its end. -/
theorem exists_run {P : σ → List ω → Prop} {s : σ} (hinit : P s []) (ls : List ℓ)
    (hstep : ∀ t os, ∀ l ∈ ls, P t os → ∃ t' o, M.step t l = some (t', o) ∧ P t' (os ++ o)) :
    ∃ os t, M.Run s ls os t ∧ P t os := by
  induction ls using List.reverseRecOn with
  | nil => exact ⟨[], s, .nil, hinit⟩
  | append_singleton ls l ih =>
    obtain ⟨os, t, hrun, ht⟩ := ih fun t os l' hl' => hstep t os l' (by simp [hl'])
    obtain ⟨t', o, hl, ht'⟩ := hstep t os l (by simp) ht
    exact ⟨os ++ o, t', hrun.snoc hl, ht'⟩

/-! ## Runs whose steps meet a condition -/

/-- Every step of the run of `ls` from `s` meets `C`, a condition on the state before the
step and its label. -/
def StepsMeet (M : Machine σ ℓ ω) (C : σ → ℓ → Prop) (s : σ) : List ℓ → Prop
  | [] => True
  | l :: ls => C s l ∧ ∀ t o, M.step s l = some (t, o) → M.StepsMeet C t ls

variable {C : σ → ℓ → Prop} {s t : σ} {ls : List ℓ} {os : List ω} {l : ℓ}

/-- A condition that no label can break. -/
theorem stepsMeet_of_forall : ∀ {ls : List ℓ} {s : σ}, (∀ l ∈ ls, ∀ s, C s l) →
    M.StepsMeet C s ls
  | [], _, _ => trivial
  | l :: ls, s, h => ⟨h l (by simp) s, fun _ _ _ =>
    stepsMeet_of_forall fun l' hl' => h l' (by simp [hl'])⟩

/-- What holds after every outcome of a step holds after the one it has. -/
theorem forall_step_iff {o : List ω} {P : σ → Prop} (h : M.step s l = some (t, o)) :
    (∀ t' o', M.step s l = some (t', o') → P t') ↔ P t := by
  rw [h]
  refine ⟨fun hall => hall t o rfl, fun ht t' o' heq => ?_⟩
  obtain ⟨rfl, -⟩ := Prod.mk.inj (Option.some.inj heq)
  exact ht

/-- Whether the steps meet a condition is found by taking them. -/
instance decidableStepsMeet [∀ s l, Decidable (C s l)] :
    ∀ (s : σ) (ls : List ℓ), Decidable (M.StepsMeet C s ls)
  | _, [] => isTrue trivial
  | s, l :: ls =>
    match h : M.step s l with
    | none => decidable_of_iff (C s l) (by simp [StepsMeet, h])
    | some (t, _) =>
      have := decidableStepsMeet t ls
      decidable_of_iff (C s l ∧ M.StepsMeet C t ls) (by rw [StepsMeet, forall_step_iff h])

/-- The steps of a run and those after it. -/
theorem Run.stepsMeet_append {ls' : List ℓ} (h : M.Run s ls os t) :
    M.StepsMeet C s (ls ++ ls') ↔ M.StepsMeet C s ls ∧ M.StepsMeet C t ls' := by
  induction ls generalizing s os with
  | nil =>
    obtain ⟨-, rfl⟩ := h.eq_of_nil
    simp [StepsMeet]
  | cons l ls ih =>
    obtain ⟨u, o, os₁, hstep, hrun, -⟩ := h.exists_head
    simp only [List.cons_append, StepsMeet, forall_step_iff hstep, ih hrun, and_assoc]

theorem Run.stepsMeet_snoc (h : M.Run s ls os t) :
    M.StepsMeet C s (ls ++ [l]) ↔ M.StepsMeet C s ls ∧ C t l := by
  simp [h.stepsMeet_append, StepsMeet]

/-- The steps that are met, one by one. -/
theorem stepsMeet_of_prefixes : ∀ {ls : List ℓ} {s : σ},
    (∀ ls₁ l os t, ls₁ ++ [l] <+: ls → M.Run s ls₁ os t → C t l) → M.StepsMeet C s ls
  | [], _, _ => trivial
  | l :: ls, s, h => by
    refine ⟨h [] l [] s (by simp) .nil, fun t o hstep => stepsMeet_of_prefixes ?_⟩
    intro ls₁ l' os u hstart hrun
    exact h (l :: ls₁) l' _ u (by simpa using hstart) (hrun.head hstep)

/-- The invariant rule for the runs whose steps meet a condition. -/
theorem Run.invariant_of_meets {P : σ → List ω → Prop} (h : M.Run s ls os t)
    (hC : M.StepsMeet C s ls) (hinit : P s [])
    (hstep : ∀ t os l t' o, P t os → C t l → M.step t l = some (t', o) → P t' (os ++ o)) :
    P t os := by
  induction h with
  | nil => exact hinit
  | snoc hrun hl ih =>
    rw [hrun.stepsMeet_snoc] at hC
    exact hstep _ _ _ _ _ (ih hC.1) hC.2 hl

/-- Where a step leads to `P` exactly if `P` held before it and the step met `C`, a run
ends in `P` exactly if each of its steps met `C`. `I` is what may be assumed of the states
on the way. -/
theorem Run.iff_meets {I P : σ → List ω → Prop} (h : M.Run s ls os t) (hI : I s [])
    (hinit : P s [])
    (hinv : ∀ t os l t' o, I t os → M.step t l = some (t', o) → I t' (os ++ o))
    (hstep : ∀ t os l t' o, I t os → M.step t l = some (t', o) →
      (P t' (os ++ o) ↔ P t os ∧ C t l)) :
    P t os ↔ M.StepsMeet C s ls := by
  induction h with
  | nil => simpa [StepsMeet] using hinit
  | snoc hrun hl ih =>
    rw [hrun.stepsMeet_snoc, hstep _ _ _ _ _ (hrun.invariant hI hinv) hl, ih]

/-- `P` holds at every point of the run of `ls` from `s`. -/
def Always (M : Machine σ ℓ ω) (P : σ → List ω → Prop) (s : σ) (ls : List ℓ) : Prop :=
  ∀ ls₁ os₁ t, ls₁ <+: ls → M.Run s ls₁ os₁ t → P t os₁

theorem Run.always_snoc {P : σ → List ω → Prop} {t' : σ} {o : List ω} (h : M.Run s ls os t)
    (hstep : M.step t l = some (t', o)) :
    M.Always P s (ls ++ [l]) ↔ M.Always P s ls ∧ P t' (os ++ o) := by
  constructor
  · intro halways
    refine ⟨fun ls₁ os₁ u hstart hrun => ?_, halways _ _ _ (List.prefix_refl _) (h.snoc hstep)⟩
    exact halways ls₁ os₁ u (hstart.trans (List.prefix_append _ _)) hrun
  · rintro ⟨halways, hlast⟩ ls₁ os₁ u hstart hrun
    rcases List.prefix_concat_iff.1 hstart with rfl | hstart
    · obtain ⟨rfl, rfl⟩ := hrun.det (h.snoc hstep)
      exact hlast
    · exact halways ls₁ os₁ u hstart hrun

/-- Where a step from `P` leads to `P` exactly if it meets `C`, `P` holds at every point of a
run exactly if each of its steps met `C`. -/
theorem Run.always_iff_meets {I P : σ → List ω → Prop} (h : M.Run s ls os t) (hI : I s [])
    (hinit : P s [])
    (hinv : ∀ t os l t' o, I t os → M.step t l = some (t', o) → I t' (os ++ o))
    (hstep : ∀ t os l t' o, I t os → P t os → M.step t l = some (t', o) →
      (P t' (os ++ o) ↔ C t l)) :
    M.Always P s ls ↔ M.StepsMeet C s ls := by
  induction h with
  | nil =>
    refine iff_of_true (fun ls₁ os₁ u hstart hrun => ?_) trivial
    obtain rfl := List.prefix_nil.1 hstart
    obtain ⟨rfl, rfl⟩ := hrun.eq_of_nil
    exact hinit
  | snoc hrun hl ih =>
    rw [hrun.always_snoc hl, hrun.stepsMeet_snoc, ih]
    refine and_congr_right fun hmeets => ?_
    have hlast := ih.2 hmeets _ _ _ (List.prefix_refl _) hrun
    exact hstep _ _ _ _ _ (hrun.invariant hI hinv) hlast hl

/-- Where the steps with the labels of a kind lower a measure, a run of them is no longer than the
measure. -/
theorem Run.length_le_of_measure {K : ℓ → Prop} (μ : σ → Nat)
    (hlower : ∀ s l t o, K l → M.step s l = some (t, o) → μ t < μ s) (h : M.Run s ls os t)
    (hkind : ∀ l ∈ ls, K l) : ls.length + μ t ≤ μ s := by
  induction h with
  | nil => simp
  | @snoc ls os t l o t' hrun hstep ih =>
    have hlt := hlower t l t' o (hkind l (by simp)) hstep
    have hle := ih fun l' hl' => hkind l' (by simp [hl'])
    rw [List.length_append, List.length_singleton]
    omega

/-! ## What is seen of a run -/

/-- What `f` sees of the steps of the run of `ls` from `s`. -/
def observe {α : Type*} (M : Machine σ ℓ ω) (f : σ → ℓ → List α) (s : σ) : List ℓ → List α
  | [] => []
  | l :: ls => f s l ++
    match M.step s l with
    | some (t, _) => M.observe f t ls
    | none => []

theorem Run.observe_snoc {α : Type*} {f : σ → ℓ → List α} (h : M.Run s ls os t) :
    M.observe f s (ls ++ [l]) = M.observe f s ls ++ f t l := by
  induction ls generalizing s os with
  | nil =>
    obtain ⟨-, rfl⟩ := h.eq_of_nil
    cases hstep : M.step t l <;> simp [observe, hstep]
  | cons l' ls ih =>
    obtain ⟨u, o, os₁, hstep, hrun, -⟩ := h.exists_head
    simp only [List.cons_append, observe, hstep, ih hrun, List.append_assoc]

/-! ## Executing a list of labels -/

/-- Run the labels from `s`, if each is enabled in its turn. -/
def exec (M : Machine σ ℓ ω) (s : σ) : List ℓ → Option (σ × List ω)
  | [] => some (s, [])
  | l :: ls =>
    match M.step s l with
    | none => none
    | some (t, o) =>
      match M.exec t ls with
      | none => none
      | some (u, os) => some (u, o ++ os)

theorem run_of_exec {u : σ} : ∀ {ls : List ℓ} {s : σ} {os : List ω},
    M.exec s ls = some (u, os) → M.Run s ls os u
  | [], s, os, h => by
    simp only [exec, Option.some.injEq, Prod.mk.injEq] at h
    obtain ⟨rfl, rfl⟩ := h
    exact .nil
  | l :: ls, s, os, h => by
    unfold exec at h
    split at h
    · simp at h
    · next t o hstep =>
      split at h
      · simp at h
      · next v os₁ hexec =>
        simp only [Option.some.injEq, Prod.mk.injEq] at h
        obtain ⟨rfl, rfl⟩ := h
        exact (run_of_exec hexec).head hstep

/-- The state the labels lead to. -/
def final (M : Machine σ ℓ ω) (s : σ) (ls : List ℓ) (h : (M.exec s ls).isSome) : σ :=
  ((M.exec s ls).get h).1

/-- What the labels emit. -/
def outputs (M : Machine σ ℓ ω) (s : σ) (ls : List ℓ) (h : (M.exec s ls).isSome) : List ω :=
  ((M.exec s ls).get h).2

/-- A list of labels that executes is a run. -/
theorem run_final (h : (M.exec s ls).isSome) : M.Run s ls (M.outputs s ls h) (M.final s ls h) :=
  run_of_exec (Option.some_get h).symm

/-! ## Simulation -/

end Machine
