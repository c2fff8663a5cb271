import Mathlib.Data.Set.Function
import Mathlib.Data.Set.Lattice
import Mathlib.Logic.Function.Basic
import Mathlib.Order.CompletePartialOrder

/-!
# Operations with a footprint

An operation on a shared map may fail, and if it does not it returns a new map and a result.
It `ActsOn K` if it leaves the map alone outside `K`, and if what it does inside `K` and what it
returns depend on nothing outside `K`. Two operations with disjoint footprints commute : whichever
comes first, they return the same and leave the same map (`ActsOn.swap`).
-/

namespace Footprint

universe u v w

variable {κ : Type u} {ν : Type v} {β γ : Type w} {K K' : Set κ}

/-- The operation neither looks nor writes outside `K`. -/
structure ActsOn (K : Set κ) (F : (κ → ν) → Option ((κ → ν) × β)) : Prop where
  frame : ∀ {m m' : κ → ν} {b : β}, F m = some (m', b) → ∀ k ∉ K, m' k = m k
  congr : ∀ {m₁ m₂ m₁' : κ → ν} {b : β}, Set.EqOn m₁ m₂ K → F m₁ = some (m₁', b) →
    ∃ m₂', F m₂ = some (m₂', b) ∧ Set.EqOn m₁' m₂' K

namespace ActsOn

variable {F G : (κ → ν) → Option ((κ → ν) × β)} {F' : (κ → ν) → Option ((κ → ν) × γ)}

theorem of_eq (hF : ActsOn K F) (h : ∀ m, G m = F m) : ActsOn K G :=
  funext h ▸ hF

/-- An operation that always fails. -/
theorem fail : ActsOn K fun _ : κ → ν => (none : Option ((κ → ν) × β)) where
  frame h := by cases h
  congr _ h := by cases h

/-- An operation that leaves the map alone. -/
theorem const (b : β) : ActsOn K fun m : κ → ν => some (m, b) where
  frame h := by
    cases h
    exact fun _ _ => rfl
  congr heq h := by
    cases h
    exact ⟨_, rfl, heq⟩

/-- A choice between two operations that looks at `K` only. -/
theorem ite {p : (κ → ν) → Prop} [DecidablePred p]
    (hp : ∀ {m₁ m₂ : κ → ν}, Set.EqOn m₁ m₂ K → (p m₁ ↔ p m₂)) (hF : ActsOn K F)
    (hG : ActsOn K G) : ActsOn K fun m => if p m then F m else G m where
  frame := by
    intro m m' b h
    split_ifs at h
    · exact hF.frame h
    · exact hG.frame h
  congr := by
    intro m₁ m₂ m₁' b heq h
    by_cases hp₁ : p m₁
    · rw [if_pos hp₁] at h
      rw [if_pos ((hp heq).1 hp₁)]
      exact hF.congr heq h
    · rw [if_neg hp₁] at h
      rw [if_neg fun hp₂ => hp₁ ((hp heq).2 hp₂)]
      exact hG.congr heq h

/-- An operation on one entry of the map. -/
theorem entry [DecidableEq κ] {k : κ} (hk : k ∈ K) (f : ν → Option (ν × β))
    (hF : ∀ m, F m = (f (m k)).map fun r => (Function.update m k r.1, r.2)) : ActsOn K F where
  frame := by
    intro m m' b h k' hk'
    rw [hF, Option.map_eq_some_iff] at h
    obtain ⟨r, -, hr⟩ := h
    cases hr
    have hne : k' ≠ k := by
      rintro rfl
      exact hk' hk
    exact Function.update_of_ne hne _ _
  congr := by
    intro m₁ m₂ m₁' b heq h
    rw [hF, Option.map_eq_some_iff] at h
    obtain ⟨r, hr, hm⟩ := h
    cases hm
    refine ⟨Function.update m₂ k r.1, by rw [hF, ← heq hk, hr, Option.map_some], fun k' hk' => ?_⟩
    by_cases hne : k' = k
    · rw [hne, Function.update_self, Function.update_self]
    · rw [Function.update_of_ne hne, Function.update_of_ne hne, heq hk']

/-- Outside its footprint an operation changes nothing that another one may look at. -/
theorem eqOn (hF : ActsOn K F) (hdisj : Disjoint K K') {m m' : κ → ν} {b : β}
    (h : F m = some (m', b)) : Set.EqOn m' m K' :=
  fun k hk => hF.frame h k fun hk' => Set.disjoint_left.1 hdisj hk' hk

/-- Operations with disjoint footprints commute. -/
theorem swap (hF : ActsOn K F) (hF' : ActsOn K' F') (hdisj : Disjoint K K')
    {m m₁ m₁₂ : κ → ν} {b : β} {c : γ} (h : F m = some (m₁, b)) (h' : F' m₁ = some (m₁₂, c)) :
    ∃ m₂, F' m = some (m₂, c) ∧ F m₂ = some (m₁₂, b) := by
  obtain ⟨m₂, h₂, heq₂⟩ := hF'.congr (hF.eqOn hdisj h) h'
  obtain ⟨m₃, h₃, heq₃⟩ := hF.congr (hF'.eqOn hdisj.symm h₂).symm h
  refine ⟨m₂, h₂, h₃.trans (congrArg (fun m => some (m, b)) (funext fun k => ?_))⟩
  by_cases hk : k ∈ K
  · have hk' : k ∉ K' := Set.disjoint_left.1 hdisj hk
    rw [← heq₃ hk, hF'.frame h' k hk']
  · rw [hF.frame h₃ k hk]
    by_cases hk' : k ∈ K'
    · exact (heq₂ hk').symm
    · rw [hF'.frame h₂ k hk', hF'.frame h' k hk', hF.frame h k hk]

end ActsOn

end Footprint
