import DesperateStruggle.Machine

/-!
# Parts of a machine

A part of a machine may be a machine of its own. `project` maps the labels of a run to those of the
part, which depend on the states on the way, and a `view` shows what the part emits. Where every
step of the whole either is a step of the part or leaves it alone, every run of the whole is a run
of the part (`Run.project`). So two runs that look alike to the part end alike for it and show the
same (`Run.eq_of_project_eq`), whatever else they do.

`Run.project_meets` is for a condition that the whole puts on the steps of the part. If the whole
can follow every step of the part that meets it, every such run of the part is one of the whole
(`Run.exists_of_project`).
-/

universe u v w u' v' w'

namespace Machine

variable {σ : Type u} {ℓ : Type v} {ω : Type w} {σ' : Type u'} {ℓ' : Type v'} {ω' : Type w'}
  {M : Machine σ ℓ ω} {N : Machine σ' ℓ' ω'} {p : σ → ℓ → Option ℓ'} {view : ω → Option ω'}
  {R : σ → σ' → Prop} {s t : σ} {l : ℓ} {ls : List ℓ} {os o : List ω}

/-- The labels of the part along the labels of the whole. -/
def project (M : Machine σ ℓ ω) (p : σ → ℓ → Option ℓ') : σ → List ℓ → List ℓ'
  | _, [] => []
  | s, l :: ls =>
    match M.step s l with
    | some (t, _) => (p s l).toList ++ M.project p t ls
    | none => []

theorem project_cons (h : M.step s l = some (t, o)) :
    M.project p s (l :: ls) = (p s l).toList ++ M.project p t ls := by
  simp [project, h]

/-- The labels of the part along two runs. -/
theorem Run.project_append {ls' : List ℓ} (h : M.Run s ls os t) :
    M.project p s (ls ++ ls') = M.project p s ls ++ M.project p t ls' := by
  induction ls generalizing s os with
  | nil =>
    obtain ⟨-, rfl⟩ := h.eq_of_nil
    rfl
  | cons l ls ih =>
    obtain ⟨u, o, os₁, hstep, hrun, -⟩ := h.exists_head
    rw [List.cons_append, project_cons hstep, project_cons hstep, ih hrun, List.append_assoc]

/-- Labels that the part does not see. -/
theorem project_eq_nil (h : ∀ l ∈ ls, ∀ s, p s l = none) : M.project p s ls = [] := by
  induction ls generalizing s with
  | nil => rfl
  | cons l ls ih =>
    cases hstep : M.step s l with
    | none => simp [project, hstep]
    | some res => simp [project, hstep, h l, ih fun l' hl' => h l' (List.mem_cons_of_mem l hl')]

/-- Every step is a step of the part, or one that the part does not see. -/
def Projects (M : Machine σ ℓ ω) (N : Machine σ' ℓ' ω') (p : σ → ℓ → Option ℓ')
    (view : ω → Option ω') (R : σ → σ' → Prop) : Prop :=
  ∀ s r l t o, R s r → M.step s l = some (t, o) →
    match p s l with
    | none => R t r ∧ o.filterMap view = []
    | some l' => ∃ r', N.step r l' = some (r', o.filterMap view) ∧ R t r'

/-- Every run is a run of the part. -/
theorem Run.project (hp : M.Projects N p view R) (h : M.Run s ls os t) {r : σ'} (hr : R s r) :
    ∃ r', N.Run r (M.project p s ls) (os.filterMap view) r' ∧ R t r' := by
  induction ls generalizing s os r with
  | nil =>
    obtain ⟨rfl, rfl⟩ := h.eq_of_nil
    exact ⟨r, .nil, hr⟩
  | cons l ls ih =>
    obtain ⟨u, o, os₁, hstep, hrun, rfl⟩ := h.exists_head
    have hone := hp s r l u o hr hstep
    rw [project_cons hstep, List.filterMap_append]
    cases hl : p s l with
    | none =>
      rw [hl] at hone
      obtain ⟨r', hrun', hr'⟩ := ih hrun hone.1
      refine ⟨r', ?_, hr'⟩
      rw [hone.2]
      exact hrun'
    | some l' =>
      rw [hl] at hone
      obtain ⟨r₁, hstep', hr₁⟩ := hone
      obtain ⟨r', hrun', hr'⟩ := ih hrun hr₁
      exact ⟨r', hrun'.head hstep', hr'⟩

/-- Runs that look alike to the part show the same and end alike for it. -/
theorem Run.eq_of_project_eq {s' t' : σ} {ls' : List ℓ} {os' : List ω}
    (hp : M.Projects N p view R) (h : M.Run s ls os t) (h' : M.Run s' ls' os' t') {r : σ'}
    (hr : R s r) (hr' : R s' r) (heq : M.project p s ls = M.project p s' ls') :
    os.filterMap view = os'.filterMap view ∧ ∃ r', R t r' ∧ R t' r' := by
  obtain ⟨r₁, hrun₁, hr₁⟩ := h.project hp hr
  obtain ⟨r₂, hrun₂, hr₂⟩ := h'.project hp hr'
  rw [heq] at hrun₁
  obtain ⟨hos, rfl⟩ := hrun₁.det hrun₂
  exact ⟨hos, r₁, hr₁, hr₂⟩

/-- The steps of the part meet what the whole asks of them. `I` is what may be assumed of the states
of the whole. -/
theorem Run.project_meets {C : σ' → ℓ' → Prop} {I : σ → Prop} (hp : M.Projects N p view R)
    (hI : ∀ s l t o, I s → M.step s l = some (t, o) → I t)
    (hC : ∀ s r l l' t o, I s → R s r → M.step s l = some (t, o) → p s l = some l' → C r l')
    (h : M.Run s ls os t) (hs : I s) {r : σ'} (hr : R s r) :
    N.StepsMeet C r (M.project p s ls) := by
  induction ls generalizing s os r with
  | nil => trivial
  | cons l ls ih =>
    obtain ⟨u, o, os₁, hstep, hrun, -⟩ := h.exists_head
    have hone := hp s r l u o hr hstep
    have hu := hI s l u o hs hstep
    rw [project_cons hstep]
    cases hl : p s l with
    | none =>
      rw [hl] at hone
      exact ih hrun hu hone.1
    | some l' =>
      rw [hl] at hone
      obtain ⟨r₁, hstep', hr₁⟩ := hone
      refine ⟨hC s r l l' u o hs hr hstep hl, (forall_step_iff hstep').2 ?_⟩
      exact ih hrun hu hr₁

/-- Where the whole can follow every step of the part that meets `C`, it can follow every run of the
part whose steps meet `C`. -/
theorem Run.exists_of_project {C : σ' → ℓ' → Prop} {r r' : σ'} {ls' : List ℓ'} {os' : List ω'}
    (h : N.Run r ls' os' r') (hmeets : N.StepsMeet C r ls') (hr : R s r)
    (hfollow : ∀ l' ∈ ls', ∀ s r r' o', R s r → C r l' → N.step r l' = some (r', o') →
      ∃ l t o, M.step s l = some (t, o) ∧ p s l = some l' ∧ o.filterMap view = o' ∧ R t r') :
    ∃ ls os t, M.Run s ls os t ∧ M.project p s ls = ls' ∧ os.filterMap view = os' ∧ R t r' := by
  induction h with
  | nil => exact ⟨[], [], s, .nil, rfl, rfl, hr⟩
  | @snoc ls' os' r₁ l' o' r' hrun hstep ih =>
    rw [hrun.stepsMeet_snoc] at hmeets
    obtain ⟨ls, os, t, hrun₁, hlabels, hview, hr₁⟩ :=
      ih hmeets.1 fun l₁ hl₁ => hfollow l₁ (List.mem_append_left _ hl₁)
    obtain ⟨l, u, o, hstep₁, hl, ho, hu⟩ :=
      hfollow l' (by simp) t r₁ r' o' hr₁ hmeets.2 hstep
    refine ⟨ls ++ [l], os ++ o, u, hrun₁.snoc hstep₁, ?_, ?_, hu⟩
    · rw [hrun₁.project_append, hlabels, project_cons hstep₁, hl]
      rfl
    · rw [List.filterMap_append, hview, ho]

end Machine
