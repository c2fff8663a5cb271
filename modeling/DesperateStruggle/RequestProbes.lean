import DesperateStruggle.Requests
import Mathlib.Data.Set.Finite.Lattice

/-!
# Telling requests apart

Two lists of chunks whose normal forms differ are not served alike. The difference shows in a
state in which every room that they name is full but one, and that one does not exist or has
one player. `probe` is what the connection is answered there if another client creates the
missing room before request `i`, `serve_probe` says so, and requests that are answered alike
in all these states have the same normal form (`SameProbes.normal_eq`).

So the normal forms decide : chunks of request lines are served as the lines are exactly if
their normal forms are the same (`sameService_lines_iff`).
-/

open CString Stream

namespace DesperateStruggle

namespace Server

/-! ## Probes -/

/-- The room a request names. -/
def Request.password : Request → Key
  | .create k => k
  | .join k => k

/-- The answer to a request for a full room. -/
def Request.refusal : Request → ServerMessage
  | .create _ => .EXIST
  | .join _ => .FULL

/-- The answers to requests while every room but `k` is full and `k` has one player or does not
exist. Another client creates `k` before request `i`. -/
def probe (k : Key) : Nat → Bool → List Request → List ServerMessage
  | _, _, [] => []
  | i, one, .create j :: rs =>
    if j = k then (if one || i == 0 then .EXIST else .WAIT) :: probe k (i - 1) true rs
    else .EXIST :: probe k (i - 1) (one || i == 0) rs
  | i, one, .join j :: rs =>
    if j = k && (one || i == 0) then [.WAIT] else .FULL :: probe k (i - 1) (one || i == 0) rs

/-- The other client comes first. -/
theorem probe_zero (k : Key) (one : Bool) (rs : List Request) :
    probe k 0 one rs = probe k 1 true rs := by
  cases rs with
  | nil => rfl
  | cons r rs => cases r <;> simp [probe]

/-- Requests that do not name `k` are refused. -/
theorem probe_of_notMem {k : Key} {rs : List Request} (h : ∀ r ∈ rs, r.password ≠ k) (i : Nat)
    (one : Bool) : probe k i one rs = rs.map Request.refusal := by
  induction rs generalizing i one with
  | nil => rfl
  | cons r rs ih =>
    have hr := h r (by simp)
    have ih := ih fun r' hmem => h r' (by simp [hmem])
    cases r <;> simp only [Request.password] at hr <;> simp [probe, hr, ih, Request.refusal]

section

variable {k : Key} {r : Request} {rs : List Request}

/-- While `k` does not exist, all but its `CREATE` is refused. -/
theorem probe_succ (h : r ≠ .create k) (i : Nat) :
    probe k (i + 1) false (r :: rs) = r.refusal :: probe k i false rs := by
  cases r with
  | create j =>
    have hj : j ≠ k := fun hj => h (by rw [hj])
    simp [probe, hj, Request.refusal]
  | join j => simp [probe, Request.refusal]

/-- While `k` has one player, all but its `JOIN` is refused. -/
theorem probe_true (h : r ≠ .join k) (i : Nat) :
    probe k i true (r :: rs) = r.refusal :: probe k (i - 1) true rs := by
  cases r with
  | create j => simp [probe, Request.refusal]
  | join j =>
    have hj : j ≠ k := fun hj => h (by rw [hj])
    simp [probe, hj, Request.refusal]

theorem probe_create (k : Key) (rs : List Request) :
    probe k 1 false (.create k :: rs) = .WAIT :: probe k 0 true rs := by
  simp [probe]

theorem probe_join (k : Key) (i : Nat) (rs : List Request) :
    probe k i true (.join k :: rs) = [.WAIT] := by
  simp [probe]

theorem refusal_ne_wait (r : Request) : r.refusal ≠ .WAIT := by
  cases r <;> simp [Request.refusal]

/-- A probe tells a request that is accepted there from every other one. -/
theorem eq_of_probe_create {ts ts' : List Request} {r' : Request}
    (h : probe k 1 false (.create k :: ts) = probe k 1 false (r' :: ts')) : r' = .create k := by
  by_contra hne
  rw [probe_create, probe_succ hne] at h
  exact refusal_ne_wait r' (List.cons.inj h).1.symm

theorem eq_of_probe_join {i : Nat} {ts ts' : List Request} {r' : Request}
    (h : probe k i true (.join k :: ts) = probe k i true (r' :: ts')) : r' = .join k := by
  by_contra hne
  rw [probe_join, probe_true hne] at h
  exact refusal_ne_wait r' (List.cons.inj h).1.symm

end

/-- The tests that tell apart what can be told apart where the rooms in `created` exist and
those in `full` have two players. -/
structure SameProbes (p : Key → Prop) (created full : List Key) (rs rs' : List Request) :
    Prop where
  refusal : rs.map Request.refusal = rs'.map Request.refusal
  absent : ∀ k, p k → k ∉ created → ∀ i, probe k i false rs = probe k i false rs'
  one : ∀ k, p k → k ∈ created → k ∉ full → probe k 0 true rs = probe k 0 true rs'

namespace SameProbes

variable {p : Key → Prop} {created full : List Key} {r r' : Request} {rs rs' : List Request}

theorem symm (h : SameProbes p created full rs rs') : SameProbes p created full rs' rs :=
  ⟨h.refusal.symm, fun k hk hc i => (h.absent k hk hc i).symm,
    fun k hk hc hf => (h.one k hk hc hf).symm⟩

/-- A request whose answer is not fixed is the same on both sides. -/
theorem head_eq (h : SameProbes p created full (r :: rs) (r' :: rs')) (hr : p r.password)
    (hfree : (∃ k, r = .create k ∧ k ∉ created) ∨ ∃ k, r = .join k ∧ k ∉ full) : r' = r := by
  rcases hfree with ⟨k, rfl, hk⟩ | ⟨k, rfl, hk⟩
  · exact eq_of_probe_create (h.absent k hr hk 1)
  · by_cases hcreated : k ∈ created
    · exact eq_of_probe_join (h.one k hr hcreated hk)
    · have hprobe := h.absent k hr hcreated 0
      rw [probe_zero, probe_zero] at hprobe
      exact eq_of_probe_join hprobe

/-- The tests after requests that are refused in all of them. -/
theorem tail (h : SameProbes p created full (r :: rs) (r' :: rs'))
    (hcreate : ∀ k, r = .create k ∨ r' = .create k → k ∈ created)
    (hjoin : ∀ k, r = .join k ∨ r' = .join k → k ∈ full) : SameProbes p created full rs rs' := by
  refine ⟨(List.cons.inj h.refusal).2, fun k hk hc i => ?_, fun k hk hc hf => ?_⟩
  · have hprobe := h.absent k hk hc (i + 1)
    rw [probe_succ fun hr => hc (hcreate k (Or.inl hr)),
      probe_succ fun hr => hc (hcreate k (Or.inr hr))] at hprobe
    exact (List.cons.inj hprobe).2
  · have hprobe := h.one k hk hc hf
    rw [probe_true fun hr => hf (hjoin k (Or.inl hr)),
      probe_true fun hr => hf (hjoin k (Or.inr hr))] at hprobe
    exact (List.cons.inj hprobe).2

/-- The tests after a `CREATE`. -/
theorem tail_create {k : Key}
    (h : SameProbes p created full (.create k :: rs) (.create k :: rs')) (hk : k ∉ created) :
    SameProbes p (k :: created) full rs rs' := by
  refine ⟨(List.cons.inj h.refusal).2, fun j hj hc i => ?_, fun j hj hc hf => ?_⟩
  · obtain ⟨hne, hc⟩ := not_or.1 (mt List.mem_cons.2 hc)
    have hprobe := h.absent j hj hc (i + 1)
    have hr : Request.create k ≠ .create j := fun hr => hne (Request.create.inj hr).symm
    rw [probe_succ hr, probe_succ hr] at hprobe
    exact (List.cons.inj hprobe).2
  · by_cases hjk : j = k
    · subst hjk
      have hprobe := h.absent j hj hk 1
      rw [probe_create, probe_create] at hprobe
      exact (List.cons.inj hprobe).2
    · have hc : j ∈ created := (List.mem_cons.1 hc).resolve_left hjk
      have hprobe := h.one j hj hc hf
      rw [probe_true (by simp), probe_true (by simp)] at hprobe
      exact (List.cons.inj hprobe).2

/-- The tests after a `JOIN`. -/
theorem tail_join {k : Key} (h : SameProbes p created full (.join k :: rs) (.join k :: rs')) :
    SameProbes p created (if k ∈ created then k :: full else full) rs rs' := by
  refine ⟨(List.cons.inj h.refusal).2, fun j hj hc i => ?_, fun j hj hc hf => ?_⟩
  · have hprobe := h.absent j hj hc (i + 1)
    rw [probe_succ (by simp), probe_succ (by simp)] at hprobe
    exact (List.cons.inj hprobe).2
  · have hjk : j ≠ k := by
      rintro rfl
      simp [hc] at hf
    have hf : j ∉ full := by
      intro hmem
      split_ifs at hf <;> simp_all
    have hprobe := h.one j hj hc hf
    have hr : Request.join k ≠ .join j := fun hr => hjk (Request.join.inj hr).symm
    rw [probe_true hr, probe_true hr] at hprobe
    exact (List.cons.inj hprobe).2

/-- Requests that are answered alike in every probe have the same normal form. -/
theorem normal_eq (h : SameProbes p created full rs rs') (hp : ∀ r ∈ rs, p r.password)
    (hp' : ∀ r ∈ rs', p r.password) : normal created full rs = normal created full rs' := by
  induction rs generalizing created full rs' with
  | nil =>
    obtain rfl : rs' = [] := by simpa using h.refusal
    rfl
  | cons r rs ih =>
    obtain ⟨r', rs', rfl⟩ : ∃ r' ts, rs' = r' :: ts := by
      cases rs' with
      | nil => simpa using h.refusal
      | cons r' ts => exact ⟨r', ts, rfl⟩
    have hr := hp r (by simp)
    have hr' := hp' r' (by simp)
    have hps : ∀ r ∈ rs, p r.password := fun r hmem => hp r (by simp [hmem])
    have hps' : ∀ r ∈ rs', p r.password := fun r hmem => hp' r (by simp [hmem])
    cases r with
    | create k =>
      by_cases hk : k ∈ created
      · obtain ⟨k', rfl, hk'⟩ : ∃ k', r' = .create k' ∧ k' ∈ created := by
          cases r' with
          | join k' => simpa [Request.refusal] using h.refusal
          | create k' =>
            refine ⟨k', rfl, ?_⟩
            by_contra hk'
            cases h.symm.head_eq hr' (Or.inl ⟨k', rfl, hk'⟩)
            exact hk' hk
        have htail := h.tail (by rintro j (hj | hj) <;> cases hj <;> assumption)
          (by rintro j (hj | hj) <;> cases hj)
        simp only [normal, hk, hk', if_true, ih htail hps hps']
      · obtain rfl := h.head_eq hr (Or.inl ⟨k, rfl, hk⟩)
        simp only [normal, hk, if_false, ih (h.tail_create hk) hps hps']
    | join k =>
      by_cases hk : k ∈ full
      · obtain ⟨k', rfl, hk'⟩ : ∃ k', r' = .join k' ∧ k' ∈ full := by
          cases r' with
          | create k' => simpa [Request.refusal] using h.refusal
          | join k' =>
            refine ⟨k', rfl, ?_⟩
            by_contra hk'
            cases h.symm.head_eq hr' (Or.inr ⟨k', rfl, hk'⟩)
            exact hk' hk
        have htail := h.tail (by rintro j (hj | hj) <;> cases hj)
          (by rintro j (hj | hj) <;> cases hj <;> assumption)
        simp only [normal, hk, hk', if_true, ih htail hps hps']
      · obtain rfl := h.head_eq hr (Or.inr ⟨k, rfl, hk⟩)
        simp only [normal, hk, if_false, ih h.tail_join hps hps']

end SameProbes

/-! ## States for the probes -/

/-- A key that a request can name. -/
def Valid (k : Key) : Prop :=
  k.length ≤ 4 ∧ 0 ∉ k

/-- A message that makes a request. -/
def Request.message : Request → List Byte
  | .create k => ascii "CREATE " ++ k
  | .join k => ascii "JOIN " ++ k

section

variable {s : State} {t : Nat} {c c' : Socket} {k : Key} {room : Room} {ks : List Key}
  {one : Bool} {chunk : List Byte} {chunks : List (List Byte)} {r : Request}

/-- What a request names can be named. -/
theorem valid_of_readsAs {m : List Byte} (h : readsAs (cstr m) = .ok (some r)) :
    Valid r.password := by
  have hvalid : ∀ {pos : Nat} {k : Key}, substr (cstr m) pos 4 = .ok k → Valid k := by
    intro pos k hk
    refine ⟨length_le_of_substr hk, fun h0 => ?_⟩
    obtain ⟨-, rfl⟩ := substr_eq_ok_iff.1 hk
    exact nul_notMem_cstr m (List.mem_of_mem_drop (List.mem_of_mem_take h0))
  unfold readsAs at h
  split_ifs at h
  · cases hk : substr (cstr m) 7 4 with
    | error e => simp [hk, Except.map] at h
    | ok k =>
      simp only [hk, Except.map, Except.ok.injEq, Option.some.injEq] at h
      exact h ▸ hvalid hk
  · cases hk : substr (cstr m) 5 4 with
    | error e => simp [hk, Except.map] at h
    | ok k =>
      simp only [hk, Except.map, Except.ok.injEq, Option.some.injEq] at h
      exact h ▸ hvalid hk
  · cases h

theorem valid_of_mem_requests (h : r ∈ requests chunks) : Valid r.password := by
  induction chunks with
  | nil => simp [requests] at h
  | cons chunk chunks ih =>
    rcases hread : readsAs (cstr chunk) with e | (- | r') <;> simp only [requests, hread] at h
    · simp at h
    · exact ih h
    · rcases List.mem_cons.1 h with rfl | h
      · exact valid_of_readsAs hread
      · exact ih h

/-- The handler's reading of a message that begins with a keyword. -/
theorem readsAs_create (rest : List Byte) :
    readsAs (ascii "CREATE " ++ rest) = .ok (some (.create (rest.take 4))) := by
  have hkeyword : CREATE <+: ascii "CREATE " := by decide
  have hstart : startsWith (ascii "CREATE " ++ rest) CREATE = true :=
    startsWith_iff.2 (hkeyword.trans (List.prefix_append _ _))
  have hsub : substr (ascii "CREATE " ++ rest) 7 4 = .ok (rest.take 4) :=
    substr_eq_ok_iff.2 ⟨by simp [ascii], by simp [ascii]⟩
  rw [readsAs, if_pos hstart, hsub]
  rfl

theorem readsAs_join (rest : List Byte) :
    readsAs (ascii "JOIN " ++ rest) = .ok (some (.join (rest.take 4))) := by
  have hkeyword : JOIN <+: ascii "JOIN " := by decide
  have hstart : startsWith (ascii "JOIN " ++ rest) JOIN = true :=
    startsWith_iff.2 (hkeyword.trans (List.prefix_append _ _))
  have hcreate : ¬startsWith (ascii "JOIN " ++ rest) CREATE = true := by
    intro hc
    simp [not_startsWith_both hc] at hstart
  have hsub : substr (ascii "JOIN " ++ rest) 5 4 = .ok (rest.take 4) :=
    substr_eq_ok_iff.2 ⟨by simp [ascii], by simp [ascii]⟩
  rw [readsAs, if_neg hcreate, if_pos hstart, hsub]
  rfl

/-- The handler reads the request off its message. -/
theorem readsAs_message (hr : Valid r.password) : readsAs (cstr r.message) = .ok (some r) := by
  obtain ⟨hlen, h0⟩ := hr
  have hcstr : cstr r.message = r.message := by
    refine cstr_eq_self fun hmem => h0 ?_
    cases r <;> simpa [Request.message, Request.password, ascii] using hmem
  rw [hcstr]
  cases r with
  | create k =>
    have hk : k.take 4 = k := List.take_of_length_le hlen
    rw [Request.message, readsAs_create, hk]
  | join k =>
    have hk : k.take 4 = k := List.take_of_length_le hlen
    rw [Request.message, readsAs_join, hk]

theorem length_message (hr : Valid r.password) :
    1 ≤ r.message.length ∧ r.message.length ≤ 1023 := by
  have hlen := hr.1
  cases r with
  | create k =>
    have hmessage : (Request.create k).message.length = 7 + k.length := List.length_append
    have hk : k.length ≤ 4 := hlen
    omega
  | join k =>
    have hmessage : (Request.join k).message.length = 5 + k.length := List.length_append
    have hk : k.length ≤ 4 := hlen
    omega

/-- The step in which a handler reads and answers a request. -/
theorem step_message (here : s.handlers[t]? = some ⟨c, .recv⟩) (hr : Valid r.password)
    {rooms : Rooms} {sends : List Sent} {control : Control}
    (hanswer : answer s.rooms c r = (rooms, sends, control)) :
    ∃ s' o, machine.step s (.recv t r.message []) = some (s', o) ∧ s'.rooms = rooms ∧
      o = sends.map (t, ·) ∧ s'.handlers[t]? = some ⟨c, control⟩ ∧
      ∀ i, i ≠ t → s'.handlers[i]? = s.handlers[i]? := by
  refine ⟨(s.resume t (rooms, sends, control)).1, (s.resume t (rooms, sends, control)).2, ?_, rfl,
    rfl, s.getElem?_setControl_self here, fun i hi => s.getElem?_setControl_of_ne hi⟩
  rw [machine_step, step_recv here (length_message hr), readsAs_message hr, ← hanswer]

/-- The operating system has a socket left. -/
theorem exists_fresh (s : State) : ∃ c, ¬s.IsOpen c := by
  obtain ⟨c, hc⟩ := Infinite.exists_notMem_finset (s.handlers.map Handler.clientSocket).toFinset
  refine ⟨c, fun ⟨h, hmem, hsocket, _⟩ => hc ?_⟩
  rw [List.mem_toFinset]
  exact List.mem_map.2 ⟨h, hmem, hsocket⟩

/-- A client of its own can fill a room that does not exist. -/
theorem exists_fill (hk : Valid k) (hnone : s.rooms k = none) : ∃ ls os s',
    machine.Run s ls os s' ∧ (∀ i < s.handlers.length, s'.handlers[i]? = s.handlers[i]?) ∧
    (∃ room, s'.rooms k = some room ∧ room.players.length = 2) ∧
    ∀ j, j ≠ k → s'.rooms j = s.rooms j := by
  obtain ⟨p, hp⟩ := exists_fresh s
  have haccept : machine.step s (.accept p) = some (s.accept p, []) := by
    simp [machine, step, hp]
  have here₁ : (s.accept p).handlers[s.handlers.length]? = some ⟨p, .recv⟩ := by
    simp [State.accept]
  have hnone₁ : (s.accept p).rooms k = none := hnone
  obtain ⟨s₂, o₂, hstep₂, hrooms₂, -, here₂, hkeep₂⟩ :=
    step_message here₁ (r := .create k) hk (answer_create_of_none hnone₁)
  have hroom₂ : s₂.rooms k = some { password := k, players := [p] } := by
    rw [hrooms₂]
    exact Rooms.assign_self
  -- it takes the second seat of its room as well
  obtain ⟨s₃, o₃, hstep₃, hrooms₃, -, -, hkeep₃⟩ :=
    step_message here₂ (r := .join k) hk (answer_join_of_one hroom₂ rfl)
  have hrun := ((Machine.Run.single haccept).snoc hstep₂).snoc hstep₃
  refine ⟨_, _, s₃, hrun, fun i hi => ?_,
    ⟨Room.pushBack { password := k, players := [p] } p, ?_, rfl⟩, fun j hj => ?_⟩
  · have hne : i ≠ s.handlers.length := by omega
    rw [hkeep₃ i hne, hkeep₂ i hne]
    exact List.getElem?_append_left hi
  · rw [hrooms₃]
    exact Rooms.assign_self
  · rw [hrooms₃, Rooms.assign_of_ne hj, hrooms₂, Rooms.assign_of_ne hj]
    rfl

/-- Any rooms can be full, with two clients waiting for their first request. -/
theorem exists_full (hks : ∀ k ∈ ks, Valid k) : ∃ ls os s c c', machine.Run State.init ls os s ∧
    s.handlers[0]? = some ⟨c, .recv⟩ ∧ s.handlers[1]? = some ⟨c', .recv⟩ ∧
    (∀ k ∈ ks, ∃ room, s.rooms k = some room ∧ room.players.length = 2) ∧
    ∀ k, k ∉ ks → s.rooms k = none := by
  induction ks with
  | nil =>
    have hsome : (machine.exec State.init [.accept 0, .accept 1]).isSome := by decide
    exact ⟨_, _, _, 0, 1, Machine.run_final hsome, rfl, rfl, by simp, fun _ _ => rfl⟩
  | cons k ks ih =>
    obtain ⟨ls, os, s, c, c', hrun, h0, h1, hfull, hnone⟩ := ih fun j hj => hks j (by simp [hj])
    by_cases hk : k ∈ ks
    · refine ⟨ls, os, s, c, c', hrun, h0, h1, fun j hj => ?_, fun j hj => ?_⟩
      · rcases List.mem_cons.1 hj with rfl | hj
        · exact hfull j hk
        · exact hfull j hj
      · exact hnone j fun hmem => hj (List.mem_cons_of_mem _ hmem)
    · obtain ⟨ls', os', s', hrun', hhandlers, hroom, hother⟩ :=
        exists_fill (hks k (by simp)) (hnone k hk)
      have hlen : 1 < s.handlers.length := (List.getElem?_eq_some_iff.1 h1).1
      refine ⟨_, _, s', c, c', hrun.trans hrun', ?_, ?_, fun j hj => ?_, fun j hj => ?_⟩
      · rw [hhandlers 0 (by omega), h0]
      · rw [hhandlers 1 hlen, h1]
      · by_cases hjk : j = k
        · exact hjk ▸ hroom
        · rw [hother j hjk]
          exact hfull j ((List.mem_cons.1 hj).resolve_left hjk)
      · obtain ⟨hjk, hj⟩ := not_or.1 (mt List.mem_cons.2 hj)
        rw [hother j hjk, hnone j hj]

end

/-! ## Probes are real -/

/-- Connection 0 and another client wait for requests, the rooms in `ks` other than `k` are full,
and `k` has one player or does not exist. -/
structure Probing (s : State) (ks : List Key) (k : Key) (one : Bool) : Prop where
  client : ∃ c, s.handlers[0]? = some ⟨c, .recv⟩
  other : ∃ c, s.handlers[1]? = some ⟨c, .recv⟩
  full : ∀ j ∈ ks, j ≠ k → ∃ room, s.rooms j = some room ∧ room.players.length = 2
  present : one = true → ∃ room p, s.rooms k = some room ∧ room.players = [p]
  absent : one = false → s.rooms k = none

/-- The schedule of a probe : `n` requests, with a `CREATE` of `k` by the other client before
request `i`. -/
def probeSchedule (k : Key) : Nat → Nat → List (Option Label)
  | _, 0 => []
  | 0, n + 1 => some (.recv 1 (Request.create k).message []) :: none :: probeSchedule k 0 n
  | i + 1, n + 1 => none :: probeSchedule k i n

/-- Connection 0 is answered no more. -/
def Silent (s : State) (chunks : List (List Byte)) : Prop :=
  Finished 0 s chunks ∨ ∀ c, s.handlers[0]? ≠ some ⟨c, .recv⟩

section

variable {s s' : State} {ks : List Key} {k : Key} {one : Bool} {c : Socket} {r : Request}
  {chunks rest : List (List Byte)} {i n : Nat} {o os : List Event} {u : State}

/-- The connection itself reads nothing out of turn. -/
theorem recv_notMem_probeSchedule (k : Key) (i n : Nat) (chunk : List Byte) (beyond) :
    some (.recv 0 chunk beyond) ∉ probeSchedule k i n := by
  induction n generalizing i with
  | zero => cases i <;> simp [probeSchedule]
  | succ n ih => cases i <;> simp [probeSchedule, ih]

/-- What a handler replies is told by what it sends. -/
theorem replies_map (t t' : Nat) (sends : List Sent) : replies t (sends.map (t', ·)) =
    if t' = t then sends.filterMap (fun
      | .reply _ _ m => some m
      | _ => none) else [] := by
  induction sends with
  | nil => simp
  | cons sent sends ih =>
    have hcons : replies t ((sent :: sends).map (t', ·)) =
        replies t [(t', sent)] ++ replies t (sends.map (t', ·)) := replies_append t [_] _
    rw [hcons, ih]
    cases sent <;> split_ifs with ht <;> simp [replies, ht]

/-- The `CREATE` of the other client. -/
theorem step_other (hk : Valid k) (h : ∃ c, s.handlers[1]? = some ⟨c, .recv⟩) :
    ∃ s' o, step s (.recv 1 (Request.create k).message []) = some (s', o) ∧ replies 0 o = [] ∧
      s'.handlers[0]? = s.handlers[0]? ∧ (∃ c, s'.handlers[1]? = some ⟨c, .recv⟩) ∧
      (∀ j, j ≠ k → s'.rooms j = s.rooms j) ∧
      (s.rooms k = none → ∃ room p, s'.rooms k = some room ∧ room.players = [p]) ∧
      ∀ room, s.rooms k = some room → s'.rooms k = some room := by
  obtain ⟨c, here⟩ := h
  cases hroom : s.rooms k with
  | none =>
    obtain ⟨s', o, hstep, hrooms, ho, here', hkeep⟩ :=
      step_message here (r := .create k) hk (answer_create_of_none hroom)
    refine ⟨s', o, hstep, ?_, hkeep 0 (by decide), ⟨c, here'⟩, fun j hj => ?_, fun _ => ?_, by simp⟩
    · rw [ho, replies_map, if_neg (by decide)]
    · rw [hrooms, Rooms.assign_of_ne hj]
    · exact ⟨_, c, by rw [hrooms, Rooms.assign_self], rfl⟩
  | some room =>
    obtain ⟨s', o, hstep, hrooms, ho, here', hkeep⟩ :=
      step_message here (r := .create k) hk (answer_create_of_some hroom)
    refine ⟨s', o, hstep, ?_, hkeep 0 (by decide), ⟨c, here'⟩, fun j _ => ?_, by simp,
      fun room' hr => ?_⟩
    · rw [ho, replies_map, if_neg (by decide)]
    · rw [hrooms]
    · rw [hrooms, ← hr, hroom]

/-- A connection that is answered no more stays so. -/
theorem Silent.deliver (h : Silent s chunks) (hsize : Sized chunks) :
    ∃ s' rest, Server.deliver 0 s chunks = (s', [], rest) ∧ rest ⊆ chunks ∧ Silent s' rest ∧
      s'.handlers[1]? = s.handlers[1]? := by
  rcases h with hfin | hnot
  · obtain ⟨s', rest, hd, hrest, hsame, hfin'⟩ := hfin.deliver hsize
    have hhandlers : (s'.setControl 0 .exited).handlers = (s.setControl 0 .exited).handlers :=
      congrArg State.handlers hsame
    refine ⟨s', rest, hd, hrest, Or.inl hfin', ?_⟩
    have hne : (1 : Nat) ≠ 0 := by decide
    rw [← s'.getElem?_setControl_of_ne hne, hhandlers, s.getElem?_setControl_of_ne hne]
  · exact ⟨s, chunks, deliver_of_not_recv hnot, List.Subset.refl _, Or.inr hnot, rfl⟩

theorem Silent.congr (h : Silent s chunks) (h0 : s'.handlers[0]? = s.handlers[0]?) :
    Silent s' chunks := by
  rcases h with hfin | hnot
  · exact Or.inl (hfin.congr h0)
  · exact Or.inr fun c => by rw [h0]; exact hnot c

/-- A connection that is answered no more gets no reply in a probe. -/
theorem serve_silent (hk : i < n → Valid k) (hother : ∃ c, s.handlers[1]? = some ⟨c, .recv⟩)
    (hsilent : Silent s chunks) (hsize : Sized chunks) :
    ∃ u os, serve 0 s (probeSchedule k i n) chunks = some (u, os) ∧ replies 0 os = [] := by
  induction n generalizing s chunks i with
  | zero => exact ⟨s, [], by cases i <;> rfl, rfl⟩
  | succ n ih =>
    have hslot : ∀ {s : State} {i : Nat}, (i < n → Valid k) →
        (∃ c, s.handlers[1]? = some ⟨c, .recv⟩) → Silent s chunks → ∃ u os,
        serve 0 s (none :: probeSchedule k i n) chunks = some (u, os) ∧ replies 0 os = [] := by
      intro s i hk hother hsilent
      obtain ⟨s', rest, hd, hrest, hsilent', h1⟩ := hsilent.deliver hsize
      obtain ⟨u, os, hserve, hos⟩ := ih hk (by rwa [h1]) hsilent' (hsize.subset hrest)
      exact ⟨u, _, serve_deliver_eq hd hserve, by simpa using hos⟩
    cases i with
    | zero =>
      obtain ⟨s', o, hstep, ho, h0, hother', -⟩ := step_other (hk (by omega)) hother
      obtain ⟨u, os, hserve, hos⟩ :=
        hslot (fun _ => hk (by omega)) hother' (hsilent.congr h0)
      exact ⟨u, _, serve_step_eq hstep hserve, by simp [ho, hos]⟩
    | succ i => exact hslot (fun hi => hk (by omega)) hother hsilent

/-- In a probe a request is refused, unless it is the `CREATE` of the missing room or the `JOIN`
of the room with one player. -/
theorem Probing.refused (h : Probing s ks k one) (hr : r.password ∈ ks)
    (hcreate : one = false → r ≠ .create k) (hjoin : one = true → r ≠ .join k) :
    answer s.rooms c r = (s.rooms, [.reply r.password c r.refusal], .recv) := by
  cases r with
  | create j =>
    by_cases hj : j = k
    · subst hj
      cases one with
      | false => exact (hcreate rfl rfl).elim
      | true =>
        obtain ⟨room, p, hroom, -⟩ := h.present rfl
        exact answer_create_of_some hroom
    · obtain ⟨room, hroom, -⟩ := h.full j hr hj
      exact answer_create_of_some hroom
  | join j =>
    by_cases hj : j = k
    · subst hj
      cases one with
      | false => exact answer_join_of_none (h.absent rfl)
      | true => exact (hjoin rfl rfl).elim
    · obtain ⟨room, hroom, hlen⟩ := h.full j hr hj
      exact answer_join_of_two hroom hlen

/-- An answer in a probe : the state after it is one for the rest of the probe, or the connection
has joined room `k` and plays. -/
theorem Probing.answer_cases (h : Probing s ks k one) (here : s.handlers[0]? = some ⟨c, .recv⟩)
    (hr : r.password ∈ ks) :
    (∃ one' m, Probing (s.resume 0 (answer s.rooms c r)).1 ks k one' ∧
      replies 0 (s.resume 0 (answer s.rooms c r)).2 = [m] ∧
      ∀ i rs, probe k (i + 1) one (r :: rs) = m :: probe k i one' rs) ∨
    one = true ∧ r = .join k ∧ replies 0 (s.resume 0 (answer s.rooms c r)).2 = [.WAIT] ∧
      (∀ c', (s.resume 0 (answer s.rooms c r)).1.handlers[0]? ≠ some ⟨c', .recv⟩) ∧
      (s.resume 0 (answer s.rooms c r)).1.handlers[1]? = s.handlers[1]? := by
  have hne : (1 : Nat) ≠ 0 := by decide
  have hrefused : (one = false → r ≠ .create k) → (one = true → r ≠ .join k) →
      (s.resume 0 (answer s.rooms c r)) = (s, [(0, .reply r.password c r.refusal)]) := by
    intro hcreate hjoin
    rw [h.refused hr hcreate hjoin, resume_recv here]
    rfl
  cases one with
  | false =>
    by_cases hcreate : r = .create k
    · subst hcreate
      have hnone := h.absent rfl
      rw [answer_create_of_none hnone]
      refine Or.inl ⟨true, .WAIT, ⟨⟨c, s.getElem?_setControl_self here⟩, ?_, ?_, ?_, by simp⟩, rfl,
        fun i rs => by simp [probe]⟩
      · obtain ⟨c', hc'⟩ := h.other
        exact ⟨c', (s.getElem?_setControl_of_ne hne).trans hc'⟩
      · intro j hj hjk
        obtain ⟨room, hroom, hlen⟩ := h.full j hj hjk
        exact ⟨room, (Rooms.assign_of_ne hjk).trans hroom, hlen⟩
      · exact fun _ => ⟨_, c, Rooms.assign_self, rfl⟩
    · rw [hrefused (fun _ => hcreate) (by simp)]
      exact Or.inl ⟨false, _, h, rfl, fun i rs => probe_succ hcreate i⟩
  | true =>
    by_cases hjoin : r = .join k
    · subst hjoin
      obtain ⟨room, p, hroom, hplayers⟩ := h.present rfl
      rw [answer_join_of_one hroom hplayers]
      have hself : (s.setControl 0 (.countdown k)).handlers[0]? = some ⟨c, .countdown k⟩ :=
        s.getElem?_setControl_self here
      refine Or.inr ⟨rfl, rfl, rfl, fun c' => ?_, s.getElem?_setControl_of_ne hne⟩
      rw [State.handlers_resume, hself]
      simp
    · rw [hrefused (by simp) fun _ => hjoin]
      exact Or.inl ⟨true, _, h, rfl, fun i rs => probe_true hjoin (i + 1)⟩

/-- After the `CREATE` of the other client, room `k` has a player. -/
theorem Probing.step_other (h : Probing s ks k one) (hk : Valid k) : ∃ s' o,
    step s (.recv 1 (Request.create k).message []) = some (s', o) ∧ replies 0 o = [] ∧
      Probing s' ks k true := by
  obtain ⟨s', o, hstep, ho, h0, hother, hrooms, hnew, hold⟩ := Server.step_other hk h.other
  refine ⟨s', o, hstep, ho, ⟨by rw [h0]; exact h.client, hother, ?_, fun _ => ?_, by simp⟩⟩
  · intro j hj hjk
    obtain ⟨room, hroom, hlen⟩ := h.full j hj hjk
    exact ⟨room, (hrooms j hjk).trans hroom, hlen⟩
  · cases one with
    | false => exact hnew (h.absent rfl)
    | true =>
      obtain ⟨room, p, hroom, hplayers⟩ := h.present rfl
      exact ⟨room, p, hold room hroom, hplayers⟩

/-- A probe is what the connection is answered. -/
theorem serve_probe (h : Probing s ks k one) (hk : i < n → Valid k)
    (hpasswords : ∀ r ∈ requests chunks, r.password ∈ ks) (hlen : (requests chunks).length ≤ n)
    (hsize : Sized chunks) : ∃ u os, serve 0 s (probeSchedule k i n) chunks = some (u, os) ∧
      replies 0 os = probe k i one (requests chunks) := by
  induction n generalizing s chunks i one with
  | zero =>
    have hnil : requests chunks = [] := List.length_eq_zero_iff.1 (by omega)
    refine ⟨s, [], by cases i <;> rfl, ?_⟩
    rw [hnil]
    rfl
  | succ n ih =>
    have hslot : ∀ {s : State} {i : Nat} {one : Bool}, (i < n → Valid k) → Probing s ks k one →
        ∃ u os, serve 0 s (none :: probeSchedule k i n) chunks = some (u, os) ∧
          replies 0 os = probe k (i + 1) one (requests chunks) := by
      intro s i one hk h
      obtain ⟨c, here⟩ := h.client
      rcases deliver_cases here hsize with ⟨hnil, -⟩ | ⟨r, rest, chunk, hr, hrest, -, hd⟩
      · obtain ⟨s', rest, hd, hrest, hsilent, h1⟩ :=
          Silent.deliver (Or.inl ⟨c, Or.inr ⟨here, hnil⟩⟩) hsize
        obtain ⟨u, os, hserve, hos⟩ :=
          serve_silent hk (by rw [h1]; exact h.other) hsilent (hsize.subset hrest)
        exact ⟨u, _, serve_deliver_eq hd hserve, by simp [hos, hnil, probe]⟩
      · rw [hr] at hpasswords hlen ⊢
        rw [List.length_cons] at hlen
        rcases h.answer_cases here (hpasswords r (by simp)) with
          ⟨one', m, h', hm, hprobe⟩ | ⟨rfl, rfl, hm, hnot, h1⟩
        · obtain ⟨u, os, hserve, hos⟩ := ih h' hk
            (fun r' hmem => hpasswords r' (by simp [hmem])) (by omega) (hsize.subset hrest)
          exact ⟨u, _, serve_deliver_eq hd hserve, by rw [replies_append, hm, hos, hprobe]; rfl⟩
        · obtain ⟨u, os, hserve, hos⟩ :=
            serve_silent hk (by rw [h1]; exact h.other) (Or.inr hnot) (hsize.subset hrest)
          exact ⟨u, _, serve_deliver_eq hd hserve,
            by rw [replies_append, hm, hos, probe_join]; rfl⟩
    cases i with
    | zero =>
      have hvalid := hk (by omega)
      obtain ⟨s', o, hstep, ho, h'⟩ := h.step_other hvalid
      obtain ⟨u, os, hserve, hos⟩ := hslot (fun _ => hvalid) h'
      exact ⟨u, _, serve_step_eq hstep hserve, by rw [replies_append, ho, hos, probe_zero]; rfl⟩
    | succ i => exact hslot (fun hi => hk (by omega)) h

/-- Every probe of a room that does not exist can be made. -/
theorem exists_probing (hks : ∀ j ∈ ks, Valid j) (k : Key) : ∃ ls os s,
    machine.Run State.init ls os s ∧ Probing s ks k false := by
  have hvalid : ∀ j ∈ ks.filter (· ≠ k), Valid j := fun j hj => hks j (List.mem_of_mem_filter hj)
  obtain ⟨ls, os, s, c, c', hrun, h0, h1, hfull, hnone⟩ := exists_full hvalid
  refine ⟨ls, os, s, hrun, ⟨c, h0⟩, ⟨c', h1⟩, fun j hj hjk => ?_, by simp, fun _ => ?_⟩
  · exact hfull j (List.mem_filter.2 ⟨hj, by simpa using hjk⟩)
  · exact hnone k (by simp)

end

/-! ## The condition -/

/-- Chunks that are served alike have the same normal form. -/
theorem normal_of_sameService {chunks chunks' : List (List Byte)} (hsize : Sized chunks)
    (hsize' : Sized chunks') (h : SameService chunks chunks') :
    normal [] [] (requests chunks) = normal [] [] (requests chunks') := by
  obtain ⟨ks, hks⟩ : ∃ ks, ks = (requests chunks ++ requests chunks').map Request.password :=
    ⟨_, rfl⟩
  have hpasswords : ∀ r ∈ requests chunks, r.password ∈ ks := fun r hr =>
    hks ▸ List.mem_map_of_mem (List.mem_append_left _ hr)
  have hpasswords' : ∀ r ∈ requests chunks', r.password ∈ ks := fun r hr =>
    hks ▸ List.mem_map_of_mem (List.mem_append_right _ hr)
  have hvalid : ∀ j ∈ ks, Valid j := by
    intro j hj
    rw [hks] at hj
    obtain ⟨r, hr, rfl⟩ := List.mem_map.1 hj
    exact (List.mem_append.1 hr).elim valid_of_mem_requests valid_of_mem_requests
  obtain ⟨n, hn⟩ : ∃ n, n = (requests chunks).length + (requests chunks').length := ⟨_, rfl⟩
  have hprobe : ∀ k i, (i < n → Valid k) →
      probe k i false (requests chunks) = probe k i false (requests chunks') := by
    intro k i hk
    obtain ⟨ls, os, s, hrun, hs⟩ := exists_probing hvalid k
    obtain ⟨c, here⟩ := hs.client
    obtain ⟨u, os₁, hserve, hos⟩ := serve_probe hs hk hpasswords (by omega) hsize
    obtain ⟨u', os₁', hserve', hos'⟩ := serve_probe hs hk hpasswords' (by omega) hsize'
    have hsame := h ls os s 0 c hrun here _ (recv_notMem_probeSchedule k i n) u os₁ u' os₁'
      hserve hserve'
    rw [← hos, ← hos', hsame.2]
  -- a room that no request can name is missing in a probe that refuses all of them
  have hrefusal : (requests chunks).map Request.refusal =
      (requests chunks').map Request.refusal := by
    have hne : ∀ {chunks : List (List Byte)}, ∀ r ∈ requests chunks,
        r.password ≠ List.replicate 5 1 := by
      intro chunks r hr heq
      have hlen := (valid_of_mem_requests hr).1
      simp [heq] at hlen
    have hall := hprobe (List.replicate 5 1) n (by omega)
    rwa [probe_of_notMem hne, probe_of_notMem hne] at hall
  have htests : SameProbes Valid [] [] (requests chunks) (requests chunks') :=
    ⟨hrefusal, fun k hk _ i => hprobe k i fun _ => hk, by simp⟩
  exact htests.normal_eq (fun r => valid_of_mem_requests) fun r => valid_of_mem_requests

/-! ## Lines -/

/-- The line a client writes to make a request. -/
def Request.line : Request → List Byte
  | .create password => createRequest password
  | .join password => joinRequest password

/-- The request that the handler makes of such a line : `substr` takes four bytes of the password
and the newline. -/
def Request.read : Request → Request
  | .create password => .create ((password ++ ascii "\n").take 4)
  | .join password => .join ((password ++ ascii "\n").take 4)

/-- A line that arrives in one `recv`. Its password has no newline and no NUL. -/
def Request.IsLine (r : Request) : Prop :=
  10 ∉ r.password ∧ 0 ∉ r.password ∧ r.line.length ≤ 1023

instance (r : Request) : Decidable r.IsLine :=
  inferInstanceAs (Decidable (_ ∧ _))

/-- The handler's reading of a line. -/
theorem readsAs_line {r : Request} (h : r.IsLine) : readsAs (cstr r.line) = .ok (some r.read) := by
  obtain ⟨-, h0, -⟩ := h
  have hcstr : cstr r.line = r.line := by
    refine cstr_eq_self fun hmem => h0 ?_
    cases r <;>
      simpa [Request.line, createRequest, joinRequest, Request.password, ascii] using hmem
  rw [hcstr]
  cases r with
  | create password =>
    rw [Request.line, createRequest, List.append_assoc, readsAs_create, Request.read]
  | join password =>
    rw [Request.line, joinRequest, List.append_assoc, readsAs_join, Request.read]

theorem requests_lines {rs : List Request} (h : ∀ r ∈ rs, r.IsLine) :
    requests (rs.map Request.line) = rs.map Request.read := by
  induction rs with
  | nil => rfl
  | cons r rs ih =>
    have hr := readsAs_line (h r (by simp))
    have ih := ih fun r' hmem => h r' (by simp [hmem])
    simp [requests, hr, ih]

theorem Request.line_ne_nil (r : Request) : r.line ≠ [] := by
  cases r <;> simp [Request.line, createRequest, joinRequest, ascii]

/-- However request lines arrive, in chunks of 1 to 1023 bytes, the connection is served as with
a chunk for each line exactly if the chunks make requests of the same normal form. -/
theorem sameService_lines_iff {rs : List Request} {chunks : List (List Byte)}
    (hlines : ∀ r ∈ rs, r.IsLine) (hchunks : Chunking 1023 (rs.flatMap Request.line) chunks) :
    SameService chunks (rs.map Request.line) ↔
      normal [] [] (requests chunks) = normal [] [] (rs.map Request.read) := by
  have hsize : Sized (rs.map Request.line) := by
    intro line hmem
    obtain ⟨r, hr, rfl⟩ := List.mem_map.1 hmem
    exact ⟨List.length_pos_iff.2 r.line_ne_nil, (hlines r hr).2.2⟩
  rw [← requests_lines hlines]
  exact ⟨normal_of_sameService hchunks.size hsize, sameService_of_normal hchunks.size hsize⟩

/-- A password may be cut after its fourth byte. -/
theorem sameService_lines_cut : SameService
    [ascii "CREATE abcd", ascii "ef\n", ascii "JOIN gh\n"]
    ([.create (ascii "abcdef"), .join (ascii "gh")].map Request.line) :=
  (sameService_lines_iff (by decide) ⟨by decide, by decide⟩).2 (by decide)

/-- Of two requests in one chunk, the handler does not see the second. -/
theorem not_sameService_merged : ¬∀ (rs : List Request) (chunks : List (List Byte)),
    (∀ r ∈ rs, r.IsLine) → Chunking 1023 (rs.flatMap Request.line) chunks →
    SameService chunks (rs.map Request.line) := by
  intro hall
  have hsame := hall [.create (ascii "ab"), .join (ascii "cd")]
    [ascii "CREATE ab\nJOIN cd\n"] (by decide) ⟨by decide, by decide⟩
  have haccept : machine.step State.init (.accept 5) = some (State.init.accept 5, []) := rfl
  have hreplies := hsame _ _ _ 0 5 (Machine.Run.single haccept) rfl [none, none] (by simp)
    _ _ _ _ rfl rfl
  exact absurd hreplies.2 (by decide +kernel)

end Server

end DesperateStruggle
