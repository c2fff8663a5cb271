import DesperateStruggle.Threads

/-!
# Interleaved requests

`CREATE` and `JOIN` look before they write, and other threads run in between. `Safe` says
that no room has more than two players and that everybody who was answered `WAIT` is a
player of the room it named. A step is `Guarded` if what its thread found is still so when
it writes : a `CREATE` writes a room without players, a `JOIN` one with a free seat.

A run is safe at every point exactly if all its steps are guarded (`always_safe_iff`). The
threads do nothing to guard them, and two `CREATE`s at once lose a player
(`not_safe_collision`).
-/

open CString

namespace DesperateStruggle

namespace Threads

/-! ## Safety -/

/-- The players of room `k`, none if it does not exist. -/
def State.players (s : State) (k : Key) : List Socket :=
  (s.rooms.subscript k).players

/-- No room has more than two players, and every client that was answered `WAIT` is a player of
the room it named. -/
def Safe (s : State) (os : List Server.Event) : Prop :=
  (∀ k room, s.rooms k = some room → room.players.length ≤ 2) ∧
  ∀ t k c, (t, Sent.reply k c .WAIT) ∈ os → ∃ room, s.rooms k = some room ∧ c ∈ room.players

/-- If the step writes for a `CREATE`, the room has no player, and if it writes for a `JOIN`,
the room has a free seat. -/
def Guarded (s : State) (l : Label) : Prop :=
  ∀ t c k, l = .run t →
    (s.threads[t]? = some ⟨c, .createAssign k⟩ → s.players k = []) ∧
    (s.threads[t]? = some ⟨c, .joinPush k⟩ → (s.players k).length < 2)

theorem safe_iff {s : State} {os : List Server.Event} : Safe s os ↔
    (∀ k, (s.players k).length ≤ 2) ∧
      ∀ t k c, (t, Sent.reply k c .WAIT) ∈ os → c ∈ s.players k := by
  have hroom : ∀ k, (∀ room, s.rooms k = some room → room.players.length ≤ 2) ↔
      (s.players k).length ≤ 2 := by
    intro k
    cases hk : s.rooms k <;> simp [State.players, Rooms.subscript, hk, default]
  have hmem : ∀ k c, (∃ room, s.rooms k = some room ∧ c ∈ room.players) ↔ c ∈ s.players k := by
    intro k c
    cases hk : s.rooms k <;> simp [State.players, Rooms.subscript, hk, default]
  simp only [Safe, hroom, hmem]

/-! ## What a step can do -/

/-- What the move of a thread with the socket `c` can do to the table. -/
inductive Moved (rooms : Rooms) (c : Socket) : Pc → Rooms × List Sent × Pc → Prop
  /-- Nothing that a player would notice. -/
  | quiet {pc pc' : Pc} {rooms' : Rooms} {sends : List Sent}
      (players : ∀ k, (rooms'.subscript k).players = (rooms.subscript k).players)
      (silent : ∀ k p, Sent.reply k p .WAIT ∉ sends) (before : ∀ k, pc ≠ .createAssign k)
      (notPush : ∀ k, pc ≠ .joinPush k)
      (assigns : ∀ k, pc' = .createAssign k → (rooms.subscript k).players = []) :
      Moved rooms c pc (rooms', sends, pc')
  /-- It writes for a `CREATE`. -/
  | assign {k : Key} : Moved rooms c (.createAssign k)
      (rooms.assign k { password := k, players := [c] }, [.reply k c .WAIT], .recv)
  /-- It writes for a `JOIN`. -/
  | push {k : Key} : Moved rooms c (.joinPush k)
      (rooms.modify k fun room => room.pushBack c, [.reply k c .WAIT], .joinFull k)

theorem players_touch (rooms : Rooms) (k k' : Key) :
    ((rooms.touch k).subscript k').players = (rooms.subscript k').players := by
  by_cases hk : k' = k
  · subst hk
    rw [Rooms.touch, Rooms.modify, Rooms.subscript_assign, id]
  · rw [Rooms.touch, Rooms.modify, Rooms.subscript_assign_of_ne hk]

theorem players_passTurn (rooms : Rooms) (k k' : Key) :
    ((rooms.modify k Room.passTurn).subscript k').players = (rooms.subscript k').players := by
  by_cases hk : k' = k
  · subst hk
    rw [Rooms.modify, Rooms.subscript_assign, Room.passTurn_players]
  · rw [Rooms.modify, Rooms.subscript_assign_of_ne hk]

/-- Every access is one of these. -/
theorem moved_of_access {rooms : Rooms} {c : Socket} {pc : Pc} {res : Rooms × List Sent × Pc}
    (h : access rooms c pc = some res) : Moved rooms c pc res := by
  have hcast : ∀ (k : Key) (players : List Socket) (m : ServerMessage) (k' : Key) (p : Socket),
      Sent.reply k' p .WAIT ∉ broadcast k players m := by
    intro k players m k' p hmem
    obtain ⟨i, hi, heq⟩ := List.mem_mapIdx.1 hmem
    cases heq
  cases pc with
  | recv | exited => simp [access] at h
  | createFind k =>
    simp only [access] at h
    split_ifs at h with hc <;> cases h
    · exact .quiet (fun _ => rfl) (by simp) (by simp) (by simp) (by simp)
    · refine .quiet (fun _ => rfl) (by simp) (by simp) (by simp) fun k' hk => ?_
      cases hk
      have habsent : rooms k = none := Rooms.contains_eq_false_iff.1 (by simpa using hc)
      simp [Rooms.subscript, habsent, default]
  | createAssign k =>
    cases h
    exact .assign
  | joinFind k =>
    simp only [access] at h
    split_ifs at h <;> cases h <;>
      exact .quiet (fun _ => rfl) (by simp) (by simp) (by simp) (by simp)
  | joinSize k | joinFull k | checkLives k =>
    simp only [access] at h
    split_ifs at h <;> cases h <;>
      exact .quiet (players_touch rooms k) (by simp) (by simp) (by simp) (by simp)
  | joinPush k =>
    cases h
    exact .push
  | sendCountdown k | sendStart k | sendResult k =>
    cases h
    exact .quiet (players_touch rooms k) (fun _ _ => hcast _ _ _ _ _) (by simp) (by simp) (by simp)
  | sendTurn k =>
    simp only [access, Option.map_eq_some_iff] at h
    obtain ⟨sends, hsends, rfl⟩ := h
    refine .quiet (players_touch rooms k) (fun k' p hmem => ?_) (by simp) (by simp) (by simp)
    unfold turnMessages at hsends
    split at hsends
    · cases hsends
      simp at hmem
    · cases hsends
  | passTurn k =>
    cases h
    exact .quiet (players_passTurn rooms k) (by simp) (by simp) (by simp) (by simp)

/-- A step is a new connection or the move of one thread that has not returned. -/
theorem step_cases {s s' : State} {l : Label} {o : List Server.Event}
    (h : step s l = some (s', o)) :
    (∃ c, l = .accept c ∧ ¬s.IsOpen c ∧ s' = s.accept c ∧ o = []) ∨
    ∃ t c pc res, s.threads[t]? = some ⟨c, pc⟩ ∧ pc ≠ .exited ∧ (∀ t', l = .run t' → t' = t) ∧
      (pc ≠ .recv → l = .run t) ∧ Moved s.rooms c pc res ∧
      s' = (s.resume t res).1 ∧ o = (s.resume t res).2 := by
  have hdispatch : ∀ m k, dispatch m ≠ .createAssign k := by
    intro m k
    unfold dispatch
    split_ifs <;> (try split) <;> simp
  have hquiet : ∀ {c : Socket} {pc : Pc}, (∀ k, pc ≠ .createAssign k) →
      Moved s.rooms c .recv (s.rooms, [], pc) := fun hpc =>
    .quiet (fun _ => rfl) (by simp) (by simp) (by simp) fun k hk => (hpc k hk).elim
  cases l with
  | accept c =>
    simp only [step] at h
    split_ifs at h with hc
    cases h
    exact Or.inl ⟨c, rfl, hc, rfl, rfl⟩
  | recv t chunk beyond =>
    simp only [step] at h
    split at h
    · next c here =>
      split_ifs at h
      cases h
      exact Or.inr ⟨t, c, .recv, (s.rooms, [], _), here, by simp, by simp, by simp,
        hquiet (hdispatch _), rfl, rfl⟩
    · cases h
  | disconnect t =>
    simp only [step] at h
    split at h
    · next c here =>
      cases h
      exact Or.inr ⟨t, c, .recv, (s.rooms, [], .exited), here, by simp, by simp, by simp,
        hquiet (by simp), rfl, rfl⟩
    · cases h
  | run t =>
    simp only [step] at h
    split at h
    · next c pc here =>
      obtain ⟨res, hres, heq⟩ := Option.map_eq_some_iff.1 h
      have hpc : pc ≠ .exited := by
        rintro rfl
        simp [access] at hres
      exact Or.inr ⟨t, c, pc, res, here, hpc, fun _ hl => (Label.run.inj hl).symm, fun _ => rfl,
        moved_of_access hres, (congrArg Prod.fst heq).symm, (congrArg Prod.snd heq).symm⟩
    · cases h

/-! ## The invariant -/

/-- Connection `t` is open and has the socket `c`. -/
def State.Open (s : State) (t : Nat) (c : Socket) : Prop :=
  ∃ pc, s.threads[t]? = some ⟨c, pc⟩ ∧ pc ≠ .exited

/-- No two open connections have the same socket, and where a thread is about to write for a
`CREATE` a room that has players by now, someone else was answered `WAIT` for it. -/
structure Inv (s : State) (os : List Server.Event) : Prop where
  openUnique : ∀ t t' c, s.Open t c → s.Open t' c → t = t'
  rival : ∀ (t : Nat) c k, s.threads[t]? = some ⟨c, .createAssign k⟩ → s.players k ≠ [] →
    ∃ t' c', (t', Sent.reply k c' .WAIT) ∈ os ∧ c' ≠ c

namespace Inv

variable {s s' : State} {l : Label} {os o : List Server.Event}

theorem init : Inv State.init [] where
  openUnique := by simp [State.Open, State.init]
  rival := by simp [State.init]

/-- The players after a move, and who was answered. -/
theorem players_resume {t : Nat} {c : Socket} {pc : Pc} {res : Rooms × List Sent × Pc}
    (h : Moved s.rooms c pc res) (k : Key) :
    (s.resume t res).1.players k = s.players k ∨
      (t, Sent.reply k c .WAIT) ∈ (s.resume t res).2 := by
  have hother : ∀ {k₀ : Key} {room : Room}, k ≠ k₀ →
      ((s.rooms.assign k₀ room).subscript k).players = s.players k := by
    intro k₀ room hk
    rw [Rooms.subscript_assign_of_ne hk, State.players]
  cases h with
  | quiet players => exact Or.inl (players k)
  | @assign k₀ =>
    by_cases hk : k = k₀
    · subst hk
      exact Or.inr (by simp [State.resume])
    · exact Or.inl (hother hk)
  | @push k₀ =>
    by_cases hk : k = k₀
    · subst hk
      exact Or.inr (by simp [State.resume])
    · exact Or.inl (hother hk)

/-- Every step keeps the invariant. -/
theorem step (h : Inv s os) (hstep : Threads.step s l = some (s', o)) : Inv s' (os ++ o) := by
  rcases step_cases hstep with ⟨c, -, hfresh, rfl, rfl⟩ |
    ⟨t, c, pc, res, here, hpc, -, -, hmoved, rfl, rfl⟩
  · have hopen : ∀ {t c'}, (s.accept c).Open t c' →
        s.Open t c' ∨ t = s.threads.length ∧ c' = c := by
      rintro t c' ⟨pc, ht, hne⟩
      rcases s.getElem?_accept ht with ht | ⟨rfl, heq⟩
      · exact Or.inl ⟨pc, ht, hne⟩
      · exact Or.inr ⟨rfl, (Thread.mk.inj heq).1⟩
    have hclosed : ∀ {t}, ¬s.Open t c := by
      rintro t ⟨pc, ht, hne⟩
      exact hfresh ⟨_, List.mem_iff_getElem?.2 ⟨t, ht⟩, rfl, hne⟩
    refine ⟨fun t t' c' ho ho' => ?_, fun t c' k ht hplayers => ?_⟩
    · rcases hopen ho with ho | ⟨rfl, rfl⟩ <;> rcases hopen ho' with ho' | ⟨rfl, hc⟩
      · exact h.openUnique t t' c' ho ho'
      · exact (hclosed (hc ▸ ho)).elim
      · exact (hclosed ho').elim
      · rfl
    · rcases s.getElem?_accept ht with ht | ⟨-, heq⟩
      · simpa using h.rival t c' k ht hplayers
      · cases heq
  · have hopen : ∀ {t' c'}, (s.resume t res).1.Open t' c' → s.Open t' c' := by
      rintro t' c' ⟨pc', ht, hne⟩
      rcases s.getElem?_setPc ht with ⟨rfl, c₀, pc₀, h₀, heq⟩ | ⟨-, ht⟩
      · obtain ⟨rfl, -⟩ := Thread.mk.inj heq
        obtain ⟨rfl, -⟩ := Thread.mk.inj (Option.some.inj (here.symm.trans h₀))
        exact ⟨pc, here, hpc⟩
      · exact ⟨pc', ht, hne⟩
    refine ⟨fun t₁ t₂ c' ho ho' => h.openUnique t₁ t₂ c' (hopen ho) (hopen ho'),
      fun t' c' k ht hplayers => ?_⟩
    rcases s.getElem?_setPc ht with ⟨rfl, c₀, pc₀, h₀, heq⟩ | ⟨hne, ht⟩
    · -- the thread has just found the room missing
      have hassign : res.2.2 = .createAssign k := (Thread.mk.inj heq).2.symm
      cases hmoved with
      | quiet players _ _ _ assigns =>
        have hempty := assigns k hassign
        exact (hplayers ((players k).trans hempty)).elim
      | assign | push => cases hassign
    · rcases players_resume (t := t) hmoved k with hsame | hanswered
      · obtain ⟨t₁, c₁, hmem, hc₁⟩ := h.rival t' c' k ht (hsame ▸ hplayers)
        exact ⟨t₁, c₁, List.mem_append_left _ hmem, hc₁⟩
      · refine ⟨t, c, List.mem_append_right _ hanswered, ?_⟩
        rintro rfl
        exact hne (h.openUnique t' t c ⟨_, ht, by simp⟩ ⟨pc, here, hpc⟩)

end Inv

/-! ## Guarded steps -/

section

variable {s s' : State} {l : Label} {os o : List Server.Event} {t : Nat} {c : Socket} {k : Key}

/-- A step that writes to no room. -/
theorem guarded_of_ne {pc : Pc} (hl : ∀ t', l = .run t' → t' = t)
    (here : s.threads[t]? = some ⟨c, pc⟩) (hassign : ∀ k, pc ≠ .createAssign k)
    (hpush : ∀ k, pc ≠ .joinPush k) : Guarded s l := by
  rintro t' c' k heq
  obtain rfl := hl t' heq
  refine ⟨fun ht => ?_, fun ht => ?_⟩ <;>
    obtain ⟨-, rfl⟩ := Thread.mk.inj (Option.some.inj (here.symm.trans ht))
  · exact (hassign k rfl).elim
  · exact (hpush k rfl).elim

/-- A write for a `CREATE` is guarded exactly if the room has no player. -/
theorem guarded_assign (here : s.threads[t]? = some ⟨c, .createAssign k⟩) :
    Guarded s (.run t) ↔ s.players k = [] := by
  refine ⟨fun hguarded => (hguarded t c k rfl).1 here, fun hempty => ?_⟩
  rintro t' c' k' heq
  obtain rfl := Label.run.inj heq
  refine ⟨fun ht => ?_, fun ht => ?_⟩ <;> rw [here] at ht <;> cases ht
  exact hempty

/-- A write for a `JOIN` is guarded exactly if the room has a free seat. -/
theorem guarded_push (here : s.threads[t]? = some ⟨c, .joinPush k⟩) :
    Guarded s (.run t) ↔ (s.players k).length < 2 := by
  refine ⟨fun hguarded => (hguarded t c k rfl).2 here, fun hfree => ?_⟩
  rintro t' c' k' heq
  obtain rfl := Label.run.inj heq
  refine ⟨fun ht => ?_, fun ht => ?_⟩ <;> rw [here] at ht <;> cases ht
  exact hfree

/-- The players of a room after a write to room `k`. -/
theorem players_assign (room : Room) (pc : Pc) (sends : List Sent) (k' : Key) :
    (s.resume t (s.rooms.assign k room, sends, pc)).1.players k' =
      if k' = k then room.players else s.players k' := by
  split_ifs with hk
  · subst hk
    rw [State.players, State.resume, Rooms.subscript_assign]
  · rw [State.players, State.resume, Rooms.subscript_assign_of_ne hk, State.players]

/-- A safe state stays safe under a write that gives `k` the players `players`, exactly if they
are at most two and nobody who was answered is missing. -/
theorem safe_write (hsafe : Safe s os) {room : Room} (hmem : c ∈ room.players) (pc : Pc) :
    Safe (s.resume t (s.rooms.assign k room, [.reply k c .WAIT], pc)).1
        (os ++ (s.resume t (s.rooms.assign k room, [.reply k c .WAIT], pc)).2) ↔
      room.players.length ≤ 2 ∧
        ∀ t' c', (t', Sent.reply k c' .WAIT) ∈ os → c' ∈ room.players := by
  rw [safe_iff] at hsafe ⊢
  simp only [players_assign]
  constructor
  · rintro ⟨hlen, hanswered⟩
    refine ⟨by simpa using hlen k, fun t' c' hold => ?_⟩
    simpa using hanswered t' k c' (List.mem_append_left _ hold)
  · rintro ⟨hlen, hanswered⟩
    refine ⟨fun k' => ?_, fun t' k' c' hmem' => ?_⟩
    · split_ifs
      · exact hlen
      · exact hsafe.1 k'
    · rcases List.mem_append.1 hmem' with hold | hnew
      · split_ifs with hk
        · subst hk
          exact hanswered t' c' hold
        · exact hsafe.2 t' k' c' hold
      · obtain ⟨-, rfl, rfl⟩ : t' = t ∧ k' = k ∧ c' = c := by
          simpa [State.resume] using hnew
        rw [if_pos rfl]
        exact hmem

/-- A step from a safe state leads to a safe state exactly if it is guarded. -/
theorem Inv.safe_step (h : Inv s os) (hsafe : Safe s os)
    (hstep : Threads.step s l = some (s', o)) : Safe s' (os ++ o) ↔ Guarded s l := by
  rcases step_cases hstep with ⟨c, rfl, -, rfl, rfl⟩ |
    ⟨t, c, pc, res, here, -, hl, hrun, hmoved, rfl, rfl⟩
  · refine iff_of_true ?_ fun t c k heq => by cases heq
    rwa [List.append_nil]
  · cases hmoved with
    | @quiet pc pc' rooms' sends players silent before notPush assigns =>
      refine iff_of_true ?_ (guarded_of_ne hl here before notPush)
      have hplayers : ∀ k, (s.resume t (rooms', sends, pc')).1.players k = s.players k := players
      rw [safe_iff] at hsafe ⊢
      refine ⟨fun k => by rw [hplayers]; exact hsafe.1 k, fun t' k' c' hmem => ?_⟩
      rw [hplayers]
      rcases List.mem_append.1 hmem with hold | hnew
      · exact hsafe.2 t' k' c' hold
      · obtain ⟨e, he, heq⟩ := List.mem_map.1 hnew
        obtain ⟨-, rfl⟩ := Prod.mk.inj heq
        exact (silent k' c' he).elim
    | @assign k =>
      obtain rfl := hrun (by simp)
      rw [guarded_assign here, safe_write hsafe (List.mem_singleton.2 rfl)]
      constructor
      · rintro ⟨-, hanswered⟩
        by_contra hplayers
        obtain ⟨t', c', hmem, hne⟩ := h.rival t c k here hplayers
        exact hne (List.mem_singleton.1 (hanswered t' c' hmem))
      · intro hempty
        refine ⟨by simp, fun t' c' hmem => ?_⟩
        have hplayer := (safe_iff.1 hsafe).2 t' k c' hmem
        simp [hempty] at hplayer
    | @push k =>
      obtain rfl := hrun (by simp)
      have hplayer : c ∈ ((s.rooms.subscript k).pushBack c).players := by simp
      rw [guarded_push here, Rooms.modify, safe_write hsafe hplayer]
      have hlen : ((s.rooms.subscript k).pushBack c).players.length = (s.players k).length + 1 := by
        simp [State.players]
      constructor
      · rintro ⟨hle, -⟩
        omega
      · intro hlt
        refine ⟨by omega, fun t' c' hmem => ?_⟩
        have hold := (safe_iff.1 hsafe).2 t' k c' hmem
        exact List.mem_append_left _ hold

end

/-- A run is safe at every point exactly if all its steps are guarded. -/
theorem always_safe_iff {ls : List Label} {os : List Server.Event} {s : State}
    (h : machine.Run State.init ls os s) :
    machine.Always Safe State.init ls ↔ machine.StepsMeet Guarded State.init ls := by
  refine h.always_iff_meets Inv.init ?_ (fun _ _ _ _ _ hi hs => hi.step hs)
    fun _ _ _ _ _ hi hp hs => hi.safe_step hp hs
  simp [Safe, State.init]

/-- Two clients meet in the room `ab\n`, one access after the other. -/
def meeting : List Label :=
  [.accept 3, .accept 4, .recv 0 (createRequest (ascii "ab")) [], .run 0, .run 0,
    .recv 1 (joinRequest (ascii "ab")) [], .run 1, .run 1, .run 1, .run 1]

theorem isSome_meeting : (machine.exec State.init meeting).isSome := by
  decide +kernel

/-- The steps of the meeting. -/
theorem always_safe_meeting :
    machine.Always Safe State.init meeting ↔ machine.StepsMeet Guarded State.init meeting :=
  always_safe_iff (Machine.run_final isSome_meeting)

/-- Two clients create the same room at once, and both find it missing. -/
def collision : List Label :=
  [.accept 3, .accept 4, .recv 0 (createRequest (ascii "ab")) [],
    .recv 1 (createRequest (ascii "ab")) [], .run 0, .run 1, .run 0, .run 1]

theorem isSome_collision : (machine.exec State.init collision).isSome := by
  decide +kernel

/-- The first was answered `WAIT` and is in no room. -/
theorem not_safe_collision : ¬∀ ls os s, machine.Run State.init ls os s → Safe s os := by
  intro hall
  have hsafe := safe_iff.1 (hall _ _ _ (Machine.run_final isSome_collision))
  have hanswered : (0, Sent.reply (ascii "ab\n") 3 .WAIT) ∈
      machine.outputs State.init collision isSome_collision := by
    decide +kernel
  have hplayers : (machine.final State.init collision isSome_collision).players (ascii "ab\n") =
      [4] := by
    decide +kernel
  have hmem := hsafe.2 0 _ 3 hanswered
  rw [hplayers] at hmem
  exact absurd hmem (by decide)

end Threads

end DesperateStruggle
