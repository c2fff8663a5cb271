import DesperateStruggle.Growth

/-!
# The invariant of the room table

`Inv` ties the table to the handlers : each room is filed under its password, which has at
most four bytes; it has one or two players and `turn` is 0 or 1; a handler in the
countdown or the game loop of a room finds it with two players, and no two handlers are in
the same room. It holds initially and `Inv.step` keeps it.

`Step` lists what one step of the server can do in a state where every handler finds the
room it plays (`step_cases`), so no later proof unfolds `step`.
-/

open CString

namespace DesperateStruggle

namespace Server

/-! ## What a step can do -/

/-- The steps of the server from `s`. -/
inductive Step (s : State) : Label → State → List Event → Prop
  /-- A new connection. -/
  | accept {c : Socket} (fresh : ¬s.IsOpen c) : Step s (.accept c) (s.accept c) []
  /-- A handler returns : the connection has ended, or the message made `substr` throw. -/
  | exit {l : Label} {t : Nat} {c : Socket} (here : s.handlers[t]? = some ⟨c, .recv⟩)
      (label : l = .disconnect t ∨ ∃ chunk beyond e, l = .recv t chunk beyond ∧
        handleMessage s.rooms c (bufferString (zeros 1024) beyond chunk) = .error e) :
      Step s l (s.setControl t .exited) []
  /-- A message is handled. -/
  | handle {t : Nat} {c : Socket} {chunk beyond : List Byte} {res : Rooms × List Sent × Control}
      (here : s.handlers[t]? = some ⟨c, .recv⟩)
      (message : handleMessage s.rooms c (bufferString (zeros 1024) beyond chunk) = .ok res)
      (handled : Handled s.rooms c (bufferString (zeros 1024) beyond chunk) res) :
      Step s (.recv t chunk beyond) (s.resume t res).1 (s.resume t res).2
  /-- The countdown ends and the first turn opens. -/
  | start {t : Nat} {c : Socket} {k : Key} {room : Room} {sends : List Sent}
      (here : s.handlers[t]? = some ⟨c, .countdown k⟩) (found : s.rooms k = some room)
      (turn : turnMessages k room = some sends) :
      Step s (.wake t) (s.resume t (s.rooms, broadcast k room.players .START ++ sends, .game k)).1
        (s.resume t (s.rooms, broadcast k room.players .START ++ sends, .game k)).2
  /-- A turn ends and the next one opens. -/
  | turn {t : Nat} {c : Socket} {k : Key} {room : Room} {sends : List Sent}
      (here : s.handlers[t]? = some ⟨c, .game k⟩) (found : s.rooms k = some room)
      (goesOn : room.passTurn.isOver = false) (turn : turnMessages k room.passTurn = some sends) :
      Step s (.wake t) (s.resume t (s.rooms.assign k room.passTurn, sends, .game k)).1
        (s.resume t (s.rooms.assign k room.passTurn, sends, .game k)).2
  /-- A turn ends and with it the game. -/
  | finish {t : Nat} {c : Socket} {k : Key} {room : Room}
      (here : s.handlers[t]? = some ⟨c, .game k⟩) (found : s.rooms k = some room)
      (isOver : room.passTurn.isOver = true) :
      Step s (.wake t) (s.resume t (s.rooms.assign k room.passTurn,
          broadcast k room.players room.passTurn.result, .recv)).1
        (s.resume t (s.rooms.assign k room.passTurn,
          broadcast k room.players room.passTurn.result, .recv)).2

theorem takeTurn_of_some {rooms : Rooms} {k : Key} {room : Room} (h : rooms k = some room) :
    takeTurn rooms k = (turnMessages k room).map fun sends => (rooms, sends, .game k) := by
  simp [takeTurn, Rooms.touch_of_some h, Rooms.subscript_of_some h]

theorem startGame_of_some {rooms : Rooms} {k : Key} {room : Room} (h : rooms k = some room) :
    startGame rooms k = (turnMessages k room).map fun sends =>
      (rooms, broadcast k room.players .START ++ sends, .game k) := by
  simp [startGame, Rooms.touch_of_some h, Rooms.subscript_of_some h, takeTurn_of_some h,
    Function.comp_def]

theorem nextTurn_of_some {rooms : Rooms} {k : Key} {room : Room} (h : rooms k = some room) :
    nextTurn rooms k =
      if room.passTurn.isOver then some (rooms.assign k room.passTurn,
        broadcast k room.players room.passTurn.result, .recv)
      else (turnMessages k room.passTurn).map fun sends =>
        (rooms.assign k room.passTurn, sends, .game k) := by
  simp [nextTurn, Rooms.modify_of_some h, takeTurn_of_some Rooms.assign_self]

/-- The steps of a state whose handlers find the rooms they play. -/
theorem step_cases {s t : State} {l : Label} {o : List Event}
    (hfound : ∀ t k, s.Plays t k → ∃ room, s.rooms k = some room)
    (h : step s l = some (t, o)) : Step s l t o := by
  cases l with
  | accept c =>
    simp only [step] at h
    split_ifs at h with hc
    simp only [Option.some.injEq, Prod.mk.injEq] at h
    obtain ⟨rfl, rfl⟩ := h
    exact .accept hc
  | disconnect t =>
    simp only [step] at h
    split at h
    · next c here =>
      simp only [Option.some.injEq, Prod.mk.injEq] at h
      obtain ⟨rfl, rfl⟩ := h
      exact .exit here (Or.inl rfl)
    · cases h
  | recv t chunk beyond =>
    simp only [step] at h
    split at h
    · next c here =>
      split_ifs at h
      split at h
      · next res hres =>
        simp only [Option.some.injEq] at h
        have hstep := Step.handle here hres (handleMessage_handled hres)
        rwa [h] at hstep
      · next e he =>
        simp only [Option.some.injEq, Prod.mk.injEq] at h
        obtain ⟨rfl, rfl⟩ := h
        exact .exit here (Or.inr ⟨chunk, beyond, e, rfl, he⟩)
    · cases h
  | wake t =>
    simp only [step] at h
    split at h
    · next c k here =>
      obtain ⟨room, hroom⟩ := hfound t k ⟨_, here, Or.inl rfl⟩
      rw [startGame_of_some hroom, Option.map_map, Option.map_eq_some_iff] at h
      obtain ⟨sends, hsends, hres⟩ := h
      have hstep := Step.start here hroom hsends
      rw [Function.comp_apply] at hres
      rwa [hres] at hstep
    · next c k here =>
      obtain ⟨room, hroom⟩ := hfound t k ⟨_, here, Or.inr rfl⟩
      rw [nextTurn_of_some hroom] at h
      split_ifs at h with hover
      · have hstep := Step.finish here hroom hover
        simp only [Option.map_some, Option.some.injEq] at h
        rwa [h] at hstep
      · rw [Option.map_map, Option.map_eq_some_iff] at h
        obtain ⟨sends, hsends, hres⟩ := h
        have hstep := Step.turn here hroom (by simpa using hover) hsends
        rw [Function.comp_apply] at hres
        rwa [hres] at hstep
    · cases h

/-! ## The invariant -/

/-- What holds of a room under its key. -/
structure RoomOk (k : Key) (room : Room) : Prop where
  password : room.password = k
  short : k.length ≤ 4
  seats : room.players.length = 1 ∨ room.players.length = 2
  turn : room.turn = 0 ∨ room.turn = 1

/-- The invariant of the server. -/
structure Inv (s : State) : Prop where
  room : ∀ k room, s.rooms k = some room → RoomOk k room
  full : ∀ t k, s.Plays t k → ∃ room, s.rooms k = some room ∧ room.players.length = 2
  unique : ∀ t t' k, s.Plays t k → s.Plays t' k → t = t'

namespace RoomOk

variable {k : Key} {room : Room} {c : Socket}

/-- The room that a `CREATE` makes. -/
theorem create (hk : k.length ≤ 4) : RoomOk k { password := k, players := [c] } where
  password := rfl
  short := hk
  seats := Or.inl rfl
  turn := Or.inl rfl

/-- A second player. -/
theorem pushBack (h : RoomOk k room) (hlen : room.players.length = 1) :
    RoomOk k (room.pushBack c) where
  password := h.password
  short := h.short
  seats := Or.inr (by simp [hlen])
  turn := h.turn

theorem passTurn (h : RoomOk k room) : RoomOk k room.passTurn where
  password := h.password
  short := h.short
  seats := h.seats
  turn := by
    have := h.turn
    simp only [Room.passTurn_turn]
    omega

theorem ne_nil (h : RoomOk k room) : room.players ≠ [] := by
  rintro h0
  simpa [h0] using h.seats

end RoomOk

theorem inv_init : Inv State.init where
  room := by simp [State.init]
  full := by simp [State.init, State.Plays]
  unique := by simp [State.init, State.Plays]

namespace Inv

variable {s s' : State} {l : Label} {o : List Event} {t : Nat} {k : Key} {room : Room}

theorem found (h : Inv s) (hp : s.Plays t k) : ∃ room, s.rooms k = some room :=
  let ⟨room, hroom, _⟩ := h.full t k hp
  ⟨room, hroom⟩

/-- The steps of a state that satisfies the invariant. -/
theorem cases (h : Inv s) (hstep : step s l = some (s', o)) : Step s l s' o :=
  step_cases (fun _ _ => h.found) hstep

/-- Only a new connection adds a handler. -/
theorem length_handlers (h : Inv s) (hstep : step s l = some (s', o)) (hl : ∀ c, l ≠ .accept c) :
    s'.handlers.length = s.handlers.length := by
  cases h.cases hstep with
  | accept => exact (hl _ rfl).elim
  | _ => exact List.length_modify ..

/-- Nobody plays a room with one player. -/
theorem not_plays (h : Inv s) (hroom : s.rooms k = some room) (hlen : room.players.length = 1) :
    ¬s.Plays t k := by
  intro hp
  obtain ⟨room', hroom', hlen'⟩ := h.full t k hp
  obtain rfl : room = room' := Option.some.inj (hroom.symm.trans hroom')
  omega

/-- A room of two in a table that has grown and is still right. -/
theorem full_of_grown {rooms rooms' : Rooms} (hgrown : Grown rooms rooms')
    (hroom : ∀ k room, rooms' k = some room → RoomOk k room)
    (hfull : ∃ room, rooms k = some room ∧ room.players.length = 2) :
    ∃ room, rooms' k = some room ∧ room.players.length = 2 := by
  obtain ⟨room, hr, hlen⟩ := hfull
  obtain ⟨room', hr', -, hplayers⟩ := hgrown k room hr
  have hseats := (hroom k room' hr').seats
  have hle := hplayers.length_le
  exact ⟨room', hr', by omega⟩

/-- A handler that waits in `recv` or returns, over a table that has grown. -/
theorem of_idle (h : Inv s) {rooms : Rooms} {control : Control}
    (hroom : ∀ k room, rooms k = some room → RoomOk k room) (hgrown : Grown s.rooms rooms)
    (hidle : ∀ k, ¬control.Plays k) {c : Socket} {control₀ : Control}
    (here : s.handlers[t]? = some ⟨c, control₀⟩) :
    Inv { s.setControl t control with rooms } := by
  have hplays : ∀ t' k, { s.setControl t control with rooms }.Plays t' k → s.Plays t' k := by
    intro t' k hp
    have hp' : (s.setControl t control).Plays t' k := hp
    by_cases hne : t' = t
    · subst hne
      exact (hidle k ((s.plays_setControl_self here).1 hp')).elim
    · exact (s.plays_setControl_of_ne hne).1 hp'
  refine ⟨hroom, fun t' k hp => ?_, fun t₁ t₂ k h₁ h₂ => ?_⟩
  · exact full_of_grown hgrown hroom (h.full t' k (hplays t' k hp))
  · exact h.unique t₁ t₂ k (hplays _ _ h₁) (hplays _ _ h₂)

/-- A handler that goes on to play `k`, a room of two that nobody else plays. -/
theorem of_plays (h : Inv s) {rooms : Rooms} {control : Control}
    (hroom : ∀ k room, rooms k = some room → RoomOk k room) (hgrown : Grown s.rooms rooms)
    (hfull : ∃ room, rooms k = some room ∧ room.players.length = 2)
    (hcontrol : ∀ k', control.Plays k' ↔ k' = k) (halone : ∀ t', s.Plays t' k → t' = t)
    {c : Socket} {control₀ : Control} (here : s.handlers[t]? = some ⟨c, control₀⟩) :
    Inv { s.setControl t control with rooms } := by
  have hplays : ∀ t' k', { s.setControl t control with rooms }.Plays t' k' →
      t' = t ∧ k' = k ∨ t' ≠ t ∧ s.Plays t' k' := by
    intro t' k' hp
    have hp' : (s.setControl t control).Plays t' k' := hp
    by_cases hne : t' = t
    · subst hne
      exact Or.inl ⟨rfl, (hcontrol k').1 ((s.plays_setControl_self here).1 hp')⟩
    · exact Or.inr ⟨hne, (s.plays_setControl_of_ne hne).1 hp'⟩
  refine ⟨hroom, fun t' k' hp => ?_, fun t₁ t₂ k' h₁ h₂ => ?_⟩
  · rcases hplays t' k' hp with ⟨-, rfl⟩ | ⟨-, hp'⟩
    · exact hfull
    · exact full_of_grown hgrown hroom (h.full t' k' hp')
  · rcases hplays t₁ k' h₁ with ⟨rfl, rfl⟩ | ⟨-, h₁'⟩ <;>
      rcases hplays t₂ k' h₂ with ⟨rfl, hk⟩ | ⟨-, h₂'⟩
    · rfl
    · exact (halone t₂ h₂').symm
    · subst hk
      exact halone t₁ h₁'
    · exact h.unique t₁ t₂ k' h₁' h₂'

/-- The rooms after one of them was replaced. -/
theorem room_assign (h : Inv s) (hok : RoomOk k room) :
    ∀ k' room', s.rooms.assign k room k' = some room' → RoomOk k' room' := by
  intro k' room' hr
  rw [Rooms.assign_apply] at hr
  split_ifs at hr with hk
  · obtain rfl := Option.some.inj hr
    exact hk ▸ hok
  · exact h.room k' room' hr

theorem plays_game {k k' : Key} : (Control.game k).Plays k' ↔ k' = k := by
  simp [Control.Plays, eq_comm]

theorem plays_countdown {k k' : Key} : (Control.countdown k).Plays k' ↔ k' = k := by
  simp [Control.Plays, eq_comm]

theorem not_plays_recv {k : Key} : ¬Control.recv.Plays k := by
  simp [Control.Plays]

theorem not_plays_exited {k : Key} : ¬Control.exited.Plays k := by
  simp [Control.Plays]

/-- A handled message keeps the invariant. -/
theorem handled (h : Inv s) {c : Socket} (here : s.handlers[t]? = some ⟨c, .recv⟩)
    {m : List Byte} {res : Rooms × List Sent × Control} (hres : Handled s.rooms c m res)
    (hgrown : Grown s.rooms res.1) : Inv (s.resume t res).1 := by
  cases hres with
  | ignored | exist | full => exact h.of_idle h.room hgrown (fun _ => not_plays_recv) here
  | created request =>
    exact h.of_idle (h.room_assign (.create request.short)) hgrown (fun _ => not_plays_recv) here
  | first _ room found empty => exact ((h.room _ _ found).ne_nil empty).elim
  | second _ room found p single =>
    have hlen : room.players.length = 1 := by simp [single]
    exact h.of_plays (h.room_assign ((h.room _ _ found).pushBack hlen)) hgrown
      ⟨_, Rooms.assign_self, by simp [hlen]⟩ (fun _ => plays_countdown)
      (fun t' ht' => (h.not_plays found hlen ht').elim) here

/-- Every step keeps the invariant. -/
theorem step (h : Inv s) (hstep : Server.step s l = some (s', o)) : Inv s' := by
  have hgrown := grown_step hstep
  cases h.cases hstep with
  | accept =>
    exact ⟨h.room, fun t k hp => h.full t k (s.plays_accept.1 hp), fun t t' k hp hp' =>
      h.unique t t' k (s.plays_accept.1 hp) (s.plays_accept.1 hp')⟩
  | exit here => exact h.of_idle h.room hgrown (fun _ => not_plays_exited) here
  | handle here _ handled => exact h.handled here handled hgrown
  | start here found =>
    have hp := (⟨_, here, Or.inl rfl⟩ : s.Plays _ _)
    exact h.of_plays h.room hgrown (h.full _ _ hp) (fun _ => plays_game)
      (fun t' ht' => h.unique _ _ _ ht' hp) here
  | turn here found =>
    have hp := (⟨_, here, Or.inr rfl⟩ : s.Plays _ _)
    have hroom := h.room_assign (h.room _ _ found).passTurn
    exact h.of_plays hroom hgrown (full_of_grown hgrown hroom (h.full _ _ hp))
      (fun _ => plays_game) (fun t' ht' => h.unique _ _ _ ht' hp) here
  | finish here found =>
    exact h.of_idle (h.room_assign (h.room _ _ found).passTurn) hgrown
      (fun _ => not_plays_recv) here

/-- The room a handler plays, with both of its seats in range. -/
theorem exists_seats (h : Inv s) (hp : s.Plays t k) :
    ∃ room current other, s.rooms k = some room ∧ room.player room.turn = some current ∧
      room.player (1 - room.turn) = some other := by
  obtain ⟨room, hr, hlen⟩ := h.full t k hp
  obtain ⟨current, other, h₁, h₂⟩ := Room.exists_player hlen (h.room k room hr).turn
  exact ⟨room, current, other, hr, h₁, h₂⟩

/-- Once a room has two players, the handler that plays it was playing it before the step. -/
theorem plays_of_step (h : Inv s) (hstep : Server.step s l = some (s', o))
    (hroom : s.rooms k = some room) (hlen : room.players.length = 2) (hp : s'.Plays t k) :
    s.Plays t k := by
  have hset : ∀ {t₀ : Nat} {c : Socket} {control₀ control : Control},
      s.handlers[t₀]? = some ⟨c, control₀⟩ → (s.setControl t₀ control).Plays t k →
      (control.Plays k → s.Plays t₀ k) → s.Plays t k := by
    intro t₀ c control₀ control here hp hc
    by_cases hne : t = t₀
    · subst hne
      exact hc ((s.plays_setControl_self here).1 hp)
    · exact (s.plays_setControl_of_ne hne).1 hp
  cases h.cases hstep with
  | accept => exact s.plays_accept.1 hp
  | exit here => exact hset here hp fun hk => (not_plays_exited hk).elim
  | handle here _ handled =>
    refine hset here hp fun hk => ?_
    cases handled with
    | second _ room' found p single =>
      obtain rfl := plays_countdown.1 hk
      obtain rfl := Option.some.inj (hroom.symm.trans found)
      simp [single] at hlen
    | _ => exact (not_plays_recv hk).elim
  | start here =>
    refine hset here hp fun hk => ?_
    obtain rfl := plays_game.1 hk
    exact ⟨_, here, Or.inl rfl⟩
  | turn here =>
    refine hset here hp fun hk => ?_
    obtain rfl := plays_game.1 hk
    exact ⟨_, here, Or.inr rfl⟩
  | finish here => exact hset here hp fun hk => (not_plays_recv hk).elim

/-- The sleep of a handler that plays a room always ends in a step. -/
theorem wake_isSome (h : Inv s) (hp : s.Plays t k) : (Server.step s (.wake t)).isSome := by
  obtain ⟨room, hr, hlen⟩ := h.full t k hp
  have hturn : ∀ room : Room, room.players.length = 2 → (room.turn = 0 ∨ room.turn = 1) →
      (turnMessages k room).isSome := by
    intro room hlen hturn
    obtain ⟨current, other, h₁, h₂⟩ := Room.exists_player hlen hturn
    simp [turnMessages, h₁, h₂]
  obtain ⟨⟨c, control⟩, here, hcontrol | hcontrol⟩ := hp <;> simp only at hcontrol <;>
    subst hcontrol <;> simp only [Server.step, here]
  · rw [startGame_of_some hr]
    simpa using hturn room hlen (h.room k room hr).turn
  · rw [nextTurn_of_some hr]
    split_ifs
    · simp
    · simpa using hturn room.passTurn hlen (h.room k room hr).passTurn.turn

/-- The invariant holds in every state of a run from a state that satisfies it. -/
theorem run (h : Inv s) {ls : List Label} {os : List Event} (hrun : machine.Run s ls os s') :
    Inv s' :=
  hrun.invariant (P := fun s _ => Inv s) h fun _ _ _ _ _ hi hs => hi.step hs

/-- Rooms stay, and a room of two keeps its players : it may only grow, and has no more than
two. -/
theorem keep_step (h : Inv s) (hstep : Server.step s l = some (s', o))
    (hroom : s.rooms k = some room) : ∃ room', s'.rooms k = some room' ∧
      (room.players.length = 2 → room'.players = room.players) := by
  obtain ⟨room', hroom', -, hplayers⟩ := grown_step hstep k room hroom
  refine ⟨room', hroom', fun hlen => ?_⟩
  have hseats := ((h.step hstep).room k room' hroom').seats
  exact (hplayers.eq_of_length_le (by omega)).symm

end Inv

/-! ## The room table in every reachable state -/

/-- What the room table promises to the handlers. -/
structure RoomTableOk (s : State) : Prop where
  /-- Every key is its room's password, of at most four bytes, and every room has one or two
  players and a turn of 0 or 1. -/
  filed : ∀ k room, s.rooms k = some room → room.password = k ∧ k.length ≤ 4 ∧
    (room.players.length = 1 ∨ room.players.length = 2) ∧ (room.turn = 0 ∨ room.turn = 1)
  /-- A room with one player is in nobody's countdown or game loop. -/
  lone : ∀ k room, s.rooms k = some room → room.players.length = 1 → ∀ t, ¬s.Plays t k
  /-- A room with two players is in the countdown or game loop of one handler at most, now
  and ever after. -/
  alone : ∀ k room, s.rooms k = some room → room.players.length = 2 → ∀ t, s.Plays t k →
    ∀ ls os s', machine.Run s ls os s' → ∀ t', s'.Plays t' k → t' = t
  /-- Where a handler plays a room, both seats that the game loop indexes are in range, and
  the handler is never stuck. -/
  inRange : ∀ t k, s.Plays t k → ∃ room, s.rooms k = some room ∧
    (room.player room.turn).isSome ∧ (room.player (1 - room.turn)).isSome ∧
    (step s (.wake t)).isSome

/-- The handler of a room of two stays the only one in every later state. -/
theorem Inv.alone {s s' : State} {ls : List Label} {os : List Event} {k : Key} {room : Room}
    {t t' : Nat} (h : Inv s) (hroom : s.rooms k = some room) (hlen : room.players.length = 2)
    (hp : s.Plays t k) (hrun : machine.Run s ls os s') (hp' : s'.Plays t' k) : t' = t := by
  have hback : ∀ {s' ls os}, machine.Run s ls os s' →
      (∃ room', s'.rooms k = some room' ∧ room'.players.length = 2) ∧
      ∀ t', s'.Plays t' k → s.Plays t' k := by
    intro s' ls os hrun
    induction hrun with
    | nil => exact ⟨⟨room, hroom, hlen⟩, fun _ => id⟩
    | snoc hrun hstep ih =>
      obtain ⟨⟨room₁, hr₁, hlen₁⟩, hplays⟩ := ih
      have hinv := h.run hrun
      obtain ⟨room₂, hr₂, hkeep⟩ := hinv.keep_step hstep hr₁
      exact ⟨⟨room₂, hr₂, by rw [hkeep hlen₁, hlen₁]⟩, fun t' ht' =>
        hplays t' (hinv.plays_of_step hstep hr₁ hlen₁ ht')⟩
  exact h.unique t' t k ((hback hrun).2 t' hp') hp

/-- In every reachable state, whatever the clients send and in whatever order the handlers
run, the room table is sound. -/
theorem roomTable_ok {ls : List Label} {os : List Event} {s : State}
    (h : machine.Run State.init ls os s) : RoomTableOk s := by
  have hinv := inv_init.run h
  refine ⟨fun k room hr => ?_, fun k room hr hlen t => hinv.not_plays hr hlen, ?_, ?_⟩
  · have hok := hinv.room k room hr
    exact ⟨hok.password, hok.short, hok.seats, hok.turn⟩
  · intro k room hr hlen t hp ls os s' hrun t' hp'
    exact hinv.alone hr hlen hp hrun hp'
  · intro t k hp
    obtain ⟨room, current, other, hr, h₁, h₂⟩ := hinv.exists_seats hp
    exact ⟨room, hr, by simp [h₁], by simp [h₂], hinv.wake_isSome hp⟩

/-- Two clients meet in the room `ab\n` and the first turn opens. -/
def duel : List Label :=
  [.accept 3, .accept 4, .recv 0 (createRequest (ascii "ab")) [],
    .recv 1 (joinRequest (ascii "ab")) [], .wake 1]

theorem isSome_duel : (machine.exec State.init duel).isSome := by
  decide +kernel

/-- The room table of a game that is on. -/
theorem roomTable_ok_duel : RoomTableOk (machine.final State.init duel isSome_duel) :=
  roomTable_ok (Machine.run_final isSome_duel)

end Server

end DesperateStruggle
