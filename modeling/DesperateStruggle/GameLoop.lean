import DesperateStruggle.Seats

/-!
# The game of a room

`seatTrace` is what the server has sent to the seats of a room, `gameTrace n` what the
source sends there up to the `n`-th sleep of the room's handler : the countdown to both
seats, the start to both seats, and one pair of turn messages for each iteration of the
game loop.

`RoomStep` is what one step of the server does to one room. Only the handler of a full
room changes the room or sends to its seats, so in every reachable state the trace of a
full room is `gameTrace n` for the number `n` of its handler's sleeps (`gameTrace_of_run`).

No line of the server lowers a player's lives, so the test that ends the loop never
succeeds (`Inv.lives_step`) and no bound on its iterations holds (`not_endsWithin`).
-/

open CString

namespace DesperateStruggle

namespace Server

/-! ## Traces -/

/-- The seat of room `k` that a message goes to, with the message. -/
def atSeat (k : Key) : Sent → Option (Nat × ServerMessage)
  | .seat k' i _ m => if k' = k then some (i, m) else none
  | .reply .. => none

/-- The messages to the seats of room `k`, in order. -/
def seatTrace (k : Key) (os : List Event) : List (Nat × ServerMessage) :=
  os.filterMap fun e => atSeat k e.2

/-- A message to both seats. -/
def toBoth (m : ServerMessage) : List (Nat × ServerMessage) :=
  [(0, m), (1, m)]

/-- The messages of iteration `n`, counted from 0. -/
def turnTrace (n : Nat) : List (Nat × ServerMessage) :=
  [(n % 2, .YOUR_TURN), (1 - n % 2, .OPPONENT_TURN)]

/-- The messages to the seats of a room up to the sleep after `n` others. -/
def gameTrace : Nat → List (Nat × ServerMessage)
  | 0 => toBoth .COUNTDOWN
  | n + 1 => toBoth .COUNTDOWN ++ toBoth .START ++ (List.range (n + 1)).flatMap turnTrace

theorem gameTrace_one : gameTrace 1 = gameTrace 0 ++ (toBoth .START ++ turnTrace 0) :=
  rfl

theorem gameTrace_succ_succ (n : Nat) :
    gameTrace (n + 2) = gameTrace (n + 1) ++ turnTrace (n + 1) := by
  simp [gameTrace, List.range_succ, List.flatMap_append]

@[simp] theorem seatTrace_append (k : Key) (os os' : List Event) :
    seatTrace k (os ++ os') = seatTrace k os ++ seatTrace k os' :=
  List.filterMap_append

/-- What a handler sends, as it is seen at the seats of room `k`. -/
theorem seatTrace_map (k : Key) (t : Nat) (sends : List Sent) :
    seatTrace k (sends.map (t, ·)) = sends.filterMap (atSeat k) := by
  rw [seatTrace, List.filterMap_map]
  rfl

/-- Messages to the seats of another room. -/
theorem ToSeats.ne {k k₀ : Key} {players : List Socket} {sends : List Sent}
    (h : ToSeats k₀ players sends) (hk : k ≠ k₀) :
    ∀ e ∈ sends, ∀ k' i p m, e = .seat k' i p m → k' ≠ k := by
  intro e he k' i p m heq
  obtain ⟨i', p', m', -, heq'⟩ := h e he
  cases heq.symm.trans heq'
  exact Ne.symm hk

/-- They are not seen in room `k`. -/
theorem seatTrace_eq_nil {k : Key} {t : Nat} {sends : List Sent}
    (h : ∀ e ∈ sends, ∀ k' i p m, e = .seat k' i p m → k' ≠ k) :
    seatTrace k (sends.map (t, ·)) = [] := by
  rw [seatTrace_map, List.filterMap_eq_nil_iff]
  rintro e he
  cases e with
  | reply => rfl
  | seat k' i p m => simp [atSeat, h _ he k' i p m rfl]

/-- A broadcast in a room of two. -/
theorem seatTrace_broadcast {k : Key} {players : List Socket} (hlen : players.length = 2)
    (t : Nat) (m : ServerMessage) :
    seatTrace k ((broadcast k players m).map (t, ·)) = toBoth m := by
  obtain ⟨a, b, rfl⟩ := List.length_eq_two.1 hlen
  rw [seatTrace_map]
  simp [broadcast, toBoth, atSeat]

/-- The turn messages in a room whose turn is that of iteration `n`. -/
theorem seatTrace_turnMessages {k : Key} {room : Room} {sends : List Sent} {n : Nat}
    (h : turnMessages k room = some sends) (hturn : room.turn = (n % 2 : Nat)) (t : Nat) :
    seatTrace k (sends.map (t, ·)) = turnTrace n := by
  unfold turnMessages at h
  split at h
  · cases h
    have h₁ : room.turn.toNat = n % 2 := by omega
    have h₂ : (1 - room.turn).toNat = 1 - n % 2 := by omega
    rw [seatTrace_map, h₁, h₂]
    simp [turnTrace, atSeat]
  · cases h

/-! ## One step and one room -/

/-- What a step does to room `k`. -/
inductive RoomStep (s : State) (l : Label) (s' : State) (o : List Event) (k : Key) : Prop
  /-- Nothing, and nobody who plays it moves. -/
  | quiet (rooms : s'.rooms k = s.rooms k) (silent : seatTrace k o = [])
      (stay : ∀ t, s.Plays t k → l ≠ .wake t ∧ s'.handlers[t]? = s.handlers[t]?)
  /-- A client creates it. -/
  | create (c : Socket) (absent : s.rooms k = none)
      (rooms : s'.rooms k = some { password := k, players := [c] }) (silent : seatTrace k o = [])
  /-- A client takes the second seat. -/
  | pair (t : Nat) (c p : Socket) (room : Room) (found : s.rooms k = some room)
      (single : room.players = [p]) (rooms : s'.rooms k = some (room.pushBack c))
      (sends : List Event) (answer : o = (t, .reply k c .WAIT) :: sends)
      (trace : seatTrace k sends = toBoth .COUNTDOWN)
      (here : s'.handlers[t]? = some ⟨c, .countdown k⟩)
  /-- Its countdown ends. -/
  | start (t : Nat) (c : Socket) (room : Room) (label : l = .wake t)
      (before : s.handlers[t]? = some ⟨c, .countdown k⟩) (found : s.rooms k = some room)
      (rooms : s'.rooms k = some room) (here : s'.handlers[t]? = some ⟨c, .game k⟩)
      (trace : ∀ n : Nat, room.turn = (n % 2 : Nat) →
        seatTrace k o = toBoth .START ++ turnTrace n)
  /-- Its next turn opens. -/
  | turn (t : Nat) (c : Socket) (room : Room) (label : l = .wake t)
      (before : s.handlers[t]? = some ⟨c, .game k⟩) (found : s.rooms k = some room)
      (rooms : s'.rooms k = some room.passTurn) (here : s'.handlers[t]? = some ⟨c, .game k⟩)
      (trace : ∀ n : Nat, room.passTurn.turn = (n % 2 : Nat) → seatTrace k o = turnTrace n)
  /-- Its game ends. -/
  | finish (t : Nat) (c : Socket) (room : Room) (before : s.handlers[t]? = some ⟨c, .game k⟩)
      (found : s.rooms k = some room) (isOver : room.passTurn.isOver = true)

namespace Inv

variable {s s' : State} {l : Label} {o : List Event} {t : Nat} {c : Socket} {k k₀ : Key}

/-- A handler that plays room `k` is not the one that waits elsewhere. -/
theorem ne_of_plays {control : Control} (here : s.handlers[t]? = some ⟨c, control⟩)
    (hcontrol : ¬control.Plays k) {t' : Nat} (hp : s.Plays t' k) : t' ≠ t := by
  rintro rfl
  obtain ⟨hd, hhd, hk⟩ := hp
  obtain rfl := Option.some.inj (here.symm.trans hhd)
  exact hcontrol hk

/-- A step of a handler that does not play room `k`, that leaves the room and sends nothing
to its seats. -/
theorem roomStep_quiet {control control' : Control} {rooms : Rooms} {sends : List Sent}
    (here : s.handlers[t]? = some ⟨c, control⟩) (hcontrol : ¬control.Plays k)
    (hrooms : rooms k = s.rooms k) (hl : ∀ t', l = .wake t' → t' = t)
    (hsends : ∀ e ∈ sends, ∀ k' i p m, e = Sent.seat k' i p m → k' ≠ k) :
    RoomStep s l (s.resume t (rooms, sends, control')).1 (s.resume t (rooms, sends, control')).2
      k := by
  refine .quiet hrooms (seatTrace_eq_nil hsends) fun t' hp => ?_
  have hne := ne_of_plays here hcontrol hp
  exact ⟨fun heq => hne (hl t' heq), s.getElem?_setControl_of_ne hne⟩

/-- Every step of the server, seen from one room. -/
theorem roomStep (h : Inv s) (hstep : Server.step s l = some (s', o)) (k : Key) :
    RoomStep s l s' o k := by
  cases h.cases hstep with
  | @accept c =>
    refine .quiet rfl rfl fun t ⟨hd, hhd, _⟩ => ⟨by simp, ?_⟩
    rw [hhd, s.getElem?_accept]
    exact Or.inl hhd
  | exit here label =>
    refine .quiet rfl rfl fun t hp => ⟨?_, ?_⟩
    · rcases label with rfl | ⟨_, _, _, rfl, -⟩ <;> simp
    · exact s.getElem?_setControl_of_ne (ne_of_plays here not_plays_recv hp)
  | @handle t c chunk beyond res here message handled =>
    cases handled with
    | ignored | exist | full =>
      exact roomStep_quiet here not_plays_recv rfl (by simp) fun e he k' i p m heq => by simp_all
    | @created k₀ request absent =>
      by_cases hk : k = k₀
      · subst hk
        exact .create c absent Rooms.assign_self rfl
      · exact roomStep_quiet here not_plays_recv (Rooms.assign_of_ne hk) (by simp)
          fun e he k' i p m heq => by simp_all
    | first _ room found empty => exact ((h.room _ _ found).ne_nil empty).elim
    | @second k₀ request room found p single =>
      by_cases hk : k = k₀
      · subst hk
        refine .pair t c p room found single Rooms.assign_self
          [(t, .seat k 0 p .COUNTDOWN), (t, .seat k 1 c .COUNTDOWN)] rfl ?_
          (s.getElem?_setControl_self here)
        simp [seatTrace, atSeat, toBoth]
      · refine roomStep_quiet here not_plays_recv (Rooms.assign_of_ne hk) (by simp)
          fun e he k' i p m heq => ?_
        subst heq
        rintro rfl
        simp [hk] at he
  | @start t c k₀ room sends here found turn =>
    by_cases hk : k = k₀
    · subst hk
      have hlen : room.players.length = 2 := by
        obtain ⟨room', hr, hlen⟩ := h.full t k ⟨_, here, Or.inl rfl⟩
        obtain rfl := Option.some.inj (found.symm.trans hr)
        exact hlen
      refine .start t c room rfl here found found (s.getElem?_setControl_self here) fun n hn => ?_
      rw [State.resume, List.map_append, seatTrace_append, seatTrace_broadcast hlen,
        seatTrace_turnMessages turn hn]
    · have hseats := (ToSeats.broadcast k₀ room.players .START).append (.turnMessages turn)
      exact roomStep_quiet here (fun hp => hk (plays_countdown.1 hp)) rfl
        (by simp [eq_comm]) (hseats.ne hk)
  | @turn t c k₀ room sends here found _ turn =>
    by_cases hk : k = k₀
    · subst hk
      exact .turn t c room rfl here found Rooms.assign_self (s.getElem?_setControl_self here)
        fun n hn => seatTrace_turnMessages turn hn t
    · exact roomStep_quiet here (fun hp => hk (plays_game.1 hp)) (Rooms.assign_of_ne hk)
        (by simp [eq_comm]) ((ToSeats.turnMessages turn).ne hk)
  | @finish t c k₀ room here found isOver =>
    by_cases hk : k = k₀
    · subst hk
      exact .finish t c room here found isOver
    · exact roomStep_quiet here (fun hp => hk (plays_game.1 hp)) (Rooms.assign_of_ne hk)
        (by simp [eq_comm]) ((ToSeats.broadcast _ _ _).ne hk)

end Inv

/-! ## The game of a room, from the second player on -/

/-- Every player has five lives. -/
def FullLives (s : State) : Prop :=
  ∀ k room, s.rooms k = some room → room.playerLives = initialLives

/-- No game is over at the end of a turn. -/
theorem FullLives.not_over {s : State} (h : FullLives s) {k : Key} {room : Room}
    (hroom : s.rooms k = some room) : ¬room.passTurn.isOver = true := by
  simp [Room.isOver, h k room hroom, initialLives]

/-- Handler `t` runs the game of room `k` and has slept `n` times before its present sleep. -/
structure Played (s : State) (os : List Event) (k : Key) (room : Room) (t n : Nat) : Prop where
  control : ∃ c, s.handlers[t]? = some ⟨c, if n = 0 then .countdown k else .game k⟩
  turn : room.turn = ((n - 1) % 2 : Nat)
  /-- What went to the seats since the second player was answered `WAIT`. -/
  trace : ∃ os₁ p c os₂, room.players = [p, c] ∧ os = os₁ ++ (t, .reply k c .WAIT) :: os₂ ∧
    seatTrace k os₁ = [] ∧ seatTrace k os₂ = gameTrace n

/-- The seat log with the games that are on. -/
structure GameInv (s : State) (os : List Event) : Prop where
  seat : SeatInv s os
  lives : FullLives s
  sends : ∀ t k i p m, (t, Sent.seat k i p m) ∈ os → (s.seats k)[i]? = some p
  empty : ∀ k, s.rooms k = none → seatTrace k os = []
  lone : ∀ k room, s.rooms k = some room → room.players.length = 1 →
    room.turn = 0 ∧ seatTrace k os = []
  played : ∀ k room, s.rooms k = some room → room.players.length = 2 →
    ∃ t n, Played s os k room t n

namespace Played

variable {s s' : State} {l : Label} {o os : List Event} {t n : Nat} {k : Key} {room : Room}

theorem plays (h : Played s os k room t n) : s.Plays t k := by
  obtain ⟨c, hc⟩ := h.control
  refine ⟨_, hc, ?_⟩
  split_ifs
  · exact Or.inl rfl
  · exact Or.inr rfl

/-- Nothing went to the seats before the second player was answered. -/
theorem seatTrace_eq (h : Played s os k room t n) : seatTrace k os = gameTrace n := by
  obtain ⟨os₁, p, c, os₂, -, rfl, h₁, h₂⟩ := h.trace
  rw [seatTrace_append, h₁, List.nil_append, ← h₂]
  rfl

/-- The trace goes on. -/
theorem trace_append (h : Played s os k room t n) {room' : Room}
    (hplayers : room'.players = room.players) {n' : Nat}
    (hgame : gameTrace n' = gameTrace n ++ seatTrace k o) :
    ∃ os₁ p c os₂, room'.players = [p, c] ∧ os ++ o = os₁ ++ (t, .reply k c .WAIT) :: os₂ ∧
      seatTrace k os₁ = [] ∧ seatTrace k os₂ = gameTrace n' := by
  obtain ⟨os₁, p, c, os₂, hpc, rfl, h₁, h₂⟩ := h.trace
  exact ⟨os₁, p, c, os₂ ++ o, hplayers.trans hpc, by simp, h₁, by rw [seatTrace_append, h₂, hgame]⟩

/-- One step of the server in a game that is on : the handler's own step opens the next
turn, no other step is seen. -/
theorem step (h : Played s os k room t n) (hinv : Inv s) (hlives : FullLives s)
    (hroom : s.rooms k = some room) (hlen : room.players.length = 2)
    (hstep : Server.step s l = some (s', o)) :
    ∃ room', s'.rooms k = some room' ∧ room'.players = room.players ∧
      Played s' (os ++ o) k room' t (if l = .wake t then n + 1 else n) := by
  have hplayer : ∀ {t' : Nat} {c : Socket} {control : Control}, control.Plays k →
      s.handlers[t']? = some ⟨c, control⟩ → t' = t := fun hk here =>
    hinv.unique _ t k ⟨_, here, hk⟩ h.plays
  obtain ⟨c₀, hc₀⟩ := h.control
  cases hinv.roomStep hstep k with
  | quiet rooms silent stay =>
    obtain ⟨hl, hstay⟩ := stay t h.plays
    refine ⟨room, rooms.trans hroom, rfl, ?_⟩
    rw [if_neg hl]
    exact ⟨⟨c₀, hstay.trans hc₀⟩, h.turn, h.trace_append rfl (by rw [silent, List.append_nil])⟩
  | create c absent => simp [hroom] at absent
  | pair t' c p room' found single =>
    obtain rfl := Option.some.inj (hroom.symm.trans found)
    simp [single] at hlen
  | start t' c room' label before found rooms here trace =>
    obtain rfl := hplayer (Or.inl rfl) before
    obtain rfl := Option.some.inj (hroom.symm.trans found)
    have hn : n = 0 := by
      rw [before] at hc₀
      by_contra hn
      simp [hn] at hc₀
    subst hn
    refine ⟨room, rooms, rfl, ?_⟩
    rw [if_pos label]
    exact ⟨⟨c, here⟩, h.turn, h.trace_append rfl (by rw [gameTrace_one, trace 0 h.turn])⟩
  | turn t' c room' label before found rooms here trace =>
    obtain rfl := hplayer (Or.inr rfl) before
    obtain rfl := Option.some.inj (hroom.symm.trans found)
    obtain ⟨m, rfl⟩ : ∃ m, n = m + 1 := by
      refine Nat.exists_eq_succ_of_ne_zero fun hn => ?_
      rw [before] at hc₀
      simp [hn] at hc₀
    have hturn : room.passTurn.turn = ((m + 1) % 2 : Nat) := by
      have := h.turn
      simp only [Nat.add_sub_cancel] at this
      rw [Room.passTurn_turn, this]
      omega
    refine ⟨room.passTurn, rooms, rfl, ?_⟩
    rw [if_pos label]
    exact ⟨⟨c, here⟩, hturn, h.trace_append rfl (by rw [gameTrace_succ_succ, trace _ hturn])⟩
  | finish t' c room' before found isOver =>
    exact (hlives.not_over found isOver).elim

end Played

namespace GameInv

variable {s s' : State} {l : Label} {o os : List Event} {t n : Nat} {k : Key} {room : Room}

theorem init : GameInv State.init [] where
  seat := .init
  lives := by simp [FullLives, State.init]
  sends := by simp
  empty := fun _ _ => rfl
  lone := by simp [State.init]
  played := by simp [State.init]

/-- No step lowers a life. -/
theorem lives_step (h : GameInv s os) (hstep : Server.step s l = some (s', o)) :
    FullLives s' := by
  intro k room hroom
  cases h.seat.inv.roomStep hstep k with
  | quiet rooms =>
    rw [rooms] at hroom
    exact h.lives k room hroom
  | create c absent rooms =>
    obtain rfl := Option.some.inj (rooms.symm.trans hroom)
    rfl
  | pair t c p room' found single rooms =>
    obtain rfl := Option.some.inj (rooms.symm.trans hroom)
    exact h.lives k room' found
  | start t c room' label before found rooms =>
    obtain rfl := Option.some.inj (rooms.symm.trans hroom)
    exact h.lives k room' found
  | turn t c room' label before found rooms =>
    obtain rfl := Option.some.inj (rooms.symm.trans hroom)
    exact h.lives k room' found
  | finish t c room' before found isOver =>
    exact (h.lives.not_over found isOver).elim

theorem sends_step (h : GameInv s os) (hstep : Server.step s l = some (s', o)) {i : Nat}
    {p : Socket} {m : ServerMessage} (hmem : (t, Sent.seat k i p m) ∈ os ++ o) :
    (s'.seats k)[i]? = some p := by
  rcases List.mem_append.1 hmem with hmem | hmem
  · exact h.seat.getElem?_seats hstep (h.sends t k i p m hmem)
  · exact h.seat.seat_sends hstep hmem

/-- Nothing goes to the seats of a room that does not exist. -/
theorem empty_step (h : GameInv s os) (hstep : Server.step s l = some (s', o))
    (hnone : s'.rooms k = none) : seatTrace k (os ++ o) = [] := by
  cases h.seat.inv.roomStep hstep k with
  | quiet rooms silent =>
    rw [seatTrace_append, silent, h.empty k (rooms.symm.trans hnone), List.append_nil]
  | finish t c room before found =>
    obtain ⟨room', hr', -⟩ := h.seat.inv.keep_step hstep found
    simp [hnone] at hr'
  | create _ _ rooms | pair _ _ _ _ _ _ rooms | start _ _ _ _ _ _ rooms
  | turn _ _ _ _ _ _ rooms => simp [hnone] at rooms

/-- A room with one player is on its first turn, and nothing has gone to its seats. -/
theorem lone_step (h : GameInv s os) (hstep : Server.step s l = some (s', o))
    (hroom : s'.rooms k = some room) (hlen : room.players.length = 1) :
    room.turn = 0 ∧ seatTrace k (os ++ o) = [] := by
  have hinv := h.seat.inv
  cases hinv.roomStep hstep k with
  | quiet rooms silent =>
    obtain ⟨hturn, htrace⟩ := h.lone k room (rooms.symm.trans hroom) hlen
    exact ⟨hturn, by rw [seatTrace_append, silent, htrace, List.append_nil]⟩
  | create c absent rooms silent =>
    obtain rfl := Option.some.inj (rooms.symm.trans hroom)
    exact ⟨rfl, by rw [seatTrace_append, silent, h.empty k absent, List.append_nil]⟩
  | pair t c p room' found single rooms =>
    obtain rfl := Option.some.inj (rooms.symm.trans hroom)
    simp [single] at hlen
  | start t c room' label before found rooms =>
    obtain rfl := Option.some.inj (rooms.symm.trans hroom)
    exact (hinv.not_plays found hlen ⟨_, before, Or.inl rfl⟩).elim
  | turn t c room' label before found rooms =>
    obtain rfl := Option.some.inj (rooms.symm.trans hroom)
    exact (hinv.not_plays found hlen ⟨_, before, Or.inr rfl⟩).elim
  | finish t c room' before found isOver =>
    exact (h.lives.not_over found isOver).elim

/-- A room with two players is played : its game goes on, or has just begun. -/
theorem played_step (h : GameInv s os) (hstep : Server.step s l = some (s', o))
    (hroom : s'.rooms k = some room) (hlen : room.players.length = 2) :
    ∃ t n, Played s' (os ++ o) k room t n := by
  have hinv := h.seat.inv
  have hgoesOn : ∀ {room₀ : Room}, s.rooms k = some room₀ → room₀.players.length = 2 →
      ∃ t n, Played s' (os ++ o) k room t n := by
    intro room₀ h₀ hlen₀
    obtain ⟨t, n, hplayed⟩ := h.played k room₀ h₀ hlen₀
    obtain ⟨room', hr', -, hplayed'⟩ := hplayed.step hinv h.lives h₀ hlen₀ hstep
    obtain rfl := Option.some.inj (hroom.symm.trans hr')
    exact ⟨t, _, hplayed'⟩
  cases hinv.roomStep hstep k with
  | quiet rooms => exact hgoesOn (rooms.symm.trans hroom) hlen
  | create c absent rooms =>
    obtain rfl := Option.some.inj (rooms.symm.trans hroom)
    simp at hlen
  | pair t c p room' found single rooms sends answer trace here =>
    obtain rfl := Option.some.inj (rooms.symm.trans hroom)
    obtain ⟨hturn, htrace⟩ := h.lone k room' found (by simp [single])
    exact ⟨t, 0, ⟨c, here⟩, hturn, os, p, c, sends, by simp [single], by rw [answer], htrace,
      trace⟩
  | start t c room' label before found rooms =>
    obtain rfl := Option.some.inj (rooms.symm.trans hroom)
    exact hgoesOn found hlen
  | turn t c room' label before found rooms =>
    obtain rfl := Option.some.inj (rooms.symm.trans hroom)
    exact hgoesOn found hlen
  | finish t c room' before found isOver =>
    exact (h.lives.not_over found isOver).elim

theorem step (h : GameInv s os) (hstep : Server.step s l = some (s', o)) :
    GameInv s' (os ++ o) where
  seat := h.seat.step hstep
  lives := h.lives_step hstep
  sends _ _ _ _ _ := h.sends_step hstep
  empty _ := h.empty_step hstep
  lone _ _ := h.lone_step hstep
  played _ _ := h.played_step hstep

theorem run {ls : List Label} (h : machine.Run State.init ls os s) : GameInv s os :=
  h.invariant init fun _ _ _ _ _ hi hs => hi.step hs

/-- Nothing has been sent to the seats of a room, or its game is on. -/
theorem seatTrace_cases (h : GameInv s os) (k : Key) :
    seatTrace k os = [] ∨ ∃ n, seatTrace k os = gameTrace n := by
  cases hroom : s.rooms k with
  | none => exact Or.inl (h.empty k hroom)
  | some room =>
    rcases (h.seat.inv.room k room hroom).seats with hlen | hlen
    · exact Or.inl (h.lone k room hroom hlen).2
    · obtain ⟨t, n, hplayed⟩ := h.played k room hroom hlen
      exact Or.inr ⟨n, hplayed.seatTrace_eq⟩

/-- Only the handler that plays a room of two changes it or sends to its seats. -/
theorem quiet_of_ne (h : GameInv s os) (hstep : Server.step s l = some (s', o))
    (hroom : s.rooms k = some room) (hlen : room.players.length = 2) (hp : s.Plays t k)
    (hl : l ≠ .wake t) : s'.rooms k = some room ∧ seatTrace k o = [] := by
  have hplayer : ∀ {t' : Nat} {c : Socket} {control : Control}, control.Plays k →
      s.handlers[t']? = some ⟨c, control⟩ → t' = t := fun hk here =>
    h.seat.inv.unique _ t k ⟨_, here, hk⟩ hp
  cases h.seat.inv.roomStep hstep k with
  | quiet rooms silent => exact ⟨rooms.trans hroom, silent⟩
  | create c absent => simp [hroom] at absent
  | pair t' c p room' found single =>
    obtain rfl := Option.some.inj (hroom.symm.trans found)
    simp [single] at hlen
  | start t' c room' label before => exact (hl (hplayer (Or.inl rfl) before ▸ label)).elim
  | turn t' c room' label before => exact (hl (hplayer (Or.inr rfl) before ▸ label)).elim
  | finish t' c room' before found isOver => exact (h.lives.not_over found isOver).elim

/-- A handler that plays a room never leaves it, and sends no result to its seats. -/
theorem plays_run (h : GameInv s os) (hp : s.Plays t k) {ls : List Label} {os' : List Event}
    (hrun : machine.Run s ls os' s') : GameInv s' (os ++ os') ∧ s'.Plays t k := by
  refine hrun.invariant (P := fun s' os' => GameInv s' (os ++ os') ∧ s'.Plays t k)
    ⟨by rwa [List.append_nil], hp⟩ fun u os₁ l u' o ⟨hu, hpu⟩ hstep => ?_
  have hu' := hu.step hstep
  rw [List.append_assoc] at hu'
  refine ⟨hu', ?_⟩
  obtain ⟨room, hroom, hlen⟩ := hu.seat.inv.full t k hpu
  obtain ⟨t', n, hplayed⟩ := hu.played k room hroom hlen
  obtain rfl := hu.seat.inv.unique t' t k hplayed.plays hpu
  obtain ⟨room', -, -, hplayed'⟩ := hplayed.step hu.seat.inv hu.lives hroom hlen hstep
  exact hplayed'.plays

/-- The loop can go round as often as one likes. -/
theorem exists_run_wake (h : GameInv s os) (hp : s.Plays t k) (n : Nat) :
    ∃ os' s', machine.Run s (List.replicate n (.wake t)) os' s' := by
  induction n with
  | zero => exact ⟨[], s, .nil⟩
  | succ n ih =>
    obtain ⟨os', s', hrun⟩ := ih
    obtain ⟨hinv, hp'⟩ := h.plays_run hp hrun
    obtain ⟨⟨s'', o⟩, hstep⟩ := Option.isSome_iff_exists.1 (hinv.seat.inv.wake_isSome hp')
    rw [List.replicate_succ']
    exact ⟨_, _, hrun.snoc hstep⟩

end GameInv

/-! ## What the seats of a full room see -/

/-- For every room with two players, in every run : one handler plays it. Since it answered
the second player with `WAIT`, the seats have been sent the countdown, the start and the
turn messages of its iterations, those of iteration `n` being `YOUR_TURN` to seat `n % 2`
and `OPPONENT_TURN` to the other. They went to the players of the room, the creator first.
No other step changes the room or sends to its seats, and the handler's own step is
enabled and sends what comes next. -/
theorem gameTrace_of_run {ls : List Label} {os : List Event} {s : State}
    (h : machine.Run State.init ls os s) {k : Key} {room : Room} (hroom : s.rooms k = some room)
    (hlen : room.players.length = 2) :
    ∃ t n, s.Plays t k ∧ room.turn = ((n - 1) % 2 : Nat) ∧
      (∃ os₁ p c os₂, room.players = [p, c] ∧ os = os₁ ++ (t, .reply k c .WAIT) :: os₂ ∧
        seatTrace k os₁ = [] ∧ seatTrace k os₂ = gameTrace n) ∧
      (seatedBy k os).map Prod.snd = room.players ∧
      (∀ t i p m, (t, Sent.seat k i p m) ∈ os → room.players[i]? = some p) ∧
      (∀ l s' o, step s l = some (s', o) → l ≠ .wake t →
        s'.rooms k = some room ∧ seatTrace k o = []) ∧
      ∃ s' o room', step s (.wake t) = some (s', o) ∧ s'.rooms k = some room' ∧
        room'.players = room.players ∧ room'.turn = (n % 2 : Nat) ∧
        gameTrace n ++ seatTrace k o = gameTrace (n + 1) := by
  have hinv := GameInv.run h
  have hseats : s.seats k = room.players := by simp [State.seats, hroom]
  obtain ⟨t, n, hplayed⟩ := hinv.played k room hroom hlen
  have hwake := hinv.seat.inv.wake_isSome hplayed.plays
  obtain ⟨⟨s', o⟩, hstep⟩ := Option.isSome_iff_exists.1 hwake
  obtain ⟨room', hroom', hplayers, hplayed'⟩ :=
    hplayed.step hinv.seat.inv hinv.lives hroom hlen hstep
  rw [if_pos rfl] at hplayed'
  refine ⟨t, n, hplayed.plays, hplayed.turn, hplayed.trace, ?_, fun t' i p m hmem => ?_,
    fun l s' o hstep hl => hinv.quiet_of_ne hstep hroom hlen hplayed.plays hl,
    s', o, room', hstep, hroom', hplayers, hplayed'.turn, ?_⟩
  · rw [hinv.seat.log k, hseats]
  · rw [← hseats]
    exact hinv.sends t' k i p m hmem
  · have htrace := hplayed'.seatTrace_eq
    rwa [seatTrace_append, hplayed.seatTrace_eq] at htrace

/-- The room of the duel after its first turn has opened. -/
theorem gameTrace_of_run_duel : ∃ t n,
    (machine.final State.init duel isSome_duel).Plays t (ascii "ab\n") ∧
    ∃ os₂, seatTrace (ascii "ab\n") os₂ = gameTrace n := by
  obtain ⟨room, hroom, hlen⟩ : ∃ room,
      (machine.final State.init duel isSome_duel).rooms (ascii "ab\n") = some room ∧
      room.players.length = 2 :=
    ⟨{ password := ascii "ab\n", players := [3, 4] }, by decide +kernel, rfl⟩
  obtain ⟨t, n, hp, -, ⟨-, -, -, os₂, -, -, -, htrace⟩, -⟩ :=
    gameTrace_of_run (Machine.run_final isSome_duel) hroom hlen
  exact ⟨t, n, hp, os₂, htrace⟩

/-! ## The game does not end -/

/-- Once handler `t` has woken more than `N` times after `s`, it has left the game of room
`k`, and the seats have been sent a result that names the player with lives left. -/
def EndsWithin (N : Nat) (s : State) (t : Nat) (k : Key) : Prop :=
  ∀ ls os s', machine.Run s ls os s' → N < ls.count (.wake t) →
    ¬s'.Plays t k ∧ ∃ room, s'.rooms k = some room ∧ toBoth room.result <:+ seatTrace k os

/-- From every reachable state in which a room has just received its second player, the
handler plays the room in every later state, the seats are sent no result, and no number of
iterations bounds the loop. -/
theorem not_endsWithin {ls : List Label} {os : List Event} {s : State}
    (h : machine.Run State.init ls os s) {t : Nat} {c : Socket} {k : Key}
    (here : s.handlers[t]? = some ⟨c, .countdown k⟩) :
    (∀ ls' os' s', machine.Run s ls' os' s' → s'.Plays t k ∧
      ∀ i, (i, .player1Wins) ∉ seatTrace k os' ∧ (i, .player2Wins) ∉ seatTrace k os') ∧
    ∀ N, ¬EndsWithin N s t k := by
  have hinv := GameInv.run h
  have hp : s.Plays t k := ⟨_, here, Or.inl rfl⟩
  have hgame : ∀ n i, (i, ServerMessage.player1Wins) ∉ gameTrace n ∧
      (i, ServerMessage.player2Wins) ∉ gameTrace n := by
    intro n i
    cases n <;> simp [gameTrace, toBoth, turnTrace]
  refine ⟨fun ls' os' s' hrun => ?_, fun N hends => ?_⟩
  · obtain ⟨hinv', hp'⟩ := hinv.plays_run hp hrun
    obtain ⟨room, hroom, hlen⟩ := hinv'.seat.inv.full t k hp'
    obtain ⟨t', n, hplayed⟩ := hinv'.played k room hroom hlen
    have htrace := hplayed.seatTrace_eq
    rw [seatTrace_append] at htrace
    refine ⟨hp', fun i => ?_⟩
    have hn := hgame n i
    simp only [← htrace, List.mem_append, not_or] at hn
    exact ⟨hn.1.2, hn.2.2⟩
  · obtain ⟨os', s', hrun⟩ := hinv.exists_run_wake hp (N + 1)
    exact (hends _ os' s' hrun (by simp)).1 (hinv.plays_run hp hrun).2

/-- The second player has just joined. -/
def joined : List Label :=
  [.accept 3, .accept 4, .recv 0 (createRequest (ascii "ab")) [],
    .recv 1 (joinRequest (ascii "ab")) []]

theorem isSome_joined : (machine.exec State.init joined).isSome := by
  decide +kernel

theorem handlers_joined :
    (machine.final State.init joined isSome_joined).handlers[1]? =
      some ⟨4, .countdown (ascii "ab\n")⟩ := by
  decide +kernel

/-- The game that they start does not end. -/
theorem not_endsWithin_joined :
    (∀ ls os s, machine.Run (machine.final State.init joined isSome_joined) ls os s →
      s.Plays 1 (ascii "ab\n") ∧ ∀ i, (i, .player1Wins) ∉ seatTrace (ascii "ab\n") os ∧
        (i, .player2Wins) ∉ seatTrace (ascii "ab\n") os) ∧
    ∀ N, ¬EndsWithin N (machine.final State.init joined isSome_joined) 1 (ascii "ab\n") :=
  not_endsWithin (Machine.run_final isSome_joined) handlers_joined

/-- No bound holds from every state in which a room has just received its second player. -/
theorem not_exists_endsWithin : ¬∃ N, ∀ ls os s t c k, machine.Run State.init ls os s →
    s.handlers[t]? = some ⟨c, .countdown k⟩ → EndsWithin N s t k := by
  rintro ⟨N, hN⟩
  have hrun := Machine.run_final isSome_joined
  have hinv := GameInv.run hrun
  have hp : (machine.final State.init joined isSome_joined).Plays 1 (ascii "ab\n") :=
    ⟨_, handlers_joined, Or.inl rfl⟩
  obtain ⟨os', s', hwake⟩ := hinv.exists_run_wake hp (N + 1)
  have hends := hN _ _ _ _ _ _ hrun handlers_joined
  exact (hends _ os' s' hwake (by simp)).1 (hinv.plays_run hp hwake).2

end Server

end DesperateStruggle
