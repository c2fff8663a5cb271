import DesperateStruggle.RoomInvariant

/-!
# Who sits where

`State.seats` is the seat list of a room, `seatedBy` the handlers that were answered
`WAIT` for a room, in order, with their sockets. The two agree in every reachable state
(`SeatLog`). A step either leaves every seat list alone or appends the socket of the
handler whose message it accepts (`Inv.seating`), and it closes at most the connection of
a handler that leaves (`Inv.open_step`).

Nothing is taken out of a seat list again. So the seats are all held by the connections
that took them exactly as long as no seated client leaves (`seatsLive_iff`), and no socket
has two seats exactly as long as no seated client is accepted again
(`seatsDistinct_iff`).
-/

open CString

namespace DesperateStruggle

namespace Server

/-! ## Seats and connections -/

/-- The players of room `k`. -/
def State.seats (s : State) (k : Key) : List Socket :=
  match s.rooms k with
  | some room => room.players
  | none => []

/-- Connection `t` is open and has the socket `c`. -/
def State.Open (s : State) (t : Nat) (c : Socket) : Prop :=
  ∃ h, s.handlers[t]? = some h ∧ h.clientSocket = c ∧ h.control ≠ .exited

/-- The handlers that were answered `WAIT` for room `k`, with their sockets. -/
def seatedBy (k : Key) (os : List Event) : List (Nat × Socket) :=
  os.filterMap fun
    | (t, .reply k' p .WAIT) => if k' = k then some (t, p) else none
    | _ => none

/-- The message is accepted in room `k` : a `CREATE` of a new room, or a `JOIN` of one with
a free seat. -/
def Accepted (rooms : Rooms) (m : List Byte) (k : Key) : Prop :=
  Creates m k ∧ rooms k = none ∨
    Joins m k ∧ ∃ room, rooms k = some room ∧ room.players.length < 2

/-- The step seats handler `t` with the socket `c` in room `k`. -/
def SeatsAt (s : State) (l : Label) (t : Nat) (c : Socket) (k : Key) : Prop :=
  ∃ chunk beyond, l = .recv t chunk beyond ∧ s.handlers[t]? = some ⟨c, .recv⟩ ∧
    Accepted s.rooms (bufferString (zeros 1024) beyond chunk) k

/-- The step ends handler `t` : its connection is gone, or its message is a bare keyword. -/
def Leaves (s : State) (l : Label) (t : Nat) (c : Socket) : Prop :=
  s.handlers[t]? = some ⟨c, .recv⟩ ∧ (l = .disconnect t ∨ ∃ chunk beyond,
    l = .recv t chunk beyond ∧ (bufferString (zeros 1024) beyond chunk = CREATE ∨
      bufferString (zeros 1024) beyond chunk = JOIN))

@[simp] theorem seatedBy_nil (k : Key) : seatedBy k [] = [] :=
  rfl

@[simp] theorem seatedBy_append (k : Key) (os os' : List Event) :
    seatedBy k (os ++ os') = seatedBy k os ++ seatedBy k os' :=
  List.filterMap_append

/-- The messages go to seats of room `k`, each to the player there. -/
def ToSeats (k : Key) (players : List Socket) (sends : List Sent) : Prop :=
  ∀ e ∈ sends, ∃ i p m, players[i]? = some p ∧ e = .seat k i p m

namespace ToSeats

variable {k : Key} {players : List Socket} {sends sends' : List Sent}

theorem append (h : ToSeats k players sends) (h' : ToSeats k players sends') :
    ToSeats k players (sends ++ sends') := fun e he =>
  (List.mem_append.1 he).elim (h e) (h' e)

/-- A broadcast goes to the players by their seats. -/
theorem broadcast (k : Key) (players : List Socket) (m : ServerMessage) :
    ToSeats k players (DesperateStruggle.broadcast k players m) := by
  intro e he
  obtain ⟨i, hi, rfl⟩ := List.mem_mapIdx.1 he
  exact ⟨i, players[i], m, List.getElem?_eq_getElem hi, rfl⟩

/-- So do the messages of a turn. -/
theorem turnMessages {room : Room} (h : DesperateStruggle.turnMessages k room = some sends) :
    ToSeats k room.players sends := by
  have hplayer : ∀ {i : Int} {p : Socket}, room.player i = some p →
      room.players[i.toNat]? = some p := by
    intro i p hp
    unfold Room.player at hp
    split_ifs at hp
    exact hp
  intro e he
  unfold DesperateStruggle.turnMessages at h
  split at h
  · next current other h₁ h₂ =>
    cases h
    rcases List.mem_pair.1 he with rfl | rfl
    · exact ⟨_, _, _, hplayer h₁, rfl⟩
    · exact ⟨_, _, _, hplayer h₂, rfl⟩
  · cases h

/-- They seat nobody. -/
theorem seatedBy_eq_nil (h : ToSeats k players sends) (t : Nat) (k' : Key) :
    seatedBy k' (sends.map (t, ·)) = [] := by
  refine List.filterMap_eq_nil_iff.2 fun e he => ?_
  obtain ⟨e', he', rfl⟩ := List.mem_map.1 he
  obtain ⟨i, p, m, -, rfl⟩ := h e' he'
  rfl

end ToSeats

/-- A bare keyword is not accepted. -/
theorem not_accepted_of_throws {rooms : Rooms} {m : List Byte} {k : Key}
    (hm : m = CREATE ∨ m = JOIN) : ¬Accepted rooms m k := by
  rintro (⟨⟨hkey, hsub⟩, -⟩ | ⟨⟨hkey, hsub⟩, -⟩) <;> rcases hm with rfl | rfl
  · exact absurd hsub (by simp [CREATE, ascii, substr])
  · exact absurd hkey (by decide)
  · exact absurd hkey (by decide)
  · exact absurd hsub (by simp [JOIN, ascii, substr])

/-- Nor is a message without a keyword. -/
theorem not_accepted_of_ignored {rooms : Rooms} {m : List Byte} (k : Key)
    (notCreate : startsWith m CREATE = false) (notJoin : startsWith m JOIN = false) :
    ¬Accepted rooms m k := by
  rintro (⟨hm, -⟩ | ⟨hm, -⟩)
  · simp [hm.1] at notCreate
  · simp [hm.1] at notJoin

/-- Nor a `CREATE` of a room that exists. -/
theorem not_accepted_of_exist {rooms : Rooms} {m : List Byte} {k : Key} {room : Room}
    (request : Creates m k) (found : rooms k = some room) (k' : Key) : ¬Accepted rooms m k' := by
  rintro (⟨hm, habsent⟩ | ⟨hm, -⟩)
  · obtain rfl := request.key_unique hm
    simp [found] at habsent
  · exact request.not_joins hm

/-- Nor a `JOIN` of a room that is full or does not exist. -/
theorem not_accepted_of_full {rooms : Rooms} {m : List Byte} {k : Key} (request : Joins m k)
    (hfull : ∀ room, rooms k = some room → 2 ≤ room.players.length) (k' : Key) :
    ¬Accepted rooms m k' := by
  rintro (⟨hm, -⟩ | ⟨hm, room, hroom, hlt⟩)
  · exact hm.not_joins request
  · obtain rfl := request.key_unique hm
    have hlen := hfull room hroom
    omega

theorem SeatsAt.accepted {s : State} {t t' : Nat} {chunk beyond : List Byte} {c : Socket}
    {k : Key} (h : SeatsAt s (.recv t chunk beyond) t' c k) :
    Accepted s.rooms (bufferString (zeros 1024) beyond chunk) k := by
  obtain ⟨chunk', beyond', hl, -, hacc⟩ := h
  cases hl
  exact hacc

/-- Only a message seats someone. -/
theorem not_seatsAt {s : State} {l : Label} (hl : ∀ t chunk beyond, l ≠ .recv t chunk beyond)
    (t : Nat) (c : Socket) (k : Key) : ¬SeatsAt s l t c k := by
  rintro ⟨chunk, beyond, heq, -⟩
  exact hl t chunk beyond heq

theorem SeatsAt.unique {s : State} {l : Label} {t t' : Nat} {c c' : Socket} {k k' : Key}
    (h : SeatsAt s l t c k) (h' : SeatsAt s l t' c' k') : t = t' ∧ c = c' ∧ k = k' := by
  obtain ⟨chunk, beyond, rfl, here, hacc⟩ := h
  obtain ⟨chunk', beyond', hl, here', hacc'⟩ := h'
  obtain ⟨rfl, rfl, rfl⟩ : t = t' ∧ chunk = chunk' ∧ beyond = beyond' := by
    simpa using hl
  have hc : c = c' := by
    rw [here] at here'
    simpa using here'
  refine ⟨rfl, hc, ?_⟩
  rcases hacc with ⟨hm, -⟩ | ⟨hm, -⟩ <;> rcases hacc' with ⟨hm', -⟩ | ⟨hm', -⟩
  · exact hm.key_unique hm'
  · exact (hm.not_joins hm').elim
  · exact (hm'.not_joins hm).elim
  · exact hm.key_unique hm'

/-! ## Steps -/

namespace Inv

variable {s s' : State} {l : Label} {o : List Event} {t : Nat} {c : Socket} {k : Key}

/-- Replacing a room by one with the same players moves nobody. -/
theorem seats_assign {rooms : Rooms} {handlers : List Handler} {room : Room} (room' : Room)
    (found : s.rooms k = some room) (hplayers : room'.players = room.players)
    (hrooms : rooms = s.rooms.assign k room') (k' : Key) :
    State.seats ⟨rooms, handlers⟩ k' = s.seats k' := by
  subst hrooms
  by_cases hk : k' = k
  · subst hk
    simp [State.seats, found, hplayers]
  · simp [State.seats, Rooms.assign_of_ne hk]

/-- Replacing a room by one with a player more seats that player. -/
theorem seats_resume {room : Room} (hplayers : room.players = s.seats k ++ [c])
    (sends : List Sent) (control : Control) (k' : Key) :
    (s.resume t (s.rooms.assign k room, sends, control)).1.seats k' =
      if k' = k then s.seats k ++ [c] else s.seats k' := by
  by_cases hk : k' = k
  · subst hk
    simp [State.seats, State.resume, hplayers]
  · simp [State.seats, State.resume, Rooms.assign_of_ne hk, hk]

/-- A `WAIT` and messages to the seats seat the one who is answered. -/
theorem seatedBy_wait {players : List Socket} {sends : List Sent} (h : ToSeats k players sends)
    (t : Nat) (c : Socket) (k' : Key) :
    seatedBy k' ((Sent.reply k c .WAIT :: sends).map (t, ·)) =
      if k' = k then [(t, c)] else [] := by
  have hsends := h.seatedBy_eq_nil t k'
  by_cases hk : k' = k
  · subst hk
    rw [if_pos rfl, List.map_cons, ← List.singleton_append, seatedBy_append, hsends]
    simp [seatedBy]
  · rw [if_neg hk, List.map_cons, ← List.singleton_append, seatedBy_append, hsends]
    simp [seatedBy, Ne.symm hk]

/-- A step seats nobody and leaves every seat list alone, or it appends the socket of the
handler whose message it accepts. -/
theorem seating (h : Inv s) (hstep : Server.step s l = some (s', o)) :
    ((∀ t c k, ¬SeatsAt s l t c k) ∧ ∀ k, s'.seats k = s.seats k ∧ seatedBy k o = []) ∨
    ∃ t c k, SeatsAt s l t c k ∧ ∀ k',
      s'.seats k' = (if k' = k then s.seats k ++ [c] else s.seats k') ∧
      seatedBy k' o = if k' = k then [(t, c)] else [] := by
  cases h.cases hstep with
  | accept => exact Or.inl ⟨not_seatsAt (by simp), fun k => ⟨rfl, rfl⟩⟩
  | @exit l t c here label =>
    refine Or.inl ⟨fun t' c' k hs => ?_, fun k => ⟨rfl, rfl⟩⟩
    rcases label with rfl | ⟨chunk, beyond, e, rfl, herr⟩
    · exact not_seatsAt (by simp) t' c' k hs
    · exact not_accepted_of_throws (handleMessage_eq_error_iff.1 herr) hs.accepted
  | @handle t c chunk beyond res here message handled =>
    cases handled with
    | ignored notCreate notJoin =>
      exact Or.inl ⟨fun _ _ k hs => not_accepted_of_ignored k notCreate notJoin hs.accepted,
        fun k => ⟨rfl, rfl⟩⟩
    | exist request room found =>
      exact Or.inl ⟨fun _ _ k hs => not_accepted_of_exist request found k hs.accepted,
        fun k => ⟨rfl, rfl⟩⟩
    | full request hfull =>
      exact Or.inl ⟨fun _ _ k hs => not_accepted_of_full request hfull k hs.accepted,
        fun k => ⟨rfl, rfl⟩⟩
    | @created k request absent =>
      have hplayers : s.seats k = [] := by simp [State.seats, absent]
      have hnone : ToSeats k [] [] := by simp [ToSeats]
      exact Or.inr ⟨t, c, k, ⟨chunk, beyond, rfl, here, Or.inl ⟨request, absent⟩⟩,
        fun k' => ⟨seats_resume (by simp [hplayers]) _ _ k', seatedBy_wait hnone t c k'⟩⟩
    | first _ room found empty => exact ((h.room _ _ found).ne_nil empty).elim
    | @second k request room found p single =>
      have hlt : room.players.length < 2 := by simp [single]
      have hplayers : s.seats k = room.players := by simp [State.seats, found]
      have hsends := ToSeats.broadcast k [p, c] .COUNTDOWN
      exact Or.inr ⟨t, c, k, ⟨chunk, beyond, rfl, here, Or.inr ⟨request, room, found, hlt⟩⟩,
        fun k' => ⟨seats_resume (by simp [hplayers]) _ _ k', seatedBy_wait hsends t c k'⟩⟩
  | @start t c k room sends here found turn =>
    have hseats := (ToSeats.broadcast k room.players .START).append (.turnMessages turn)
    exact Or.inl ⟨not_seatsAt (by simp), fun k' => ⟨rfl, hseats.seatedBy_eq_nil t k'⟩⟩
  | @turn t c k room sends here found _ turn =>
    have hseats := ToSeats.turnMessages turn
    exact Or.inl ⟨not_seatsAt (by simp), fun k' =>
      ⟨seats_assign room.passTurn found rfl rfl k', hseats.seatedBy_eq_nil t k'⟩⟩
  | @finish t c k room here found =>
    have hseats := ToSeats.broadcast k room.players room.passTurn.result
    exact Or.inl ⟨not_seatsAt (by simp), fun k' =>
      ⟨seats_assign room.passTurn found rfl rfl k', hseats.seatedBy_eq_nil t k'⟩⟩

/-- A handler moves and keeps its socket, or a new one starts. -/
theorem moves (h : Inv s) (hstep : Server.step s l = some (s', o)) :
    (∃ c, l = .accept c ∧ ¬s.IsOpen c ∧ s' = s.accept c) ∨
    ∃ t c control₀ control, (∀ c', l ≠ .accept c') ∧ s.handlers[t]? = some ⟨c, control₀⟩ ∧
      control₀ ≠ .exited ∧ s'.handlers = (s.setControl t control).handlers ∧
      (control = .exited ↔ Leaves s l t c) ∧ ∀ t' c', Leaves s l t' c' → t' = t := by
  have hwake : ∀ {t : Nat} {t' : Nat} {c : Socket}, ¬Leaves s (.wake t) t' c := by
    rintro t t' c ⟨-, hl | ⟨_, _, hl, -⟩⟩ <;> cases hl
  cases h.cases hstep with
  | accept fresh => exact Or.inl ⟨_, rfl, fresh, rfl⟩
  | @exit l t c here label =>
    have hl : Leaves s l t c := by
      refine ⟨here, label.imp id ?_⟩
      rintro ⟨chunk, beyond, e, hl, herr⟩
      exact ⟨chunk, beyond, hl, handleMessage_eq_error_iff.1 herr⟩
    refine Or.inr ⟨t, c, _, .exited, ?_, here, by simp, rfl, by simp [hl], ?_⟩
    · rcases label with rfl | ⟨_, _, _, rfl, -⟩ <;> simp
    · rintro t' c' ⟨-, hl' | ⟨_, _, hl', -⟩⟩ <;> rcases label with rfl | ⟨_, _, _, rfl, -⟩ <;>
        cases hl' <;> rfl
  | @handle t c chunk beyond res here message handled =>
    have hstay : res.2.2 ≠ .exited := by cases handled <;> simp
    have hl : ∀ {t' c'}, ¬Leaves s (.recv t chunk beyond) t' c' := by
      rintro t' c' ⟨-, hl | ⟨chunk', beyond', hl, hm⟩⟩
      · cases hl
      · cases hl
        have herr : handleMessage s.rooms c (bufferString (zeros 1024) beyond chunk) =
            .error ⟨⟩ := handleMessage_eq_error_iff.2 hm
        rw [herr] at message
        cases message
    exact Or.inr ⟨t, c, _, _, by simp, here, by simp, rfl, by simp [hl, hstay],
      fun _ _ h => (hl h).elim⟩
  | start here | turn here | finish here =>
    exact Or.inr ⟨_, _, _, _, by simp, here, by simp, rfl, by simp [hwake],
      fun _ _ h => (hwake h).elim⟩

/-- The connections that are open after a step. -/
theorem open_step (h : Inv s) (hstep : Server.step s l = some (s', o)) :
    s'.Open t c ↔ s.Open t c ∧ ¬Leaves s l t c ∨ l = .accept c ∧ t = s.handlers.length := by
  rcases h.moves hstep with ⟨c₀, rfl, -, rfl⟩ |
    ⟨t₀, c₀, control₀, control, hl, here, hopen, hhandlers, hexit, honly⟩
  · have hleave : ¬Leaves s (.accept c₀) t c := by
      rintro ⟨-, hl | ⟨_, _, hl, -⟩⟩ <;> cases hl
    simp only [State.Open, s.getElem?_accept, hleave, not_false_eq_true, and_true]
    constructor
    · rintro ⟨h, hh | ⟨rfl, rfl⟩, hc, hne⟩
      · exact Or.inl ⟨h, hh, hc, hne⟩
      · exact Or.inr ⟨by rw [← hc], rfl⟩
    · rintro (⟨h, hh, hc, hne⟩ | ⟨hl, rfl⟩)
      · exact ⟨h, Or.inl hh, hc, hne⟩
      · cases hl
        exact ⟨_, Or.inr ⟨rfl, rfl⟩, rfl, by simp⟩
  · simp only [hl, false_and, or_false, State.Open, hhandlers, State.getElem?_setControl]
    by_cases ht : t₀ = t
    · subst ht
      simp only [if_true, here, Option.map_some, Option.some.injEq, exists_eq_left']
      constructor
      · rintro ⟨rfl, hne⟩
        exact ⟨⟨rfl, hopen⟩, fun hleave => hne (hexit.2 hleave)⟩
      · rintro ⟨⟨rfl, -⟩, hleave⟩
        exact ⟨rfl, fun heq => hleave (hexit.1 heq)⟩
    · have hleave : ¬Leaves s l t c := fun hleave => ht (honly t c hleave).symm
      simp [if_neg ht, hleave]

end Inv

/-! ## The seat log -/

/-- The sockets that were answered `WAIT` for a room are its players, in order. -/
def SeatLog (s : State) (os : List Event) : Prop :=
  ∀ k, (seatedBy k os).map Prod.snd = s.seats k

/-- A connection that was answered `WAIT` has the socket it was answered on. -/
def LogSockets (s : State) (os : List Event) : Prop :=
  ∀ k t c, (t, c) ∈ seatedBy k os → ∃ h, s.handlers[t]? = some h ∧ h.clientSocket = c

/-- No two open connections have the same socket. -/
def OpenUnique (s : State) : Prop :=
  ∀ t t' c, s.Open t c → s.Open t' c → t = t'

theorem State.isOpen_iff {s : State} {c : Socket} : s.IsOpen c ↔ ∃ t, s.Open t c := by
  simp only [IsOpen, Open, List.mem_iff_getElem?]
  constructor
  · rintro ⟨h, ⟨t, ht⟩, hc, hne⟩
    exact ⟨t, h, ht, hc, hne⟩
  · rintro ⟨t, h, ht, hc, hne⟩
    exact ⟨h, ⟨t, ht⟩, hc, hne⟩

/-- What holds of the seats in every reachable state. -/
structure SeatInv (s : State) (os : List Event) : Prop where
  inv : Inv s
  log : SeatLog s os
  sockets : LogSockets s os
  openUnique : OpenUnique s

namespace SeatInv

variable {s s' : State} {l : Label} {o os : List Event} {t : Nat} {c : Socket} {k : Key}

/-- A handler keeps its socket. -/
theorem keep_socket (h : Inv s) (hstep : Server.step s l = some (s', o)) {hd : Handler}
    (ht : s.handlers[t]? = some hd) :
    ∃ hd', s'.handlers[t]? = some hd' ∧ hd'.clientSocket = hd.clientSocket := by
  rcases h.moves hstep with ⟨c₀, -, -, rfl⟩ | ⟨t₀, c₀, control₀, control, -, -, -, hhandlers, -⟩
  · exact ⟨hd, s.getElem?_accept.2 (Or.inl ht), rfl⟩
  · rw [hhandlers, State.getElem?_setControl]
    by_cases heq : t₀ = t
    · exact ⟨{ hd with control }, by rw [if_pos heq, ht, Option.map_some], rfl⟩
    · exact ⟨hd, by rw [if_neg heq, ht], rfl⟩

theorem openUnique_step (h : Inv s) (hu : OpenUnique s)
    (hstep : Server.step s l = some (s', o)) : OpenUnique s' := by
  have hfresh : ∀ {c t}, l = .accept c → ¬s.Open t c := by
    rintro c t rfl ht
    rcases h.moves hstep with ⟨c₀, hl, hnot, -⟩ | ⟨_, _, _, _, hl, -⟩
    · cases hl
      exact hnot (State.isOpen_iff.2 ⟨t, ht⟩)
    · exact hl c rfl
  intro t t' c ht ht'
  rcases (h.open_step hstep).1 ht with ⟨ho, -⟩ | ⟨hl, rfl⟩ <;>
    rcases (h.open_step hstep).1 ht' with ⟨ho', -⟩ | ⟨hl', rfl⟩
  · exact hu t t' c ho ho'
  · exact (hfresh hl' ho).elim
  · exact (hfresh hl ho').elim
  · rfl

theorem init : SeatInv State.init [] where
  inv := inv_init
  log := fun _ => rfl
  sockets := by simp [LogSockets]
  openUnique := by simp [OpenUnique, State.Open, State.init]

theorem step (h : SeatInv s os) (hstep : Server.step s l = some (s', o)) :
    SeatInv s' (os ++ o) := by
  refine ⟨h.inv.step hstep, fun k => ?_, fun k t c hmem => ?_,
    openUnique_step h.inv h.openUnique hstep⟩
  · have hlog := h.log k
    rcases h.inv.seating hstep with ⟨-, hsame⟩ | ⟨t, c, k₀, -, hseat⟩
    · rw [seatedBy_append, (hsame k).1, (hsame k).2, List.append_nil, hlog]
    · rw [seatedBy_append, (hseat k).1, (hseat k).2, List.map_append, hlog]
      by_cases hk : k = k₀
      · subst hk
        simp
      · simp [hk]
  · have hold : ∀ {t : Nat} {c : Socket},
        (∃ hd : Handler, s.handlers[t]? = some hd ∧ hd.clientSocket = c) →
        ∃ hd : Handler, s'.handlers[t]? = some hd ∧ hd.clientSocket = c := by
      rintro t c ⟨hd, ht, rfl⟩
      exact keep_socket h.inv hstep ht
    rw [seatedBy_append] at hmem
    rcases List.mem_append.1 hmem with hmem | hmem
    · exact hold (h.sockets k t c hmem)
    · rcases h.inv.seating hstep with ⟨-, hsame⟩ | ⟨t₀, c₀, k₀, ⟨_, _, -, here, -⟩, hseat⟩
      · simp [(hsame k).2] at hmem
      · rw [(hseat k).2] at hmem
        split_ifs at hmem with hk
        · obtain ⟨rfl, rfl⟩ := Prod.mk.inj (List.mem_singleton.1 hmem)
          exact hold ⟨_, here, rfl⟩
        · simp at hmem

/-- The seat log holds at the end of every run. -/
theorem run {ls : List Label} (h : machine.Run State.init ls os s) : SeatInv s os :=
  h.invariant init fun _ _ _ _ _ hi hs => hi.step hs

/-- The handler that took a seat. -/
theorem exists_seatedBy (h : SeatInv s os) {i : Nat} (hi : (s.seats k)[i]? = some c) :
    ∃ t, (seatedBy k os)[i]? = some (t, c) := by
  rw [← h.log k, List.getElem?_map, Option.map_eq_some_iff] at hi
  obtain ⟨⟨t, c'⟩, ht, rfl⟩ := hi
  exact ⟨t, ht⟩

/-- A seat that was taken stays taken. -/
theorem seats_prefix (h : SeatInv s os) (hstep : Server.step s l = some (s', o)) (k : Key) :
    s.seats k <+: s'.seats k := by
  rcases h.inv.seating hstep with ⟨-, hsame⟩ | ⟨t, c, k₀, -, hseat⟩
  · rw [(hsame k).1]
  · rw [(hseat k).1]
    split_ifs with hk
    · subst hk
      exact List.prefix_append _ _
    · exact List.prefix_refl _

theorem getElem?_seats (h : SeatInv s os) (hstep : Server.step s l = some (s', o)) {i : Nat}
    (hi : (s.seats k)[i]? = some c) : (s'.seats k)[i]? = some c := by
  obtain ⟨rest, hrest⟩ := h.seats_prefix hstep k
  rw [← hrest, List.getElem?_append_left]
  · exact hi
  · exact (List.getElem?_eq_some_iff.1 hi).1

/-- The seat a step gives. -/
theorem getElem?_seats_new (h : SeatInv s os) (hstep : Server.step s l = some (s', o))
    (hat : SeatsAt s l t c k) : (s'.seats k)[(s.seats k).length]? = some c := by
  rcases h.inv.seating hstep with ⟨hnone, -⟩ | ⟨t₀, c₀, k₀, hat₀, hseat⟩
  · exact (hnone t c k hat).elim
  · obtain ⟨-, rfl, rfl⟩ := hat.unique hat₀
    rw [(hseat k).1, if_pos rfl]
    simp

/-- The seats after a step : those there were, and the one it gives. -/
theorem getElem?_seats_cases (h : SeatInv s os) (hstep : Server.step s l = some (s', o)) {i : Nat}
    (hi : (s'.seats k)[i]? = some c) : (s.seats k)[i]? = some c ∨
      i = (s.seats k).length ∧ ∃ t, SeatsAt s l t c k := by
  rcases h.inv.seating hstep with ⟨-, hsame⟩ | ⟨t, c₀, k₀, hat, hseat⟩
  · exact Or.inl (by rwa [(hsame k).1] at hi)
  · rw [(hseat k).1] at hi
    split_ifs at hi with hk
    · subst hk
      rw [List.getElem?_append] at hi
      split_ifs at hi with hlt
      · exact Or.inl hi
      · rw [List.getElem?_singleton] at hi
        split_ifs at hi with h0
        obtain rfl := Option.some.inj hi
        exact Or.inr ⟨by omega, t, hat⟩
    · exact Or.inl hi

/-- A message to a seat goes to the player in that seat. -/
theorem seat_sends (h : SeatInv s os) (hstep : Server.step s l = some (s', o)) {i : Nat}
    {p : Socket} {m : ServerMessage} (hmem : (t, Sent.seat k i p m) ∈ o) :
    (s'.seats k)[i]? = some p := by
  have hseat : ∀ {k₀ : Key} {players : List Socket} {sends : List Sent} {room : Room} {t₀ : Nat},
      ToSeats k₀ players sends → (t, Sent.seat k i p m) ∈ sends.map (t₀, ·) →
      s'.rooms k₀ = some room → room.players = players → (s'.seats k)[i]? = some p := by
    intro k₀ players sends room t₀ hto he hroom hplayers
    obtain ⟨e, he, heq⟩ := List.mem_map.1 he
    obtain ⟨-, rfl⟩ := Prod.mk.inj heq
    obtain ⟨i', p', m', hp, heq⟩ := hto _ he
    cases heq
    simp only [State.seats, hroom, hplayers, hp]
  cases h.inv.cases hstep with
  | accept | exit => simp at hmem
  | handle here message handled =>
    obtain ⟨e, he, heq⟩ := List.mem_map.1 hmem
    obtain ⟨-, rfl⟩ := Prod.mk.inj heq
    cases handled with
    | second request room found q single =>
      simp only [List.mem_cons, reduceCtorEq, Sent.seat.injEq, List.not_mem_nil, or_false,
        false_or] at he
      rcases he with ⟨rfl, rfl, rfl, -⟩ | ⟨rfl, rfl, rfl, -⟩ <;>
        simp [State.seats, State.resume, single]
    | _ => simp at he
  | start here found turn =>
    exact hseat ((ToSeats.broadcast _ _ .START).append (.turnMessages turn)) hmem found rfl
  | turn here found _ turn => exact hseat (.turnMessages turn) hmem Rooms.assign_self rfl
  | finish here found => exact hseat (.broadcast _ _ _) hmem Rooms.assign_self rfl

end SeatInv

/-! ## Seats of open connections -/

/-- Every seat is held by the open connection that took it. -/
def SeatsLive (s : State) (os : List Event) : Prop :=
  ∀ (k : Key) (i : Nat) (c : Socket), (s.seats k)[i]? = some c →
    ∃ t, (seatedBy k os)[i]? = some (t, c) ∧ s.Open t c

/-- No handler leaves whose socket has a seat. -/
def LeavesUnseated (s : State) (l : Label) : Prop :=
  ∀ t c, Leaves s l t c → ∀ k, c ∉ s.seats k

namespace SeatInv

variable {s s' : State} {l : Label} {o os : List Event} {t : Nat} {c : Socket} {k : Key}

theorem seatsLive_iff_mem (h : SeatInv s os) :
    SeatsLive s os ↔ ∀ k t c, (t, c) ∈ seatedBy k os → s.Open t c := by
  constructor
  · intro hlive k t c hmem
    obtain ⟨i, hi⟩ := List.mem_iff_getElem?.1 hmem
    have hseat : (s.seats k)[i]? = some c := by
      rw [← h.log k, List.getElem?_map, hi]
      rfl
    obtain ⟨t', ht', hopen⟩ := hlive k i c hseat
    rw [hi] at ht'
    obtain ⟨rfl, -⟩ := Prod.mk.inj (Option.some.inj ht')
    exact hopen
  · intro hmem k i c hi
    obtain ⟨t, ht⟩ := h.exists_seatedBy hi
    exact ⟨t, ht, hmem k t c (List.mem_iff_getElem?.2 ⟨i, ht⟩)⟩

theorem mem_seats (h : SeatInv s os) (hmem : (t, c) ∈ seatedBy k os) : c ∈ s.seats k := by
  rw [← h.log k]
  exact List.mem_map.2 ⟨_, hmem, rfl⟩

theorem exists_mem_seatedBy (h : SeatInv s os) (hmem : c ∈ s.seats k) :
    ∃ t, (t, c) ∈ seatedBy k os := by
  rw [← h.log k] at hmem
  obtain ⟨⟨t, c'⟩, ht, rfl⟩ := List.mem_map.1 hmem
  exact ⟨t, ht⟩

/-- A step keeps the seats with their connections exactly if no seated client leaves in it. -/
theorem seatsLive_step (h : SeatInv s os) (hstep : Server.step s l = some (s', o)) :
    SeatsLive s' (os ++ o) ↔ SeatsLive s os ∧ LeavesUnseated s l := by
  rw [h.seatsLive_iff_mem, (h.step hstep).seatsLive_iff_mem]
  constructor
  · intro hlive
    have hback : ∀ k t c, (t, c) ∈ seatedBy k os → s.Open t c ∧ ¬Leaves s l t c := by
      intro k t c hmem
      have hopen := hlive k t c (by simp [hmem])
      rcases (h.inv.open_step hstep).1 hopen with hold | ⟨-, rfl⟩
      · exact hold
      · obtain ⟨hd, ht, -⟩ := h.sockets k _ c hmem
        simp at ht
    refine ⟨fun k t c hmem => (hback k t c hmem).1, fun t c hleave k hseat => ?_⟩
    obtain ⟨t', hmem⟩ := h.exists_mem_seatedBy hseat
    obtain ⟨hopen, hstay⟩ := hback k t' c hmem
    have hleaver : s.Open t c := ⟨_, hleave.1, rfl, by simp⟩
    obtain rfl := h.openUnique t t' c hleaver hopen
    exact hstay hleave
  · rintro ⟨hlive, hleave⟩ k t c hmem
    rw [seatedBy_append] at hmem
    rw [h.inv.open_step hstep]
    rcases List.mem_append.1 hmem with hmem | hmem
    · exact Or.inl ⟨hlive k t c hmem, fun hl => hleave t c hl k (h.mem_seats hmem)⟩
    · rcases h.inv.seating hstep with ⟨-, hsame⟩ | ⟨t₀, c₀, k₀, hat, hseat⟩
      · simp [(hsame k).2] at hmem
      · rw [(hseat k).2] at hmem
        split_ifs at hmem with hk
        · obtain ⟨rfl, rfl⟩ := Prod.mk.inj (List.mem_singleton.1 hmem)
          obtain ⟨chunk, beyond, rfl, here, hacc⟩ := hat
          refine Or.inl ⟨⟨_, here, rfl, by simp⟩, ?_⟩
          rintro ⟨-, hl | ⟨chunk', beyond', hl, hm⟩⟩
          · cases hl
          · cases hl
            exact not_accepted_of_throws hm hacc
        · simp at hmem

end SeatInv

/-- In every run, the seats are held by the open connections that took them exactly if no
handler left while its socket had a seat. As long as none does, every message to a seat
goes to the connection that took the seat, and it is open. -/
theorem seatsLive_iff {ls : List Label} {os : List Event} {s : State}
    (h : machine.Run State.init ls os s) :
    (SeatsLive s os ↔ machine.StepsMeet LeavesUnseated State.init ls) ∧
    ∀ l s' o, step s l = some (s', o) →
      machine.StepsMeet LeavesUnseated State.init (ls ++ [l]) →
      ∀ t k i p m, (t, Sent.seat k i p m) ∈ o →
        ∃ u, (seatedBy k (os ++ o))[i]? = some (u, p) ∧ s'.Open u p := by
  have hiff : ∀ {ls os s}, machine.Run State.init ls os s →
      (SeatsLive s os ↔ machine.StepsMeet LeavesUnseated State.init ls) := by
    intro ls os s h
    refine h.iff_meets (I := SeatInv) SeatInv.init ?_ ?_ ?_
    · simp [SeatsLive, State.seats, State.init]
    · exact fun _ _ _ _ _ hi hs => hi.step hs
    · exact fun _ _ _ _ _ hi hs => hi.seatsLive_step hs
  refine ⟨hiff h, fun l s' o hstep hmeets t k i p m hmem => ?_⟩
  have hlive := (hiff (h.snoc hstep)).2 hmeets
  exact hlive k i p ((SeatInv.run h).seat_sends hstep hmem)

/-- In the duel nobody leaves, so both seats are held by the clients that took them. -/
theorem seatsLive_duel : SeatsLive (machine.final State.init duel isSome_duel)
    (machine.outputs State.init duel isSome_duel) := by
  refine (seatsLive_iff (Machine.run_final isSome_duel)).1.2 ?_
  refine Machine.stepsMeet_of_forall fun l hl s t c hleave => ?_
  obtain ⟨-, rfl | ⟨chunk, beyond, rfl, hm⟩⟩ := hleave
  · simp [duel] at hl
  · have hnot : ∀ l ∈ duel, ∀ t chunk beyond, l = .recv t chunk beyond →
        bufferString (zeros 1024) beyond chunk ≠ CREATE ∧
          bufferString (zeros 1024) beyond chunk ≠ JOIN := by
      intro l hl t chunk beyond heq
      subst heq
      simp only [duel, List.mem_cons, reduceCtorEq, Label.recv.injEq, List.not_mem_nil, or_false,
        false_or] at hl
      rcases hl with ⟨-, rfl, rfl⟩ | ⟨-, rfl, rfl⟩ <;> decide +kernel
    obtain ⟨hc, hj⟩ := hnot _ hl _ _ _ rfl
    exact (hm.elim hc hj).elim

/-- The creator leaves, and its socket value goes to the next client. -/
def abandoned : List Label :=
  [.accept 3, .recv 0 (createRequest (ascii "ab")) [], .disconnect 0, .accept 3, .accept 4,
    .recv 2 (joinRequest (ascii "ab")) []]

theorem isSome_abandoned : (machine.exec State.init abandoned).isSome := by
  decide +kernel

/-- The joiner's handler sends `COUNTDOWN` to a client that took no seat. -/
theorem not_seatsLive_abandoned :
    (2, Sent.seat (ascii "ab\n") 0 3 .COUNTDOWN) ∈
      machine.outputs State.init abandoned isSome_abandoned ∧
    seatedBy (ascii "ab\n") (machine.outputs State.init abandoned isSome_abandoned) =
      [(0, 3), (2, 4)] ∧
    (machine.final State.init abandoned isSome_abandoned).Open 1 3 ∧
    ¬∀ ls os s, machine.Run State.init ls os s → SeatsLive s os := by
  have hseated : seatedBy (ascii "ab\n")
      (machine.outputs State.init abandoned isSome_abandoned) = [(0, 3), (2, 4)] := by
    decide +kernel
  refine ⟨by decide +kernel, hseated, ⟨⟨3, .recv⟩, by decide +kernel, rfl, by simp⟩, fun hall => ?_⟩
  have hlive := hall _ _ _ (Machine.run_final isSome_abandoned)
  obtain ⟨t, ht, hd, hhd, -, hopen⟩ := hlive (ascii "ab\n") 0 3 (by decide +kernel)
  have ht0 : t = 0 := by
    rw [hseated] at ht
    simpa [eq_comm] using ht
  have hexited : (machine.final State.init abandoned isSome_abandoned).handlers[0]? =
      some ⟨3, .exited⟩ := by
    decide +kernel
  rw [ht0, hexited, Option.some.injEq] at hhd
  subst hhd
  exact hopen rfl

/-! ## One seat for each client -/

/-- No socket has two seats. -/
def SeatsDistinct (s : State) : Prop :=
  ∀ (k k' : Key) (i j : Nat) (c : Socket), (s.seats k)[i]? = some c →
    (s.seats k')[j]? = some c → k = k' ∧ i = j

/-- The message is not accepted from a client that has a seat. -/
def SeatsNewcomer (s : State) (l : Label) : Prop :=
  ∀ t c k, SeatsAt s l t c k → ∀ k', c ∉ s.seats k'

/-- A step keeps the seats distinct exactly if it seats no client that has a seat. -/
theorem SeatInv.seatsDistinct_step {s s' : State} {l : Label} {o os : List Event}
    (h : SeatInv s os) (hstep : Server.step s l = some (s', o)) :
    SeatsDistinct s' ↔ SeatsDistinct s ∧ SeatsNewcomer s l := by
  constructor
  · intro hdistinct
    refine ⟨fun k k' i j c hi hj => ?_, fun t c k hat k' hmem => ?_⟩
    · exact hdistinct k k' i j c (h.getElem?_seats hstep hi) (h.getElem?_seats hstep hj)
    · obtain ⟨j, hj⟩ := List.mem_iff_getElem?.1 hmem
      have hlt : j < (s.seats k').length := (List.getElem?_eq_some_iff.1 hj).1
      obtain ⟨rfl, hij⟩ := hdistinct k k' _ j c (h.getElem?_seats_new hstep hat)
        (h.getElem?_seats hstep hj)
      omega
  · rintro ⟨hdistinct, hnew⟩ k k' i j c hi hj
    rcases h.getElem?_seats_cases hstep hi with hi | ⟨hi, t, hat⟩ <;>
      rcases h.getElem?_seats_cases hstep hj with hj | ⟨hj, t', hat'⟩
    · exact hdistinct k k' i j c hi hj
    · exact (hnew t' c k' hat' k (List.mem_iff_getElem?.2 ⟨i, hi⟩)).elim
    · exact (hnew t c k hat k' (List.mem_iff_getElem?.2 ⟨j, hj⟩)).elim
    · obtain ⟨-, -, rfl⟩ := hat.unique hat'
      exact ⟨rfl, by omega⟩

/-- In every run, no socket has two seats exactly if no message was accepted from a client
that had a seat. -/
theorem seatsDistinct_iff {ls : List Label} {os : List Event} {s : State}
    (h : machine.Run State.init ls os s) :
    SeatsDistinct s ↔ machine.StepsMeet SeatsNewcomer State.init ls := by
  refine h.iff_meets (I := SeatInv) (P := fun s _ => SeatsDistinct s) SeatInv.init ?_ ?_ ?_
  · simp [SeatsDistinct, State.seats, State.init]
  · exact fun _ _ _ _ _ hi hs => hi.step hs
  · exact fun _ _ _ _ _ hi hs => hi.seatsDistinct_step hs

/-- The two seats of the duel. -/
theorem seatsDistinct_duel : SeatsDistinct (machine.final State.init duel isSome_duel) ↔
    machine.StepsMeet SeatsNewcomer State.init duel :=
  seatsDistinct_iff (Machine.run_final isSome_duel)

/-- A client creates a room and joins it. -/
def solitaire : List Label :=
  [.accept 3, .recv 0 (createRequest (ascii "ab")) [], .recv 0 (joinRequest (ascii "ab")) []]

theorem isSome_solitaire : (machine.exec State.init solitaire).isSome := by
  decide +kernel

/-- Both seats of its room are its own. -/
theorem not_seatsDistinct_solitaire :
    (machine.final State.init solitaire isSome_solitaire).seats (ascii "ab\n") = [3, 3] ∧
    ¬∀ ls os s, machine.Run State.init ls os s → SeatsDistinct s := by
  have hseats : (machine.final State.init solitaire isSome_solitaire).seats (ascii "ab\n") =
      [3, 3] := by
    decide +kernel
  refine ⟨hseats, fun hall => ?_⟩
  have hdistinct := hall _ _ _ (Machine.run_final isSome_solitaire)
  have hij := hdistinct (ascii "ab\n") (ascii "ab\n") 0 1 3 (by rw [hseats]; rfl)
    (by rw [hseats]; rfl)
  exact absurd hij.2 (by decide)

end Server

end DesperateStruggle
