import DesperateStruggle.Rooms

/-!
# What `handleClient` does between two waits

`handleMessage` is the body of the receive loop (`server.cpp:39-102`) on one received
message, up to the next `recv` or `sleep_for` : the table it leaves, what it sends and
where it waits next (`Control`). `startGame` is the code from the end of the countdown to
the first sleep of the game loop, `nextTurn` the code from one sleep of the loop to the
next.

A send is recorded as `Sent` with the room it is on behalf of : a `reply` to the client
that named the room, or a message to a `seat` of it.

`Handled` lists what one message can do to the table, and `handleMessage_handled` says
these are all the cases. No proof about the server looks into `handleMessage` again.
-/

open CString

namespace DesperateStruggle

/-- A message sent by a handler. -/
inductive Sent
  | reply (password : Key) (player : Socket) (message : ServerMessage)
  | seat (password : Key) (seat : Nat) (player : Socket) (message : ServerMessage)
deriving DecidableEq, Repr

namespace Sent

/-- The socket a message goes to. -/
def player : Sent → Socket
  | reply _ player _ => player
  | seat _ _ player _ => player

/-- What is sent. -/
def message : Sent → ServerMessage
  | reply _ _ message => message
  | seat _ _ _ message => message

end Sent

/-- Where a handler waits. -/
inductive Control
  /-- In `recv`. -/
  | recv
  /-- In the ten seconds before the game of a room. -/
  | countdown (password : Key)
  /-- In the five seconds of a turn. -/
  | game (password : Key)
  /-- The handler has returned. -/
  | exited
deriving DecidableEq, Repr

/-- The handler runs the countdown or the game loop of room `k`. -/
def Control.Plays (c : Control) (k : Key) : Prop :=
  c = .countdown k ∨ c = .game k

/-! ## The code -/

/-- `for (SOCKET player : players) send(player, message)`. -/
def broadcast (password : Key) (players : List Socket) (message : ServerMessage) : List Sent :=
  players.mapIdx fun i player => .seat password i player message

/-- The `CREATE` branch. -/
def handleCreate (rooms : Rooms) (clientSocket : Socket) (password : Key) :
    Rooms × List Sent × Control :=
  if rooms.contains password then (rooms, [.reply password clientSocket .EXIST], .recv)
  else (rooms.assign password { password, players := [clientSocket] },
    [.reply password clientSocket .WAIT], .recv)

/-- The `JOIN` branch, up to the countdown. -/
def handleJoin (rooms : Rooms) (clientSocket : Socket) (password : Key) :
    Rooms × List Sent × Control :=
  if rooms.contains password && (rooms.subscript password).players.length < 2 then
    let rooms := rooms.modify password fun room => room.pushBack clientSocket
    let players := (rooms.subscript password).players
    if players.length = 2 then
      (rooms, .reply password clientSocket .WAIT :: broadcast password players .COUNTDOWN,
        .countdown password)
    else (rooms, [.reply password clientSocket .WAIT], .recv)
  else (rooms, [.reply password clientSocket .FULL], .recv)

/-- The body of the receive loop. -/
def handleMessage (rooms : Rooms) (clientSocket : Socket) (message : List Byte) :
    Except OutOfRange (Rooms × List Sent × Control) :=
  if startsWith message CREATE then
    (substr message 7 4).map (handleCreate rooms clientSocket)
  else if startsWith message JOIN then
    (substr message 5 4).map (handleJoin rooms clientSocket)
  else .ok (rooms, [], .recv)

/-- The two sends that open a turn, or `none` if one of the seats is out of range. -/
def turnMessages (password : Key) (room : Room) : Option (List Sent) :=
  match room.player room.turn, room.player (1 - room.turn) with
  | some currentPlayerSocket, some otherPlayerSocket =>
    some [.seat password room.turn.toNat currentPlayerSocket .YOUR_TURN,
      .seat password (1 - room.turn).toNat otherPlayerSocket .OPPONENT_TURN]
  | _, _ => none

/-- The game loop from its head to its sleep. -/
def takeTurn (rooms : Rooms) (password : Key) : Option (Rooms × List Sent × Control) :=
  let rooms := rooms.touch password
  (turnMessages password (rooms.subscript password)).map fun sends =>
    (rooms, sends, .game password)

/-- From the end of the countdown to the first sleep of the game loop. -/
def startGame (rooms : Rooms) (password : Key) : Option (Rooms × List Sent × Control) :=
  let rooms := rooms.touch password
  (takeTurn rooms password).map fun (rooms', sends, control) =>
    (rooms', broadcast password (rooms.subscript password).players .START ++ sends, control)

/-- From one sleep of the game loop to the next, or out of the loop. -/
def nextTurn (rooms : Rooms) (password : Key) : Option (Rooms × List Sent × Control) :=
  let rooms := rooms.modify password Room.passTurn
  let room := rooms.subscript password
  if room.isOver then some (rooms, broadcast password room.players room.result, .recv)
  else takeTurn rooms password

/-! ## Requests -/

/-- The message is a `CREATE` of room `k`. -/
def Creates (m : List Byte) (k : Key) : Prop :=
  startsWith m CREATE = true ∧ substr m 7 4 = .ok k

/-- The message is a `JOIN` of room `k`. -/
def Joins (m : List Byte) (k : Key) : Prop :=
  startsWith m JOIN = true ∧ substr m 5 4 = .ok k

theorem Creates.short {m : List Byte} {k : Key} (h : Creates m k) : k.length ≤ 4 :=
  length_le_of_substr h.2

theorem Joins.short {m : List Byte} {k : Key} (h : Joins m k) : k.length ≤ 4 :=
  length_le_of_substr h.2

theorem Creates.key_unique {m : List Byte} {k k' : Key} (h : Creates m k) (h' : Creates m k') :
    k = k' :=
  Except.ok.inj (h.2.symm.trans h'.2)

theorem Joins.key_unique {m : List Byte} {k k' : Key} (h : Joins m k) (h' : Joins m k') :
    k = k' :=
  Except.ok.inj (h.2.symm.trans h'.2)

/-- No message starts with both keywords. -/
theorem not_startsWith_both {m : List Byte} (hc : startsWith m CREATE = true) :
    startsWith m JOIN = false := by
  obtain ⟨rest, rfl⟩ := startsWith_iff.1 hc
  rfl

theorem Joins.not_startsWith_create {m : List Byte} {k : Key} (h : Joins m k) :
    startsWith m CREATE = false := by
  by_contra hc
  have hj := not_startsWith_both (Bool.eq_true_of_not_eq_false hc)
  rw [h.1] at hj
  cases hj

theorem Creates.not_joins {m : List Byte} {k k' : Key} (h : Creates m k) : ¬Joins m k' := by
  intro h'
  have hnot := h'.not_startsWith_create
  rw [h.1] at hnot
  cases hnot

/-- `substr` throws on the bare keyword only. -/
theorem substr_eq_error_iff_eq {m keyword : List Byte} (h : startsWith m keyword = true) {n : Nat}
    {e : OutOfRange} : substr m (keyword.length + 1) n = .error e ↔ m = keyword := by
  rw [substr_eq_error_iff]
  have hstart := startsWith_iff.1 h
  constructor
  · intro hlt
    exact (hstart.eq_of_length_le (by omega)).symm
  · rintro rfl
    omega

/-- A message makes the handler throw exactly if it is `CREATE` or `JOIN` and nothing else. -/
theorem handleMessage_eq_error_iff {rooms : Rooms} {c : Socket} {m : List Byte} {e : OutOfRange} :
    handleMessage rooms c m = .error e ↔ m = CREATE ∨ m = JOIN := by
  have hmap : ∀ {f : Key → Rooms × List Sent × Control} {x : Except OutOfRange Key},
      x.map f = .error e ↔ x = .error e := by
    intro f x
    cases x <;> simp [Except.map]
  unfold handleMessage
  split_ifs with hc hj
  · have hthrow : substr m 7 4 = .error e ↔ m = CREATE := substr_eq_error_iff_eq hc
    have hne : m ≠ JOIN := by
      rintro rfl
      exact absurd hc (by decide)
    rw [hmap, hthrow, or_iff_left hne]
  · have hthrow : substr m 5 4 = .error e ↔ m = JOIN := substr_eq_error_iff_eq hj
    have hne : m ≠ CREATE := by
      rintro rfl
      exact hc (by decide)
    rw [hmap, hthrow, or_iff_right hne]
  · have hne : ¬(m = CREATE ∨ m = JOIN) := by
      rintro (rfl | rfl)
      · exact hc (by decide)
      · exact hj (by decide)
    simp [hne]

/-! ## What one message can do -/

/-- The outcomes of `handleMessage` on a table, for a message `m` of the client `c`. -/
inductive Handled (rooms : Rooms) (c : Socket) (m : List Byte) :
    Rooms × List Sent × Control → Prop
  | ignored (notCreate : startsWith m CREATE = false) (notJoin : startsWith m JOIN = false) :
      Handled rooms c m (rooms, [], .recv)
  | exist {k : Key} (request : Creates m k) (room : Room) (found : rooms k = some room) :
      Handled rooms c m (rooms, [.reply k c .EXIST], .recv)
  | created {k : Key} (request : Creates m k) (absent : rooms k = none) :
      Handled rooms c m (rooms.assign k { password := k, players := [c] },
        [.reply k c .WAIT], .recv)
  | full {k : Key} (request : Joins m k)
      (none : ∀ room, rooms k = some room → 2 ≤ room.players.length) :
      Handled rooms c m (rooms, [.reply k c .FULL], .recv)
  | first {k : Key} (request : Joins m k) (room : Room) (found : rooms k = some room)
      (empty : room.players = []) :
      Handled rooms c m (rooms.assign k (room.pushBack c), [.reply k c .WAIT], .recv)
  | second {k : Key} (request : Joins m k) (room : Room) (found : rooms k = some room)
      (p : Socket) (single : room.players = [p]) :
      Handled rooms c m (rooms.assign k (room.pushBack c),
        [.reply k c .WAIT, .seat k 0 p .COUNTDOWN, .seat k 1 c .COUNTDOWN], .countdown k)

theorem handleCreate_handled (rooms : Rooms) (c : Socket) {m : List Byte} {k : Key}
    (hk : Creates m k) : Handled rooms c m (handleCreate rooms c k) := by
  unfold handleCreate
  split_ifs with h
  · obtain ⟨room, hroom⟩ := Rooms.contains_iff.1 h
    exact .exist hk room hroom
  · have habsent : rooms k = none := Rooms.contains_eq_false_iff.1 (by simpa using h)
    exact .created hk habsent

theorem handleJoin_handled (rooms : Rooms) (c : Socket) {m : List Byte} {k : Key}
    (hk : Joins m k) : Handled rooms c m (handleJoin rooms c k) := by
  unfold handleJoin
  split_ifs with h
  · obtain ⟨hc, hlt⟩ := Bool.and_eq_true_iff.1 h
    obtain ⟨room, hroom⟩ := Rooms.contains_iff.1 hc
    rw [Rooms.subscript_of_some hroom, decide_eq_true_eq] at hlt
    simp only [Rooms.modify_of_some hroom, Rooms.subscript_assign, Room.pushBack_players,
      List.length_append, List.length_singleton]
    split_ifs with hlen
    · obtain ⟨p, hp⟩ := List.length_eq_one_iff.1 (by omega : room.players.length = 1)
      have hsecond := Handled.second (c := c) hk room hroom p hp
      simpa [broadcast, hp] using hsecond
    · have hempty : room.players = [] := List.length_eq_zero_iff.1 (by omega)
      exact .first hk room hroom hempty
  · refine .full hk fun room hroom => ?_
    have hnot : ¬room.players.length < 2 := by simpa [Rooms.contains, hroom] using h
    omega

/-- The cases of `handleMessage`, an exception aside. -/
theorem handleMessage_handled {rooms : Rooms} {c : Socket} {m : List Byte}
    {res : Rooms × List Sent × Control} (h : handleMessage rooms c m = .ok res) :
    Handled rooms c m res := by
  unfold handleMessage at h
  split_ifs at h with hc hj
  · cases hk : substr m 7 4 with
    | error e => simp [hk, Except.map] at h
    | ok k =>
      simp only [hk, Except.map, Except.ok.injEq] at h
      exact h ▸ handleCreate_handled rooms c ⟨hc, hk⟩
  · cases hk : substr m 5 4 with
    | error e => simp [hk, Except.map] at h
    | ok k =>
      simp only [hk, Except.map, Except.ok.injEq] at h
      exact h ▸ handleJoin_handled rooms c ⟨hj, hk⟩
  · cases h
    exact .ignored (by simpa using hc) (by simpa using hj)

end DesperateStruggle
