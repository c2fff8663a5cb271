import DesperateStruggle.Protocol
import Mathlib.Logic.Function.Basic

/-!
# The room table

`Room` is `server.cpp:13-20` without `playerItems` and `bullets`, which no function of the
server reads. `Rooms` is `map<string, Room> rooms`. Its `operator[]` inserts a default
room under a missing key : `subscript` is the room it returns, `touch` the table it
leaves, and `modify` an update through it. Under a key that is there, none of them inserts
(`touch_of_some`, `modify_of_some`).

`vector::operator[]` does not check its index. `Room.player` gives `none` where the source
would read out of range.
-/

open CString

namespace DesperateStruggle

/-- A `SOCKET`, as `accept` returns it. -/
abbrev Socket := Nat

/-- A key of `rooms`. -/
abbrev Key := List Byte

/-- The five lives of each player in a new room. -/
def initialLives : Vector Int 2 :=
  #v[5, 5]

/-- `struct Room`. -/
structure Room where
  password : Key
  players : List Socket
  turn : Int := 0
  playerLives : Vector Int 2 := initialLives
deriving DecidableEq, Repr

namespace Room

/-- The room `operator[]` inserts. -/
instance : Inhabited Room :=
  ⟨{ password := [], players := [] }⟩

/-- `players[i]`, or `none` out of range. -/
def player (room : Room) (i : Int) : Option Socket :=
  if 0 ≤ i then room.players[i.toNat]? else none

/-- `players.push_back(s)`. -/
def pushBack (room : Room) (s : Socket) : Room :=
  { room with players := room.players ++ [s] }

/-- `room.turn = 1 - room.turn`. -/
def passTurn (room : Room) : Room :=
  { room with turn := 1 - room.turn }

/-- The test that ends the game loop. -/
def isOver (room : Room) : Bool :=
  room.playerLives[0] == 0 || room.playerLives[1] == 0

/-- The result message. -/
def result (room : Room) : ServerMessage :=
  if room.playerLives[0] = 0 then .player2Wins else .player1Wins

variable (room : Room) (s : Socket)

@[simp] theorem pushBack_password : (room.pushBack s).password = room.password := rfl
@[simp] theorem pushBack_players : (room.pushBack s).players = room.players ++ [s] := rfl
@[simp] theorem pushBack_turn : (room.pushBack s).turn = room.turn := rfl
@[simp] theorem pushBack_playerLives : (room.pushBack s).playerLives = room.playerLives := rfl
@[simp] theorem passTurn_password : room.passTurn.password = room.password := rfl
@[simp] theorem passTurn_players : room.passTurn.players = room.players := rfl
@[simp] theorem passTurn_turn : room.passTurn.turn = 1 - room.turn := rfl
@[simp] theorem passTurn_playerLives : room.passTurn.playerLives = room.playerLives := rfl

/-- In a room of two with `turn` 0 or 1, both indexings of the game loop are in range. -/
theorem exists_player {room : Room} (hlen : room.players.length = 2)
    (hturn : room.turn = 0 ∨ room.turn = 1) :
    ∃ current other, room.player room.turn = some current ∧
      room.player (1 - room.turn) = some other := by
  obtain ⟨a, b, hab⟩ := List.length_eq_two.1 hlen
  rcases hturn with h | h
  · exact ⟨a, b, by simp [player, h, hab], by simp [player, h, hab]⟩
  · exact ⟨b, a, by simp [player, h, hab], by simp [player, h, hab]⟩

end Room

/-- `map<string, Room> rooms`. -/
abbrev Rooms := Key → Option Room

namespace Rooms

/-- `rooms.find(k) != rooms.end()`. -/
def contains (rooms : Rooms) (k : Key) : Bool :=
  (rooms k).isSome

/-- The room that `rooms[k]` refers to. -/
def subscript (rooms : Rooms) (k : Key) : Room :=
  (rooms k).getD default

/-- `rooms[k] = room`. -/
def assign (rooms : Rooms) (k : Key) (room : Room) : Rooms :=
  Function.update rooms k (some room)

/-- An update of `rooms[k]` in place. -/
def modify (rooms : Rooms) (k : Key) (f : Room → Room) : Rooms :=
  rooms.assign k (f (rooms.subscript k))

/-- The table after `rooms[k]` was only read. -/
def touch (rooms : Rooms) (k : Key) : Rooms :=
  rooms.modify k id

variable {rooms : Rooms} {k k' : Key} {room : Room}

theorem contains_iff : rooms.contains k = true ↔ ∃ room, rooms k = some room := by
  simp [contains, Option.isSome_iff_exists]

theorem contains_eq_false_iff : rooms.contains k = false ↔ rooms k = none := by
  simp [contains]

@[simp] theorem subscript_of_some (h : rooms k = some room) : rooms.subscript k = room := by
  simp [subscript, h]

@[simp] theorem assign_self : rooms.assign k room k = some room := by
  simp [assign]

theorem assign_of_ne (h : k' ≠ k) : rooms.assign k room k' = rooms k' := by
  simp [assign, h]

theorem assign_apply : rooms.assign k room k' = if k' = k then some room else rooms k' := by
  simp [assign, Function.update_apply]

@[simp] theorem subscript_assign : (rooms.assign k room).subscript k = room := by
  simp [subscript]

theorem subscript_assign_of_ne (h : k' ≠ k) :
    (rooms.assign k room).subscript k' = rooms.subscript k' := by
  simp [subscript, assign_of_ne h]

theorem modify_of_some (h : rooms k = some room) (f : Room → Room) :
    rooms.modify k f = rooms.assign k (f room) := by
  rw [modify, subscript_of_some h]

/-- Reading a room that is there inserts nothing. -/
theorem touch_of_some (h : rooms k = some room) : rooms.touch k = rooms := by
  rw [touch, modify_of_some h]
  exact Function.update_eq_self_iff.2 h.symm

end Rooms

end DesperateStruggle
