import DesperateStruggle.Server

/-!
# The handlers access by access

The handlers run on threads of their own and share `rooms` without a lock. Here one step is
one access to `rooms` : the `find` of a `CREATE`, its assignment, the `find` and the
`size() < 2` of a `JOIN`, its `push_back`, and so on. `Pc` is the access a thread makes next,
`access` is what it does. A send stands with the access before it.

Between two accesses of one thread any other thread may make any number of its own.
-/

open CString

namespace DesperateStruggle

namespace Threads

/-- Where a thread stands : in `recv`, before an access to `rooms`, or at its end. -/
inductive Pc
  | recv
  /-- `rooms.find(password) == rooms.end()` of a `CREATE`. -/
  | createFind (password : Key)
  /-- `rooms[password] = { password, {clientSocket} }`. -/
  | createAssign (password : Key)
  /-- `rooms.find(password) != rooms.end()` of a `JOIN`. -/
  | joinFind (password : Key)
  /-- `rooms[password].players.size() < 2`. -/
  | joinSize (password : Key)
  /-- `rooms[password].players.push_back(clientSocket)`. -/
  | joinPush (password : Key)
  /-- `rooms[password].players.size() == 2`. -/
  | joinFull (password : Key)
  /-- The loop that sends `COUNTDOWN`. -/
  | sendCountdown (password : Key)
  /-- The loop that sends `START`, after a sleep. -/
  | sendStart (password : Key)
  /-- The head of the game loop. -/
  | sendTurn (password : Key)
  /-- `room.turn = 1 - room.turn`, after a sleep. -/
  | passTurn (password : Key)
  /-- The test of `playerLives`. -/
  | checkLives (password : Key)
  /-- The loop that sends the result. -/
  | sendResult (password : Key)
  | exited
deriving DecidableEq, Repr

/-- A thread of `handleClient`. -/
structure Thread where
  clientSocket : Socket
  pc : Pc
deriving DecidableEq, Repr

/-- The shared table and the threads. -/
structure State where
  rooms : Rooms
  threads : List Thread

/-- Who moves : `run` is the next access of a thread. -/
inductive Label
  | accept (clientSocket : Socket)
  | recv (t : Nat) (chunk beyond : List Byte)
  | disconnect (t : Nat)
  | run (t : Nat)
deriving DecidableEq, Repr

/-- What a thread does first on a message, up to its first access. -/
def dispatch (message : List Byte) : Pc :=
  if startsWith message CREATE then
    match substr message 7 4 with
    | .ok password => .createFind password
    | .error _ => .exited
  else if startsWith message JOIN then
    match substr message 5 4 with
    | .ok password => .joinFind password
    | .error _ => .exited
  else .recv

/-- One access and the sends up to the next one. It has no outcome where the source would
index `players` out of range. -/
def access (rooms : Rooms) (clientSocket : Socket) : Pc → Option (Rooms × List Sent × Pc)
  | .recv | .exited => none
  | .createFind password =>
    if rooms.contains password then
      some (rooms, [.reply password clientSocket .EXIST], .recv)
    else some (rooms, [], .createAssign password)
  | .createAssign password =>
    some (rooms.assign password { password, players := [clientSocket] },
      [.reply password clientSocket .WAIT], .recv)
  | .joinFind password =>
    if rooms.contains password then some (rooms, [], .joinSize password)
    else some (rooms, [.reply password clientSocket .FULL], .recv)
  | .joinSize password =>
    if (rooms.subscript password).players.length < 2 then
      some (rooms.touch password, [], .joinPush password)
    else some (rooms.touch password, [.reply password clientSocket .FULL], .recv)
  | .joinPush password =>
    some (rooms.modify password fun room => room.pushBack clientSocket,
      [.reply password clientSocket .WAIT], .joinFull password)
  | .joinFull password =>
    if (rooms.subscript password).players.length = 2 then
      some (rooms.touch password, [], .sendCountdown password)
    else some (rooms.touch password, [], .recv)
  | .sendCountdown password =>
    some (rooms.touch password,
      broadcast password (rooms.subscript password).players .COUNTDOWN, .sendStart password)
  | .sendStart password =>
    some (rooms.touch password,
      broadcast password (rooms.subscript password).players .START, .sendTurn password)
  | .sendTurn password =>
    (turnMessages password (rooms.subscript password)).map fun sends =>
      (rooms.touch password, sends, .passTurn password)
  | .passTurn password => some (rooms.modify password Room.passTurn, [], .checkLives password)
  | .checkLives password =>
    if (rooms.subscript password).isOver then
      some (rooms.touch password, [], .sendResult password)
    else some (rooms.touch password, [], .sendTurn password)
  | .sendResult password =>
    some (rooms.touch password, broadcast password (rooms.subscript password).players
      (rooms.subscript password).result, .recv)

namespace State

/-- No room and no connection. -/
def init : State where
  rooms := fun _ => none
  threads := []

/-- Some thread that has not returned has the socket. -/
def IsOpen (s : State) (c : Socket) : Prop :=
  ∃ h ∈ s.threads, h.clientSocket = c ∧ h.pc ≠ .exited

instance (s : State) (c : Socket) : Decidable (s.IsOpen c) :=
  inferInstanceAs (Decidable (∃ h ∈ s.threads, _))

/-- A new thread, in its first `recv`. -/
def accept (s : State) (c : Socket) : State :=
  { s with threads := s.threads ++ [⟨c, .recv⟩] }

/-- Thread `t` stands somewhere else. -/
def setPc (s : State) (t : Nat) (pc : Pc) : State :=
  { s with threads := s.threads.modify t fun h => { h with pc } }

/-- The table and the place of thread `t` after it moved, and its sends. -/
def resume (s : State) (t : Nat) (res : Rooms × List Sent × Pc) : State × List Server.Event :=
  ({ s.setPc t res.2.2 with rooms := res.1 }, res.2.1.map (t, ·))

end State

/-- One step of the threads. -/
def step (s : State) : Label → Option (State × List Server.Event)
  | .accept c => if s.IsOpen c then none else some (s.accept c, [])
  | .recv t chunk beyond =>
    match s.threads[t]? with
    | some ⟨_, .recv⟩ =>
      if 1 ≤ chunk.length ∧ chunk.length ≤ 1024 then
        some (s.setPc t (dispatch (bufferString (zeros 1024) beyond chunk)), [])
      else none
    | _ => none
  | .disconnect t =>
    match s.threads[t]? with
    | some ⟨_, .recv⟩ => some (s.setPc t .exited, [])
    | _ => none
  | .run t =>
    match s.threads[t]? with
    | some ⟨c, pc⟩ => (access s.rooms c pc).map (s.resume t)
    | none => none

/-- The threads as a machine. -/
def machine : Machine State Label Server.Event :=
  ⟨step⟩

/-! ## Threads -/

namespace State

variable (s : State) {t t' : Nat} {c : Socket} {h : Thread} {pc pc' : Pc}

/-- The threads after a new connection. -/
theorem getElem?_accept (ht : (s.accept c).threads[t]? = some h) :
    s.threads[t]? = some h ∨ t = s.threads.length ∧ h = ⟨c, .recv⟩ := by
  rw [accept, List.getElem?_append] at ht
  split_ifs at ht with hlt
  · exact Or.inl ht
  · rw [List.getElem?_singleton] at ht
    split_ifs at ht with h0
    exact Or.inr ⟨by omega, (Option.some.inj ht).symm⟩

/-- The threads after thread `t` has moved. -/
theorem getElem?_setPc (ht : (s.setPc t pc).threads[t']? = some h) :
    (t' = t ∧ ∃ c pc₀, s.threads[t]? = some ⟨c, pc₀⟩ ∧ h = ⟨c, pc⟩) ∨
      t' ≠ t ∧ s.threads[t']? = some h := by
  rw [setPc, List.getElem?_modify] at ht
  by_cases heq : t = t'
  · subst heq
    simp only [if_true] at ht
    obtain ⟨⟨c, pc₀⟩, hh, rfl⟩ := Option.map_eq_some_iff.1 ht
    exact Or.inl ⟨rfl, c, pc₀, hh, rfl⟩
  · refine Or.inr ⟨Ne.symm heq, ?_⟩
    simpa [heq] using ht

theorem getElem?_setPc_self (ht : s.threads[t]? = some ⟨c, pc⟩) :
    (s.setPc t pc').threads[t]? = some ⟨c, pc'⟩ := by
  simp [setPc, ht]

/-- Only the last move of a thread counts. -/
theorem setPc_setPc : (s.setPc t pc).setPc t pc' = s.setPc t pc' := by
  simp [setPc, List.modify_modify_eq, Function.comp_def]

end State

end Threads

end DesperateStruggle
