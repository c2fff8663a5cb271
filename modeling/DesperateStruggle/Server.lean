import DesperateStruggle.Handler
import DesperateStruggle.Machine

/-!
# The server

`main` accepts connections and starts a detached `handleClient` for each
(`server.cpp:146-156`). A `State` is the shared table and the handlers in the order of
their connections, so a handler's index is its connection. A handler that has returned
stays in the list as `exited`.

One step is one handler from a wait to its next wait : a received chunk (`recv`), a `recv`
that reports the end of the connection or an error (`disconnect`), the end of a sleep
(`wake`), or a new connection (`accept`). The operating system may give a new connection
the socket value of a closed one, but not that of an open one.

A chunk holds 1 to 1024 bytes. `beyond` is the memory behind the buffer, which
`string message(buffer)` reads when the chunk fills the buffer without a NUL.

An `Event` is a send with the handler that made it.
-/

open CString

namespace DesperateStruggle

namespace Server

/-- A thread of `handleClient`. -/
structure Handler where
  clientSocket : Socket
  control : Control
deriving DecidableEq, Repr

/-- The shared table and the handlers. -/
structure State where
  rooms : Rooms
  handlers : List Handler

/-- A send and the handler that made it. -/
abbrev Event := Nat × Sent

/-- Who moves, and what the network brings. -/
inductive Label
  | accept (clientSocket : Socket)
  | recv (t : Nat) (chunk beyond : List Byte)
  | disconnect (t : Nat)
  | wake (t : Nat)
deriving DecidableEq, Repr

namespace State

/-- No room and no connection. -/
def init : State where
  rooms := fun _ => none
  handlers := []

/-- Some handler that has not returned has the socket. -/
def IsOpen (s : State) (c : Socket) : Prop :=
  ∃ h ∈ s.handlers, h.clientSocket = c ∧ h.control ≠ .exited

instance (s : State) (c : Socket) : Decidable (s.IsOpen c) :=
  inferInstanceAs (Decidable (∃ h ∈ s.handlers, _))

/-- A new handler, in its first `recv`. -/
def accept (s : State) (c : Socket) : State :=
  { s with handlers := s.handlers ++ [⟨c, .recv⟩] }

/-- Handler `t` waits somewhere else. -/
def setControl (s : State) (t : Nat) (control : Control) : State :=
  { s with handlers := s.handlers.modify t fun h => { h with control } }

/-- The table and the wait of handler `t` after it ran, and its sends. -/
def resume (s : State) (t : Nat) (res : Rooms × List Sent × Control) : State × List Event :=
  ({ s.setControl t res.2.2 with rooms := res.1 }, res.2.1.map (t, ·))

end State

/-- One step of the server. -/
def step (s : State) : Label → Option (State × List Event)
  | .accept c => if s.IsOpen c then none else some (s.accept c, [])
  | .recv t chunk beyond =>
    match s.handlers[t]? with
    | some ⟨c, .recv⟩ =>
      if 1 ≤ chunk.length ∧ chunk.length ≤ 1024 then
        match handleMessage s.rooms c (bufferString (zeros 1024) beyond chunk) with
        | .ok res => some (s.resume t res)
        | .error _ => some (s.setControl t .exited, [])
      else none
    | _ => none
  | .disconnect t =>
    match s.handlers[t]? with
    | some ⟨_, .recv⟩ => some (s.setControl t .exited, [])
    | _ => none
  | .wake t =>
    match s.handlers[t]? with
    | some ⟨_, .countdown password⟩ => (startGame s.rooms password).map (s.resume t)
    | some ⟨_, .game password⟩ => (nextTurn s.rooms password).map (s.resume t)
    | _ => none

/-- The server as a machine. -/
def machine : Machine State Label Event :=
  ⟨step⟩

@[simp] theorem machine_step : machine.step = step :=
  rfl

/-- A connection is new where no open one has its socket. -/
theorem step_accept_eq_some {s s' : State} {c : Socket} {o : List Event} :
    step s (.accept c) = some (s', o) ↔ ¬s.IsOpen c ∧ s' = s.accept c ∧ o = [] := by
  simp only [step]
  split_ifs with hopen <;> simp [hopen, eq_comm]

/-- A chunk is no longer than the buffer. -/
theorem length_le_of_recv {s s' : State} {t : Nat} {chunk beyond : List Byte} {o : List Event}
    (h : step s (.recv t chunk beyond) = some (s', o)) : chunk.length ≤ 1024 := by
  simp only [step] at h
  split at h
  · split_ifs at h with hlen
    exact hlen.2
  · cases h

/-! ## Handlers -/

namespace State

variable (s : State) {t t' : Nat} {c c' : Socket} {h : Handler} {control : Control}

@[simp] theorem rooms_accept : (s.accept c).rooms = s.rooms := rfl
@[simp] theorem rooms_setControl : (s.setControl t control).rooms = s.rooms := rfl

@[simp] theorem rooms_resume (res : Rooms × List Sent × Control) :
    (s.resume t res).1.rooms = res.1 := rfl

@[simp] theorem handlers_resume (res : Rooms × List Sent × Control) :
    (s.resume t res).1.handlers = (s.setControl t res.2.2).handlers := rfl

/-- The handlers after a new connection. -/
theorem getElem?_accept : (s.accept c).handlers[t]? = some h ↔
    s.handlers[t]? = some h ∨ t = s.handlers.length ∧ h = ⟨c, .recv⟩ := by
  rw [accept, List.getElem?_append]
  split_ifs with ht
  · simp [Nat.ne_of_lt ht]
  · rw [List.getElem?_eq_none (Nat.not_lt.1 ht)]
    by_cases h0 : t = s.handlers.length
    · simp [h0, eq_comm]
    · rw [List.getElem?_eq_none (by simp; omega)]
      simp [h0]

/-- The handlers after handler `t` has moved. -/
theorem getElem?_setControl : (s.setControl t control).handlers[t']? =
    if t = t' then (s.handlers[t']?).map fun h => { h with control } else s.handlers[t']? := by
  rw [setControl, List.getElem?_modify]
  split_ifs <;> simp

theorem getElem?_setControl_self (ht : s.handlers[t]? = some h) :
    (s.setControl t control).handlers[t]? = some { h with control } := by
  simp [getElem?_setControl, ht]

theorem getElem?_setControl_of_ne (hne : t' ≠ t) :
    (s.setControl t control).handlers[t']? = s.handlers[t']? := by
  simp [getElem?_setControl, hne.symm]

/-- No step changes the socket of a handler. -/
theorem clientSocket_setControl (ht : (s.setControl t control).handlers[t']? = some h) :
    ∃ h', s.handlers[t']? = some h' ∧ h'.clientSocket = h.clientSocket ∧
      (t' ≠ t → h' = h) := by
  rw [getElem?_setControl] at ht
  split_ifs at ht with heq
  · obtain ⟨h', hh', rfl⟩ := Option.map_eq_some_iff.1 ht
    exact ⟨h', hh', rfl, fun hne => (hne heq.symm).elim⟩
  · exact ⟨h, ht, rfl, fun _ => rfl⟩

/-- Handler `t` runs the countdown or the game loop of room `k`. -/
def Plays (t : Nat) (k : Key) : Prop :=
  ∃ h, s.handlers[t]? = some h ∧ h.control.Plays k

theorem plays_accept {k : Key} : (s.accept c).Plays t k ↔ s.Plays t k := by
  constructor
  · rintro ⟨h, hh, hk⟩
    rcases s.getElem?_accept.1 hh with hh | ⟨-, rfl⟩
    · exact ⟨h, hh, hk⟩
    · simp [Control.Plays] at hk
  · rintro ⟨h, hh, hk⟩
    exact ⟨h, s.getElem?_accept.2 (Or.inl hh), hk⟩

theorem plays_setControl_of_ne {k : Key} (hne : t' ≠ t) :
    (s.setControl t control).Plays t' k ↔ s.Plays t' k := by
  simp [Plays, s.getElem?_setControl_of_ne hne]

theorem plays_setControl_self {k : Key} (ht : s.handlers[t]? = some h) :
    (s.setControl t control).Plays t k ↔ control.Plays k := by
  simp [Plays, s.getElem?_setControl_self ht]

@[simp] theorem plays_resume {k : Key} (res : Rooms × List Sent × Control) :
    (s.resume t res).1.Plays t' k ↔ (s.setControl t res.2.2).Plays t' k :=
  Iff.rfl

end State

end Server

end DesperateStruggle
