import DesperateStruggle.Session

/-!
# The client process

`Process` is the client from its `WSAStartup` to its end : where `main` and the listener thread
are, around the `Client` that they share. `main` makes the socket, connects it, starts the
listener, runs the window loop, joins the listener and cleans up (`main.cpp:385-524`). Each call on
the socket is a step of its own, so the threads interleave between any two of them.

`Moves` is what a step does, and `exists_run_client` says that the client in a process is in a
session of its own.
-/

open CString

namespace DesperateStruggle

/-- A call on the client's socket, or the one that ends the use of sockets. -/
inductive NetCall
  | send (bytes : List Byte)
  | recv
  | closesocket
  | WSACleanup
deriving DecidableEq, Repr

/-- Where `main` is. -/
inductive MainAt
  /-- At `socket`. -/
  | socket
  /-- At `connect`. -/
  | connect
  /-- In the window loop. -/
  | loop
  /-- At the `recv` of the join click. -/
  | reply
  /-- In the `recv` of the join click. -/
  | replying
  /-- In `serverListener.join()`. -/
  | join
  /-- At the `closesocket` of `cleanupClient`. -/
  | closing
  /-- At the `WSACleanup` of `cleanupClient`. -/
  | cleaning
  /-- At the `WSACleanup` after a `socket` that failed. -/
  | noSocket
  | exited
deriving DecidableEq, Repr

/-- Where the listener is. -/
inductive ListenerAt
  | notStarted
  /-- At its `recv`. -/
  | poll
  /-- In its `recv`. -/
  | receiving
  /-- At the `closesocket` of `cleanupClient`. -/
  | closing
  /-- At the `WSACleanup` of `cleanupClient`. -/
  | cleaning
  /-- Returned from `cleanupClient`. -/
  | disconnected
  /-- Returned without it. -/
  | returned
deriving DecidableEq, Repr

/-- `main` has not started the listener, and will not if there is no socket. -/
def MainAt.Starting (main : MainAt) : Prop :=
  main = socket ∨ main = connect ∨ main = noSocket

/-- `main` has left the window loop, or not come to it, and cleans up. -/
def MainAt.Ending (main : MainAt) : Prop :=
  main = closing ∨ main = cleaning ∨ main = exited

/-- The listener does not run. -/
def ListenerAt.Idle (listener : ListenerAt) : Prop :=
  listener = notStarted ∨ listener = disconnected ∨ listener = returned

/-- The listener has closed the socket. -/
def ListenerAt.HasClosed (listener : ListenerAt) : Prop :=
  listener = cleaning ∨ listener = disconnected

instance (main : MainAt) : Decidable main.Starting :=
  inferInstanceAs (Decidable (_ ∨ _))

instance (main : MainAt) : Decidable main.Ending :=
  inferInstanceAs (Decidable (_ ∨ _))

instance (listener : ListenerAt) : Decidable listener.Idle :=
  inferInstanceAs (Decidable (_ ∨ _))

instance (listener : ListenerAt) : Decidable listener.HasClosed :=
  inferInstanceAs (Decidable (_ ∨ _))

/-- A listener that does not run has closed the socket if it found the connection closed. -/
theorem ListenerAt.Idle.hasClosed_iff {listener : ListenerAt} (h : listener.Idle) :
    listener.HasClosed ↔ listener = disconnected := by
  rcases h with rfl | rfl | rfl <;> decide

/-- A client after `WSAStartup`. `clientSocket` is `none` for `INVALID_SOCKET`. -/
structure Process where
  clientSocket : Option Nat := none
  client : Client := {}
  main : MainAt := .socket
  listener : ListenerAt := .notStarted
deriving DecidableEq, Repr

namespace Process

/-- Who moves, and what the system and the network bring. -/
inductive Label
  | socket (result : Option Nat)
  | connect (result : Bool)
  | event (e : Client.Event) (mousePos : Int × Int)
  /-- `main` calls `recv`. -/
  | recvReply
  /-- The `recv` of `main` returns, with a message or without. -/
  | reply (message : Option (List Byte))
  /-- `main` leaves the window loop. -/
  | leave
  /-- `serverListener.join()` returns. -/
  | join
  /-- The listener calls `recv`. -/
  | poll
  /-- The `recv` of the listener returns, with a message or without. -/
  | receive (message : Option (List Byte))
  | cleanupMain
  | cleanupListener
deriving DecidableEq, Repr

/-- `if (clientSocket != INVALID_SOCKET)`. -/
def guard {α : Type} (s : Process) (valid invalid : α) : α :=
  if s.clientSocket.isSome then valid else invalid

/-- What `main` does in a step. -/
def stepMain (s : Process) : Label → Option (Process × List NetCall)
  | .socket (some c) =>
    if s.main = .socket then some ({ s with clientSocket := some c, main := .connect }, [])
    else none
  | .socket none => if s.main = .socket then some ({ s with main := .noSocket }, []) else none
  | .connect true =>
    if s.main = .connect then some ({ s with main := .loop, listener := .poll }, []) else none
  | .connect false =>
    if s.main = .connect then some ({ s with main := s.guard .closing .exited }, []) else none
  | .event e mousePos =>
    if s.main = .loop then
      match Client.step s.client (.event e mousePos) with
      | some (client, requests) =>
        some ({ s with client, main := if client.joining then .reply else .loop },
          requests.map .send)
      | none => none
    else none
  | .recvReply => if s.main = .reply then some ({ s with main := .replying }, [.recv]) else none
  | .reply message =>
    if s.main = .replying then
      match Client.step s.client (message.elim .joinClosed .joinReply) with
      | some (client, _) => some ({ s with client, main := .loop }, [])
      | none => none
    else none
  | .leave =>
    if s.main = .loop ∧ s.client.windowOpen = false then some ({ s with main := .join }, [])
    else none
  | .join =>
    if s.main = .join ∧ (s.listener = .disconnected ∨ s.listener = .returned) then
      some ({ s with main := s.guard .closing .exited }, [])
    else none
  | .cleanupMain =>
    match s.main with
    | .closing => some ({ s with main := .cleaning }, [.closesocket])
    | .cleaning => some ({ s with main := .exited }, [.WSACleanup])
    | .noSocket => some ({ s with main := .exited }, [.WSACleanup])
    | _ => none
  | _ => none

/-- What the listener does in a step. -/
def stepListener (s : Process) : Label → Option (Process × List NetCall)
  | .poll => if s.listener = .poll then some ({ s with listener := .receiving }, [.recv]) else none
  | .receive (some message) =>
    if s.listener = .receiving then
      match Client.step s.client (.listen message) with
      | some (client, _) =>
        some ({ s with client, listener := if client.listening then .poll else .returned }, [])
      | none => none
    else none
  | .receive none =>
    if s.listener = .receiving then
      match Client.step s.client .listenClosed with
      | some (client, _) => some ({ s with client, listener := s.guard .closing .returned }, [])
      | none => none
    else none
  | .cleanupListener =>
    match s.listener with
    | .closing => some ({ s with listener := .cleaning }, [.closesocket])
    | .cleaning => some ({ s with listener := .disconnected }, [.WSACleanup])
    | _ => none
  | _ => none

/-- One step of the process. -/
def step (s : Process) (l : Label) : Option (Process × List NetCall) :=
  (s.stepMain l).or (s.stepListener l)

/-- A process as a machine. -/
def machine : Machine Process Label NetCall :=
  ⟨step⟩

/-! ## Where the threads go -/

/-- Where a step takes the two threads and the client, and what it calls. -/
inductive Moves (s : Process) : Label → MainAt → ListenerAt → Client → List NetCall → Prop
  | socket {result : Option Nat} {main : MainAt} (here : s.main = .socket)
      (next : main = .connect ∨ main = .noSocket) :
      Moves s (.socket result) main s.listener s.client []
  | connected (here : s.main = .connect) : Moves s (.connect true) .loop .poll s.client []
  | refused {main : MainAt} (here : s.main = .connect) (next : main = .closing ∨ main = .exited) :
      Moves s (.connect false) main s.listener s.client []
  | event {e : Client.Event} {mousePos : Int × Int} {main : MainAt} {client : Client}
      {requests : List (List Byte)} (here : s.main = .loop)
      (next : main = .loop ∨ main = .reply)
      (step : Client.step s.client (.event e mousePos) = some (client, requests)) :
      Moves s (.event e mousePos) main s.listener client (requests.map .send)
  | recvReply (here : s.main = .reply) : Moves s .recvReply .replying s.listener s.client [.recv]
  | reply {message : Option (List Byte)} {client : Client} (here : s.main = .replying)
      (step : Client.step s.client (message.elim .joinClosed .joinReply) = some (client, [])) :
      Moves s (.reply message) .loop s.listener client []
  | leave (here : s.main = .loop) : Moves s .leave .join s.listener s.client []
  | join {main : MainAt} (here : s.main = .join)
      (done : s.listener = .disconnected ∨ s.listener = .returned)
      (next : main = .closing ∨ main = .exited) : Moves s .join main s.listener s.client []
  | closeMain (here : s.main = .closing) :
      Moves s .cleanupMain .cleaning s.listener s.client [.closesocket]
  | cleanMain (here : s.main = .cleaning ∨ s.main = .noSocket) :
      Moves s .cleanupMain .exited s.listener s.client [.WSACleanup]
  | poll (here : s.listener = .poll) : Moves s .poll s.main .receiving s.client [.recv]
  | receive {message : Option (List Byte)} {listener : ListenerAt} {client : Client}
      (here : s.listener = .receiving)
      (next : listener = .poll ∨ listener = .returned ∨ message = none ∧ listener = .closing)
      (step : Client.step s.client (message.elim .listenClosed .listen) = some (client, [])) :
      Moves s (.receive message) s.main listener client []
  | closeListener (here : s.listener = .closing) :
      Moves s .cleanupListener s.main .cleaning s.client [.closesocket]
  | cleanListener (here : s.listener = .cleaning) :
      Moves s .cleanupListener s.main .disconnected s.client [.WSACleanup]

section

variable {s s' : Process} {l : Label} {ls : List Label} {os o : List NetCall}

theorem guard_eq_or {α : Type} (s : Process) (valid invalid : α) :
    s.guard valid invalid = valid ∨ s.guard valid invalid = invalid := by
  unfold guard
  split_ifs
  exacts [Or.inl rfl, Or.inr rfl]

/-- A window event of the process is one of the client. -/
theorem step_event {cl cl' : Client} {e : Client.Event} {mousePos : Int × Int}
    {requests : List (List Byte)} (h : Client.step cl (.event e mousePos) = some (cl', requests)) :
    (cl.handleEvent e mousePos).2 = requests := by
  simp only [Client.step] at h
  split_ifs at h
  rw [Option.some.inj h]

/-- Only a window event sends something. -/
theorem eq_nil_of_step {cl cl' : Client} {l : Client.Label} {requests : List (List Byte)}
    (h : Client.step cl l = some (cl', requests)) (hl : ∀ e mousePos, l ≠ .event e mousePos) :
    requests = [] := by
  cases Client.step_cases h with
  | event _ _ => exact absurd rfl (hl _ _)
  | _ => rfl

theorem stepMain_moves (h : s.stepMain l = some (s', o)) :
    s.Moves l s'.main s'.listener s'.client o := by
  cases l with
  | socket result =>
    cases result with
    | some c =>
      obtain ⟨here, h⟩ := Option.ite_none_right_eq_some.1 h
      cases h
      exact .socket here (Or.inl rfl)
    | none =>
      obtain ⟨here, h⟩ := Option.ite_none_right_eq_some.1 h
      cases h
      exact .socket here (Or.inr rfl)
  | connect result =>
    cases result with
    | true =>
      obtain ⟨here, h⟩ := Option.ite_none_right_eq_some.1 h
      cases h
      exact .connected here
    | false =>
      obtain ⟨here, h⟩ := Option.ite_none_right_eq_some.1 h
      cases h
      exact .refused here (s.guard_eq_or _ _)
  | event e mousePos =>
    obtain ⟨here, h⟩ := Option.ite_none_right_eq_some.1 h
    split at h
    · next client requests hclient =>
      cases h
      refine .event here ?_ hclient
      split_ifs
      exacts [Or.inr rfl, Or.inl rfl]
    · cases h
  | recvReply =>
    obtain ⟨here, h⟩ := Option.ite_none_right_eq_some.1 h
    cases h
    exact .recvReply here
  | reply message =>
    obtain ⟨here, h⟩ := Option.ite_none_right_eq_some.1 h
    split at h
    · next client requests hclient =>
      cases h
      obtain rfl := eq_nil_of_step hclient (by cases message <;> simp)
      exact .reply here hclient
    · cases h
  | leave =>
    obtain ⟨here, h⟩ := Option.ite_none_right_eq_some.1 h
    cases h
    exact .leave here.1
  | join =>
    obtain ⟨here, h⟩ := Option.ite_none_right_eq_some.1 h
    cases h
    exact .join here.1 here.2 (s.guard_eq_or _ _)
  | cleanupMain =>
    simp only [stepMain] at h
    split at h
    · next here =>
      cases h
      exact .closeMain here
    · next here =>
      cases h
      exact .cleanMain (Or.inl here)
    · next here =>
      cases h
      exact .cleanMain (Or.inr here)
    · cases h
  | _ => cases h

theorem stepListener_moves (h : s.stepListener l = some (s', o)) :
    s.Moves l s'.main s'.listener s'.client o := by
  cases l with
  | poll =>
    obtain ⟨here, h⟩ := Option.ite_none_right_eq_some.1 h
    cases h
    exact .poll here
  | receive message =>
    cases message with
    | some message =>
      obtain ⟨here, h⟩ := Option.ite_none_right_eq_some.1 h
      split at h
      · next client requests hclient =>
        cases h
        obtain rfl := eq_nil_of_step hclient (by simp)
        refine .receive here ?_ hclient
        split_ifs
        exacts [Or.inl rfl, Or.inr (Or.inl rfl)]
      · cases h
    | none =>
      obtain ⟨here, h⟩ := Option.ite_none_right_eq_some.1 h
      split at h
      · next client requests hclient =>
        cases h
        obtain rfl := eq_nil_of_step hclient (by simp)
        refine .receive here (Or.inr ?_) hclient
        exact (s.guard_eq_or _ _).symm.imp id fun h => ⟨rfl, h⟩
      · cases h
  | cleanupListener =>
    simp only [stepListener] at h
    split at h
    · next here =>
      cases h
      exact .closeListener here
    · next here =>
      cases h
      exact .cleanListener here
    · cases h
  | _ => cases h

theorem step_moves (h : s.step l = some (s', o)) :
    s.Moves l s'.main s'.listener s'.client o := by
  rcases Option.or_eq_some_iff.1 h with h | ⟨-, h⟩
  · exact stepMain_moves h
  · exact stepListener_moves h

/-! ## The client in it -/

/-- The requests among the calls. -/
def requests (os : List NetCall) : List (List Byte) :=
  os.filterMap fun
    | .send bytes => some bytes
    | _ => none

theorem requests_append (os o : List NetCall) : requests (os ++ o) = requests os ++ requests o :=
  List.filterMap_append

theorem requests_map_send (bytes : List (List Byte)) : requests (bytes.map .send) = bytes := by
  simp [requests, List.filterMap_map]

/-- A step moves the client as one of its own steps, or not at all. -/
theorem Moves.client {main : MainAt} {listener : ListenerAt} {client : Client}
    (hmoves : s.Moves l main listener client o) :
    ∃ ls', Client.machine.Run s.client ls' (requests o) client := by
  cases hmoves with
  | event _ _ step =>
    rw [requests_map_send]
    exact ⟨[.event _ _], .single step⟩
  | @reply message client _ step => exact ⟨[message.elim .joinClosed .joinReply], .single step⟩
  | @receive message listener client _ _ step =>
    exact ⟨[message.elim .listenClosed .listen], .single step⟩
  | _ => exact ⟨[], .nil⟩

/-- The client of the process is in a session, in which it has sent what the process has. -/
theorem exists_run_client (h : machine.Run {} ls os s) :
    ∃ ls', Client.machine.Run {} ls' (requests os) s.client := by
  refine h.invariant (P := fun s os => ∃ ls', Client.machine.Run {} ls' (requests os) s.client)
    ⟨[], .nil⟩ fun t os l t' o ⟨ls₁, hrun⟩ hstep => ?_
  obtain ⟨ls₂, hrun'⟩ := (step_moves hstep).client
  rw [requests_append]
  exact ⟨_, hrun.trans hrun'⟩

end

end Process

end DesperateStruggle
