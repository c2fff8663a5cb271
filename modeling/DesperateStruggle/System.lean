import DesperateStruggle.GameLoop
import DesperateStruggle.Session

/-!
# The server and its clients

`System` joins the server and any number of clients. Connection `t` has handler `t` at the
server and client `t`, with the messages under way in both directions in the order they
were sent. No `recv` reads of two messages. One of a client reads a whole message, and one of
a handler as much of a request as its buffer holds (`piece`) : a request of more than 1024 bytes
is read in several, and the handler takes each piece for a request of its own. A message of the
server goes to the connection that is open with the socket it is sent to.

A client takes steps on its window's events, in its listener and in the `recv` of its join
click. It may find its connection closed once its handler has returned. A client that has
ended takes no more steps.

`Inv` is what holds of the whole in every reachable state : the server's part is a run of
the server, `WAIT` is on its way only to a client with a seat, and no client ever learns whose
turn it is.
-/

open CString

namespace DesperateStruggle

namespace System

/-- One connection : the client and the messages under way. -/
structure Conn where
  client : Client := {}
  toServer : List (List Byte) := []
  toClient : List ServerMessage := []
deriving DecidableEq, Repr

/-- The server and the connections, by the number of their handlers. -/
structure State where
  server : Server.State
  conns : List Conn

/-- What is sent : a request of client `t`, or a send of the server. -/
inductive Event
  | request (t : Nat) (bytes : List Byte)
  | server (e : Server.Event)
deriving DecidableEq, Repr

/-- Who moves. -/
inductive Label
  | connect (clientSocket : Socket)
  | event (t : Nat) (e : Client.Event) (mousePos : Int × Int)
  | joinReply (t : Nat) (buffer beyond : List Byte)
  | joinClosed (t : Nat)
  | listen (t : Nat) (beyond : List Byte)
  | listenClosed (t : Nat)
  | serve (t : Nat) (beyond : List Byte)
  | disconnect (t : Nat)
  | wake (t : Nat)
deriving DecidableEq, Repr

/-- Nobody has connected. -/
def State.init : State where
  server := .init
  conns := []

/-- The open connection with socket `c`. -/
def owner (server : Server.State) (c : Socket) : Option Nat :=
  server.handlers.findIdx? fun h => h.clientSocket == c && h.control != .exited

/-- What the sends `o` bring to connection `t`. -/
def inbox (server : Server.State) (o : List Server.Event) (t : Nat) : List ServerMessage :=
  (o.filter fun e => owner server e.2.player = some t).map fun e => e.2.message

/-- The connections after the server has sent `o`. -/
def deliver (server : Server.State) (o : List Server.Event) (conns : List Conn) : List Conn :=
  conns.mapIdx fun t conn => { conn with toClient := conn.toClient ++ inbox server o t }

/-- A step of the server. -/
def runServer (s : State) (l : Server.Label) : Option (State × List Event) :=
  match Server.step s.server l with
  | some (server, o) => some ({ server, conns := deliver server o s.conns }, o.map .server)
  | none => none

/-- Connection `t` after its client has moved. -/
def State.setConn (s : State) (t : Nat) (conn : Conn) : State :=
  { s with conns := s.conns.set t conn }

@[simp] theorem State.server_setConn (s : State) (t : Nat) (conn : Conn) :
    (s.setConn t conn).server = s.server :=
  rfl

/-- The handler of connection `t` has returned. -/
def State.hasExited (s : State) (t : Nat) : Bool :=
  (s.server.handlers[t]?).any fun h => h.control = .exited

/-- What one `recv` of a handler reads of a message. -/
def piece (m : List Byte) : List Byte :=
  m.take 1024

/-- What is under way after it, where `toServer` follows the message. -/
def unread (m : List Byte) (toServer : List (List Byte)) : List (List Byte) :=
  if m.length ≤ 1024 then toServer else m.drop 1024 :: toServer

/-- One step of the system. -/
def step (s : State) : Label → Option (State × List Event)
  | .connect c =>
    match Server.step s.server (.accept c) with
    | some (server, _) => some ({ server, conns := s.conns ++ [{}] }, [])
    | none => none
  | .event t e mousePos =>
    match s.conns[t]? with
    | some conn =>
      if conn.client.windowOpen && !conn.client.joining then
        let (client, requests) := conn.client.handleEvent e mousePos
        some (s.setConn t { conn with client, toServer := conn.toServer ++ requests },
          requests.map (.request t))
      else none
    | none => none
  | .joinReply t buffer beyond =>
    match s.conns[t]? with
    | some ⟨client, toServer, m :: toClient⟩ =>
      if client.joining then
        let client := client.joinReply (bufferString buffer beyond m.bytes)
        some (s.setConn t { client, toServer, toClient }, [])
      else none
    | _ => none
  | .joinClosed t =>
    match s.conns[t]? with
    | some ⟨client, toServer, []⟩ =>
      if client.joining && s.hasExited t then
        some (s.setConn t { client := { client with joining := false }, toServer }, [])
      else none
    | _ => none
  | .listen t beyond =>
    match s.conns[t]? with
    | some ⟨client, toServer, m :: toClient⟩ =>
      if client.listening then
        let client := client.listen (bufferString (zeros 1024) beyond m.bytes)
        some (s.setConn t { client, toServer, toClient }, [])
      else none
    | _ => none
  | .listenClosed t =>
    match s.conns[t]? with
    | some ⟨client, toServer, []⟩ =>
      if client.listening && s.hasExited t then
        some (s.setConn t { client := { client with listening := false }, toServer }, [])
      else none
    | _ => none
  | .serve t beyond =>
    match s.conns[t]? with
    | some ⟨client, m :: toServer, toClient⟩ =>
      runServer (s.setConn t { client, toServer := unread m toServer, toClient })
        (.recv t (piece m) beyond)
    | _ => none
  | .disconnect t => runServer s (.disconnect t)
  | .wake t => runServer s (.wake t)

/-- The system as a machine. -/
def machine : Machine State Label Event :=
  ⟨step⟩

/-- The sends of the server. -/
def serverEvents (os : List Event) : List Server.Event :=
  os.filterMap fun
    | .server e => some e
    | .request .. => none

@[simp] theorem serverEvents_append (os os' : List Event) :
    serverEvents (os ++ os') = serverEvents os ++ serverEvents os' :=
  List.filterMap_append

@[simp] theorem serverEvents_server (o : List Server.Event) :
    serverEvents (o.map .server) = o := by
  simp [serverEvents, List.filterMap_map]

@[simp] theorem serverEvents_request (t : Nat) (requests : List (List Byte)) :
    serverEvents (requests.map (.request t)) = [] := by
  simp [serverEvents, List.filterMap_map]

/-! ## What a step can do -/

/-- The steps of the system from `s`. -/
inductive Step (s : State) : Label → State → List Event → Prop
  /-- A new connection. -/
  | connect {c : Socket} {server : Server.State} {o : List Server.Event}
      (accept : Server.step s.server (.accept c) = some (server, o)) :
      Step s (.connect c) { server, conns := s.conns ++ [{}] } []
  /-- A window event. -/
  | event {t : Nat} {conn : Conn} {e : Client.Event} {mousePos : Int × Int}
      (here : s.conns[t]? = some conn) (windowOpen : conn.client.windowOpen = true)
      (notJoining : conn.client.joining = false) :
      Step s (.event t e mousePos)
        (s.setConn t { conn with
          client := (conn.client.handleEvent e mousePos).1
          toServer := conn.toServer ++ (conn.client.handleEvent e mousePos).2 })
        ((conn.client.handleEvent e mousePos).2.map (.request t))
  /-- A message is read, by the join click or by the listener. -/
  | read {l : Label} {t : Nat} {conn : Conn} {m : ServerMessage} {toClient : List ServerMessage}
      {client : Client} (here : s.conns[t]? = some conn) (head : conn.toClient = m :: toClient)
      (reader : (∃ buffer beyond, l = .joinReply t buffer beyond ∧ conn.client.joining = true ∧
          client = conn.client.joinReply (bufferString buffer beyond m.bytes)) ∨
        ∃ beyond, l = .listen t beyond ∧ conn.client.listening = true ∧
          client = conn.client.listen (bufferString (zeros 1024) beyond m.bytes)) :
      Step s l (s.setConn t { conn with client, toClient }) []
  /-- A reader finds the connection closed. -/
  | closed {l : Label} {t : Nat} {conn : Conn} {client : Client}
      (here : s.conns[t]? = some conn) (empty : conn.toClient = []) (exited : s.hasExited t = true)
      (reader : l = .joinClosed t ∧ client = { conn.client with joining := false } ∨
        l = .listenClosed t ∧ client = { conn.client with listening := false }) :
      Step s l (s.setConn t { conn with client }) []
  /-- A request reaches its handler, or a piece of one. -/
  | serve {t : Nat} {conn : Conn} {m beyond : List Byte} {toServer : List (List Byte)}
      {server : Server.State} {o : List Server.Event} (here : s.conns[t]? = some conn)
      (head : conn.toServer = m :: toServer)
      (recv : Server.step s.server (.recv t (piece m) beyond) = some (server, o)) :
      Step s (.serve t beyond)
        { server
          conns := deliver server o (s.conns.set t { conn with toServer := unread m toServer }) }
        (o.map .server)
  /-- The server moves by itself. -/
  | server {l : Label} {t : Nat} {l₀ : Server.Label} {server : Server.State}
      {o : List Server.Event}
      (label : l = .disconnect t ∧ l₀ = .disconnect t ∨ l = .wake t ∧ l₀ = .wake t)
      (moves : Server.step s.server l₀ = some (server, o)) :
      Step s l { server, conns := deliver server o s.conns } (o.map .server)

theorem runServer_eq_some {s s' : State} {l : Server.Label} {o : List Event}
    (h : runServer s l = some (s', o)) : ∃ server o₀, Server.step s.server l = some (server, o₀) ∧
      s' = { server, conns := deliver server o₀ s.conns } ∧ o = o₀.map .server := by
  unfold runServer at h
  split at h
  · next server o₀ hstep =>
    simp only [Option.some.injEq, Prod.mk.injEq] at h
    exact ⟨server, o₀, hstep, h.1.symm, h.2.symm⟩
  · cases h

theorem step_cases {s s' : State} {l : Label} {o : List Event} (h : step s l = some (s', o)) :
    Step s l s' o := by
  cases l with
  | connect c =>
    simp only [step] at h
    split at h
    · next server o₀ hstep =>
      cases h
      exact .connect hstep
    · cases h
  | event t e mousePos =>
    simp only [step] at h
    split at h
    · next conn here =>
      split_ifs at h with hwaits
      cases h
      simp only [Bool.and_eq_true, Bool.not_eq_true'] at hwaits
      exact .event here hwaits.1 hwaits.2
    · cases h
  | joinReply t buffer beyond =>
    simp only [step] at h
    split at h
    · next client toServer m toClient here =>
      split_ifs at h with hjoining
      cases h
      exact .read here rfl (Or.inl ⟨buffer, beyond, rfl, hjoining, rfl⟩)
    · cases h
  | joinClosed t =>
    simp only [step] at h
    split at h
    · next client toServer here =>
      split_ifs at h with hexited
      cases h
      exact .closed here rfl (Bool.and_eq_true_iff.1 hexited).2 (Or.inl ⟨rfl, rfl⟩)
    · cases h
  | listen t beyond =>
    simp only [step] at h
    split at h
    · next client toServer m toClient here =>
      split_ifs at h with hlistening
      cases h
      exact .read here rfl (Or.inr ⟨beyond, rfl, hlistening, rfl⟩)
    · cases h
  | listenClosed t =>
    simp only [step] at h
    split at h
    · next client toServer here =>
      split_ifs at h with hexited
      cases h
      exact .closed here rfl (Bool.and_eq_true_iff.1 hexited).2 (Or.inr ⟨rfl, rfl⟩)
    · cases h
  | serve t beyond =>
    simp only [step] at h
    split at h
    · next client m toServer toClient here =>
      obtain ⟨server, o₀, hstep, rfl, rfl⟩ := runServer_eq_some h
      exact .serve here rfl hstep
    · cases h
  | disconnect t =>
    obtain ⟨server, o₀, hstep, rfl, rfl⟩ := runServer_eq_some h
    exact .server (Or.inl ⟨rfl, rfl⟩) hstep
  | wake t =>
    obtain ⟨server, o₀, hstep, rfl, rfl⟩ := runServer_eq_some h
    exact .server (Or.inr ⟨rfl, rfl⟩) hstep

/-! ## Connections -/

section

variable {m a : List Byte} {toServer : List (List Byte)}

/-- A message that fits the buffer is read whole. -/
theorem piece_of_le (h : m.length ≤ 1024) : piece m = m :=
  List.take_of_length_le h

theorem unread_of_le (h : m.length ≤ 1024) : unread m toServer = toServer :=
  if_pos h

/-- What follows a message stays under way. -/
theorem mem_unread (h : a ∈ toServer) : a ∈ unread m toServer := by
  unfold unread
  split_ifs
  · exact h
  · exact List.mem_cons_of_mem _ h

end

section

variable {s : State} {t t' : Nat} {conn conn' : Conn} {server : Server.State}
  {o : List Server.Event} {conns : List Conn}

/-- A connection after the server has sent. -/
theorem getElem?_deliver (h : (deliver server o conns)[t]? = some conn') :
    ∃ conn, conns[t]? = some conn ∧ conn'.client = conn.client ∧
      conn'.toServer = conn.toServer ∧ conn'.toClient = conn.toClient ++ inbox server o t := by
  rw [deliver, List.getElem?_mapIdx, Option.map_eq_some_iff] at h
  obtain ⟨conn, hconn, rfl⟩ := h
  exact ⟨conn, hconn, rfl, rfl, rfl⟩

/-- A connection after connection `t` was replaced. -/
theorem getElem?_set (h : (conns.set t conn)[t']? = some conn') :
    t' = t ∧ conn' = conn ∨ t' ≠ t ∧ conns[t']? = some conn' := by
  rw [List.getElem?_set] at h
  split_ifs at h with heq hlt
  · exact Or.inl ⟨heq.symm, (Option.some.inj h).symm⟩
  · exact Or.inr ⟨Ne.symm heq, h⟩

/-- A message brought to connection `t` was sent to the socket of its handler. -/
theorem mem_inbox {m : ServerMessage} (h : m ∈ inbox server o t) :
    ∃ e ∈ o, e.2.message = m ∧ ∃ hd, server.handlers[t]? = some hd ∧
      hd.clientSocket = e.2.player := by
  simp only [inbox, List.mem_map, List.mem_filter, decide_eq_true_eq] at h
  obtain ⟨e, ⟨he, howner⟩, rfl⟩ := h
  obtain ⟨hlt, hp, -⟩ := List.findIdx?_eq_some_iff_getElem.1 howner
  simp only [Bool.and_eq_true, beq_iff_eq] at hp
  exact ⟨e, he, rfl, _, List.getElem?_eq_getElem hlt, hp.1⟩

end

/-! ## The invariant -/

/-- Client `t` has a seat at the server. -/
def Seated (server : Server.State) (t : Nat) : Prop :=
  ∃ hd k, server.handlers[t]? = some hd ∧ hd.clientSocket ∈ server.seats k

/-- A seated client stays seated. -/
theorem Seated.step {server server' : Server.State} {l : Server.Label}
    {os o : List Server.Event} {t : Nat} (h : Seated server t) (hinv : Server.SeatInv server os)
    (hstep : Server.step server l = some (server', o)) : Seated server' t := by
  obtain ⟨hd, k, ht, hmem⟩ := h
  obtain ⟨hd', ht', hsocket⟩ := Server.SeatInv.keep_socket hinv.inv hstep ht
  exact ⟨hd', k, ht', (hinv.seats_prefix hstep k).subset (hsocket ▸ hmem)⟩

/-- What a window event may do to a client that sends `requests` : nobody's turn changes, and the
waiting screen comes only with a `CREATE`. -/
structure Reacts (cl cl' : Client) (requests : List (List Byte)) : Prop where
  turn : cl'.flags.isPlayerTurn = cl.flags.isPlayerTurn
  waiting : cl'.flags.isWaitingScreen = true →
    cl.flags.isWaitingScreen = true ∨ ∃ p, createRequest p ∈ requests

/-- The flags say what a window event has done. -/
theorem Reacts.of_navigates {cl cl' : Client} {joining joining' : Bool}
    {requests : List (List Byte)}
    (h : Client.Navigates cl.flags joining cl'.flags joining' requests) :
    Reacts cl cl' requests := by
  have hturn : cl'.flags.isPlayerTurn = cl.flags.isPlayerTurn := by
    generalize cl'.flags = f' at h
    cases h <;> rfl
  refine ⟨hturn, fun hwaiting => ?_⟩
  generalize cl'.flags = f' at h hwaiting
  cases h with
  | create _ p => exact Or.inr ⟨p, List.mem_singleton.2 rfl⟩
  | _ => exact Or.inl hwaiting

theorem reacts_handleEvent (cl : Client) (e : Client.Event) (mousePos : Int × Int) :
    Reacts cl (cl.handleEvent e mousePos).1 (cl.handleEvent e mousePos).2 :=
  .of_navigates (Client.navigates_handleEvent cl e mousePos)

/-- What a message may do to a client that reads it : nobody's turn changes, and the waiting screen
comes only with a `WAIT`. -/
structure Reads (cl cl' : Client) (m : ServerMessage) : Prop where
  turn : cl'.flags.isPlayerTurn = cl.flags.isPlayerTurn
  waiting : cl'.flags.isWaitingScreen = true → cl.flags.isWaitingScreen = true ∨ m = .WAIT

theorem reads_joinReply (cl : Client) (m : ServerMessage) (buffer beyond : List Byte) :
    Reads cl (cl.joinReply (bufferString buffer beyond m.bytes)) m := by
  unfold Client.joinReply
  split_ifs with hm
  · exact ⟨rfl, fun _ => Or.inr (Client.eq_wait_of_bufferString hm)⟩
  · exact ⟨rfl, Or.inl⟩

theorem reads_listen (cl : Client) (m : ServerMessage) (beyond : List Byte) :
    Reads cl (cl.listen (bufferString (zeros 1024) beyond m.bytes)) m := by
  simp only [Client.listen, Client.onMessage_bytes]
  split_ifs with hm
  · exact ⟨rfl, fun _ => Or.inr hm⟩
  · exact ⟨rfl, Or.inl⟩
  · exact ⟨rfl, Or.inl⟩

/-- The connections after a new one. -/
theorem getElem?_connect {conns : List Conn} {t : Nat} {conn : Conn}
    (h : (conns ++ [({} : Conn)])[t]? = some conn) : conns[t]? = some conn ∨ conn = {} := by
  rw [List.getElem?_append] at h
  split_ifs at h
  · exact Or.inl h
  · exact Or.inr (List.mem_singleton.1 (List.mem_of_getElem? h))

/-- What holds of the system in every reachable state. -/
structure Inv (s : State) (os : List Event) : Prop where
  game : Server.GameInv s.server (serverEvents os)
  length : s.conns.length = s.server.handlers.length
  turn : ∀ (t : Nat) (conn : Conn), s.conns[t]? = some conn → conn.client.flags.isPlayerTurn = true
  wait : ∀ (t : Nat) (conn : Conn), s.conns[t]? = some conn → .WAIT ∈ conn.toClient →
    Seated s.server t

/-- `WAIT` is sent to players only. -/
theorem seated_of_mem_inbox {server : Server.State} {os o : List Server.Event} {t : Nat}
    (h : Server.GameInv server (os ++ o)) (hmem : .WAIT ∈ inbox server o t) : Seated server t := by
  obtain ⟨⟨t', sent⟩, he, hm, hd, ht, hsocket⟩ := mem_inbox hmem
  cases sent with
  | reply k p m =>
    obtain rfl : m = .WAIT := hm
    have hseated : (t', p) ∈ Server.seatedBy k (os ++ o) :=
      List.mem_filterMap.2 ⟨_, List.mem_append_right os he, by simp⟩
    exact ⟨hd, k, ht, hsocket ▸ h.seat.mem_seats hseated⟩
  | seat k i p m =>
    obtain rfl : m = .WAIT := hm
    have htrace : (i, ServerMessage.WAIT) ∈ Server.seatTrace k (os ++ o) :=
      List.mem_filterMap.2 ⟨_, List.mem_append_right os he, by simp [Server.atSeat]⟩
    rcases h.seatTrace_cases k with hnil | ⟨n, hn⟩
    · simp [hnil] at htrace
    · rw [hn] at htrace
      cases n <;> simp [Server.gameTrace, Server.toBoth, Server.turnTrace] at htrace

namespace Inv

variable {s s' : State} {l : Label} {os o : List Event} {t : Nat} {conn : Conn}

theorem init : Inv State.init [] where
  game := .init
  length := rfl
  turn := by simp [State.init]
  wait := by simp [State.init]

/-- A step of the server, with what it brings to the connections. -/
theorem deliver {server : Server.State} {l : Server.Label} {o : List Server.Event}
    {conns : List Conn} (h : Inv s os) (hmoves : Server.step s.server l = some (server, o))
    (hold : ∀ c, l ≠ .accept c) (hlen : conns.length = s.conns.length)
    (hconns : ∀ (t : Nat) (conn : Conn), conns[t]? = some conn → ∃ conn₀, s.conns[t]? = some conn₀ ∧
      conn.client = conn₀.client ∧ conn.toClient = conn₀.toClient) :
    Inv { server, conns := System.deliver server o conns } (os ++ o.map .server) := by
  have hgame : Server.GameInv server (serverEvents os ++ o) := h.game.step hmoves
  have hback : ∀ (t : Nat) (conn : Conn), (System.deliver server o conns)[t]? = some conn →
      ∃ conn₀, s.conns[t]? = some conn₀ ∧ conn.client = conn₀.client ∧
        conn.toClient = conn₀.toClient ++ inbox server o t := by
    intro t conn ht
    obtain ⟨conn₁, ht₁, hclient, -, htoClient⟩ := getElem?_deliver ht
    obtain ⟨conn₀, ht₀, hclient₀, htoClient₀⟩ := hconns t conn₁ ht₁
    exact ⟨conn₀, ht₀, hclient.trans hclient₀, by rw [htoClient, htoClient₀]⟩
  refine ⟨by simpa using hgame, ?_, fun t conn ht => ?_, fun t conn ht hm => ?_⟩
  · rw [h.game.seat.inv.length_handlers hmoves hold, ← h.length, ← hlen]
    exact List.length_mapIdx
  · obtain ⟨conn₀, ht₀, hclient, -⟩ := hback t conn ht
    rw [hclient]
    exact h.turn t conn₀ ht₀
  · obtain ⟨conn₀, ht₀, -, htoClient⟩ := hback t conn ht
    rw [htoClient] at hm
    rcases List.mem_append.1 hm with hm | hm
    · exact (h.wait t conn₀ ht₀ hm).step h.game.seat hmoves
    · exact seated_of_mem_inbox hgame hm

/-- A step of one client. -/
theorem setConn {conn' : Conn} (h : Inv s os) (requests : List (List Byte))
    (here : s.conns[t]? = some conn)
    (hturn : conn'.client.flags.isPlayerTurn = conn.client.flags.isPlayerTurn)
    (hwait : conn'.toClient ⊆ conn.toClient) :
    Inv (s.setConn t conn') (os ++ requests.map (.request t)) := by
  refine ⟨by simpa using h.game, by simpa [State.setConn] using h.length,
    fun t' conn₁ ht' => ?_, fun t' conn₁ ht' hm => ?_⟩ <;>
    rcases getElem?_set ht' with ⟨rfl, rfl⟩ | ⟨-, ht'⟩
  · rw [hturn]
    exact h.turn _ conn here
  · exact h.turn t' conn₁ ht'
  · exact h.wait _ conn here (hwait hm)
  · exact h.wait t' conn₁ ht' hm

/-- A new connection. -/
theorem connect {c : Socket} {server : Server.State} {o : List Server.Event} (h : Inv s os)
    (accept : Server.step s.server (.accept c) = some (server, o)) :
    Inv { server, conns := s.conns ++ [{}] } os := by
  obtain ⟨-, rfl, rfl⟩ := Server.step_accept_eq_some.1 accept
  refine ⟨by simpa using h.game.step accept, by simp [Server.State.accept, h.length],
    fun t conn ht => ?_, fun t conn ht hm => ?_⟩ <;> rcases getElem?_connect ht with ht | rfl
  · exact h.turn t conn ht
  · rfl
  · exact (h.wait t conn ht hm).step h.game.seat accept
  · simp at hm

/-- Every step keeps the invariant. -/
theorem step (h : Inv s os) (hstep : System.step s l = some (s', o)) : Inv s' (os ++ o) := by
  cases step_cases hstep with
  | connect accept =>
    rw [List.append_nil]
    exact h.connect accept
  | @event t conn e mousePos here =>
    have hreacts := reacts_handleEvent conn.client e mousePos
    exact h.setConn _ here hreacts.turn (List.Subset.refl _)
  | @read l t conn m toClient client here head reader =>
    have hreads : Reads conn.client client m := by
      rcases reader with ⟨buffer, beyond, -, -, rfl⟩ | ⟨beyond, -, -, rfl⟩
      · exact reads_joinReply conn.client m buffer beyond
      · exact reads_listen conn.client m beyond
    have hsub : toClient ⊆ conn.toClient := by
      rw [head]
      exact List.subset_cons_self m toClient
    have hinv : Inv (s.setConn t { conn with client, toClient }) (os ++ List.map _ []) :=
      h.setConn [] here hreads.turn hsub
    exact hinv
  | @closed l t conn client here empty exited reader =>
    have hturn : client.flags.isPlayerTurn = conn.client.flags.isPlayerTurn := by
      rcases reader with ⟨-, rfl⟩ | ⟨-, rfl⟩ <;> rfl
    have hinv : Inv (s.setConn t { conn with client }) (os ++ List.map _ []) :=
      h.setConn [] here hturn (List.Subset.refl _)
    exact hinv
  | @serve t conn m beyond toServer server o₀ here head recv =>
    refine h.deliver recv (by simp) (List.length_set ..) fun t' conn' ht' => ?_
    rcases getElem?_set ht' with ⟨rfl, rfl⟩ | ⟨-, ht'⟩
    · exact ⟨conn, here, rfl, rfl⟩
    · exact ⟨conn', ht', rfl, rfl⟩
  | @server l t l₀ server o₀ label moves =>
    have hold : ∀ c, l₀ ≠ .accept c := by
      rcases label with ⟨-, rfl⟩ | ⟨-, rfl⟩ <;> simp
    exact h.deliver moves hold rfl fun t' conn' ht' => ⟨conn', ht', rfl, rfl⟩

theorem run {ls : List Label} (h : machine.Run State.init ls os s) : Inv s os :=
  h.invariant init fun _ _ _ _ _ hi hs => hi.step hs

end Inv

end System

end DesperateStruggle
