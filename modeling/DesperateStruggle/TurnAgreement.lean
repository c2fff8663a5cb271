import DesperateStruggle.System

/-!
# Whose turn it is, seen by the clients

The server says whose turn it is with `YOUR_TURN` and `OPPONENT_TURN`. `listenServer` waits
for `TURN:YOU` and `TURN:RIVER`, which nobody sends, and it returns at `START`, before the
first turn. So `isPlayerTurn` keeps the value `main` gives it, which is `true` in every
client.

`InTurn` is a state in which the messages of an iteration are out and the listeners of the
two players have no more to read. The clients agree with the server in none of them
(`not_turnAgreed`), and they would not if the listeners had gone on reading.
-/

open CString

namespace DesperateStruggle

namespace System

/-! ## A turn of the game -/

/-- Connection `conn` is that of the client that took seat `i` of room `k`. -/
def AtSeat (s : State) (os : List Event) (k : Key) (i : Nat) (conn : Conn) : Prop :=
  ∃ t c, (Server.seatedBy k (serverEvents os))[i]? = some (t, c) ∧ s.conns[t]? = some conn

/-- The listener has no more to read : nothing is under way, or it has returned. -/
def Conn.Processed (conn : Conn) : Prop :=
  conn.toClient = [] ∨ conn.client.listening = false

/-- The flags after the body of `listenServer` has run on all that is under way. -/
def Conn.settled (conn : Conn) (beyond : List Byte) : Client.Flags :=
  conn.toClient.foldl
    (fun f m => (Client.onMessage f (bufferString (zeros 1024) beyond m.bytes)).1)
    conn.client.flags

/-- The server has sent the messages of iteration `n` in room `k`, `YOUR_TURN` to `current`
and `OPPONENT_TURN` to `other`, and both listeners have processed what they will read. -/
structure InTurn (s : State) (os : List Event) (k : Key) (n : Nat) (current other : Conn) :
    Prop where
  sent : Server.seatTrace k (serverEvents os) = Server.gameTrace (n + 1)
  seatCurrent : AtSeat s os k (n % 2) current
  seatOther : AtSeat s os k (1 - n % 2) other
  processed : current.Processed ∧ other.Processed

/-- The client whose turn it is believes so, the other does not. -/
def TurnAgreed (current other : Client.Flags) : Prop :=
  current.isPlayerTurn = true ∧ other.isPlayerTurn = false

instance (current other : Client.Flags) : Decidable (TurnAgreed current other) :=
  inferInstanceAs (Decidable (_ ∧ _))

/-! ## The clients do not learn it -/

/-- No message of the server changes what the listener believes about the turn. -/
theorem isPlayerTurn_onMessage (f : Client.Flags) (beyond : List Byte) (m : ServerMessage) :
    (Client.onMessage f (bufferString (zeros 1024) beyond m.bytes)).1.isPlayerTurn =
      f.isPlayerTurn := by
  rw [Client.onMessage_bytes]
  split_ifs <;> rfl

/-- Nor do all that are under way. -/
theorem isPlayerTurn_settled (conn : Conn) (beyond : List Byte) :
    (conn.settled beyond).isPlayerTurn = conn.client.flags.isPlayerTurn := by
  unfold Conn.settled
  generalize conn.client.flags = f
  induction conn.toClient generalizing f with
  | nil => rfl
  | cons m ms ih => rw [List.foldl_cons, ih, isPlayerTurn_onMessage]

/-- In no turn of any run do the clients agree with the server on whose turn it is, and they
would not if the listeners went on to read what is under way. -/
theorem not_turnAgreed {ls : List Label} {os : List Event} {s : State}
    (h : machine.Run State.init ls os s) {k : Key} {n : Nat} {current other : Conn}
    (hturn : InTurn s os k n current other) :
    ¬TurnAgreed current.client.flags other.client.flags ∧
      ∀ beyond, ¬TurnAgreed (current.settled beyond) (other.settled beyond) := by
  obtain ⟨t, c, -, hother⟩ := hturn.seatOther
  have htrue : other.client.flags.isPlayerTurn = true := (Inv.run h).turn t other hother
  refine ⟨fun hagreed => ?_, fun beyond hagreed => ?_⟩
  · have hfalse : other.client.flags.isPlayerTurn = false := hagreed.2
    simp [htrue] at hfalse
  · have hfalse := hagreed.2
    rw [isPlayerTurn_settled, htrue] at hfalse
    cases hfalse

/-- Two clients create and join the room `a\n` through their windows, the countdown ends, and
both listeners read until they return. -/
def opening : List Label :=
  [.connect 3, .connect 4,
    .event 0 .leftPressed (550, 420), .event 0 .leftPressed (450, 420),
    .event 0 (.textEntered 97) (0, 0), .event 0 .leftPressed (550, 520), .serve 0 [],
    .event 1 .leftPressed (550, 420), .event 1 .leftPressed (700, 420),
    .event 1 (.textEntered 97) (0, 0), .event 1 .leftPressed (550, 520), .serve 1 [],
    .joinReply 1 (zeros 1024) [], .wake 1, .listen 0 [], .listen 0 [], .listen 0 [],
    .listen 1 [], .listen 1 []]

theorem isSome_opening : (machine.exec State.init opening).isSome := by
  decide +kernel

/-- The connections at the end of the opening. -/
def openingConn (i : Nat) : Conn :=
  ((machine.final State.init opening isSome_opening).conns[i]?).getD {}

theorem inTurn_opening : InTurn (machine.final State.init opening isSome_opening)
    (machine.outputs State.init opening isSome_opening) (ascii "a\n") 0 (openingConn 0)
    (openingConn 1) where
  sent := by decide +kernel
  seatCurrent := ⟨0, 3, by decide +kernel, by decide +kernel⟩
  seatOther := ⟨1, 4, by decide +kernel, by decide +kernel⟩
  processed := ⟨Or.inr (by decide +kernel), Or.inr (by decide +kernel)⟩

/-- The first turn of the opening : both players believe it is theirs. -/
theorem not_turnAgreed_opening :
    ¬TurnAgreed (openingConn 0).client.flags (openingConn 1).client.flags ∧
      ∀ beyond, ¬TurnAgreed ((openingConn 0).settled beyond) ((openingConn 1).settled beyond) :=
  not_turnAgreed (Machine.run_final isSome_opening) inTurn_opening

/-- It is not so that the clients agree with the server in every turn. -/
theorem not_forall_turnAgreed : ¬∀ ls os s k n current other,
    machine.Run State.init ls os s → InTurn s os k n current other →
      TurnAgreed current.client.flags other.client.flags := by
  intro hall
  have hagreed := hall _ _ _ _ _ _ _ (Machine.run_final isSome_opening) inTurn_opening
  have hboth : (openingConn 1).client.flags.isPlayerTurn = true := by
    decide +kernel
  rw [hagreed.2] at hboth
  cases hboth

end System

end DesperateStruggle
