import DesperateStruggle.Session
import DesperateStruggle.System

/-!
# The screen that is drawn

`screen` is the chain of `main` that chooses what to draw (`main.cpp:494-516`). No code resets
`isWaitingScreen`, and the chain asks for it before `isGameStart`, so a client that has sent a
request never draws the game (`screen_ne_game`).

A client of the whole system is a session of its own (`InSession.run`), so this holds of
the clients of the server as well (`System.screen_ne_game_of_request`).
-/

open CString

namespace DesperateStruggle

namespace Client

/-- The screens of `main`. -/
inductive Screen
  | title
  | choiceRoom
  | createRoom
  | joinRoom
  | waiting
  | countdown
  | game
deriving DecidableEq, Repr

/-- The drawing chain. -/
def screen (f : Flags) : Option Screen :=
  if f.isTitleScreen then some .title
  else if f.isChoiceRoom then some .choiceRoom
  else if f.isCreateRoom then some .createRoom
  else if f.isJoinRoom then some .joinRoom
  else if f.isWaitingScreen then some .waiting
  else if f.isCountdown then some .countdown
  else if f.isGameStart then some .game
  else none

variable {cl : Client} {ls : List Label} {os : List (List Byte)}

/-- The waiting screen and those before it hide the game. -/
theorem screen_ne_of_flag {f : Flags} (h : f.isJoinRoom = true ∨ f.isWaitingScreen = true) :
    screen f ≠ some .game := by
  unfold screen
  rcases h with h | h <;> rw [h] <;> split_ifs <;> simp_all

/-- A client that has sent a request does not draw the game, whether or not it has started. -/
theorem screen_ne_game (h : machine.Run {} ls os cl) (hasked : os ≠ []) :
    screen cl.flags ≠ some .game :=
  screen_ne_of_flag ((Inv.run h).asked hasked)

/-- A client creates a room with the password `a`, is answered `WAIT`, and the game starts. -/
def creating : List Label :=
  [.event .leftPressed (550, 420), .event .leftPressed (450, 420), .event (.textEntered 97) (0, 0),
    .event .leftPressed (550, 520), .listen (ascii "WAIT\n"), .listen (ascii "COUNTDOWN\n"),
    .listen (ascii "START\n")]

theorem isSome_creating : (machine.exec {} creating).isSome := by
  decide

/-- It draws the waiting screen. -/
theorem screen_ne_game_creating :
    screen (machine.final {} creating isSome_creating).flags ≠ some .game :=
  screen_ne_game (Machine.run_final isSome_creating) (by decide)

/-- It is not so that a client whose request was accepted draws the game once it has started. -/
theorem not_forall_screen_game : ¬∀ ls os cl, machine.Run {} ls os cl → os ≠ [] →
    ascii "WAIT\n" ∈ taken ls → cl.flags.isGameStart = true → screen cl.flags = some .game := by
  intro hall
  have hscreen := hall _ _ _ (Machine.run_final isSome_creating) (by decide) (by decide)
    (by decide)
  exact absurd hscreen (by decide)

/-- The join click stops waiting, if it does. -/
theorem exists_run_joinClosed (cl : Client) :
    ∃ ls, machine.Run cl ls [] { cl with joining := false } := by
  by_cases hjoining : cl.joining = true
  · exact ⟨[.joinClosed], .single (if_pos hjoining)⟩
  · have hsame : { cl with joining := false } = cl := by
      rw [← Bool.eq_false_iff.2 hjoining]
    exact hsame ▸ ⟨[], .nil⟩

/-- The listener returns, if it runs. -/
theorem exists_run_listenClosed (cl : Client) :
    ∃ ls, machine.Run cl ls [] { cl with listening := false } := by
  by_cases hlistening : cl.listening = true
  · exact ⟨[.listenClosed], .single (if_pos hlistening)⟩
  · have hsame : { cl with listening := false } = cl := by
      rw [← Bool.eq_false_iff.2 hlistening]
    exact hsame ▸ ⟨[], .nil⟩

end Client

/-! ## The clients of the server -/

namespace System

variable {s s' : State} {ls : List Label} {l : Label} {os o : List Event} {t : Nat} {conn : Conn}

/-- The requests of client `t`. -/
def requestsOf (t : Nat) (os : List Event) : List (List Byte) :=
  os.filterMap fun
    | .request t' bytes => if t' = t then some bytes else none
    | .server _ => none

/-- Each client is in a session of its own, in which it has sent its requests. -/
structure InSession (s : State) (os : List Event) : Prop where
  session : ∀ (t : Nat) (conn : Conn), s.conns[t]? = some conn →
    ∃ ls', Client.machine.Run {} ls' (requestsOf t os) conn.client
  fresh : ∀ t, s.conns.length ≤ t → requestsOf t os = []

@[simp] theorem requestsOf_append (t : Nat) (os o : List Event) :
    requestsOf t (os ++ o) = requestsOf t os ++ requestsOf t o :=
  List.filterMap_append

@[simp] theorem requestsOf_server (t : Nat) (o : List Server.Event) :
    requestsOf t (o.map .server) = [] := by
  simp [requestsOf, List.filterMap_map]

theorem requestsOf_request (t t' : Nat) (requests : List (List Byte)) :
    requestsOf t' (requests.map (.request t)) = if t = t' then requests else [] := by
  split_ifs with h <;> simp [requestsOf, List.filterMap_map, h]

theorem InSession.init : InSession State.init [] where
  session := by simp [State.init]
  fresh _ _ := rfl

/-- Client `t` alone moves on. -/
theorem InSession.setConn {conn' : Conn} (requests : List (List Byte)) (h : InSession s os)
    (here : s.conns[t]? = some conn)
    (hmoves : ∃ ls', Client.machine.Run conn.client ls' requests conn'.client) :
    InSession (s.setConn t conn') (os ++ requests.map (.request t)) := by
  obtain ⟨ls₁, hrun₁⟩ := hmoves
  refine ⟨fun t' conn₁ ht' => ?_, fun t' hle => ?_⟩
  · rw [requestsOf_append, requestsOf_request]
    rcases getElem?_set ht' with ⟨rfl, rfl⟩ | ⟨hne, ht'⟩
    · obtain ⟨ls₀, hrun⟩ := h.session _ conn here
      rw [if_pos rfl]
      exact ⟨_, hrun.trans hrun₁⟩
    · rw [if_neg (Ne.symm hne), List.append_nil]
      exact h.session t' conn₁ ht'
  · have hle' : s.conns.length ≤ t' := by simpa [State.setConn] using hle
    have hne : t ≠ t' := by
      rintro rfl
      rw [List.getElem?_eq_none hle'] at here
      cases here
    rw [requestsOf_append, requestsOf_request, if_neg hne, h.fresh t' hle', List.append_nil]

/-- A step of the server moves no client. -/
theorem InSession.deliver {server : Server.State} {o : List Server.Event} {conns : List Conn}
    (h : InSession s os) (hlen : conns.length = s.conns.length)
    (hconns : ∀ (t : Nat) (conn : Conn), conns[t]? = some conn →
      ∃ conn₀, s.conns[t]? = some conn₀ ∧ conn.client = conn₀.client) :
    InSession { server, conns := System.deliver server o conns } (os ++ o.map .server) := by
  refine ⟨fun t conn ht => ?_, fun t hle => ?_⟩
  · obtain ⟨conn₁, ht₁, hclient, -⟩ := getElem?_deliver ht
    obtain ⟨conn₀, ht₀, hclient₀⟩ := hconns t conn₁ ht₁
    rw [requestsOf_append, requestsOf_server, List.append_nil, hclient, hclient₀]
    exact h.session t conn₀ ht₀
  · have hle' : s.conns.length ≤ t := by simpa [System.deliver, hlen] using hle
    rw [requestsOf_append, requestsOf_server, h.fresh t hle', List.append_nil]

/-- Every step keeps the clients in their sessions. -/
theorem InSession.step (h : InSession s os) (hstep : System.step s l = some (s', o)) :
    InSession s' (os ++ o) := by
  cases step_cases hstep with
  | connect accept =>
    rw [List.append_nil]
    refine ⟨fun t conn ht => ?_, fun t hle => h.fresh t ?_⟩
    · rw [List.getElem?_append] at ht
      split_ifs at ht with hlt
      · exact h.session t conn ht
      · obtain rfl := List.mem_singleton.1 (List.mem_of_getElem? ht)
        rw [h.fresh t (Nat.not_lt.1 hlt)]
        exact ⟨[], .nil⟩
    · exact Nat.le_of_succ_le (by simpa using hle)
  | @event t conn e mousePos here windowOpen notJoining =>
    refine h.setConn _ here ⟨[.event e mousePos], .single ?_⟩
    simp [Client.machine, Client.step, windowOpen, notJoining]
  | @read l t conn m toClient client here head reader =>
    refine h.setConn [] here ?_
    rcases reader with ⟨buffer, beyond, -, hjoining, rfl⟩ | ⟨beyond, -, hlistening, rfl⟩
    · exact ⟨[.joinReply _], .single (if_pos hjoining)⟩
    · exact ⟨[.listen _], .single (if_pos hlistening)⟩
  | @closed l t conn client here empty exited reader =>
    refine h.setConn [] here ?_
    rcases reader with ⟨-, rfl⟩ | ⟨-, rfl⟩
    · exact Client.exists_run_joinClosed conn.client
    · exact Client.exists_run_listenClosed conn.client
  | @serve t conn m beyond toServer server o₀ here head recv =>
    refine h.deliver (List.length_set ..) fun t' conn' ht' => ?_
    rcases getElem?_set ht' with ⟨rfl, rfl⟩ | ⟨-, ht'⟩
    · exact ⟨conn, here, rfl⟩
    · exact ⟨conn', ht', rfl⟩
  | server label moves => exact h.deliver rfl fun t' conn' ht' => ⟨conn', ht', rfl⟩

/-- Each client of the system is in a session of its own. -/
theorem InSession.run (h : machine.Run State.init ls os s) : InSession s os :=
  h.invariant .init fun _ _ _ _ _ hi hs => hi.step hs

/-- A client of the server that has sent a request does not draw the game. -/
theorem screen_ne_game_of_request (h : machine.Run State.init ls os s)
    (here : s.conns[t]? = some conn) {bytes : List Byte} (hasked : .request t bytes ∈ os) :
    Client.screen conn.client.flags ≠ some .game := by
  obtain ⟨ls', hrun⟩ := (InSession.run h).session t conn here
  have hmem : bytes ∈ requestsOf t os := List.mem_filterMap.2 ⟨_, hasked, by simp⟩
  exact Client.screen_ne_of_flag ((Client.Inv.run hrun).asked (List.ne_nil_of_mem hmem))

end System

end DesperateStruggle
