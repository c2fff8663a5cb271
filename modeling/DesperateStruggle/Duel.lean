import DesperateStruggle.Locality
import DesperateStruggle.Projection

/-!
# What a room is for

`Duel` is the purpose of a room : one client opens it, a second one joins, a countdown, and then
turns that alternate between the two. Everybody else is turned away. It has no table, no handlers
and no sockets of other rooms.

Each room of the server is a duel (`duel_of_run`) : the requests that name it and the sleeps of the
handler that plays it are the moves, what is sent on behalf of the room is what the duel sends, and
the entry of the table is that of its phase. The handler that plays the room is its guest's. Hence
rooms do not interfere : in two runs with the
same moves for a room it has the same messages and the same entry, whatever happens in the others
(`isolated`).
-/

open CString

namespace DesperateStruggle

namespace Duel

/-- The phases of a duel. -/
inductive Phase
  | absent
  | waiting (host : Socket)
  | countdown (host guest : Socket)
  /-- Turn `n`, counted from 0. -/
  | turn (host guest : Socket) (n : Nat)
deriving DecidableEq, Repr

/-- What can happen to a duel. -/
inductive Move
  | create (client : Socket)
  | join (client : Socket)
  | wake
deriving DecidableEq, Repr

/-- The messages that open turn `n` : the player whose turn it is comes first. -/
def openTurn (k : Key) (host guest : Socket) (n : Nat) : List Sent :=
  if n % 2 = 0 then [.seat k 0 host .YOUR_TURN, .seat k 1 guest .OPPONENT_TURN]
  else [.seat k 1 guest .YOUR_TURN, .seat k 0 host .OPPONENT_TURN]

/-- A message to both players. -/
def toPlayers (k : Key) (host guest : Socket) (m : ServerMessage) : List Sent :=
  [.seat k 0 host m, .seat k 1 guest m]

/-- One move of the duel under the password `k`. -/
def step (k : Key) : Phase → Move → Option (Phase × List Sent)
  | .absent, .create c => some (.waiting c, [.reply k c .WAIT])
  | phase, .create c => some (phase, [.reply k c .EXIST])
  | .waiting host, .join c =>
    some (.countdown host c, .reply k c .WAIT :: toPlayers k host c .COUNTDOWN)
  | phase, .join c => some (phase, [.reply k c .FULL])
  | .countdown host guest, .wake =>
    some (.turn host guest 0, toPlayers k host guest .START ++ openTurn k host guest 0)
  | .turn host guest n, .wake => some (.turn host guest (n + 1), openTurn k host guest (n + 1))
  | _, .wake => none

/-- The duel under the password `k` as a machine. -/
def machine (k : Key) : Machine Phase Move Sent :=
  ⟨step k⟩

/-! ## What the server keeps of a duel -/

namespace Phase

/-- The entry of the table. -/
def room (k : Key) : Phase → Option Room
  | absent => none
  | waiting host => some { password := k, players := [host] }
  | countdown host guest => some { password := k, players := [host, guest] }
  | turn host guest n => some { password := k, players := [host, guest], turn := (n % 2 : Nat) }

/-- The handler that plays the room. It is the guest's. -/
def handler (k : Key) : Phase → Option Server.Handler
  | absent | waiting _ => none
  | countdown _ guest => some ⟨guest, .countdown k⟩
  | turn _ guest _ => some ⟨guest, .game k⟩

theorem plays_handler {k : Key} {phase : Phase} {h : Server.Handler}
    (hhandler : phase.handler k = some h) : h.control.Plays k := by
  cases phase <;> cases hhandler
  · exact Or.inl rfl
  · exact Or.inr rfl

end Phase

end Duel

instance (control : Control) (k : Key) : Decidable (control.Plays k) :=
  inferInstanceAs (Decidable (_ ∨ _))

namespace Server

/-- The move that a request of `c` is. -/
def Request.move (c : Socket) : Request → Duel.Move
  | create _ => .create c
  | join _ => .join c

/-- The move of the duel `k` that a step is, if it is one. -/
def move (k : Key) (s : State) : Label → Option Duel.Move
  | .accept _ | .disconnect _ => none
  | .recv t chunk beyond =>
    match s.handlers[t]?, readsAs (bufferString (zeros 1024) beyond chunk) with
    | some h, .ok (some r) => if r.password = k then some (r.move h.clientSocket) else none
    | _, _ => none
  | .wake t =>
    match s.handlers[t]? with
    | some h => if h.control.Plays k then some .wake else none
    | none => none

/-- The moves of the duel `k` in a run from `s`. -/
def moves (k : Key) : State → List Label → List Duel.Move :=
  machine.project (move k)

/-- A message, if it is sent on behalf of room `k`. -/
def onBehalf (k : Key) (e : Event) : Option Sent :=
  if e.2.room = k then some e.2 else none

/-- What was sent on behalf of room `k`. -/
def messages (k : Key) (os : List Event) : List Sent :=
  os.filterMap (onBehalf k)

/-- Room `k` of the server is in a phase of its duel. -/
structure Represents (k : Key) (s : State) (phase : Duel.Phase) : Prop where
  inv : Inv s
  room : s.rooms k = phase.room k
  plays : ∀ h, phase.handler k = some h → ∃ t : Nat, s.handlers[t]? = some h

section

variable {s s' : State} {l : Label} {o : List Event} {t : Nat} {h : Handler} {c : Socket} {k : Key}
  {phase : Duel.Phase} {sends : List Sent} {res : Rooms × List Sent × Control}

theorem messages_map_self (hroom : ∀ e ∈ sends, e.room = k) :
    messages k (sends.map (t, ·)) = sends := by
  induction sends with
  | nil => rfl
  | cons e sends ih =>
    have hhead : e.room = k := hroom e List.mem_cons_self
    have htail := ih fun e' he' => hroom e' (List.mem_cons_of_mem e he')
    rw [messages] at htail ⊢
    simp [onBehalf, hhead, htail]

theorem messages_map_of_ne (hroom : ∀ e ∈ sends, e.room ≠ k) :
    messages k (sends.map (t, ·)) = [] := by
  refine List.filterMap_eq_nil_iff.2 fun e he => ?_
  obtain ⟨e', he', rfl⟩ := List.mem_map.1 he
  exact if_neg (hroom e' he')

/-- A step about other rooms is no move. -/
theorem move_eq_none (hl : actor l = some t) (here : s.handlers[t]? = some h)
    (hk : k ∉ footprint h l) : move k s l = none := by
  cases l with
  | accept c => cases hl
  | disconnect t => rfl
  | recv t' chunk beyond =>
    obtain rfl := Option.some.inj hl
    simp only [move, here]
    rcases hread : readsAs (bufferString (zeros 1024) beyond chunk) with e | (- | r)
    · rfl
    · rfl
    · exact if_neg fun hr => hk ⟨r, hread, hr⟩
  | wake t' =>
    obtain rfl := Option.some.inj hl
    simp only [move, here]
    exact if_neg hk

namespace Represents

/-- The room is in a new phase after a step of handler `t`. -/
theorem resume (hinv : Inv (s.resume t res).1) (here : s.handlers[t]? = some h)
    (hroom : res.1 k = phase.room k)
    (hplays : ∀ h', phase.handler k = some h' → h' = ⟨h.clientSocket, res.2.2⟩ ∨
      ¬h.control.Plays k ∧ ∃ t' : Nat, s.handlers[t']? = some h') :
    Represents k (s.resume t res).1 phase where
  inv := hinv
  room := hroom
  plays h' hh' := by
    rcases hplays h' hh' with rfl | ⟨hnot, t', ht'⟩
    · exact ⟨t, s.getElem?_setControl_self here⟩
    · have hne : t' ≠ t := by
        rintro rfl
        obtain rfl := Option.some.inj (here.symm.trans ht')
        exact hnot (Duel.Phase.plays_handler hh')
      exact ⟨t', (s.getElem?_setControl_of_ne hne).trans ht'⟩

/-- Whoever plays the room is the handler that plays the duel. -/
theorem handler_of_plays (hrep : Represents k s phase) (here : s.handlers[t]? = some h)
    (hplays : h.control.Plays k) : phase.handler k = some h := by
  obtain ⟨room, hroom, hlen⟩ := hrep.inv.full t k ⟨h, here, hplays⟩
  rw [hrep.room] at hroom
  have hsome : ∃ h', phase.handler k = some h' := by
    cases phase with
    | absent => cases hroom
    | waiting host =>
      cases hroom
      cases hlen
    | countdown | turn => exact ⟨_, rfl⟩
  obtain ⟨h', hh'⟩ := hsome
  obtain ⟨t', ht'⟩ := hrep.plays h' hh'
  obtain rfl := hrep.inv.unique t t' k ⟨h, here, hplays⟩
    ⟨h', ht', Duel.Phase.plays_handler hh'⟩
  rw [hh', ← here, ht']

/-- A step about other rooms. -/
theorem elsewhere (hrep : Represents k s phase) (hinv : Inv (s.resume t res).1)
    (here : s.handlers[t]? = some h) (hact : act h l s.rooms = some res)
    (hk : k ∉ footprint h l) :
    Represents k (s.resume t res).1 phase ∧ messages k (s.resume t res).2 = [] := by
  have hframe : res.1 k = s.rooms k := (actsOn_act h l).frame hact k hk
  have hnot : ¬h.control.Plays k := by
    intro hplays
    cases l with
    | accept c => cases hact
    | recv t' chunk beyond =>
      simp only [act] at hact
      split_ifs at hact with hwaits
      rw [hwaits.1] at hplays
      exact Inv.not_plays_recv hplays
    | disconnect t' =>
      simp only [act] at hact
      split_ifs at hact with hwaits
      rw [hwaits] at hplays
      exact Inv.not_plays_recv hplays
    | wake t' => exact hk hplays
  refine ⟨.resume hinv here (hframe.trans hrep.room) fun h' hh' =>
    Or.inr ⟨hnot, hrep.plays h' hh'⟩, ?_⟩
  exact messages_map_of_ne fun e he heq => hk (heq ▸ room_act hact e he)

/-- A request that names the room is a move. -/
theorem request (hrep : Represents k s phase) (here : s.handlers[t]? = some ⟨c, .recv⟩)
    {r : Request} (hr : r.password = k) (hinv : Inv (s.resume t (answer s.rooms c r)).1) :
    ∃ phase', Duel.step k phase (r.move c) =
        some (phase', messages k (s.resume t (answer s.rooms c r)).2) ∧
      Represents k (s.resume t (answer s.rooms c r)).1 phase' := by
  have hmessages : messages k (s.resume t (answer s.rooms c r)).2 = (answer s.rooms c r).2.1 :=
    messages_map_self fun e he => (room_answer c r e he).trans hr
  rw [hmessages]
  have hstay : ∀ {sends : List Sent}, answer s.rooms c r = (s.rooms, sends, .recv) →
      Represents k (s.resume t (answer s.rooms c r)).1 phase := by
    intro sends hanswer
    refine .resume hinv here (by rw [hanswer]; exact hrep.room) fun h' hh' => ?_
    exact Or.inr ⟨Inv.not_plays_recv, hrep.plays h' hh'⟩
  have hroom := hrep.room
  cases r with
  | create k' =>
    obtain rfl : k' = k := hr
    cases phase with
    | absent =>
      rw [answer_create_of_none hroom] at hinv ⊢
      exact ⟨.waiting c, rfl, .resume hinv here Rooms.assign_self (by simp [Duel.Phase.handler])⟩
    | waiting | countdown | turn =>
      have hanswer := answer_create_of_some (c := c) hroom
      exact ⟨_, by rw [hanswer]; rfl, hstay hanswer⟩
  | join k' =>
    obtain rfl : k' = k := hr
    cases phase with
    | absent =>
      have hanswer := answer_join_of_none (c := c) hroom
      exact ⟨_, by rw [hanswer]; rfl, hstay hanswer⟩
    | waiting host =>
      rw [answer_join_of_one hroom rfl] at hinv ⊢
      refine ⟨.countdown host c, rfl, .resume hinv here Rooms.assign_self ?_⟩
      intro h' hh'
      exact Or.inl (Option.some.inj hh').symm
    | countdown | turn =>
      have hanswer := answer_join_of_two (c := c) hroom rfl
      exact ⟨_, by rw [hanswer]; rfl, hstay hanswer⟩

/-- The turn messages of the duel. -/
theorem turnMessages_eq {host guest : Socket} {n : Nat} :
    turnMessages k { password := k, players := [host, guest], turn := (n % 2 : Nat) } =
      some (Duel.openTurn k host guest n) := by
  rcases Nat.mod_two_eq_zero_or_one n with hn | hn <;>
    simp [turnMessages, Room.player, Duel.openTurn, hn]

/-- The sleep of the handler that plays the room is a move. -/
theorem wake (hrep : Represents k s phase) (here : s.handlers[t]? = some h)
    (hplays : h.control.Plays k) (hact : act h (.wake t) s.rooms = some res)
    (hinv : Inv (s.resume t res).1) :
    ∃ phase', Duel.step k phase .wake = some (phase', messages k (s.resume t res).2) ∧
      Represents k (s.resume t res).1 phase' := by
  have hmessages : messages k (s.resume t res).2 = res.2.1 := by
    refine messages_map_self fun e he => ?_
    have hin : h.control.Plays e.room := room_act hact e he
    rcases hplays with hc | hc <;> rw [hc] at hin
    · exact Inv.plays_countdown.1 hin
    · exact Inv.plays_game.1 hin
  rw [hmessages]
  have hentry := hrep.room
  have hhandler := hrep.handler_of_plays here hplays
  cases phase with
  | absent | waiting => cases hhandler
  | countdown host guest =>
    obtain rfl := Option.some.inj hhandler
    have hturn : startGame s.rooms k = some (s.rooms,
        Duel.toPlayers k host guest .START ++ Duel.openTurn k host guest 0, .game k) := by
      rw [startGame_of_some hentry]
      exact congrArg _ (turnMessages_eq (n := 0))
    cases hturn.symm.trans hact
    exact ⟨.turn host guest 0, rfl, .resume hinv here hentry fun h' hh' =>
      Or.inl (Option.some.inj hh').symm⟩
  | turn host guest n =>
    obtain rfl := Option.some.inj hhandler
    have hpass : Room.passTurn { password := k, players := [host, guest], turn := (n % 2 : Nat) } =
        { password := k, players := [host, guest], turn := ((n + 1) % 2 : Nat) } := by
      simp only [Room.passTurn, Room.mk.injEq, true_and, and_true]
      omega
    have hturn : nextTurn s.rooms k = some (s.rooms.assign k
        { password := k, players := [host, guest], turn := ((n + 1) % 2 : Nat) },
        Duel.openTurn k host guest (n + 1), .game k) := by
      rw [nextTurn_of_some hentry, hpass, turnMessages_eq]
      rfl
    cases hturn.symm.trans hact
    exact ⟨.turn host guest (n + 1), rfl, .resume hinv here Rooms.assign_self fun h' hh' =>
      Or.inl (Option.some.inj hh').symm⟩

end Represents

theorem represents_init : Represents k State.init .absent where
  inv := inv_init
  room := rfl
  plays := by simp [Duel.Phase.handler]

/-- Every step of the server is a move of the duel, or it has nothing to do with it. -/
theorem projects_duel (k : Key) :
    machine.Projects (Duel.machine k) (move k) (onBehalf k) (Represents k) := by
  intro s phase l s' o hrep hstep
  have hinv := hrep.inv.step hstep
  cases hl : actor l with
  | none =>
    obtain ⟨c, rfl⟩ := eq_accept hl
    obtain ⟨-, rfl, rfl⟩ := step_accept_eq_some.1 hstep
    refine ⟨⟨hinv, hrep.room, fun h hh => ?_⟩, rfl⟩
    obtain ⟨t, ht⟩ := hrep.plays h hh
    exact ⟨t, s.getElem?_accept.2 (Or.inl ht)⟩
  | some t =>
    obtain ⟨h, res, here, hact, hres⟩ := exists_act hl hstep
    obtain rfl : (s.resume t res).1 = s' := congrArg Prod.fst hres
    obtain rfl : (s.resume t res).2 = o := congrArg Prod.snd hres
    by_cases hk : k ∈ footprint h l
    · cases l with
      | accept c => cases hl
      | disconnect t => cases hk
      | recv t' chunk beyond =>
        obtain rfl := Option.some.inj hl
        obtain ⟨r, hread, hr⟩ := hk
        simp only [act, hread] at hact
        split_ifs at hact with hwaits
        cases hact
        have hmove : move k s (.recv t' chunk beyond) = some (r.move h.clientSocket) := by
          simp [move, here, hread, hr]
        obtain ⟨c, control⟩ := h
        obtain rfl : control = .recv := hwaits.1
        rw [hmove]
        exact hrep.request here hr hinv
      | wake t' =>
        obtain rfl := Option.some.inj hl
        have hplays : h.control.Plays k := hk
        have hmove : move k s (.wake t') = some .wake := by
          simp [move, here, hplays]
        rw [hmove]
        exact hrep.wake here hplays hact hinv
    · rw [move_eq_none hl here hk]
      exact hrep.elsewhere hinv here hact hk

/-- In every run of the server every room is a duel : its moves, in their order, are a run of the
duel from its absence on, the messages on behalf of the room are what the duel sends, the entry of
the table is that of the phase it has come to, and so is the handler that plays it. -/
theorem duel_of_run {ls : List Label} {os : List Event} (hrun : machine.Run State.init ls os s)
    (k : Key) : ∃ phase,
      (Duel.machine k).Run .absent (moves k State.init ls) (messages k os) phase ∧
      s.rooms k = phase.room k ∧
      ∀ h, phase.handler k = some h → ∃ t : Nat, s.handlers[t]? = some h := by
  obtain ⟨phase, hduel, hrep⟩ := hrun.project (projects_duel k) represents_init
  exact ⟨phase, hduel, hrep.room, hrep.plays⟩

/-- Rooms do not interfere : in two runs with the same moves of a room, the messages on behalf of it
and its entry in the table are the same, whatever else the runs do. -/
theorem isolated {ls ls' : List Label} {os os' : List Event}
    (hrun : machine.Run State.init ls os s) (hrun' : machine.Run State.init ls' os' s') {k : Key}
    (heq : moves k State.init ls = moves k State.init ls') :
    messages k os = messages k os' ∧ s.rooms k = s'.rooms k := by
  obtain ⟨hmessages, phase, hrep, hrep'⟩ :=
    hrun.eq_of_project_eq (projects_duel k) hrun' represents_init represents_init heq
  exact ⟨hmessages, hrep.room.trans hrep'.room.symm⟩

end

/-- The moves of a game up to its second turn. -/
theorem duel_of_run_duel : ∃ phase, (Duel.machine (ascii "ab\n")).Run .absent
      (moves (ascii "ab\n") State.init duel)
      (messages (ascii "ab\n") (machine.outputs State.init duel isSome_duel)) phase ∧
    (machine.final State.init duel isSome_duel).rooms (ascii "ab\n") =
      phase.room (ascii "ab\n") ∧
    ∀ h, phase.handler (ascii "ab\n") = some h →
      ∃ t : Nat, (machine.final State.init duel isSome_duel).handlers[t]? = some h :=
  duel_of_run (Machine.run_final isSome_duel) _

/-- One of the two clients creates its room, the other is not there. -/
def oneRoom : List Label :=
  [.accept 3, .recv 0 (createRequest (ascii "ab")) []]

theorem isSome_oneRoom : (machine.exec State.init oneRoom).isSome := by
  decide +kernel

/-- The room does not notice. -/
theorem isolated_oneRoom :
    messages (ascii "ab\n") (machine.outputs State.init twoRooms isSome_twoRooms) =
      messages (ascii "ab\n") (machine.outputs State.init oneRoom isSome_oneRoom) ∧
    (machine.final State.init twoRooms isSome_twoRooms).rooms (ascii "ab\n") =
      (machine.final State.init oneRoom isSome_oneRoom).rooms (ascii "ab\n") :=
  isolated (Machine.run_final isSome_twoRooms) (Machine.run_final isSome_oneRoom)
    (by decide +kernel)

end Server

end DesperateStruggle
