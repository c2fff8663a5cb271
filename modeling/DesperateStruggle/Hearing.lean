import DesperateStruggle.Conversation

/-!
# What a client hears

`heard` are the messages that a client reads, in order. Messages are sent to sockets, and the
operating system may give the socket of a connection that has ended to a new one. As long as no
seated client's connection ends, every message reaches the connection it is meant for and no message
is lost. If also every request is received whole, each client hears its answers and, if it has a
seat, then the messages of its game (`heard_of_run`).
-/

open CString

namespace DesperateStruggle

namespace Server

/-- The messages to seat `i`. -/
def heardAt (i : Nat) (trace : List (Nat × ServerMessage)) : List ServerMessage :=
  trace.filterMap fun (i', m) => if i' = i then some m else none

/-- What the player in seat `i` hears of a game up to the sleep after `n` others. -/
def seatGame (i : Nat) : Nat → List ServerMessage
  | 0 => [.COUNTDOWN]
  | n + 1 => .COUNTDOWN :: .START ::
    (List.range (n + 1)).map fun j => if j % 2 = i then .YOUR_TURN else .OPPONENT_TURN

@[simp] theorem heardAt_append (i : Nat) (trace trace' : List (Nat × ServerMessage)) :
    heardAt i (trace ++ trace') = heardAt i trace ++ heardAt i trace' :=
  List.filterMap_append

/-- Each player hears one message of a turn. -/
theorem heardAt_turnTrace {i : Nat} (hi : i < 2) (n : Nat) :
    heardAt i (turnTrace n) = [if n % 2 = i then .YOUR_TURN else .OPPONENT_TURN] := by
  rcases Nat.mod_two_eq_zero_or_one n with hn | hn <;>
    rcases Nat.lt_succ_iff_lt_or_eq.1 hi with h | rfl <;>
    simp_all [heardAt, turnTrace]

theorem heardAt_toBoth {i : Nat} (hi : i < 2) (m : ServerMessage) : heardAt i (toBoth m) = [m] := by
  rcases Nat.lt_succ_iff_lt_or_eq.1 hi with h | rfl
  · obtain rfl : i = 0 := by omega
    rfl
  · rfl

/-- The game of a room, heard from one of its seats. -/
theorem heardAt_gameTrace {i : Nat} (hi : i < 2) (n : Nat) :
    heardAt i (gameTrace n) = seatGame i n := by
  cases n with
  | zero => exact heardAt_toBoth hi .COUNTDOWN
  | succ n =>
    have hturns : ∀ ns : List Nat, heardAt i (ns.flatMap turnTrace) =
        ns.map fun j => if j % 2 = i then .YOUR_TURN else .OPPONENT_TURN := by
      intro ns
      induction ns with
      | nil => rfl
      | cons j ns ih =>
        rw [List.flatMap_cons, heardAt_append, ih, heardAt_turnTrace hi]
        rfl
    simp only [gameTrace, heardAt_append, heardAt_toBoth hi, hturns, seatGame]
    rfl

section

variable {s s' : State} {l : Label} {o os : List Event} {t : Nat}

/-- In a step the answer comes first, to a connection that is open. The other messages go to
seats. -/
theorem Inv.reply_first (h : Inv s) (hstep : Server.step s l = some (s', o)) :
    ∃ o₁ o₂, o = o₁ ++ o₂ ∧ (∀ e ∈ o₁, ∃ t k c m, e = (t, .reply k c m) ∧ s'.Open t c) ∧
      ∀ e ∈ o₂, ∃ t k i p m, e = (t, .seat k i p m) := by
  have hseats : ∀ {k : Key} {players : List Socket} {sends : List Sent} {t : Nat},
      ToSeats k players sends → ∀ e ∈ sends.map (t, ·), ∃ t k i p m, e = (t, .seat k i p m) := by
    intro k players sends t hto e he
    obtain ⟨e', he', rfl⟩ := List.mem_map.1 he
    obtain ⟨i, p, m, -, rfl⟩ := hto e' he'
    exact ⟨t, k, i, p, m, rfl⟩
  cases h.cases hstep with
  | accept | exit => exact ⟨[], [], rfl, by simp, by simp⟩
  | @handle t c chunk beyond res here message handled =>
    have hopen : res.2.2 ≠ .exited → (s.resume t res).1.Open t c := fun hne =>
      ⟨_, s.getElem?_setControl_self here, rfl, hne⟩
    have hone : ∀ {k : Key} {m : ServerMessage}, (s.resume t res).1.Open t c →
        ∀ e ∈ [((t, .reply k c m) : Event)], ∃ t' k c m,
          e = (t', .reply k c m) ∧ (s.resume t res).1.Open t' c := fun hopen e he =>
      ⟨t, _, c, _, List.mem_singleton.1 he, hopen⟩
    cases handled with
    | ignored => exact ⟨[], [], rfl, by simp, by simp⟩
    | exist | created | full | first =>
      exact ⟨_, [], (List.append_nil _).symm, hone (hopen (by simp)), by simp⟩
    | second =>
      refine ⟨[_], [_, _], rfl, hone (hopen (by simp)), fun e he => ?_⟩
      rcases List.mem_pair.1 he with rfl | rfl <;> exact ⟨_, _, _, _, _, rfl⟩
  | start here found turn =>
    exact ⟨[], _, rfl, by simp, hseats ((ToSeats.broadcast _ _ .START).append (.turnMessages turn))⟩
  | turn here found goesOn turn => exact ⟨[], _, rfl, by simp, hseats (.turnMessages turn)⟩
  | finish here found => exact ⟨[], _, rfl, by simp, hseats (.broadcast _ _ _)⟩

theorem Inv.length_seats_le (h : Inv s) (k : Key) : (s.seats k).length ≤ 2 := by
  unfold State.seats
  split
  · next room hroom =>
    have hseats := (h.room k room hroom).seats
    omega
  · simp

theorem SeatInv.length_seatedBy (h : SeatInv s os) (k : Key) :
    (seatedBy k os).length = (s.seats k).length := by
  rw [← h.log k, List.length_map]

end

end Server

namespace System

/-! ## Who is spoken to -/

section

variable {server : Server.State} {o : List Server.Event} {t : Nat} {c : Socket}

theorem inbox_append (server : Server.State) (o o' : List Server.Event) (t : Nat) :
    inbox server (o ++ o') t = inbox server o t ++ inbox server o' t := by
  simp [inbox]

/-- Where no two open connections have the same socket, a message goes to the open connection with
the socket. -/
theorem owner_eq_some_iff (h : Server.OpenUnique server) :
    owner server c = some t ↔ server.Open t c := by
  have hopen : ∀ {t : Nat}, owner server c = some t → server.Open t c := by
    intro t ht
    obtain ⟨hlt, hp, -⟩ := List.findIdx?_eq_some_iff_getElem.1 ht
    simp only [Bool.and_eq_true, beq_iff_eq, bne_iff_ne] at hp
    exact ⟨_, List.getElem?_eq_getElem hlt, hp.1, hp.2⟩
  refine ⟨hopen, fun ht => ?_⟩
  obtain ⟨hd, hhd, hc, hne⟩ := ht
  have hsome : (owner server c).isSome := by
    rw [owner, List.findIdx?_isSome, List.any_eq_true]
    exact ⟨hd, List.mem_of_getElem? hhd, by simp [hc, hne]⟩
  obtain ⟨t', ht'⟩ := Option.isSome_iff_exists.1 hsome
  rw [ht', h t t' c ⟨hd, hhd, hc, hne⟩ (hopen ht')]

/-- Answers reach the connections they are for. -/
theorem inbox_of_replies (h : Server.OpenUnique server)
    (ho : ∀ e ∈ o, ∃ t k c m, e = (t, Sent.reply k c m) ∧ server.Open t c) (t : Nat) :
    inbox server o t = Server.replies t o ∧ ∀ k, Server.seatTrace k o = [] := by
  induction o with
  | nil => exact ⟨rfl, fun _ => rfl⟩
  | cons e o ih =>
    obtain ⟨ih, hnone⟩ := ih fun e' he' => ho e' (List.mem_cons_of_mem _ he')
    obtain ⟨t', k, c, m, rfl, hopen⟩ := ho e (by simp)
    have howner : owner server c = some t' := (owner_eq_some_iff h).2 hopen
    rw [← List.singleton_append, inbox_append, Server.replies_append, ih]
    refine ⟨congrArg (· ++ _) ?_, fun k' => by rw [Server.seatTrace_append, hnone k']; rfl⟩
    by_cases ht : t' = t <;>
      simp [inbox, Server.replies, Sent.player, Sent.message, howner, ht]

/-- A message to a seat reaches the connection that has the seat. -/
theorem inbox_of_seats {k : Key} {i : Nat} (ho : ∀ e ∈ o, ∃ t' k' i' p m,
      e = (t', Sent.seat k' i' p m) ∧ (owner server p = some t ↔ k' = k ∧ i' = i)) :
    inbox server o t = Server.heardAt i (Server.seatTrace k o) := by
  induction o with
  | nil => rfl
  | cons e o ih =>
    have ih := ih fun e' he' => ho e' (List.mem_cons_of_mem _ he')
    obtain ⟨t', k', i', p, m, rfl, howner⟩ := ho e (by simp)
    rw [← List.singleton_append, inbox_append, Server.seatTrace_append, Server.heardAt_append, ih]
    refine congrArg (· ++ _) ?_
    by_cases hk : k' = k
    · by_cases hi : i' = i <;>
        simp_all [inbox, Server.seatTrace, Server.atSeat, Server.heardAt, Sent.player, Sent.message]
    · have hne : owner server p ≠ some t := fun heq => hk (howner.1 heq).1
      simp [inbox, Server.seatTrace, Server.atSeat, Server.heardAt, Sent.player, hne, hk]

end

/-! ## What is heard -/

/-- The messages `ms` are the answers to connection `t`, and then those to its seat. -/
def Hears (os : List Server.Event) (t : Nat) (ms : List ServerMessage) : Prop :=
  (∀ k i c, (Server.seatedBy k os)[i]? = some (t, c) →
    ms = Server.replies t os ++ Server.heardAt i (Server.seatTrace k os)) ∧
  ((∀ k c, (t, c) ∉ Server.seatedBy k os) → ms = Server.replies t os)

section

variable {server server' : Server.State} {l : Server.Label} {o os : List Server.Event} {t i : Nat}
  {c : Socket} {k : Key} {ms : List ServerMessage}

/-- What a step brings to a connection : its answer, and what goes to its seat. -/
theorem inbox_step (h : Server.SeatInv server os)
    (hstep : Server.step server l = some (server', o))
    (hlive : Server.SeatsLive server' (os ++ o)) :
    (Server.SeatedOnce server' (os ++ o) → ∀ k i c,
      (Server.seatedBy k (os ++ o))[i]? = some (t, c) →
      inbox server' o t = Server.replies t o ++ Server.heardAt i (Server.seatTrace k o)) ∧
    ((∀ k c, (t, c) ∉ Server.seatedBy k (os ++ o)) →
      inbox server' o t = Server.replies t o) := by
  have hunique := (h.step hstep).openUnique
  obtain ⟨o₁, o₂, rfl, hreplies, hseats⟩ := h.inv.reply_first hstep
  obtain ⟨hanswer, hnone⟩ := inbox_of_replies hunique hreplies t
  have hsilent : Server.replies t o₂ = [] := by
    refine List.filterMap_eq_nil_iff.2 fun e he => ?_
    obtain ⟨t', k', i', p, m, rfl⟩ := hseats e he
    rfl
  have howner : ∀ {t' k' i' p m}, (t', Sent.seat k' i' p m) ∈ o₂ →
      ∃ u, (Server.seatedBy k' (os ++ (o₁ ++ o₂)))[i']? = some (u, p) ∧
        owner server' p = some u := by
    intro t' k' i' p m he
    obtain ⟨u, hu, hopen⟩ := hlive k' i' p (h.seat_sends hstep (List.mem_append_right o₁ he))
    exact ⟨u, hu, (owner_eq_some_iff hunique).2 hopen⟩
  rw [inbox_append, hanswer, Server.replies_append, hsilent, List.append_nil]
  refine ⟨fun honce k i c hseat => ?_, fun hnot => ?_⟩
  · rw [Server.seatTrace_append, hnone k, List.nil_append, inbox_of_seats fun e he => ?_]
    obtain ⟨t', k', i', p, m, rfl⟩ := hseats e he
    obtain ⟨u, hu, hp⟩ := howner he
    refine ⟨t', k', i', p, m, rfl, fun ht => ?_, fun ⟨hk, hi⟩ => ?_⟩
    · obtain rfl := Option.some.inj (hp.symm.trans ht)
      exact honce.seat hu hseat
    · subst hk hi
      obtain ⟨rfl, -⟩ := Prod.mk.inj (Option.some.inj (hu.symm.trans hseat))
      exact hp
  · have hempty : inbox server' o₂ t = [] := by
      rw [inbox, List.map_eq_nil_iff, List.filter_eq_nil_iff]
      intro e he
      obtain ⟨t', k', i', p, m, rfl⟩ := hseats e he
      obtain ⟨u, hu, hp⟩ := howner he
      rw [decide_eq_true_eq]
      rintro ht
      obtain rfl := Option.some.inj (hp.symm.trans ht)
      exact hnot k' p (List.mem_of_getElem? hu)
    rw [hempty, List.append_nil]

/-- Nothing has gone to a seat that nobody has taken. -/
theorem seatTrace_of_new (h : Server.GameInv server os)
    (hstep : Server.step server l = some (server', o))
    (hseat : (Server.seatedBy k (os ++ o))[i]? = some (t, c))
    (hnew : (Server.seatedBy k os).length ≤ i) : Server.seatTrace k os = [] := by
  have hseats : ∀ {server : Server.State} {room : Room}, server.rooms k = some room →
      server.seats k = room.players := by
    intro server room hroom
    simp [Server.State.seats, hroom]
  cases hroom : server.rooms k with
  | none => exact h.empty k hroom
  | some room =>
    rcases (h.seat.inv.room k room hroom).seats with hone | htwo
    · exact (h.lone k room hroom hone).2
    · exfalso
      obtain ⟨room', hroom', hplayers⟩ := h.seat.inv.keep_step hstep hroom
      have hlt := (List.getElem?_eq_some_iff.1 hseat).1
      rw [(h.seat.step hstep).length_seatedBy, hseats hroom', hplayers htwo, htwo] at hlt
      rw [h.seat.length_seatedBy, hseats hroom, htwo] at hnew
      exact Nat.not_le.2 hlt hnew

/-- The server sends. -/
theorem Hears.step (hears : Hears os t ms) (h : Server.GameInv server os)
    (hstep : Server.step server l = some (server', o))
    (hlive : Server.SeatsLive server' (os ++ o)) (honce : Server.SeatedOnce server' (os ++ o))
    (hlast : .WAIT ∈ Server.replies t os → Server.replies t o = []) :
    Hears (os ++ o) t (ms ++ inbox server' o t) := by
  have hearlier : ∀ {k : Key} {i : Nat} {c : Socket}, (Server.seatedBy k os)[i]? = some (t, c) →
      (Server.seatedBy k (os ++ o))[i]? = some (t, c) := by
    intro k i c hi
    rw [Server.seatedBy_append, List.getElem?_append_left (List.getElem?_eq_some_iff.1 hi).1]
    exact hi
  refine ⟨fun k i c hseat => ?_, fun hnot => ?_⟩
  · rw [(inbox_step h.seat hstep hlive).1 honce k i c hseat, Server.replies_append,
      Server.seatTrace_append, Server.heardAt_append]
    by_cases hold : (Server.seatedBy k os)[i]? = some (t, c)
    · have hwait := wait_mem_replies (List.mem_of_getElem? hold)
      rw [hears.1 k i c hold, hlast hwait]
      simp
    · have hnone : ∀ k' c', (t, c') ∉ Server.seatedBy k' os := by
        intro k' c' hmem
        obtain ⟨i', hi'⟩ := List.mem_iff_getElem?.1 hmem
        obtain ⟨rfl, rfl⟩ := honce.seat (hearlier hi') hseat
        exact hold (hi'.trans ((hearlier hi').symm.trans hseat))
      have hnew : (Server.seatedBy k os).length ≤ i := by
        by_contra hlt
        rw [Server.seatedBy_append, List.getElem?_append_left (Nat.not_le.1 hlt)] at hseat
        exact hold hseat
      rw [hears.2 hnone, seatTrace_of_new h hstep hseat hnew]
      simp [Server.heardAt]
  · have hnot₀ : ∀ k c, (t, c) ∉ Server.seatedBy k os := fun k c hmem =>
      hnot k c (by rw [Server.seatedBy_append]; exact List.mem_append_left _ hmem)
    rw [(inbox_step h.seat hstep hlive).2 hnot, hears.2 hnot₀, Server.replies_append]

end

/-! ## What is read -/

/-- The message that client `t` reads in a step. -/
def reading (t : Nat) (s : State) : Label → List ServerMessage
  | .joinReply t' _ _ | .listen t' _ =>
    if t' = t then (s.conns[t]?.bind fun conn => conn.toClient.head?).toList else []
  | _ => []

/-- The messages that client `t` reads. -/
def heard (t : Nat) (s : State) (ls : List Label) : List ServerMessage :=
  machine.observe (reading t) s ls

/-- No seated client's connection ends. -/
def KeepsSeated (s : State) (l : Label) : Prop :=
  ∀ t, l = .disconnect t → ¬Seated s.server t

/-- What the clients have read, with what is under way to them, is what they are to hear. -/
structure Heard (s : State) (os : List Event) (read : Nat → List ServerMessage) : Prop where
  live : Server.SeatsLive s.server (serverEvents os)
  fresh : ∀ t, s.conns.length ≤ t → read t = []
  hears : ∀ (t : Nat) (conn : Conn), s.conns[t]? = some conn →
    Hears (serverEvents os) t (read t ++ conn.toClient)

/-- A request of a client does not make the handler throw. -/
theorem not_throws {m : List Byte} {k : Key} (h : Creates m k ∨ Joins m k) :
    ¬(m = CREATE ∨ m = JOIN) := by
  have hread : ∃ r, Server.readsAs m = .ok (some r) := by
    rcases h with h | h
    · exact ⟨_, Server.readsAs_of_creates h⟩
    · exact ⟨_, Server.readsAs_of_joins h⟩
  rintro (rfl | rfl) <;> obtain ⟨r, hr⟩ := hread <;> cases hr

section

variable {s s' : State} {ls : List Label} {l : Label} {os o : List Event} {t : Nat} {conn : Conn}
  {read : Nat → List ServerMessage}

namespace Heard

theorem init : Heard State.init [] fun _ => [] where
  live := by simp [Server.SeatsLive, Server.State.seats, State.init, Server.State.init]
  fresh _ _ := rfl
  hears := by simp [State.init]

/-- A step of the server. -/
theorem deliver {server : Server.State} {l₀ : Server.Label} {o : List Server.Event}
    {conns : List Conn} (h : Heard s os read) (hinv : Inv s os)
    (hmoves : Server.step s.server l₀ = some (server, o))
    (hleave : Server.LeavesUnseated s.server l₀) (hlen : conns.length = s.conns.length)
    (hconns : ∀ (t : Nat) (conn : Conn), conns[t]? = some conn →
      ∃ conn₀, s.conns[t]? = some conn₀ ∧ conn.toClient = conn₀.toClient)
    (hinv' : Inv { server, conns := System.deliver server o conns } (os ++ o.map .server))
    (htalks' : Talks { server, conns := System.deliver server o conns } (os ++ o.map .server)) :
    Heard { server, conns := System.deliver server o conns } (os ++ o.map .server) read := by
  have hlive := (hinv.game.seat.seatsLive_step hmoves).2 ⟨h.live, hleave⟩
  have honce := htalks'.seatedOnce hinv'
  rw [serverEvents_append, serverEvents_server] at honce
  refine ⟨by simpa using hlive, fun t hle => h.fresh t ?_, fun t conn ht => ?_⟩
  · simpa [System.deliver, hlen] using hle
  · obtain ⟨conn₁, ht₁, -, -, htoClient⟩ := getElem?_deliver ht
    obtain ⟨conn₀, ht₀, heq⟩ := hconns t conn₁ ht₁
    rw [htoClient, heq, ← List.append_assoc, serverEvents_append, serverEvents_server]
    refine (h.hears t conn₀ ht₀).step hinv.game hmoves hlive honce fun hwait => ?_
    obtain ⟨hd, -, htalk, -⟩ := htalks'.exists_talk hinv' ht
    rw [serverEvents_append, serverEvents_server, Server.replies_append] at htalk
    exact htalk.eq_nil_of_wait hwait

/-- A client moves, and takes `m` from what is under way to it. -/
theorem setConn {conn' : Conn} {read' : Nat → List ServerMessage} (requests : List (List Byte))
    (h : Heard s os read) (here : s.conns[t]? = some conn)
    (htaken : read' t ++ conn'.toClient = read t ++ conn.toClient)
    (helse : ∀ t', t' ≠ t → read' t' = read t') :
    Heard (s.setConn t conn') (os ++ requests.map (.request t)) read' := by
  refine ⟨by simpa using h.live, fun t' hle => ?_, fun t' conn₁ ht' => ?_⟩
  · have hle' : s.conns.length ≤ t' := by simpa [State.setConn] using hle
    have hne : t' ≠ t := by
      rintro rfl
      rw [List.getElem?_eq_none hle'] at here
      cases here
    rw [helse t' hne, h.fresh t' hle']
  · rw [serverEvents_append, serverEvents_request, List.append_nil]
    rcases getElem?_set ht' with ⟨rfl, rfl⟩ | ⟨hne, ht'⟩
    · rw [htaken]
      exact h.hears _ conn here
    · rw [helse t' hne]
      exact h.hears t' conn₁ ht'

/-- Every step at which no seated client's connection ends. -/
theorem step (h : Heard s os read) (hinv : Inv s os) (hwhole : Whole os) (htalks : Talks s os)
    (htalks' : Talks s' (os ++ o)) (hkeeps : KeepsSeated s l)
    (hstep : System.step s l = some (s', o)) :
    Heard s' (os ++ o) fun t => read t ++ reading t s l := by
  have hinv' := hinv.step hstep
  have hquiet : (∀ t, reading t s l = []) → (fun t => read t ++ reading t s l) = read :=
    fun hnone => funext fun t => by rw [hnone t, List.append_nil]
  cases step_cases hstep with
  | @connect c server o₀ accept =>
    rw [hquiet fun _ => rfl, List.append_nil]
    obtain ⟨-, rfl, rfl⟩ := Server.step_accept_eq_some.1 accept
    have hlive := (hinv.game.seat.seatsLive_step accept).2 ⟨h.live, fun t c hl => by
      rcases hl with ⟨-, hl | ⟨_, _, hl, -⟩⟩ <;> cases hl⟩
    rw [List.append_nil] at hlive
    refine ⟨hlive, fun t hle => h.fresh t (Nat.le_of_succ_le (by simpa using hle)),
      fun t conn ht => ?_⟩
    rw [List.getElem?_append] at ht
    split_ifs at ht with hlt
    · exact h.hears t conn ht
    · obtain rfl := List.mem_singleton.1 (List.mem_of_getElem? ht)
      have hnone := htalks.fresh t (Nat.not_lt.1 hlt)
      rw [h.fresh t (Nat.not_lt.1 hlt)]
      refine ⟨fun k i c hseat => ?_, fun _ => hnone.symm⟩
      have hwait := wait_mem_replies (List.mem_of_getElem? hseat)
      simp [hnone] at hwait
  | @event t conn e mousePos here =>
    rw [hquiet fun _ => rfl]
    exact h.setConn _ here rfl fun _ _ => rfl
  | @read l t conn m toClient client here head reader =>
    have hreading : ∀ t', reading t' s l = if t = t' then [m] else [] := by
      intro t'
      rcases reader with ⟨_, _, rfl, -⟩ | ⟨_, rfl, -⟩ <;> by_cases ht : t = t'
      all_goals first | (subst ht; simp [reading, here, head]) | simp [reading, ht]
    refine h.setConn [] here ?_ fun t' hne => ?_
    · simp [hreading, head]
    · simp [hreading, Ne.symm hne]
  | @closed l t conn client here empty exited reader =>
    rw [hquiet fun _ => by rcases reader with ⟨rfl, -⟩ | ⟨rfl, -⟩ <;> rfl]
    exact h.setConn [] here rfl fun _ _ => rfl
  | @serve t conn m beyond toServer server o₀ here head recv =>
    rw [hquiet fun _ => rfl]
    refine h.deliver hinv recv (fun t' c hl => ?_) (List.length_set ..) (fun t' conn' ht' => ?_)
      hinv' htalks'
    · obtain ⟨-, hl | ⟨chunk, beyond', hl, hthrows⟩⟩ := hl
      · cases hl
      · cases hl
        obtain ⟨hasked, p, hm⟩ := htalks.asked hinv here (by simp [head] : m ∈ conn.toServer)
        rw [piece_of_le (hwhole.length_le hasked)] at hthrows
        obtain rfl | rfl := hm
        · exact (not_throws (Or.inl (creates_requestKey p beyond)) hthrows).elim
        · exact (not_throws (Or.inr (joins_requestKey p beyond)) hthrows).elim
    · rcases getElem?_set ht' with ⟨rfl, rfl⟩ | ⟨-, ht'⟩
      · exact ⟨conn, here, rfl⟩
      · exact ⟨conn', ht', rfl⟩
  | @server l t l₀ server o₀ label moves =>
    rw [hquiet fun _ => by rcases label with ⟨rfl, -⟩ | ⟨rfl, -⟩ <;> rfl]
    refine h.deliver hinv moves (fun t' c hl k hseat => ?_) rfl
      (fun t' conn' ht' => ⟨conn', ht', rfl⟩) hinv' htalks'
    obtain ⟨here, hl | ⟨chunk, beyond', hl, -⟩⟩ := hl <;>
      rcases label with ⟨hlabel, rfl⟩ | ⟨-, rfl⟩ <;> cases hl
    exact hkeeps _ hlabel ⟨_, k, here, hseat⟩

theorem run (h : machine.Run State.init ls os s) (hwhole : Whole os)
    (hkeeps : machine.StepsMeet KeepsSeated State.init ls) :
    Heard s os fun t => heard t State.init ls := by
  induction h with
  | nil => exact init
  | snoc hrun hstep ih =>
    have hwhole₀ := hwhole.of_append
    rw [hrun.stepsMeet_snoc] at hkeeps
    have hnext := (ih hwhole₀ hkeeps.1).step (Inv.run hrun) hwhole₀ (Talks.run hrun hwhole₀)
      (Talks.run (hrun.snoc hstep) hwhole) hkeeps.2 hstep
    simpa only [heard, hrun.observe_snoc] using hnext

end Heard

/-- In every run whose requests are received whole and in which no seated client's connection ends,
what a client has read, with what is under way to it, are its answers. If it has a seat, these are
refusals and `WAIT`, and the messages of its game up to some turn follow. -/
theorem heard_of_run (h : machine.Run State.init ls os s) (hwhole : Whole os)
    (hkeeps : machine.StepsMeet KeepsSeated State.init ls) (here : s.conns[t]? = some conn) :
    ((∀ k c, (t, c) ∉ Server.seatedBy k (serverEvents os)) →
      heard t State.init ls ++ conn.toClient = Server.replies t (serverEvents os)) ∧
    ∀ k i c, (Server.seatedBy k (serverEvents os))[i]? = some (t, c) → ∃ n game,
      heard t State.init ls ++ conn.toClient = List.replicate n .FULL ++ .WAIT :: game ∧
      (Server.seatTrace k (serverEvents os) = [] ∧ game = [] ∨
        ∃ m, Server.seatTrace k (serverEvents os) = Server.gameTrace m ∧
          game = Server.seatGame i m) := by
  have hheard := (Heard.run h hwhole hkeeps).hears t conn here
  refine ⟨hheard.2, fun k i c hseat => ?_⟩
  have hinv := Inv.run h
  obtain ⟨hd, -, htalk, -⟩ := (Talks.run h hwhole).exists_talk hinv here
  obtain ⟨n, hn⟩ := htalk.eq_of_wait (wait_mem_replies (List.mem_of_getElem? hseat))
  have hi : i < 2 := by
    have hlt := (List.getElem?_eq_some_iff.1 hseat).1
    rw [hinv.game.seat.length_seatedBy] at hlt
    exact Nat.lt_of_lt_of_le hlt (hinv.game.seat.inv.length_seats_le k)
  refine ⟨n, Server.heardAt i (Server.seatTrace k (serverEvents os)), ?_, ?_⟩
  · rw [hheard.1 k i c hseat, hn]
    simp
  · rcases hinv.game.seatTrace_cases k with hnone | ⟨m, hm⟩
    · exact Or.inl ⟨hnone, by rw [hnone]; rfl⟩
    · exact Or.inr ⟨m, hm, by rw [hm, Server.heardAt_gameTrace hi]⟩

/-- The joiner of the opening, where nobody leaves. -/
theorem heard_of_run_opening : ∃ n game,
    heard 1 State.init opening ++ (openingConn 1).toClient =
      List.replicate n .FULL ++ .WAIT :: game ∧
    (Server.seatTrace (ascii "a\n")
        (serverEvents (machine.outputs State.init opening isSome_opening)) = [] ∧ game = [] ∨
      ∃ m, Server.seatTrace (ascii "a\n")
          (serverEvents (machine.outputs State.init opening isSome_opening)) =
            Server.gameTrace m ∧ game = Server.seatGame 1 m) := by
  have hkeeps : machine.StepsMeet KeepsSeated State.init opening := by
    refine Machine.stepsMeet_of_forall fun l hl s t hleave => ?_
    subst hleave
    simp [opening] at hl
  have hconn : (machine.final State.init opening isSome_opening).conns[1]? =
      some (openingConn 1) := by decide +kernel
  exact (heard_of_run (Machine.run_final isSome_opening) whole_opening hkeeps hconn).2 _ 1 4
    (by decide +kernel)

end

end System

end DesperateStruggle
