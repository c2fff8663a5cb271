import DesperateStruggle.Hearing
import DesperateStruggle.WaitingScreen

/-!
# What the two players of a room agree on

Where every request is received whole, whoever sits in a room has asked for it : the first player
with a `CREATE`, the second with a `JOIN`, and both passwords lead to the key of the room
(`paired_of_run`). As long as no seated client's connection ends, a client that believes that the
game has started has an opponent, another open connection, to which `START` was sent as well
(`started_of_run`).

No request is stuck behind another : as long as the handler reads, the requests under way can be
served one after the other, and each is answered once (`exists_run_serve`).
-/

open CString

namespace DesperateStruggle

namespace System

/-! ## Players have asked for their room -/

/-- Connection `t` has asked for seat `i` of room `k`. -/
def AskedSeat (os : List Event) (k : Key) (i t : Nat) : Prop :=
  ∃ p, requestKey p = k ∧
    (i = 0 ∧ createRequest p ∈ requestsOf t os ∨ i = 1 ∧ joinRequest p ∈ requestsOf t os)

section

variable {s s' : State} {ls : List Label} {l : Label} {os o : List Event} {t u i : Nat}
  {conn : Conn} {c d : Socket} {k : Key}

theorem AskedSeat.mono (h : AskedSeat os k i t) (o : List Event) : AskedSeat (os ++ o) k i t := by
  obtain ⟨p, hp, hasked⟩ := h
  refine ⟨p, hp, hasked.imp (And.imp id fun hm => ?_) (And.imp id fun hm => ?_)⟩ <;>
    rw [requestsOf_append] <;> exact List.mem_append_left _ hm

/-- A request that is accepted asks for the seat it is given. -/
theorem AskedSeat.of_accepted {server : Server.State} {m beyond : List Byte}
    (hinv : Server.SeatInv server (serverEvents os))
    (hm : ∃ p, m = createRequest p ∨ m = joinRequest p) (hasked : m ∈ requestsOf t os)
    (haccepted : Server.Accepted server.rooms (bufferString (zeros 1024) beyond m) k) :
    AskedSeat os k (server.seats k).length t := by
  obtain ⟨p, rfl | rfl⟩ := hm
  · have hcreates := creates_requestKey p beyond
    rcases haccepted with ⟨hk, habsent⟩ | ⟨hk, -⟩
    · refine ⟨p, hcreates.key_unique hk, Or.inl ⟨?_, hasked⟩⟩
      simp [Server.State.seats, habsent]
    · exact (hcreates.not_joins hk).elim
  · have hjoins := joins_requestKey p beyond
    rcases haccepted with ⟨hk, -⟩ | ⟨hk, room, hroom, hlt⟩
    · exact (hk.not_joins hjoins).elim
    · refine ⟨p, hjoins.key_unique hk, Or.inr ⟨?_, hasked⟩⟩
      have hseats := (hinv.inv.room k room hroom).seats
      simp only [Server.State.seats, hroom]
      omega

/-- Everybody with a seat has asked for it. -/
def SeatsAsked (os : List Event) : Prop :=
  ∀ k i t c, (Server.seatedBy k (serverEvents os))[i]? = some (t, c) → AskedSeat os k i t

/-- A step of the server. -/
theorem SeatsAsked.deliver {server : Server.State} {l₀ : Server.Label} {o : List Server.Event}
    (h : SeatsAsked os) (hinv : Server.SeatInv s.server (serverEvents os))
    (hmoves : Server.step s.server l₀ = some (server, o))
    (hasked : ∀ t c k, Server.SeatsAt s.server l₀ t c k →
      AskedSeat os k (s.server.seats k).length t) :
    SeatsAsked (os ++ o.map .server) := by
  intro k i t c hseat
  rw [serverEvents_append, serverEvents_server, Server.seatedBy_append] at hseat
  refine AskedSeat.mono ?_ _
  rw [List.getElem?_append] at hseat
  split_ifs at hseat with hlt
  · exact h k i t c hseat
  · rcases hinv.inv.seating hmoves with ⟨-, hnone⟩ | ⟨t₀, c₀, k₀, hat, hseats⟩
    · simp [(hnone k).2] at hseat
    · rw [(hseats k).2] at hseat
      split_ifs at hseat with hk
      · subst hk
        rw [List.getElem?_singleton] at hseat
        split_ifs at hseat with hi
        obtain ⟨rfl, rfl⟩ := Prod.mk.inj (Option.some.inj hseat)
        have heq : i = (s.server.seats k).length := by
          rw [← hinv.length_seatedBy]
          omega
        exact heq ▸ hasked _ _ _ hat
      · simp at hseat

theorem SeatsAsked.step (h : SeatsAsked os) (hinv : Inv s os) (hwhole : Whole os)
    (htalks : Talks s os) (hstep : System.step s l = some (s', o)) : SeatsAsked (os ++ o) := by
  have hrequests : ∀ {requests : List (List Byte)} {t : Nat},
      SeatsAsked (os ++ requests.map (.request t)) := by
    intro requests t k i t' c hseat
    rw [serverEvents_append, serverEvents_request, List.append_nil] at hseat
    exact (h k i t' c hseat).mono _
  cases step_cases hstep with
  | connect accept =>
    rw [List.append_nil]
    exact h
  | event => exact hrequests
  | read | closed =>
    rw [List.append_nil]
    exact h
  | @serve t conn m beyond toServer server o₀ here head recv =>
    refine h.deliver hinv.game.seat recv fun t' c k hat => ?_
    obtain ⟨chunk, beyond', hl, -, haccepted⟩ := hat
    cases hl
    obtain ⟨hasked, hm⟩ := htalks.asked hinv here (by simp [head] : m ∈ conn.toServer)
    rw [piece_of_le (hwhole.length_le hasked)] at haccepted
    exact .of_accepted hinv.game.seat hm hasked haccepted
  | @server l t l₀ server o₀ label moves =>
    refine h.deliver hinv.game.seat moves fun t' c k hat => ?_
    refine (Server.not_seatsAt ?_ _ _ _ hat).elim
    rcases label with ⟨-, rfl⟩ | ⟨-, rfl⟩ <;> simp

theorem SeatsAsked.run (h : machine.Run State.init ls os s) (hwhole : Whole os) :
    SeatsAsked os := by
  induction h with
  | nil => simp [SeatsAsked, serverEvents]
  | snoc hrun hstep ih =>
    have hwhole₀ := hwhole.of_append
    exact (ih hwhole₀).step (Inv.run hrun) hwhole₀ (Talks.run hrun hwhole₀) hstep

/-- Whoever has a seat is one of the clients. -/
theorem Inv.exists_conn (h : Inv s os) (hseat : (t, c) ∈ Server.seatedBy k (serverEvents os)) :
    ∃ conn, s.conns[t]? = some conn := by
  obtain ⟨hd, hhd, -⟩ := h.game.seat.sockets k t c hseat
  have hlt := (List.getElem?_eq_some_iff.1 hhd).1
  rw [← h.length] at hlt
  exact ⟨_, List.getElem?_eq_getElem hlt⟩

end

/-! ## Both have been sent the start -/

/-- A game of which a `START` is heard has gone beyond its countdown. -/
theorem exists_succ_of_start {i m : Nat} (h : .START ∈ Server.seatGame i m) : ∃ n, m = n + 1 := by
  cases m with
  | zero => simp [Server.seatGame] at h
  | succ n => exact ⟨n, rfl⟩

section

variable {s s' : State} {ls : List Label} {l : Label} {os o : List Event} {t u i : Nat}
  {conn : Conn} {c d : Socket} {k : Key}

/-- A client that believes that the game has started has read `START`. -/
def StartsHeard (s : State) (read : Nat → List ServerMessage) : Prop :=
  ∀ (t : Nat) (conn : Conn), s.conns[t]? = some conn → conn.client.flags.isGameStart = true →
    .START ∈ read t

/-- No window event starts the game. -/
theorem isGameStart_handleEvent (cl : Client) (e : Client.Event) (mousePos : Int × Int) :
    (cl.handleEvent e mousePos).1.flags.isGameStart = cl.flags.isGameStart := by
  have hmoves := Client.navigates_handleEvent cl e mousePos
  generalize (cl.handleEvent e mousePos).1.flags = f', (cl.handleEvent e mousePos).1.joining = j,
    (cl.handleEvent e mousePos).2 = o at hmoves ⊢
  cases hmoves <;> rfl

/-- A message that starts the game is `START`. -/
theorem eq_start_of_reads {cl client : Client} {m : ServerMessage}
    (hreader : (∃ buffer beyond, client = cl.joinReply (bufferString buffer beyond m.bytes)) ∨
      ∃ beyond, client = cl.listen (bufferString (zeros 1024) beyond m.bytes))
    (hstart : client.flags.isGameStart = true) : cl.flags.isGameStart = true ∨ m = .START := by
  rcases hreader with ⟨buffer, beyond, rfl⟩ | ⟨beyond, rfl⟩
  · unfold Client.joinReply at hstart
    split_ifs at hstart <;> exact Or.inl hstart
  · simp only [Client.listen, Client.onMessage_bytes] at hstart
    split_ifs at hstart with hwait hm
    · exact Or.inl hstart
    · exact Or.inr hm
    · exact Or.inl hstart

theorem StartsHeard.step {read : Nat → List ServerMessage} (h : StartsHeard s read)
    (hstep : System.step s l = some (s', o)) :
    StartsHeard s' fun t => read t ++ reading t s l := by
  have hold : ∀ {t : Nat} {conn : Conn}, s.conns[t]? = some conn →
      conn.client.flags.isGameStart = true → .START ∈ read t ++ reading t s l :=
    fun ht hstart => List.mem_append_left _ (h _ _ ht hstart)
  have hset : ∀ {t t' : Nat} {conn conn' conn₁ : Conn}, s.conns[t]? = some conn →
      (s.setConn t conn').conns[t']? = some conn₁ →
      (conn'.client.flags.isGameStart = true → conn.client.flags.isGameStart = true ∨
        .START ∈ reading t s l) →
      conn₁.client.flags.isGameStart = true → .START ∈ read t' ++ reading t' s l := by
    intro t t' conn conn' conn₁ here ht' hnew hstart
    rcases getElem?_set ht' with ⟨rfl, rfl⟩ | ⟨-, ht'⟩
    · rcases hnew hstart with hstart | hmem
      · exact hold here hstart
      · exact List.mem_append_right _ hmem
    · exact hold ht' hstart
  cases step_cases hstep with
  | connect =>
    intro t conn ht hstart
    rcases getElem?_connect ht with ht | rfl
    · exact hold ht hstart
    · cases hstart
  | @event t₀ conn₀ e mousePos here =>
    intro t conn ht hstart
    refine hset here ht (fun hnew => Or.inl ?_) hstart
    rwa [isGameStart_handleEvent] at hnew
  | @read l t₀ conn₀ m toClient client here head reader =>
    intro t conn ht hstart
    refine hset here ht (fun hnew => ?_) hstart
    have hreader : (∃ buffer beyond,
          client = conn₀.client.joinReply (bufferString buffer beyond m.bytes)) ∨
        ∃ beyond, client = conn₀.client.listen (bufferString (zeros 1024) beyond m.bytes) := by
      rcases reader with ⟨buffer, beyond, -, -, heq⟩ | ⟨beyond, -, -, heq⟩
      exacts [Or.inl ⟨buffer, beyond, heq⟩, Or.inr ⟨beyond, heq⟩]
    refine (eq_start_of_reads hreader hnew).imp id ?_
    rintro rfl
    rcases reader with ⟨_, _, rfl, -⟩ | ⟨_, rfl, -⟩ <;> simp [reading, here, head]
  | @closed l t₀ conn₀ client here empty exited reader =>
    intro t conn ht hstart
    refine hset here ht (fun hnew => Or.inl ?_) hstart
    rcases reader with ⟨-, rfl⟩ | ⟨-, rfl⟩ <;> exact hnew
  | @serve t₀ conn₀ m beyond toServer server o₀ here head recv =>
    intro t conn ht hstart
    obtain ⟨conn₁, ht₁, hclient, -⟩ := getElem?_deliver ht
    rw [hclient] at hstart
    exact hset here ht₁ Or.inl hstart
  | server label moves =>
    intro t conn ht hstart
    obtain ⟨conn₁, ht₁, hclient, -⟩ := getElem?_deliver ht
    rw [hclient] at hstart
    exact hold ht₁ hstart

theorem StartsHeard.run (h : machine.Run State.init ls os s) :
    StartsHeard s fun t => heard t State.init ls := by
  induction h with
  | nil => simp [StartsHeard, State.init]
  | snoc hrun hstep ih => simpa only [heard, hrun.observe_snoc] using ih.step hstep

/-- No answer is `START`. -/
theorem Talk.start_not_mem {asked : List (List Byte)} {answers : List ServerMessage}
    {control : Control} (h : Talk asked answers control) : .START ∉ answers := by
  cases h with
  | refused passwords n => simp [List.mem_replicate]
  | joined passwords n => simp [List.mem_replicate]
  | create password answered => rcases answered with rfl | rfl | rfl <;> simp

/-- Messages go to the seats of full rooms only. -/
theorem length_seats_of_trace {server : Server.State} {os : List Server.Event}
    (h : Server.GameInv server os) (hsent : Server.seatTrace k os ≠ []) :
    (server.seats k).length = 2 := by
  cases hroom : server.rooms k with
  | none => exact (hsent (h.empty k hroom)).elim
  | some room =>
    rcases (h.seat.inv.room k room hroom).seats with hone | htwo
    · exact (hsent (h.lone k room hroom hone).2).elim
    · simpa [Server.State.seats, hroom] using htwo

/-- A client that hears `START` has a seat in a game that has started. -/
theorem Hears.started {server : Server.State} {os : List Server.Event} {ms : List ServerMessage}
    (h : Hears os t ms) (hinv : Server.GameInv server os) (hstart : .START ∈ ms)
    (hanswers : .START ∉ Server.replies t os) : ∃ k i c n, i < 2 ∧
      (Server.seatedBy k os)[i]? = some (t, c) ∧
      Server.seatTrace k os = Server.gameTrace (n + 1) := by
  by_cases hseat : ∃ k c, (t, c) ∈ Server.seatedBy k os
  · obtain ⟨k, c, hmem⟩ := hseat
    obtain ⟨i, hi⟩ := List.mem_iff_getElem?.1 hmem
    rw [h.1 k i c hi] at hstart
    have hgame := (List.mem_append.1 hstart).resolve_left hanswers
    rcases hinv.seatTrace_cases k with hnone | ⟨m, hm⟩
    · rw [hnone] at hgame
      cases hgame
    · have hlt : i < 2 := by
        have hlt := (List.getElem?_eq_some_iff.1 hi).1
        rw [hinv.seat.length_seatedBy] at hlt
        exact Nat.lt_of_lt_of_le hlt (hinv.seat.inv.length_seats_le k)
      rw [hm, Server.heardAt_gameTrace hlt] at hgame
      obtain ⟨n, rfl⟩ := exists_succ_of_start hgame
      exact ⟨k, i, c, n, hlt, hi, hm⟩
  · rw [h.2 fun k c hmem => hseat ⟨k, c, hmem⟩] at hstart
    exact (hanswers hstart).elim

/-- In every run whose requests are received whole and in which no seated client's connection ends,
a client that believes that the game has started has a seat, and an opponent in the other seat of
the room : another client, whose connection is open, and which has read `START` or will find it
among the messages under way. -/
theorem started_of_run (h : machine.Run State.init ls os s) (hwhole : Whole os)
    (hkeeps : machine.StepsMeet KeepsSeated State.init ls) (here : s.conns[t]? = some conn)
    (hstart : conn.client.flags.isGameStart = true) : ∃ k i c u d conn', i < 2 ∧ u ≠ t ∧
      (Server.seatedBy k (serverEvents os))[i]? = some (t, c) ∧
      (Server.seatedBy k (serverEvents os))[1 - i]? = some (u, d) ∧ s.server.Open u d ∧
      s.conns[u]? = some conn' ∧ .START ∈ heard u State.init ls ++ conn'.toClient := by
  have hheard := Heard.run h hwhole hkeeps
  have hinv := (Inv.run h).game
  have htalks := Talks.run h hwhole
  obtain ⟨hd, -, htalk, -⟩ := htalks.exists_talk (Inv.run h) here
  have hmem : .START ∈ heard t State.init ls ++ conn.toClient :=
    List.mem_append_left _ (StartsHeard.run h t conn here hstart)
  obtain ⟨k, i, c, n, hlt, hseat, htrace⟩ :=
    (hheard.hears t conn here).started hinv hmem htalk.start_not_mem
  have hsent : Server.seatTrace k (serverEvents os) ≠ [] := by
    rw [htrace]
    simp [Server.gameTrace, Server.toBoth]
  have hother : (s.server.seats k)[1 - i]? = some _ :=
    List.getElem?_eq_getElem (by rw [length_seats_of_trace hinv hsent]; omega)
  obtain ⟨u, hu, hopen⟩ := hheard.live k (1 - i) _ hother
  obtain ⟨conn', hconn'⟩ := (Inv.run h).exists_conn (List.mem_of_getElem? hu)
  refine ⟨k, i, c, u, _, conn', hlt, ?_, hseat, hu, hopen, hconn', ?_⟩
  · rintro rfl
    have heq := ((htalks.seatedOnce (Inv.run h)).seat hseat hu).2
    omega
  · rw [(hheard.hears u conn' hconn').1 k _ _ hu, htrace,
      Server.heardAt_gameTrace (by omega)]
    exact List.mem_append_right _ (by simp [Server.seatGame])

/-- The joiner of the opening has read `START`, and the creator too. -/
theorem started_of_run_opening : ∃ k i c u d conn', i < 2 ∧ u ≠ 1 ∧
    (Server.seatedBy k
      (serverEvents (machine.outputs State.init opening isSome_opening)))[i]? = some (1, c) ∧
    (Server.seatedBy k
      (serverEvents (machine.outputs State.init opening isSome_opening)))[1 - i]? = some (u, d) ∧
    (machine.final State.init opening isSome_opening).server.Open u d ∧
    (machine.final State.init opening isSome_opening).conns[u]? = some conn' ∧
    .START ∈ heard u State.init opening ++ conn'.toClient := by
  have hkeeps : machine.StepsMeet KeepsSeated State.init opening := by
    refine Machine.stepsMeet_of_forall fun l hl s t hleave => ?_
    subst hleave
    simp [opening] at hl
  have hconn : (machine.final State.init opening isSome_opening).conns[1]? =
      some (openingConn 1) := by decide +kernel
  exact started_of_run (Machine.run_final isSome_opening) whole_opening hkeeps hconn
    (by decide +kernel)

/-! ## Requests are answered -/

/-- The next request of a connection reaches its handler, which receives it whole. -/
theorem step_serve {client : Client} {m beyond : List Byte} {toServer : List (List Byte)}
    {toClient : List ServerMessage} {server : Server.State} {o : List Server.Event}
    (here : s.conns[t]? = some ⟨client, m :: toServer, toClient⟩)
    (recv : Server.step s.server (.recv t m beyond) = some (server, o)) :
    System.step s (.serve t beyond) = some (⟨server, System.deliver server o
      (s.conns.set t ⟨client, toServer, toClient⟩)⟩, o.map .server) := by
  have hfits := Server.length_le_of_recv recv
  simp only [System.step, here, piece_of_le hfits, unread_of_le hfits, runServer,
    State.server_setConn, recv]
  rfl

/-- A connection to which the server has sent. -/
theorem getElem?_deliver_of (server : Server.State) (o : List Server.Event) {conns : List Conn}
    (here : conns[t]? = some conn) : (System.deliver server o conns)[t]? =
      some { conn with toClient := conn.toClient ++ inbox server o t } := by
  simp [System.deliver, here]

/-- Handler `t` reads the next request of its connection, answers it once, and goes on reading or
begins the game. -/
theorem exists_serve {m : List Byte} {rest : List (List Byte)} (hinv : Inv s os)
    (here : s.conns[t]? = some conn) (hnext : conn.toServer = m :: rest)
    (hhd : s.server.handlers[t]? = some ⟨c, .recv⟩) (hlen : m.length ≤ 1024)
    (hm : ∃ p, m = createRequest p ∨ m = joinRequest p) :
    ∃ s' o conn' control, System.step s (.serve t []) = some (s', o) ∧
      (Server.replies t (serverEvents o)).length = 1 ∧ s'.conns[t]? = some conn' ∧
      conn'.toServer = rest ∧ s'.server.handlers[t]? = some ⟨c, control⟩ ∧
      (control = .recv ∨ ∃ k, control = .countdown k) := by
  obtain ⟨p, hm⟩ := hm
  have hread : ∃ r, Server.readsAs (bufferString (zeros 1024) [] m) = .ok (some r) := by
    rcases hm with rfl | rfl
    · exact ⟨_, Server.readsAs_of_creates (creates_requestKey p [])⟩
    · exact ⟨_, Server.readsAs_of_joins (joins_requestKey p [])⟩
  have hpos : 1 ≤ m.length := by
    rcases hm with rfl | rfl
    · exact Nat.le_trans (by decide : 1 ≤ (ascii "CREATE ").length) (by simp [createRequest])
    · exact Nat.le_trans (by decide : 1 ≤ (ascii "JOIN ").length) (by simp [joinRequest])
  obtain ⟨r, hr⟩ := hread
  obtain ⟨server, o, hstep⟩ :
      ∃ server o, Server.step s.server (.recv t m []) = some (server, o) := by
    rw [Server.step_eq_act rfl hhd]
    simp only [Server.act, hr, hpos, hlen, and_self, if_true]
    exact ⟨_, _, rfl⟩
  have hanswer : (Server.replies t o).length = 1 ∧ ∃ control,
      server.handlers[t]? = some ⟨c, control⟩ ∧
      (control = .recv ∨ ∃ k, control = .countdown k) := by
    rcases hm with rfl | rfl
    · obtain ⟨c', hc', here', hreply⟩ := Server.step_create hstep
      obtain rfl : c = c' := by simpa using hhd.symm.trans hc'
      exact ⟨by rcases hreply with h | h <;> simp [h], _, here', Or.inl rfl⟩
    · obtain ⟨c', hc', ⟨hreply, here'⟩ | ⟨hreply, here'⟩⟩ :=
        Server.step_join hinv.game.seat.inv hstep <;>
        obtain rfl : c = c' := by simpa using hhd.symm.trans hc'
      · exact ⟨by simp [hreply], _, here', Or.inl rfl⟩
      · exact ⟨by simp [hreply], _, here', Or.inr ⟨_, rfl⟩⟩
  obtain ⟨hone, control, hcontrol, hnextControl⟩ := hanswer
  obtain ⟨client, toServer, toClient⟩ := conn
  obtain rfl : toServer = m :: rest := hnext
  have hlt := (List.getElem?_eq_some_iff.1 here).1
  exact ⟨_, _, _, control, step_serve here hstep, by rwa [serverEvents_server],
    getElem?_deliver_of _ _ (List.getElem?_set_self hlt), rfl, hcontrol, hnextControl⟩

/-- In every reachable state, the requests under way of a connection whose handler reads requests
can be served one after the other, if they are whole and fit the buffer. Each is answered once,
until there are none left or one of them is accepted and the game begins. -/
theorem exists_run_serve (h : machine.Run State.init ls os s) (here : s.conns[t]? = some conn)
    (hhd : s.server.handlers[t]? = some ⟨c, .recv⟩)
    (hfits : ∀ m ∈ conn.toServer,
      m.length ≤ 1024 ∧ ∃ p, m = createRequest p ∨ m = joinRequest p) : ∃ n os' s' conn' control,
      machine.Run s (List.replicate n (.serve t [])) os' s' ∧
      (Server.replies t (serverEvents os')).length = n ∧ s'.conns[t]? = some conn' ∧
      s'.server.handlers[t]? = some ⟨c, control⟩ ∧
      (control = .recv ∧ conn'.toServer = [] ∨ ∃ k, control = .countdown k) := by
  generalize hunder : conn.toServer = under at hfits
  induction under generalizing ls os s conn with
  | nil => exact ⟨0, [], s, conn, .recv, .nil, rfl, here, hhd, Or.inl ⟨rfl, hunder⟩⟩
  | cons m rest ih =>
    obtain ⟨s₁, o, conn₁, control, hstep, hone, here₁, hrest, hhd₁, hcontrol⟩ :=
      exists_serve (Inv.run h) here hunder hhd (hfits m (by simp)).1 (hfits m (by simp)).2
    have hstep : machine.step s (.serve t []) = some (s₁, o) := hstep
    rcases hcontrol with rfl | ⟨k, rfl⟩
    · obtain ⟨n, os', s', conn', control, hrun, hanswers, here', hhd', hend⟩ :=
        ih (h.snoc hstep) here₁ hhd₁ hrest fun m' hm' => hfits m' (by simp [hm'])
      refine ⟨n + 1, o ++ os', s', conn', control, hrun.head hstep, ?_, here', hhd', hend⟩
      rw [serverEvents_append, Server.replies_append, List.length_append, hone, hanswers,
        Nat.add_comm]
    · exact ⟨1, o, s₁, conn₁, _, .single hstep, hone, here₁, hhd₁, Or.inr ⟨k, rfl⟩⟩

/-- The `CREATE` of the room `a\n`. -/
theorem exists_run_serve_asking : ∃ n os' s' conn' control,
    machine.Run (machine.final State.init asking isSome_asking)
      (List.replicate n (.serve 0 [])) os' s' ∧
    (Server.replies 0 (serverEvents os')).length = n ∧ s'.conns[0]? = some conn' ∧
    s'.server.handlers[0]? = some ⟨3, control⟩ ∧
    (control = .recv ∧ conn'.toServer = [] ∨ ∃ k, control = .countdown k) := by
  obtain ⟨conn, hconn, hunder⟩ : ∃ conn,
      (machine.final State.init asking isSome_asking).conns[0]? = some conn ∧
        conn.toServer = [createRequest (ascii "a")] := by
    refine ⟨((machine.final State.init asking isSome_asking).conns[0]?).getD {}, ?_, ?_⟩ <;>
      decide +kernel
  refine exists_run_serve (Machine.run_final isSome_asking) hconn (by decide +kernel) ?_
  rw [hunder]
  simp only [List.mem_singleton, forall_eq]
  exact ⟨by decide, _, Or.inl rfl⟩

end

end System

end DesperateStruggle
