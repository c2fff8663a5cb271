import DesperateStruggle.RoomKeys
import DesperateStruggle.System

/-!
# Who is shown the waiting screen

The click on the join button waits for the server's answer before it shows the waiting
screen. The click on the create button shows it at once, and no answer takes it back :
`listenServer` does not know `EXIST`.

So a client may wait for a room it has no seat in, if its `CREATE` finds the password taken.
`CreateFree t` says that the `CREATE` of client `t` does not. In the runs whose steps all meet
it, the waiting screen of client `t` is never wrong (`waitingHonest_of_createFree`).
-/

open CString

namespace DesperateStruggle

namespace System

/-- Once client `t` has sent a request and all answers to it have been processed, it shows the
waiting screen, and no screen with a button, only if it has a seat. -/
def WaitingHonest (s : State) (os : List Event) (t : Nat) : Prop :=
  ∀ conn, s.conns[t]? = some conn → (∃ m, .request t m ∈ os) → conn.toServer = [] →
    (∀ m ∈ conn.toClient, m ≠ .WAIT ∧ m ≠ .EXIST ∧ m ≠ .FULL) →
    conn.client.flags.isCreateRoom = false → conn.client.flags.isJoinRoom = false →
    conn.client.flags.isWaitingScreen = true → Seated s.server t

/-- If the handler of client `t` takes a `CREATE` in this step, its room does not exist. -/
def CreateFree (t : Nat) (s : State) (l : Label) : Prop :=
  ∀ beyond conn m ms k, l = .serve t beyond → s.conns[t]? = some conn →
    conn.toServer = m :: ms → Creates (bufferString (zeros 1024) beyond (piece m)) k →
    s.server.rooms k = none

/-! ## The create button -/

/-- A `CREATE` of a room that does not exist seats its client. -/
theorem seated_of_creates {server server' : Server.State} {os o : List Server.Event} {t : Nat}
    {m beyond : List Byte} {k : Key} (h : Server.SeatInv server os)
    (hstep : Server.step server (.recv t m beyond) = some (server', o))
    (hm : Creates (bufferString (zeros 1024) beyond m) k) (habsent : server.rooms k = none) :
    Seated server' t := by
  obtain ⟨c, here⟩ : ∃ c, server.handlers[t]? = some ⟨c, .recv⟩ := by
    simp only [Server.step] at hstep
    split at hstep
    · next c here => exact ⟨c, here⟩
    · cases hstep
  have hat : Server.SeatsAt server (.recv t m beyond) t c k :=
    ⟨m, beyond, rfl, here, Or.inl ⟨hm, habsent⟩⟩
  have hseat := h.getElem?_seats_new hstep hat
  obtain ⟨hd, ht, hsocket⟩ := Server.SeatInv.keep_socket h.inv hstep here
  refine ⟨hd, k, ht, ?_⟩
  rw [hsocket]
  exact List.mem_iff_getElem?.2 ⟨_, hseat⟩

/-! ## The invariant -/

/-- Client `t` waits with a seat, or with a `CREATE` that the server has yet to take. -/
def WaitInv (t : Nat) (s : State) : Prop :=
  ∀ conn, s.conns[t]? = some conn → conn.client.flags.isWaitingScreen = true →
    Seated s.server t ∨ ∃ p, createRequest p ∈ conn.toServer

section

variable {t : Nat} {s s' : State} {os o : List Event}

/-- A step of a client that does not take the waiting screen for nothing. -/
theorem WaitInv.setConn (h : WaitInv t s) {t' : Nat} {conn' : Conn}
    (hwait : t' = t → conn'.client.flags.isWaitingScreen = true →
      Seated s.server t ∨ ∃ p, createRequest p ∈ conn'.toServer) :
    WaitInv t (s.setConn t' conn') := by
  intro conn₁ ht hw
  rcases getElem?_set ht with ⟨rfl, rfl⟩ | ⟨-, ht⟩
  · exact hwait rfl hw
  · exact h conn₁ ht hw

/-- A step of the server, where client `t` keeps its seat and its `CREATE`s. -/
theorem WaitInv.deliver {server : Server.State} {l : Server.Label} {o : List Server.Event}
    {conns : List Conn} (h : WaitInv t s) (hinv : Inv s os)
    (hmoves : Server.step s.server l = some (server, o))
    (hconns : ∀ conn, conns[t]? = some conn → ∃ conn₀, s.conns[t]? = some conn₀ ∧
      conn.client = conn₀.client ∧
      ∀ p, createRequest p ∈ conn₀.toServer →
        createRequest p ∈ conn.toServer ∨ Seated server t) :
    WaitInv t { server, conns := System.deliver server o conns } := by
  intro conn ht hw
  obtain ⟨conn₁, ht₁, hclient, htoServer, -⟩ := getElem?_deliver ht
  obtain ⟨conn₀, ht₀, hclient₀, hkeep⟩ := hconns conn₁ ht₁
  rw [hclient, hclient₀] at hw
  rcases h conn₀ ht₀ hw with hseated | ⟨p, hp⟩
  · exact Or.inl (hseated.step hinv.game.seat hmoves)
  · rcases hkeep p hp with hp | hseated
    · exact Or.inr ⟨p, htoServer ▸ hp⟩
    · exact Or.inl hseated

/-- Every step in which the `CREATE` of client `t` finds its room free keeps it. -/
theorem WaitInv.step {l : Label} (h : WaitInv t s) (hinv : Inv s os) (hfree : CreateFree t s l)
    (hstep : System.step s l = some (s', o)) : WaitInv t s' := by
  cases step_cases hstep with
  | connect accept =>
    intro conn ht hw
    rcases getElem?_connect ht with ht | rfl
    · exact (h conn ht hw).imp (fun hseated => hseated.step hinv.game.seat accept) id
    · simp at hw
  | @event t' conn e mousePos here =>
    have hreacts := reacts_handleEvent conn.client e mousePos
    refine h.setConn ?_
    rintro rfl hw
    rcases hreacts.waiting hw with hw | ⟨p, hp⟩
    · exact (h conn here hw).imp id fun ⟨p, hp⟩ => ⟨p, List.mem_append_left _ hp⟩
    · exact Or.inr ⟨p, List.mem_append_right _ hp⟩
  | @read l t' conn m toClient client here head reader =>
    have hreads : Reads conn.client client m := by
      rcases reader with ⟨buffer, beyond, -, -, rfl⟩ | ⟨beyond, -, -, rfl⟩
      · exact reads_joinReply conn.client m buffer beyond
      · exact reads_listen conn.client m beyond
    refine h.setConn ?_
    rintro rfl hw
    rcases hreads.waiting hw with hw | rfl
    · exact h conn here hw
    · have hmem : ServerMessage.WAIT ∈ conn.toClient := by simp [head]
      exact Or.inl (hinv.wait _ conn here hmem)
  | @closed l t' conn client here empty exited reader =>
    refine h.setConn ?_
    rintro rfl hw
    rcases reader with ⟨-, rfl⟩ | ⟨-, rfl⟩ <;> exact h conn here hw
  | @serve t' conn m beyond toServer server o₀ here head recv =>
    refine h.deliver hinv recv fun conn' ht => ?_
    rcases getElem?_set ht with ⟨rfl, rfl⟩ | ⟨-, ht⟩
    · refine ⟨conn, here, rfl, fun p hp => ?_⟩
      rw [head] at hp
      rcases List.mem_cons.1 hp with rfl | hp
      · have hk : Creates (bufferString (zeros 1024) beyond (piece (createRequest p))) _ :=
          creates_take p beyond
        have habsent := hfree beyond conn _ _ _ rfl here head hk
        exact Or.inr (seated_of_creates hinv.game.seat recv hk habsent)
      · exact Or.inl (mem_unread hp)
    · exact ⟨conn', ht, rfl, fun p hp => Or.inl hp⟩
  | server label moves =>
    exact h.deliver hinv moves fun conn' ht => ⟨conn', ht, rfl, fun p hp => Or.inl hp⟩

end

/-! ## The waiting screen -/

/-- In every run in which no `CREATE` of client `t` finds its password taken, client `t` shows
the waiting screen only for a seat it has. -/
theorem waitingHonest_of_createFree {ls : List Label} {os : List Event} {s : State}
    (h : machine.Run State.init ls os s) {t : Nat}
    (hfree : machine.StepsMeet (CreateFree t) State.init ls) : WaitingHonest s os t := by
  have hwait : Inv s os ∧ WaitInv t s := by
    refine h.invariant_of_meets (P := fun s os => Inv s os ∧ WaitInv t s) hfree
      ⟨.init, by simp [WaitInv, State.init]⟩ ?_
    intro s os l s' o hboth hmeets hstep
    obtain ⟨hinv, hwait⟩ := hboth
    exact ⟨hinv.step hstep, hwait.step hinv hmeets hstep⟩
  intro conn ht _ hempty _ _ _ hw
  rcases hwait.2 conn ht hw with hseated | ⟨p, hp⟩
  · exact hseated
  · simp [hempty] at hp

/-- A client asks for the room `a\n` through its window. -/
def asking : List Label :=
  [.connect 3, .event 0 .leftPressed (550, 420), .event 0 .leftPressed (450, 420),
    .event 0 (.textEntered 97) (0, 0), .event 0 .leftPressed (550, 520)]

theorem isSome_asking : (machine.exec State.init asking).isSome := by
  decide +kernel

theorem isSome_serve_asking : (machine.exec State.init (asking ++ [.serve 0 []])).isSome := by
  decide +kernel

/-- It gets the room. -/
theorem waitingHonest_asking :
    WaitingHonest (machine.final State.init (asking ++ [.serve 0 []]) isSome_serve_asking)
      (machine.outputs State.init (asking ++ [.serve 0 []]) isSome_serve_asking) 0 := by
  refine waitingHonest_of_createFree (Machine.run_final isSome_serve_asking) ?_
  rw [(Machine.run_final isSome_asking).stepsMeet_snoc]
  constructor
  · refine Machine.stepsMeet_of_forall fun l hl s beyond conn m ms k heq => ?_
    subst heq
    simp [asking] at hl
  · intro beyond conn m ms k _ _ _ _
    rfl

/-- Another client asks for the same room. -/
def rivals : List Label :=
  asking ++ [.serve 0 [], .connect 4, .event 1 .leftPressed (550, 420),
    .event 1 .leftPressed (450, 420), .event 1 (.textEntered 97) (0, 0),
    .event 1 .leftPressed (550, 520), .serve 1 [], .listen 1 []]

theorem isSome_rivals : (machine.exec State.init rivals).isSome := by
  decide +kernel

/-- It is answered `EXIST` and waits all the same. -/
theorem not_waitingHonest_rivals : ¬∀ ls os s t, machine.Run State.init ls os s →
    WaitingHonest s os t := by
  intro hall
  have hrun := Machine.run_final isSome_rivals
  have hevents : serverEvents (machine.outputs State.init rivals isSome_rivals) =
      [(0, .reply (ascii "a\n") 3 .WAIT), (1, .reply (ascii "a\n") 4 .EXIST)] := by
    decide +kernel
  obtain ⟨conn, hconn⟩ : ∃ conn,
      (machine.final State.init rivals isSome_rivals).conns[1]? = some conn :=
    Option.isSome_iff_exists.1 (by decide +kernel)
  have hconn' : conn.toServer = [] ∧ conn.toClient = [] ∧
      conn.client.flags.isCreateRoom = false ∧ conn.client.flags.isJoinRoom = false ∧
      conn.client.flags.isWaitingScreen = true := by
    have hcheck : ((machine.final State.init rivals isSome_rivals).conns[1]?).all (fun conn =>
        conn.toServer = [] ∧ conn.toClient = [] ∧ conn.client.flags.isCreateRoom = false ∧
          conn.client.flags.isJoinRoom = false ∧ conn.client.flags.isWaitingScreen = true) := by
      decide +kernel
    rw [hconn] at hcheck
    simpa using hcheck
  obtain ⟨htoServer, htoClient, hcreate, hjoin, hwaiting⟩ := hconn'
  have hsent : ∃ m, Event.request 1 m ∈ machine.outputs State.init rivals isSome_rivals :=
    ⟨createRequest [97], by decide +kernel⟩
  obtain ⟨hd, k, hhd, hmem⟩ := hall _ _ _ 1 hrun conn hconn hsent htoServer (by simp [htoClient])
    hcreate hjoin hwaiting
  have hhandler : (machine.final State.init rivals isSome_rivals).server.handlers[1]? =
      some ⟨4, .recv⟩ := by
    decide +kernel
  obtain rfl := Option.some.inj (hhandler.symm.trans hhd)
  rw [← (Inv.run hrun).game.seat.log k, hevents] at hmem
  simp [Server.seatedBy] at hmem

end System

end DesperateStruggle
