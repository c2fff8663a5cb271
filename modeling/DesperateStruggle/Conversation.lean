import DesperateStruggle.Asking
import DesperateStruggle.Locality
import DesperateStruggle.Passwords
import DesperateStruggle.RequestProbes
import DesperateStruggle.TurnAgreement

/-!
# The conversation of a connection

A client sends its requests one by one, and its handler answers each with one message, in order.
`Talk` are the conversations there can be : refused `JOIN`s, perhaps ended by an accepted one, or
one `CREATE` with its answer. Every connection of every run is in one of them, and the requests
under way are those that have no answer yet (`talk_of_run`).

So no connection is seated twice, and no client plays against itself (`seated_once`).

All of this is about requests of at most 1024 bytes, which a handler receives whole (`Whole`). The
pieces of a longer one may have an answer each, and a seat (`not_forall_seatedOnce`).
-/

open CString

namespace DesperateStruggle

namespace Server

section

variable {s s' : State} {l : Label} {o : List Event} {t : Nat} {h : Handler} {p beyond : List Byte}

/-- The step of a handler neither moves another one nor replies for it. -/
theorem step_elsewhere {t' : Nat} (hl : actor l = some t') (hstep : step s l = some (s', o))
    (hne : t ≠ t') : s'.handlers[t]? = s.handlers[t]? ∧ replies t o = [] := by
  obtain ⟨h', res, -, -, hres⟩ := exists_act hl hstep
  obtain rfl : (s.resume t' res).1 = s' := congrArg Prod.fst hres
  obtain rfl : (s.resume t' res).2 = o := congrArg Prod.snd hres
  refine ⟨s.getElem?_setControl_of_ne hne, ?_⟩
  exact (replies_map t t' res.2.1).trans (if_neg (Ne.symm hne))

/-- A handler that reads a request gives its answer. -/
theorem step_of_readsAs {m : List Byte} {r : Request}
    (hstep : step s (.recv t m beyond) = some (s', o))
    (hread : readsAs (bufferString (zeros 1024) beyond m) = .ok (some r)) :
    ∃ c, s.handlers[t]? = some ⟨c, .recv⟩ ∧ s.resume t (answer s.rooms c r) = (s', o) := by
  obtain ⟨⟨c, control⟩, res, here, hact, hres⟩ := exists_act rfl hstep
  simp only [act, hread] at hact
  split_ifs at hact with hwaits
  cases hact
  obtain rfl : control = .recv := hwaits.1
  exact ⟨c, here, hres⟩

/-- A `JOIN` of a client is refused, or it leads to the countdown. -/
theorem step_join (hinv : Inv s) (hstep : step s (.recv t (joinRequest p) beyond) = some (s', o)) :
    ∃ c, s.handlers[t]? = some ⟨c, .recv⟩ ∧
      (replies t o = [.FULL] ∧ s'.handlers[t]? = some ⟨c, .recv⟩ ∨
        replies t o = [.WAIT] ∧ s'.handlers[t]? = some ⟨c, .countdown (requestKey p)⟩) := by
  obtain ⟨c, here, hres⟩ := step_of_readsAs hstep (readsAs_of_joins (joins_requestKey p beyond))
  refine ⟨c, here, ?_⟩
  have hcontrol : ∀ control : Control, (s.setControl t control).handlers[t]? = some ⟨c, control⟩ :=
    fun control => s.getElem?_setControl_self here
  have hfull : answer s.rooms c (.join (requestKey p)) =
      (s.rooms, [.reply (requestKey p) c .FULL], .recv) →
      replies t o = [.FULL] ∧ s'.handlers[t]? = some ⟨c, .recv⟩ := by
    intro hanswer
    rw [hanswer] at hres
    obtain ⟨rfl, rfl⟩ := Prod.mk.inj hres
    exact ⟨by simp [replies], hcontrol .recv⟩
  cases hroom : s.rooms (requestKey p) with
  | none => exact Or.inl (hfull (answer_join_of_none hroom))
  | some room =>
    rcases (hinv.room _ room hroom).seats with hone | htwo
    · obtain ⟨q, hq⟩ := List.length_eq_one_iff.1 hone
      rw [answer_join_of_one hroom hq] at hres
      obtain ⟨rfl, rfl⟩ := Prod.mk.inj hres
      exact Or.inr ⟨by simp [replies], hcontrol _⟩
    · exact Or.inl (hfull (answer_join_of_two hroom htwo))

/-- A `CREATE` of a client is answered, and its handler goes on reading. -/
theorem step_create (hstep : step s (.recv t (createRequest p) beyond) = some (s', o)) :
    ∃ c, s.handlers[t]? = some ⟨c, .recv⟩ ∧ s'.handlers[t]? = some ⟨c, .recv⟩ ∧
      (replies t o = [.EXIST] ∨ replies t o = [.WAIT]) := by
  obtain ⟨c, here, hres⟩ :=
    step_of_readsAs hstep (readsAs_of_creates (creates_requestKey p beyond))
  have hcontrol : (s.setControl t .recv).handlers[t]? = some ⟨c, .recv⟩ :=
    s.getElem?_setControl_self here
  cases hroom : s.rooms (requestKey p) with
  | none =>
    rw [answer_create_of_none hroom] at hres
    obtain ⟨rfl, rfl⟩ := Prod.mk.inj hres
    exact ⟨c, here, hcontrol, Or.inr (by simp [replies])⟩
  | some room =>
    rw [answer_create_of_some hroom] at hres
    obtain ⟨rfl, rfl⟩ := Prod.mk.inj hres
    exact ⟨c, here, hcontrol, Or.inl (by simp [replies])⟩

/-- A handler whose connection ends says nothing more. -/
theorem step_disconnect (hstep : step s (.disconnect t) = some (s', o)) :
    ∃ c, s.handlers[t]? = some ⟨c, .recv⟩ ∧ s'.handlers[t]? = some ⟨c, .exited⟩ ∧ o = [] := by
  simp only [step] at hstep
  split at hstep
  · next c here =>
    cases hstep
    exact ⟨c, here, s.getElem?_setControl_self here, rfl⟩
  · cases hstep

/-- Messages to seats are no replies. -/
theorem ToSeats.replies_eq {k : Key} {players : List Socket} {sends : List Sent}
    (h : ToSeats k players sends) (t t' : Nat) : replies t (sends.map (t', ·)) = [] := by
  refine List.filterMap_eq_nil_iff.2 fun e he => ?_
  obtain ⟨e', he', rfl⟩ := List.mem_map.1 he
  obtain ⟨i, q, m, -, rfl⟩ := h e' he'
  rfl

/-- A handler that plays goes on playing, and replies to nobody. -/
theorem step_wake (hinv : Inv s) (hlives : FullLives s) (hstep : step s (.wake t) = some (s', o)) :
    ∃ c control k, s.handlers[t]? = some ⟨c, control⟩ ∧ control.Plays k ∧
      s'.handlers[t]? = some ⟨c, .game k⟩ ∧ replies t o = [] := by
  cases hinv.cases hstep with
  | @start _ c k room sends here found turn =>
    refine ⟨c, _, k, here, Or.inl rfl, s.getElem?_setControl_self here, ?_⟩
    exact ((ToSeats.broadcast k room.players .START).append (.turnMessages turn)).replies_eq t t
  | @turn _ c k room sends here found goesOn turn =>
    refine ⟨c, _, k, here, Or.inr rfl, s.getElem?_setControl_self here, ?_⟩
    exact ToSeats.replies_eq (.turnMessages turn) t t
  | finish here found isOver => exact (hlives.not_over found isOver).elim
  | exit here label => simp at label

end

/-- Every player was seated once. -/
structure SeatedOnce (s : State) (os : List Event) : Prop where
  players : ∀ k, (seatedBy k os).map Prod.snd = s.seats k
  /-- The players of a room were seated by different connections. -/
  distinct : ∀ k, ((seatedBy k os).map Prod.fst).Nodup
  /-- No connection has seats in two rooms. -/
  room : ∀ k k' t c c', (t, c) ∈ seatedBy k os → (t, c') ∈ seatedBy k' os → k = k'

/-- The seats are told apart by their connections. -/
theorem SeatedOnce.seat {s : State} {os : List Event} {k k' : Key} {i i' t : Nat} {c c' : Socket}
    (h : SeatedOnce s os) (hi : (seatedBy k os)[i]? = some (t, c))
    (hi' : (seatedBy k' os)[i']? = some (t, c')) : k = k' ∧ i = i' := by
  obtain rfl := h.room k k' t c c' (List.mem_of_getElem? hi) (List.mem_of_getElem? hi')
  have hfst : ∀ {j : Nat} {c : Socket}, (seatedBy k os)[j]? = some (t, c) →
      ((seatedBy k os).map Prod.fst)[j]? = some t := by
    intro j c hj
    rw [List.getElem?_map, hj]
    rfl
  have hlt : i < ((seatedBy k os).map Prod.fst).length :=
    (List.getElem?_eq_some_iff.1 (hfst hi)).1
  exact ⟨rfl, (List.getElem?_inj hlt (h.distinct k)).1 ((hfst hi).trans (hfst hi').symm)⟩

end Server

namespace System

variable {s s' : State} {ls : List Label} {l : Label} {os o : List Event} {t : Nat} {conn : Conn}

/-! ## Requests and replies -/

/-- A request fits the buffer of its handler. -/
def Event.fits : Event → Bool
  | .request _ bytes => bytes.length ≤ 1024
  | .server _ => true

/-- Every request fits the buffer of its handler, which receives it whole. -/
def Whole (os : List Event) : Prop :=
  os.all Event.fits = true

theorem Whole.of_append (h : Whole (os ++ o)) : Whole os := by
  rw [Whole, List.all_append, Bool.and_eq_true] at h
  exact h.1

theorem Whole.length_le {m : List Byte} (h : Whole os) (hm : m ∈ requestsOf t os) :
    m.length ≤ 1024 := by
  obtain ⟨e, he, hsent⟩ := List.mem_filterMap.1 hm
  have hfits := List.all_eq_true.1 h e he
  cases e with
  | request t' bytes =>
    simp only at hsent
    split_ifs at hsent
    exact Option.some.inj hsent ▸ of_decide_eq_true hfits
  | server e => cases hsent

/-- What a connection has asked for, what it was answered, and where its handler waits. -/
inductive Talk : List (List Byte) → List ServerMessage → Control → Prop
  /-- The `JOIN`s so far were refused. -/
  | refused (passwords : List (List Byte)) (n : Nat) (le : n ≤ passwords.length)
      {control : Control} (idle : control = .recv ∨ control = .exited) :
      Talk (passwords.map joinRequest) (List.replicate n .FULL) control
  /-- One was accepted, and the handler plays the game. -/
  | joined (passwords : List (List Byte)) (n : Nat) (lt : n < passwords.length) {k : Key}
      {control : Control} (plays : control.Plays k) :
      Talk (passwords.map joinRequest) (List.replicate n .FULL ++ [.WAIT]) control
  /-- A `CREATE`, before or after its answer. -/
  | create (password : List Byte) {answers : List ServerMessage}
      (answered : answers = [] ∨ answers = [.EXIST] ∨ answers = [.WAIT])
      {control : Control} (idle : control = .recv ∨ control = .exited) :
      Talk [createRequest password] answers control

namespace Talk

variable {asked more : List (List Byte)} {answers : List ServerMessage} {control : Control}

/-- What is asked are requests. -/
theorem request {m : List Byte} (h : Talk asked answers control) (hm : m ∈ asked) :
    ∃ p, m = createRequest p ∨ m = joinRequest p := by
  cases h with
  | refused passwords | joined passwords =>
    obtain ⟨p, -, rfl⟩ := List.mem_map.1 hm
    exact ⟨p, Or.inr rfl⟩
  | create password => exact ⟨password, Or.inl (List.mem_singleton.1 hm)⟩

/-- No request has two answers. -/
theorem length_le (h : Talk asked answers control) : answers.length ≤ asked.length := by
  cases h with
  | refused passwords n le => simpa using le
  | joined passwords n lt =>
    simp only [List.length_append, List.length_replicate, List.length_singleton, List.length_map]
    exact lt
  | create password answered =>
    rcases answered with rfl | rfl | rfl <;> simp

/-- No connection is accepted twice. -/
theorem count_wait_le (h : Talk asked answers control) : answers.count .WAIT ≤ 1 := by
  cases h with
  | refused passwords n => simp [List.count_replicate]
  | joined passwords n => simp [List.count_replicate]
  | create password answered =>
    rcases answered with rfl | rfl | rfl <;> simp

/-- What comes before the acceptance are refusals. -/
theorem eq_of_wait (h : Talk asked answers control) (hwait : .WAIT ∈ answers) :
    ∃ n, answers = List.replicate n .FULL ++ [.WAIT] := by
  cases h with
  | refused passwords n => simp [List.mem_replicate] at hwait
  | joined passwords n => exact ⟨n, rfl⟩
  | create password answered =>
    rcases answered with rfl | rfl | rfl
    · simp at hwait
    · simp at hwait
    · exact ⟨0, rfl⟩

/-- Nothing is answered after the acceptance. -/
theorem eq_nil_of_wait {answers' : List ServerMessage}
    (h : Talk asked (answers ++ answers') control) (hwait : .WAIT ∈ answers) : answers' = [] := by
  obtain ⟨n, hn⟩ := h.eq_of_wait (List.mem_append_left _ hwait)
  rcases List.eq_nil_or_concat answers' with hnil | ⟨before, last, rfl⟩
  · exact hnil
  · rw [List.concat_eq_append, ← List.append_assoc] at hn
    obtain ⟨hfull, -⟩ := List.append_inj' hn rfl
    have hmem : ServerMessage.WAIT ∈ List.replicate n ServerMessage.FULL :=
      hfull ▸ List.mem_append_left _ hwait
    simp [List.mem_replicate] at hmem

/-- The client asks for more, as far as its screens let it. -/
theorem ask (h : Talk asked answers control) (hasks : Client.Asks (asked ++ more)) :
    Talk (asked ++ more) answers control := by
  have hhead : ∀ {p p' : List Byte} {ms ms' : List (List Byte)},
      createRequest p :: ms ≠ joinRequest p' :: ms' := fun heq =>
    Client.createRequest_ne_joinRequest _ _ (List.cons.inj heq).1
  generalize hall : asked ++ more = all at hasks ⊢
  cases hasks with
  | join passwords' =>
    cases h with
    | refused passwords n le idle =>
      have hlen := congrArg List.length hall
      simp only [List.length_append, List.length_map] at hlen
      exact .refused passwords' n (by omega) idle
    | joined passwords n lt plays =>
      have hlen := congrArg List.length hall
      simp only [List.length_append, List.length_map] at hlen
      exact .joined passwords' n (by omega) plays
    | create password answered idle =>
      cases passwords' with
      | nil => cases hall
      | cons p' passwords' => exact (hhead hall).elim
  | create password' =>
    cases h with
    | refused passwords n le idle =>
      cases passwords with
      | nil =>
        obtain rfl : n = 0 := Nat.le_zero.1 le
        exact .create password' (Or.inl rfl) idle
      | cons p passwords => exact (hhead hall.symm).elim
    | joined passwords n lt plays =>
      cases passwords with
      | nil => exact (Nat.not_lt_zero n lt).elim
      | cons p passwords => exact (hhead hall.symm).elim
    | create password answered idle =>
      obtain ⟨hpassword, -⟩ := List.cons.inj hall
      exact hpassword ▸ .create password answered idle

/-- The handler returns. -/
theorem leave (h : Talk asked answers .recv) : Talk asked answers .exited := by
  cases h with
  | refused passwords n le => exact .refused passwords n le (Or.inr rfl)
  | joined passwords n lt plays => exact (Server.Inv.not_plays_recv plays).elim
  | create password answered => exact .create password answered (Or.inr rfl)

/-- The handler goes on with the game. -/
theorem play {k k' : Key} (h : Talk asked answers control) (hplays : control.Plays k)
    {control' : Control} (hplays' : control'.Plays k') : Talk asked answers control' := by
  have hnot : ¬(control = .recv ∨ control = .exited) := by
    rintro (rfl | rfl) <;> rcases hplays with h | h <;> cases h
  cases h with
  | refused passwords n le idle => exact (hnot idle).elim
  | joined passwords n lt plays => exact .joined passwords n lt hplays'
  | create password answered idle => exact (hnot idle).elim

/-- The next request reaches the handler, which answers it once. -/
theorem answer {server server' : Server.State} {o : List Server.Event} {hd : Server.Handler}
    {m beyond : List Byte} {rest : List (List Byte)} (h : Talk asked answers hd.control)
    (hnext : asked.drop answers.length = m :: rest) (hinv : Server.Inv server)
    (here : server.handlers[t]? = some hd)
    (recv : Server.step server (.recv t m beyond) = some (server', o)) :
    ∃ hd', server'.handlers[t]? = some hd' ∧
      Talk asked (answers ++ Server.replies t o) hd'.control ∧
        (Server.replies t o).length = 1 := by
  cases h with
  | refused passwords n le idle =>
    rw [List.length_replicate, ← List.map_drop] at hnext
    obtain ⟨p, ps, hdrop, rfl, -⟩ := List.map_eq_cons_iff.1 hnext
    have hlt : n < passwords.length := by
      by_contra hge
      rw [List.drop_eq_nil_of_le (Nat.not_lt.1 hge)] at hdrop
      cases hdrop
    obtain ⟨c, -, ⟨hreply, here'⟩ | ⟨hreply, here'⟩⟩ := Server.step_join hinv recv
    · refine ⟨_, here', ?_, by simp [hreply]⟩
      rw [hreply, ← List.replicate_succ']
      exact .refused passwords (n + 1) hlt (Or.inl rfl)
    · refine ⟨_, here', ?_, by simp [hreply]⟩
      rw [hreply]
      exact .joined passwords n hlt (Or.inl rfl)
  | joined passwords n lt plays =>
    rw [Server.control_of_recv recv here] at plays
    exact (Server.Inv.not_plays_recv plays).elim
  | create password answered idle =>
    obtain rfl : answers = [] := by
      rcases answered with h | rfl | rfl
      · exact h
      · cases hnext
      · cases hnext
    obtain rfl : createRequest password = m := (List.cons.inj hnext).1
    obtain ⟨c, -, here', hreply | hreply⟩ := Server.step_create recv
    · exact ⟨_, here', .create password (Or.inr (Or.inl hreply)) (Or.inl rfl), by simp [hreply]⟩
    · exact ⟨_, here', .create password (Or.inr (Or.inr hreply)) (Or.inl rfl), by simp [hreply]⟩

end Talk

/-- Every connection is in a conversation, and the requests under way are those without an
answer. -/
structure Talks (s : State) (os : List Event) : Prop where
  talk : ∀ (t : Nat) (conn : Conn) (hd : Server.Handler), s.conns[t]? = some conn →
    s.server.handlers[t]? = some hd →
    Talk (requestsOf t os) (Server.replies t (serverEvents os)) hd.control ∧
      conn.toServer = (requestsOf t os).drop (Server.replies t (serverEvents os)).length
  fresh : ∀ t, s.conns.length ≤ t → Server.replies t (serverEvents os) = []

namespace Talks

theorem init : Talks State.init [] where
  talk := by simp [State.init]
  fresh _ _ := rfl

/-- A client asks, or reads. -/
theorem setConn {conn' : Conn} (requests : List (List Byte)) (h : Talks s os)
    (here : s.conns[t]? = some conn) (htoServer : conn'.toServer = conn.toServer ++ requests)
    (hasks : Client.Asks (requestsOf t os ++ requests)) :
    Talks (s.setConn t conn') (os ++ requests.map (.request t)) := by
  refine ⟨fun t' conn₁ hd ht' hhd => ?_, fun t' hle => ?_⟩
  · rw [requestsOf_append, requestsOf_request, serverEvents_append, serverEvents_request,
      List.append_nil]
    rcases getElem?_set ht' with ⟨rfl, rfl⟩ | ⟨hne, ht'⟩
    · obtain ⟨htalk, hunder⟩ := h.talk _ conn hd here hhd
      rw [if_pos rfl]
      refine ⟨htalk.ask hasks, ?_⟩
      rw [htoServer, hunder, List.drop_append_of_le_length htalk.length_le]
    · rw [if_neg (Ne.symm hne), List.append_nil]
      exact h.talk t' conn₁ hd ht' hhd
  · rw [serverEvents_append, serverEvents_request, List.append_nil]
    exact h.fresh t' (by simpa [State.setConn] using hle)

/-- Handler `t` moves, and the conversation of its connection goes on. -/
theorem deliver {server : Server.State} {l₀ : Server.Label} {o : List Server.Event}
    {conns : List Conn} (h : Talks s os) (hinv : Inv s os) (hl : Server.actor l₀ = some t)
    (hmoves : Server.step s.server l₀ = some (server, o)) (hlen : conns.length = s.conns.length)
    (hconns : ∀ t', t' ≠ t → conns[t']? = s.conns[t']?)
    (htalk : ∀ conn hd, conns[t]? = some conn → server.handlers[t]? = some hd →
      Talk (requestsOf t os) (Server.replies t (serverEvents os) ++ Server.replies t o)
          hd.control ∧
        conn.toServer = (requestsOf t os).drop
          (Server.replies t (serverEvents os) ++ Server.replies t o).length) :
    Talks { server, conns := System.deliver server o conns } (os ++ o.map .server) := by
  refine ⟨fun t' conn hd ht' hhd => ?_, fun t' hle => ?_⟩
  · obtain ⟨conn₀, ht₀, -, htoServer, -⟩ := getElem?_deliver ht'
    rw [requestsOf_append, requestsOf_server, serverEvents_append, serverEvents_server,
      List.append_nil, Server.replies_append, htoServer]
    by_cases hne : t' = t
    · subst hne
      exact htalk conn₀ hd ht₀ hhd
    · obtain ⟨hsame, hsilent⟩ := Server.step_elsewhere hl hmoves hne
      rw [hsilent, List.append_nil]
      exact h.talk t' conn₀ hd (hconns t' hne ▸ ht₀) (hsame ▸ hhd)
  · have hle' : s.conns.length ≤ t' := by simpa [System.deliver, hlen] using hle
    have hlt : t < s.server.handlers.length := Server.lt_of_step hl (by rw [hmoves]; rfl)
    have hne : t' ≠ t := by
      rintro rfl
      rw [← hinv.length] at hlt
      omega
    rw [serverEvents_append, serverEvents_server, Server.replies_append, h.fresh t' hle',
      (Server.step_elsewhere hl hmoves hne).2, List.append_nil]

theorem exists_talk (h : Talks s os) (hinv : Inv s os) (here : s.conns[t]? = some conn) :
    ∃ hd, s.server.handlers[t]? = some hd ∧
      Talk (requestsOf t os) (Server.replies t (serverEvents os)) hd.control ∧
      conn.toServer = (requestsOf t os).drop (Server.replies t (serverEvents os)).length := by
  have hlt : t < s.server.handlers.length := by
    rw [← hinv.length]
    exact (List.getElem?_eq_some_iff.1 here).1
  exact ⟨_, List.getElem?_eq_getElem hlt, h.talk t conn _ here (List.getElem?_eq_getElem hlt)⟩

/-- What is under way to a handler was asked. -/
theorem asked {m : List Byte} (h : Talks s os) (hinv : Inv s os) (here : s.conns[t]? = some conn)
    (hm : m ∈ conn.toServer) :
    m ∈ requestsOf t os ∧ ∃ p, m = createRequest p ∨ m = joinRequest p := by
  obtain ⟨hd, -, htalk, hunder⟩ := h.exists_talk hinv here
  rw [hunder] at hm
  have hasked := List.mem_of_mem_drop hm
  exact ⟨hasked, htalk.request hasked⟩

/-- A request reaches its handler, which answers it. -/
theorem serve {m beyond : List Byte} {toServer : List (List Byte)} {server : Server.State}
    {o : List Server.Event} (h : Talks s os) (hinv : Inv s os) (hwhole : Whole os)
    (here : s.conns[t]? = some conn) (head : conn.toServer = m :: toServer)
    (recv : Server.step s.server (.recv t (piece m) beyond) = some (server, o)) :
    Talks { server
            conns := System.deliver server o
              (s.conns.set t { conn with toServer := unread m toServer }) }
      (os ++ o.map .server) := by
  have hfits : m.length ≤ 1024 := hwhole.length_le (h.asked hinv here (by simp [head])).1
  rw [piece_of_le hfits] at recv
  rw [unread_of_le hfits]
  refine h.deliver hinv rfl recv (List.length_set ..)
    (fun t' hne => List.getElem?_set_ne (Ne.symm hne)) fun conn' hd ht hhd => ?_
  obtain rfl : { conn with toServer } = conn' := by
    rw [List.getElem?_set_self (List.getElem?_eq_some_iff.1 here).1] at ht
    exact Option.some.inj ht
  obtain ⟨hd₀, hhere, htalk, hunder⟩ := h.exists_talk hinv here
  rw [head] at hunder
  obtain ⟨hd', hhd', htalk', hone⟩ := htalk.answer hunder.symm hinv.game.seat.inv hhere recv
  obtain rfl := Option.some.inj (hhd.symm.trans hhd')
  refine ⟨htalk', ?_⟩
  rw [List.length_append, hone, ← List.drop_drop, ← hunder]
  rfl

/-- Every step goes on with the conversations. -/
theorem step (h : Talks s os) (hinv : Inv s os) (hsession : InSession s os) (hwhole : Whole os)
    (hstep : System.step s l = some (s', o)) : Talks s' (os ++ o) := by
  have hsession' := hsession.step hstep
  cases step_cases hstep with
  | @connect c server o₀ accept =>
    obtain ⟨-, rfl, rfl⟩ := Server.step_accept_eq_some.1 accept
    rw [List.append_nil]
    refine ⟨fun t conn hd ht hhd => ?_, fun t hle => ?_⟩
    · rw [List.getElem?_append] at ht
      rcases s.server.getElem?_accept.1 hhd with hhd | ⟨rfl, rfl⟩
      · have hlt := (List.getElem?_eq_some_iff.1 hhd).1
        rw [← hinv.length] at hlt
        rw [if_pos hlt] at ht
        exact h.talk t conn hd ht hhd
      · rw [if_neg (by rw [hinv.length]; exact Nat.lt_irrefl _)] at ht
        obtain rfl := List.mem_singleton.1 (List.mem_of_getElem? ht)
        have hlen : s.conns.length ≤ s.server.handlers.length := hinv.length.le
        rw [hsession.fresh _ hlen, h.fresh _ hlen]
        exact ⟨.refused [] 0 le_rfl (Or.inl rfl), rfl⟩
    · exact h.fresh t (Nat.le_of_succ_le (by simpa using hle))
  | @event t conn e mousePos here windowOpen notJoining =>
    refine h.setConn _ here rfl ?_
    have hlt := (List.getElem?_eq_some_iff.1 here).1
    obtain ⟨ls', hrun⟩ := hsession'.session t _ (List.getElem?_set_self hlt)
    rw [requestsOf_append, requestsOf_request, if_pos rfl] at hrun
    exact Client.asks_of_run hrun
  | @read l t conn m toClient client here head reader =>
    obtain ⟨ls', hrun⟩ := hsession.session t conn here
    exact h.setConn [] here (List.append_nil _).symm
      (by rw [List.append_nil]; exact Client.asks_of_run hrun)
  | @closed l t conn client here empty exited reader =>
    obtain ⟨ls', hrun⟩ := hsession.session t conn here
    exact h.setConn [] here (List.append_nil _).symm
      (by rw [List.append_nil]; exact Client.asks_of_run hrun)
  | serve here head recv => exact h.serve hinv hwhole here head recv
  | @server l t l₀ server o₀ label moves =>
    have hactor : Server.actor l₀ = some t := by
      rcases label with ⟨-, rfl⟩ | ⟨-, rfl⟩ <;> rfl
    refine h.deliver hinv hactor moves rfl (fun _ _ => rfl) fun conn hd' ht hhd' => ?_
    obtain ⟨hd, hhere, htalk, hunder⟩ := h.exists_talk hinv ht
    suffices hmoved : Server.replies t o₀ = [] ∧
        Talk (requestsOf t os) (Server.replies t (serverEvents os)) hd'.control by
      rw [hmoved.1, List.append_nil]
      exact ⟨hmoved.2, hunder⟩
    rcases label with ⟨-, rfl⟩ | ⟨-, rfl⟩
    · obtain ⟨c, here, here', rfl⟩ := Server.step_disconnect moves
      obtain rfl := Option.some.inj (hhd'.symm.trans here')
      rw [Option.some.inj (hhere.symm.trans here)] at htalk
      exact ⟨rfl, htalk.leave⟩
    · obtain ⟨c, control, k, here, hplays, here', hsilent⟩ :=
        Server.step_wake hinv.game.seat.inv hinv.game.lives moves
      obtain rfl := Option.some.inj (hhd'.symm.trans here')
      rw [Option.some.inj (hhere.symm.trans here)] at htalk
      exact ⟨hsilent, htalk.play hplays (Or.inr rfl)⟩

theorem run (h : machine.Run State.init ls os s) (hwhole : Whole os) : Talks s os := by
  have hall : (Inv s os ∧ InSession s os) ∧ (Whole os → Talks s os) :=
    h.invariant (P := fun s os => (Inv s os ∧ InSession s os) ∧ (Whole os → Talks s os))
      ⟨⟨.init, .init⟩, fun _ => .init⟩ fun _ _ _ _ _ ⟨⟨hi, hsession⟩, htalks⟩ hs =>
        ⟨⟨hi.step hs, hsession.step hs⟩, fun hwhole' =>
          (htalks hwhole'.of_append).step hi hsession hwhole'.of_append hs⟩
  exact hall.2 hwhole

end Talks

/-- In every run whose requests are received whole, each connection is in one of the conversations,
its requests are answered in the order they were sent, and those without an answer are under way. -/
theorem talk_of_run (h : machine.Run State.init ls os s) (hwhole : Whole os)
    (here : s.conns[t]? = some conn) :
    ∃ hd, s.server.handlers[t]? = some hd ∧
      Talk (requestsOf t os) (Server.replies t (serverEvents os)) hd.control ∧
      conn.toServer = (requestsOf t os).drop (Server.replies t (serverEvents os)).length :=
  (Talks.run h hwhole).exists_talk (Inv.run h) here

/-- The requests of the opening are short. -/
theorem whole_opening : Whole (machine.outputs State.init opening isSome_opening) := by
  rw [Whole]
  decide +kernel

/-- The client that has joined the room `a\n`. -/
theorem talk_of_run_opening : ∃ hd,
    (machine.final State.init opening isSome_opening).server.handlers[1]? = some hd ∧
    Talk (requestsOf 1 (machine.outputs State.init opening isSome_opening))
      (Server.replies 1 (serverEvents (machine.outputs State.init opening isSome_opening)))
      hd.control ∧
    (openingConn 1).toServer =
      (requestsOf 1 (machine.outputs State.init opening isSome_opening)).drop
        (Server.replies 1
          (serverEvents (machine.outputs State.init opening isSome_opening))).length :=
  talk_of_run (Machine.run_final isSome_opening) whole_opening (by decide +kernel)

/-! ## One seat for each connection -/

/-- The rooms that handler `t` was answered `WAIT` for. -/
def waits (t : Nat) (os : List Server.Event) : List Key :=
  os.filterMap fun
    | (t', .reply k _ .WAIT) => if t' = t then some k else none
    | _ => none

theorem length_waits (t : Nat) (os : List Server.Event) :
    (waits t os).length = (Server.replies t os).count .WAIT := by
  induction os with
  | nil => rfl
  | cons e os ih =>
    obtain ⟨t', sent⟩ := e
    simp only [waits, Server.replies, List.filterMap_cons] at ih ⊢
    cases sent with
    | reply k p m =>
      by_cases ht : t' = t
      · cases m <;> simp [ht, ih]
      · cases m <;> simpa only [ht, if_false] using ih
    | seat k i p m => exact ih

/-- As often as handler `t` was seated in room `k`. -/
theorem count_waits (t : Nat) (k : Key) (os : List Server.Event) :
    ((Server.seatedBy k os).map Prod.fst).count t = (waits t os).count k := by
  induction os with
  | nil => rfl
  | cons e os ih =>
    obtain ⟨t', sent⟩ := e
    simp only [waits, Server.seatedBy, List.filterMap_cons] at ih ⊢
    cases sent with
    | reply k' p m =>
      cases m with
      | WAIT => by_cases ht : t' = t <;> by_cases hk : k' = k <;> simp [ht, hk, ih]
      | _ => exact ih
    | seat k' i p m => exact ih

theorem mem_waits {t : Nat} {k : Key} {c : Socket} {os : List Server.Event}
    (h : (t, c) ∈ Server.seatedBy k os) : k ∈ waits t os := by
  rw [← List.count_pos_iff, ← count_waits, List.count_pos_iff]
  exact List.mem_map.2 ⟨_, h, rfl⟩

/-- Whoever has a seat was answered `WAIT`. -/
theorem wait_mem_replies {t : Nat} {k : Key} {c : Socket} {os : List Server.Event}
    (h : (t, c) ∈ Server.seatedBy k os) : .WAIT ∈ Server.replies t os := by
  rw [← List.count_pos_iff, ← length_waits]
  exact List.length_pos_of_mem (mem_waits h)

theorem Talks.seatedOnce (htalks : Talks s os) (hinv : Inv s os) :
    Server.SeatedOnce s.server (serverEvents os) := by
  have hone : ∀ t, (waits t (serverEvents os)).length ≤ 1 := by
    intro t
    rw [length_waits]
    rcases Nat.lt_or_ge t s.conns.length with hlt | hle
    · obtain ⟨hd, -, htalk, -⟩ := htalks.exists_talk hinv (List.getElem?_eq_getElem hlt)
      exact htalk.count_wait_le
    · simp [htalks.fresh t hle]
  refine ⟨hinv.game.seat.log, fun k => ?_, fun k k' t c c' hseat hseat' => ?_⟩
  · rw [List.nodup_iff_count_le_one]
    intro t
    rw [count_waits]
    exact List.count_le_length.trans (hone t)
  · have hk := mem_waits hseat
    have hk' := mem_waits hseat'
    obtain ⟨k₀, hk₀⟩ := List.length_eq_one_iff.1
      (Nat.le_antisymm (hone t) (List.length_pos_of_mem hk))
    rw [hk₀, List.mem_singleton] at hk hk'
    exact hk.trans hk'.symm

/-- A password whose end, behind what the buffer holds, reads as a `JOIN` of its own room. -/
def doubled : List Byte :=
  List.replicate 1017 97 ++ ascii "JOIN aaaa"

/-- A client asks for a room with it through its window, and its handler reads both pieces. -/
def doubling : List Label :=
  [.connect 3, .event 0 .leftPressed (550, 420), .event 0 .leftPressed (450, 420)] ++
    doubled.map (fun b => .event 0 (.textEntered b.toUInt32) (0, 0)) ++
    [.event 0 .leftPressed (550, 520), .serve 0 [], .serve 0 []]

/-- It is not so of a longer request : one client may have both seats of a room. -/
theorem not_forall_seatedOnce : ¬∀ ls os s, machine.Run State.init ls os s →
    Server.SeatedOnce s.server (serverEvents os) := by
  intro hall
  have hseats : (machine.exec State.init doubling).map (fun r =>
      (Server.seatedBy (ascii "aaaa") (serverEvents r.2)).map Prod.fst) = some [0, 0] := by
    decide +kernel
  obtain ⟨⟨s, os⟩, hexec, hboth⟩ := Option.map_eq_some_iff.1 hseats
  have hdistinct := (hall _ _ _ (Machine.run_of_exec hexec)).distinct (ascii "aaaa")
  rw [hboth] at hdistinct
  exact absurd hdistinct (by decide)

end System

end DesperateStruggle
