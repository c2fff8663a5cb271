import DesperateStruggle.Footprint
import DesperateStruggle.RequestProbes
import DesperateStruggle.Seats
import DesperateStruggle.Traces

/-!
# The steps of different rooms

What a handler does in a step is an operation on the table (`act`), and its footprint is the room
that its message names or that it plays (`actsOn_act`). So steps of two handlers in different rooms
commute (`commutes_independent`), and the order in which they are taken does not matter : a
reordered run leads to the same state, each handler sends the same messages in the same order, and
so does each room (`run_of_reorder`).
-/

open CString

namespace DesperateStruggle

open Footprint

/-- The room a message is on behalf of. -/
def Sent.room : Sent → Key
  | reply password _ _ => password
  | seat password _ _ _ => password

namespace Server

/-! ## Operations on the table -/

/-- What a handler does in a step, as an operation on the table. -/
def act (h : Handler) : Label → Rooms → Option (Rooms × List Sent × Control)
  | .accept _, _ => none
  | .recv _ chunk beyond, rooms =>
    if h.control = .recv ∧ 1 ≤ chunk.length ∧ chunk.length ≤ 1024 then
      match readsAs (bufferString (zeros 1024) beyond chunk) with
      | .ok (some r) => some (answer rooms h.clientSocket r)
      | .ok none => some (rooms, [], .recv)
      | .error _ => some (rooms, [], .exited)
    else none
  | .disconnect _, rooms => if h.control = .recv then some (rooms, [], .exited) else none
  | .wake _, rooms =>
    match h.control with
    | .countdown password => startGame rooms password
    | .game password => nextTurn rooms password
    | _ => none

/-- The handler that a step belongs to. -/
def actor : Label → Option Nat
  | .accept _ => none
  | .recv t _ _ => some t
  | .disconnect t => some t
  | .wake t => some t

/-- The room that a step of a handler is about : the one its message names, or the one it plays. -/
def footprint (h : Handler) : Label → Set Key
  | .recv _ chunk beyond =>
    {k | ∃ r : Request, readsAs (bufferString (zeros 1024) beyond chunk) = .ok (some r) ∧
      r.password = k}
  | .wake _ => {k | h.control.Plays k}
  | _ => ∅

section

variable {s s' : State} {l : Label} {o : List Event} {t : Nat} {h h₀ : Handler} {c : Socket}
  {k : Key} {K : Set Key}

theorem readsAs_of_creates {m : List Byte} {k : Key} (h : Creates m k) :
    readsAs m = .ok (some (.create k)) := by
  simp [readsAs, h.1, h.2, Except.map]

theorem readsAs_of_joins {m : List Byte} {k : Key} (h : Joins m k) :
    readsAs m = .ok (some (.join k)) := by
  simp [readsAs, h.not_startsWith_create, h.1, h.2, Except.map]

/-- A step of a handler is what it does to the table. -/
theorem step_eq_act (hl : actor l = some t) (here : s.handlers[t]? = some h) :
    step s l = (act h l s.rooms).map (s.resume t) := by
  obtain ⟨c, control⟩ := h
  cases l with
  | accept c' => cases hl
  | recv t' chunk beyond =>
    obtain rfl := Option.some.inj hl
    cases control with
    | recv =>
      simp only [step, here, act, true_and]
      split_ifs with hlen
      · rw [handleMessage_eq]
        rcases readsAs (bufferString (zeros 1024) beyond chunk) with e | (- | r) <;> rfl
      · rfl
    | _ => simp [step, here, act]
  | disconnect t' =>
    obtain rfl := Option.some.inj hl
    cases control with
    | recv =>
      simp only [step, here, act, if_true]
      rfl
    | _ => simp [step, here, act]
  | wake t' =>
    obtain rfl := Option.some.inj hl
    cases control <;> simp [step, here, act]

/-- The state after a step of a handler. -/
theorem exists_act (hl : actor l = some t) (hstep : step s l = some (s', o)) :
    ∃ h res, s.handlers[t]? = some h ∧ act h l s.rooms = some res ∧ s.resume t res = (s', o) := by
  cases here : s.handlers[t]? with
  | none =>
    have hnone : step s l = none := by
      cases l with
      | accept c => cases hl
      | recv | disconnect | wake =>
        obtain rfl := Option.some.inj hl
        simp [step, here]
    simp [hnone] at hstep
  | some h =>
    rw [step_eq_act hl here] at hstep
    obtain ⟨res, hres, heq⟩ := Option.map_eq_some_iff.1 hstep
    exact ⟨h, res, rfl, hres, heq⟩

/-- A handler that receives waits for requests. -/
theorem control_of_recv {m beyond : List Byte} (hstep : step s (.recv t m beyond) = some (s', o))
    (here : s.handlers[t]? = some h) : h.control = .recv := by
  obtain ⟨h', res, here', hact, -⟩ := exists_act rfl hstep
  obtain rfl := Option.some.inj (here.symm.trans here')
  simp only [act] at hact
  split_ifs at hact with hwaits
  exact hwaits.1

/-! ## Footprints -/

theorem contains_congr {m₁ m₂ : Rooms} (hk : k ∈ K) (h : Set.EqOn m₁ m₂ K) :
    m₁.contains k = m₂.contains k := by
  rw [Rooms.contains, Rooms.contains, h hk]

theorem subscript_congr {m₁ m₂ : Rooms} (hk : k ∈ K) (h : Set.EqOn m₁ m₂ K) :
    m₁.subscript k = m₂.subscript k := by
  rw [Rooms.subscript, Rooms.subscript, h hk]

/-- A `CREATE` acts on its room. -/
theorem actsOn_handleCreate (c : Socket) (hk : k ∈ K) :
    ActsOn K fun rooms => some (handleCreate rooms c k) := by
  have hassign : ActsOn K fun rooms : Rooms =>
      some (rooms.assign k { password := k, players := [c] },
        ([.reply k c .WAIT] : List Sent), Control.recv) :=
    .entry hk (fun _ => some (some { password := k, players := [c] }, [.reply k c .WAIT], .recv))
      fun _ => rfl
  have hite := ActsOn.ite (p := fun rooms : Rooms => rooms.contains k = true)
    (fun heq => by rw [contains_congr hk heq])
    (.const (([.reply k c .EXIST] : List Sent), Control.recv)) hassign
  refine hite.of_eq fun rooms => ?_
  unfold handleCreate
  split_ifs <;> rfl

/-- A `JOIN` acts on its room. -/
theorem actsOn_handleJoin (c : Socket) (hk : k ∈ K) :
    ActsOn K fun rooms => some (handleJoin rooms c k) := by
  have hpush : ActsOn K fun rooms : Rooms =>
      some (rooms.assign k ((rooms.subscript k).pushBack c),
        if ((rooms.subscript k).pushBack c).players.length = 2 then
          (.reply k c .WAIT :: broadcast k ((rooms.subscript k).pushBack c).players .COUNTDOWN,
            Control.countdown k)
        else ([.reply k c .WAIT], .recv)) :=
    .entry hk (fun entry => some (some ((entry.getD default).pushBack c),
      if ((entry.getD default).pushBack c).players.length = 2 then
        (.reply k c .WAIT :: broadcast k ((entry.getD default).pushBack c).players .COUNTDOWN,
          .countdown k)
      else ([.reply k c .WAIT], .recv))) fun _ => rfl
  have hite := ActsOn.ite
    (p := fun rooms : Rooms => (rooms.contains k && (rooms.subscript k).players.length < 2) = true)
    (fun heq => by rw [contains_congr hk heq, subscript_congr hk heq]) hpush
    (.const (([.reply k c .FULL] : List Sent), Control.recv))
  refine hite.of_eq fun rooms : Rooms => ?_
  by_cases hfree : (rooms.contains k && (rooms.subscript k).players.length < 2) = true
  · simp only [handleJoin, if_pos hfree, Rooms.modify, Rooms.subscript_assign]
    split_ifs <;> rfl
  · simp only [handleJoin, if_neg hfree]

/-- The first turn of a game acts on its room. -/
theorem actsOn_startGame (hk : k ∈ K) : ActsOn K fun rooms => startGame rooms k := by
  refine .entry hk (fun entry => (turnMessages k (entry.getD default)).map fun sends =>
    (some (entry.getD default), broadcast k (entry.getD default).players .START ++ sends,
      .game k)) fun rooms : Rooms => ?_
  have htouch : (rooms.touch k).touch k = rooms.touch k := Rooms.touch_of_some Rooms.assign_self
  have hroom : (rooms.touch k).subscript k = rooms.subscript k := Rooms.subscript_assign
  simp only [startGame, takeTurn, htouch, hroom, Option.map_map]
  rfl

/-- A turn acts on the room of its game. -/
theorem actsOn_nextTurn (hk : k ∈ K) : ActsOn K fun rooms => nextTurn rooms k := by
  refine .entry hk (fun entry =>
    if (entry.getD default).passTurn.isOver then
      some (some (entry.getD default).passTurn, broadcast k (entry.getD default).passTurn.players
        (entry.getD default).passTurn.result, .recv)
    else (turnMessages k (entry.getD default).passTurn).map fun sends =>
      (some (entry.getD default).passTurn, sends, .game k)) fun rooms : Rooms => ?_
  have htouch : (rooms.modify k Room.passTurn).touch k = rooms.modify k Room.passTurn :=
    Rooms.touch_of_some Rooms.assign_self
  have hroom : (rooms.modify k Room.passTurn).subscript k = (rooms.subscript k).passTurn :=
    Rooms.subscript_assign
  simp only [nextTurn, takeTurn, htouch, hroom]
  change _ = Option.map _ (if (rooms.subscript k).passTurn.isOver = true then _ else _)
  split_ifs
  · rfl
  · rw [Option.map_map]
    rfl

/-- What a handler does in a step acts on the room that the step is about. -/
theorem actsOn_act (h : Handler) (l : Label) : ActsOn (footprint h l) (act h l) := by
  cases l with
  | accept c => exact .fail
  | recv t chunk beyond =>
    by_cases hwaits : h.control = .recv ∧ 1 ≤ chunk.length ∧ chunk.length ≤ 1024
    · rcases hread : readsAs (bufferString (zeros 1024) beyond chunk) with e | (- | r)
      · exact (ActsOn.const _).of_eq fun rooms => by rw [act, if_pos hwaits, hread]
      · exact (ActsOn.const _).of_eq fun rooms => by rw [act, if_pos hwaits, hread]
      · have hk : r.password ∈ footprint h (.recv t chunk beyond) := ⟨r, hread, rfl⟩
        have hanswer : ActsOn (footprint h (.recv t chunk beyond)) fun rooms =>
            some (answer rooms h.clientSocket r) := by
          cases r with
          | create k => exact actsOn_handleCreate h.clientSocket hk
          | join k => exact actsOn_handleJoin h.clientSocket hk
        exact hanswer.of_eq fun rooms => by rw [act, if_pos hwaits, hread]
    · exact ActsOn.fail.of_eq fun rooms => by rw [act, if_neg hwaits]
  | disconnect t =>
    by_cases hwaits : h.control = .recv
    · exact (ActsOn.const _).of_eq fun rooms => by rw [act, if_pos hwaits]
    · exact ActsOn.fail.of_eq fun rooms => by rw [act, if_neg hwaits]
  | wake t =>
    obtain ⟨c, control⟩ := h
    cases control with
    | recv | exited => exact .fail
    | countdown k => exact actsOn_startGame (Or.inl rfl)
    | game k => exact actsOn_nextTurn (Or.inr rfl)

/-! ## What is sent -/

theorem ToSeats.room_eq {players : List Socket} {sends : List Sent} (h : ToSeats k players sends) :
    ∀ e ∈ sends, e.room = k := by
  intro e he
  obtain ⟨i, p, m, -, rfl⟩ := h e he
  rfl

/-- The answer to a request is on behalf of the room it names. -/
theorem room_answer {rooms : Rooms} (c : Socket) (r : Request) :
    ∀ e ∈ (answer rooms c r).2.1, e.room = r.password := by
  cases r with
  | create k =>
    simp only [answer, handleCreate]
    split_ifs <;> simp [Sent.room, Request.password]
  | join k =>
    have hcast : ∀ players : List Socket, ∀ e ∈ broadcast k players .COUNTDOWN, e.room = k :=
      fun players => (ToSeats.broadcast k players .COUNTDOWN).room_eq
    simp only [answer, handleJoin]
    split_ifs
    · rintro e he
      rcases List.mem_cons.1 he with rfl | he
      · rfl
      · exact hcast _ e he
    · simp [Sent.room, Request.password]
    · simp [Sent.room, Request.password]

theorem room_takeTurn {rooms : Rooms} {res : Rooms × List Sent × Control}
    (h : takeTurn rooms k = some res) : ∀ e ∈ res.2.1, e.room = k := by
  obtain ⟨sends, hsends, rfl⟩ := Option.map_eq_some_iff.1 h
  exact (ToSeats.turnMessages hsends).room_eq

/-- What a handler sends in a step is on behalf of the room that the step is about. -/
theorem room_act {rooms : Rooms} {res : Rooms × List Sent × Control}
    (h : act h₀ l rooms = some res) : ∀ e ∈ res.2.1, e.room ∈ footprint h₀ l := by
  cases l with
  | accept c => cases h
  | recv t chunk beyond =>
    simp only [act] at h
    split_ifs at h with hwaits
    split at h
    · next r hread =>
      cases h
      exact fun e he => ⟨r, hread, (room_answer h₀.clientSocket r e he).symm⟩
    · cases h
      simp
    · cases h
      simp
  | disconnect t =>
    simp only [act] at h
    split_ifs at h with hwaits
    cases h
    simp
  | wake t =>
    obtain ⟨c, control⟩ := h₀
    cases control with
    | recv | exited => cases h
    | countdown k =>
      obtain ⟨res', hturn, rfl⟩ := Option.map_eq_some_iff.1 h
      intro e he
      rcases List.mem_append.1 he with he | he
      · exact Or.inl (by rw [(ToSeats.broadcast _ _ _).room_eq e he])
      · exact Or.inl (by rw [room_takeTurn hturn e he])
    | game k =>
      simp only [act, nextTurn] at h
      split_ifs at h
      · cases h
        exact fun e he => Or.inr (by rw [(ToSeats.broadcast _ _ _).room_eq e he])
      · exact fun e he => Or.inr (by rw [room_takeTurn h e he])

/-! ## Independent steps -/

/-- The rooms that a step is about. -/
def State.about (s : State) (l : Label) : Set Key :=
  {k | ∃ t h, actor l = some t ∧ s.handlers[t]? = some h ∧ k ∈ footprint h l}

theorem footprint_subset_about (hl : actor l = some t) (here : s.handlers[t]? = some h) :
    footprint h l ⊆ s.about l :=
  fun _ hk => ⟨t, h, hl, here, hk⟩

/-- Both steps can be taken, they are not of one handler or both new connections, and they are
about different rooms. -/
structure Independent (s : State) (l l' : Label) : Prop where
  enabled : (step s l').isSome
  actor_ne : actor l ≠ actor l'
  rooms : Disjoint (s.about l) (s.about l')

/-- Messages whose order matters : they are sent by one handler, or on behalf of one room. -/
def Ordered (e e' : Event) : Prop :=
  e.1 = e'.1 ∨ e.2.room = e'.2.room

/-- The places of two handlers and the table, written in either order. -/
theorem resume_resume {t' : Nat} (hne : t ≠ t') {rooms rooms₁ rooms₂ : Rooms}
    {res res' : List Sent × Control} :
    ((s.resume t (rooms₁, res)).1.resume t' (rooms, res')).1 =
      ((s.resume t' (rooms₂, res')).1.resume t (rooms, res)).1 := by
  have hcomm : ((s.setControl t res.2).setControl t' res'.2).handlers =
      ((s.setControl t' res'.2).setControl t res.2).handlers :=
    congrArg State.handlers (setControl_comm hne)
  simp only [State.resume, State.mk.injEq, true_and]
  exact hcomm

/-- Steps of two handlers about different rooms. -/
theorem handlers_commute {l' : Label} {t' : Nat} {s₁ s₂ : State} {o' : List Event}
    (hl : actor l = some t) (hl' : actor l' = some t') (hne : t ≠ t')
    (hdisj : Disjoint (s.about l) (s.about l')) (hstep : step s l = some (s₁, o))
    (hstep' : step s₁ l' = some (s₂, o')) :
    (∃ s₁', step s l' = some (s₁', o') ∧ step s₁' l = some (s₂, o)) ∧
      ∀ e ∈ o, ∀ e' ∈ o', ¬Ordered e e' := by
  obtain ⟨h, ⟨rooms₁, res⟩, here, hact, hres⟩ := exists_act hl hstep
  obtain rfl : (s.resume t (rooms₁, res)).1 = s₁ := congrArg Prod.fst hres
  obtain rfl : res.1.map (t, ·) = o := congrArg Prod.snd hres
  obtain ⟨h', ⟨rooms₂, res'⟩, here', hact', hres'⟩ := exists_act hl' hstep'
  obtain rfl : ((s.resume t (rooms₁, res)).1.resume t' (rooms₂, res')).1 = s₂ :=
    congrArg Prod.fst hres'
  obtain rfl : res'.1.map (t', ·) = o' := congrArg Prod.snd hres'
  have hold : s.handlers[t']? = some h' :=
    (s.getElem?_setControl_of_ne hne.symm).symm.trans here'
  have hfoot : Disjoint (footprint h l) (footprint h' l') :=
    hdisj.mono (footprint_subset_about hl here) (footprint_subset_about hl' hold)
  obtain ⟨m, hm', hm⟩ := (actsOn_act h l).swap (actsOn_act h' l') hfoot hact hact'
  have hstill : (s.resume t' (m, res')).1.handlers[t]? = some h :=
    (s.getElem?_setControl_of_ne hne).trans here
  refine ⟨⟨(s.resume t' (m, res')).1, ?_, ?_⟩, ?_⟩
  · rw [step_eq_act hl' hold, hm']
    rfl
  · rw [step_eq_act hl hstill, State.rooms_resume, hm, resume_resume hne]
    rfl
  · intro e he e' he' hord
    obtain ⟨x, hx, rfl⟩ := List.mem_map.1 he
    obtain ⟨x', hx', rfl⟩ := List.mem_map.1 he'
    rcases hord with heq | heq
    · exact hne heq
    · have hin : x.room ∈ footprint h l := room_act hact x hx
      have hin' : x'.room ∈ footprint h' l' := room_act hact' x' hx'
      rw [← show x.room = x'.room from heq] at hin'
      exact Set.disjoint_left.1 hfoot hin hin'

/-- A step of a handler after a new connection. -/
theorem step_accept (hl : actor l = some t) (hlt : t < s.handlers.length) :
    step (s.accept c) l = (step s l).map fun res => (res.1.accept c, res.2) := by
  have here : s.handlers[t]? = some s.handlers[t] := List.getElem?_eq_getElem hlt
  have hthere := s.getElem?_accept (c := c).2 (Or.inl here)
  rw [step_eq_act hl here, step_eq_act hl hthere, State.rooms_accept, Option.map_map]
  congr 1
  funext res
  have hset : ((s.accept c).setControl t res.2.2).handlers =
      ((s.setControl t res.2.2).accept c).handlers :=
    congrArg State.handlers (accept_setControl hlt)
  simp only [State.resume, Function.comp_apply, hset]
  rfl

/-- A handler that has returned does nothing more. -/
theorem control_ne_exited {rooms : Rooms} {res : Rooms × List Sent × Control}
    (h : act h₀ l rooms = some res) : h₀.control ≠ .exited := by
  intro hexited
  cases l <;> simp [act, hexited] at h

/-- A step of a handler opens no connection. -/
theorem not_isOpen_step (hl : actor l = some t) (hstep : step s l = some (s', o))
    (hopen : ¬s.IsOpen c) : ¬s'.IsOpen c := by
  obtain ⟨h, res, here, hact, hres⟩ := exists_act hl hstep
  obtain rfl : (s.resume t res).1 = s' := congrArg Prod.fst hres
  rintro ⟨h', hmem, hc, hne⟩
  obtain ⟨i, hi⟩ := List.mem_iff_getElem?.1 hmem
  obtain ⟨h₀, hh₀, hsocket, hsame⟩ := s.clientSocket_setControl hi
  refine hopen ⟨h₀, List.mem_iff_getElem?.2 ⟨i, hh₀⟩, hsocket.trans hc, ?_⟩
  by_cases hit : i = t
  · subst hit
    obtain rfl := Option.some.inj (here.symm.trans hh₀)
    exact control_ne_exited hact
  · rwa [hsame hit]

theorem eq_accept (hl : actor l = none) : ∃ c, l = .accept c := by
  cases l with
  | accept c => exact ⟨c, rfl⟩
  | recv | disconnect | wake => cases hl

theorem lt_of_step (hl : actor l = some t) (h : (step s l).isSome) : t < s.handlers.length := by
  obtain ⟨⟨s', o⟩, hstep⟩ := Option.isSome_iff_exists.1 h
  obtain ⟨h, res, here, -⟩ := exists_act hl hstep
  exact (List.getElem?_eq_some_iff.1 here).1

/-- Independent steps commute. -/
theorem commutes_independent : machine.Commutes Independent Ordered := by
  intro s l l' s₁ s₂ o o' hindep hstep hstep'
  rw [machine_step] at hstep hstep' ⊢
  cases hl : actor l with
  | some t =>
    cases hl' : actor l' with
    | some t' =>
      have hne : t ≠ t' := fun heq => hindep.actor_ne (by rw [hl, hl', heq])
      exact handlers_commute hl hl' hne hindep.rooms hstep hstep'
    | none =>
      obtain ⟨c, rfl⟩ := eq_accept hl'
      obtain ⟨-, rfl, rfl⟩ := step_accept_eq_some.1 hstep'
      obtain ⟨⟨s₁', o₁'⟩, haccept⟩ := Option.isSome_iff_exists.1 hindep.enabled
      obtain ⟨hopen, rfl, rfl⟩ := step_accept_eq_some.1 haccept
      have hlt : t < s.handlers.length := lt_of_step hl (by rw [hstep]; rfl)
      refine ⟨⟨s.accept c, haccept, ?_⟩, by simp⟩
      rw [step_accept hl hlt, hstep]
      rfl
  | none =>
    obtain ⟨c, rfl⟩ := eq_accept hl
    obtain ⟨hopen, rfl, rfl⟩ := step_accept_eq_some.1 hstep
    cases hl' : actor l' with
    | none => exact (hindep.actor_ne (hl.trans hl'.symm)).elim
    | some t =>
      have hlt : t < s.handlers.length := lt_of_step hl' hindep.enabled
      rw [step_accept hl' hlt, Option.map_eq_some_iff] at hstep'
      obtain ⟨⟨s₁', o₁'⟩, hs', heq⟩ := hstep'
      obtain ⟨rfl, rfl⟩ := Prod.mk.inj heq
      refine ⟨⟨s₁', hs', ?_⟩, by simp⟩
      exact step_accept_eq_some.2 ⟨not_isOpen_step hl' hs' hopen, rfl, rfl⟩

/-- The messages that a handler has sent. -/
def sentBy (t : Nat) (os : List Event) : List Event :=
  os.filter fun e => e.1 == t

/-- The messages on behalf of a room, each with the handler that sent it. -/
def sentFor (k : Key) (os : List Event) : List Event :=
  os.filter fun e => e.2.room == k

section

variable {os os' : List Event} {sends : List Sent} {t t' : Nat} {k : Key}

@[simp] theorem sentBy_append : sentBy t (os ++ os') = sentBy t os ++ sentBy t os' :=
  List.filter_append ..

@[simp] theorem sentFor_append : sentFor k (os ++ os') = sentFor k os ++ sentFor k os' :=
  List.filter_append ..

@[simp] theorem sentBy_map_self : sentBy t (sends.map (t, ·)) = sends.map (t, ·) := by
  simp [sentBy]

theorem sentBy_map_of_ne (hne : t' ≠ t) : sentBy t (sends.map (t', ·)) = [] := by
  simp [sentBy, hne]

theorem sentFor_map_self (h : ∀ e ∈ sends, e.room = k) :
    sentFor k (sends.map (t, ·)) = sends.map (t, ·) := by
  simpa [sentFor] using h

theorem sentFor_map_of_ne (h : ∀ e ∈ sends, e.room ≠ k) : sentFor k (sends.map (t, ·)) = [] := by
  simpa [sentFor] using h

end

/-- The order of independent steps does not matter : in every reordering of a run by swaps of
independent neighbours the server arrives in the same state and has sent the same messages, each
handler its own in the same order, and those on behalf of a room are in the same order too. -/
theorem run_of_reorder {ls ls' : List Label} {os : List Event}
    (hrun : machine.Run s ls os s') (h : machine.Reorder Independent s ls ls') :
    ∃ os', machine.Run s ls' os' s' ∧ os.Perm os' ∧ (∀ t, sentBy t os = sentBy t os') ∧
      ∀ k, sentFor k os = sentFor k os' := by
  obtain ⟨os', hrun', htrace⟩ := h.run commutes_independent hrun
  refine ⟨os', hrun', htrace.perm, fun t => ?_, fun k => ?_⟩
  · refine htrace.filter_eq fun a b ha hb => Or.inl ?_
    rw [beq_iff_eq.1 ha, beq_iff_eq.1 hb]
  · refine htrace.filter_eq fun a b ha hb => Or.inr ?_
    rw [beq_iff_eq.1 ha, beq_iff_eq.1 hb]

/-- Two connections. -/
def twoClients : List Label :=
  [.accept 3, .accept 4]

theorem isSome_twoClients : (machine.exec State.init twoClients).isSome := by
  decide +kernel

/-- Two clients create rooms. -/
def twoRooms : List Label :=
  twoClients ++
    .recv 0 (createRequest (ascii "ab")) [] :: .recv 1 (createRequest (ascii "cd")) [] :: []

theorem isSome_twoRooms : (machine.exec State.init twoRooms).isSome := by
  decide +kernel

/-- They may as well do so in the other order. -/
theorem run_of_reorder_twoRooms : ∃ os', machine.Run State.init (twoClients ++
      .recv 1 (createRequest (ascii "cd")) [] :: .recv 0 (createRequest (ascii "ab")) [] :: []) os'
      (machine.final State.init twoRooms isSome_twoRooms) ∧
    (machine.outputs State.init twoRooms isSome_twoRooms).Perm os' ∧
    (∀ t, sentBy t (machine.outputs State.init twoRooms isSome_twoRooms) = sentBy t os') ∧
    ∀ k, sentFor k (machine.outputs State.init twoRooms isSome_twoRooms) = sentFor k os' := by
  refine run_of_reorder (Machine.run_final isSome_twoRooms)
    (.swap .refl (Machine.run_final isSome_twoClients) ⟨by decide +kernel, by decide, ?_⟩)
  have hread : ∀ {t : Nat} {chunk : List Byte} {k k' : Key} {s : State},
      readsAs (bufferString (zeros 1024) [] chunk) = .ok (some (.create k)) →
      k' ∈ s.about (.recv t chunk []) → k' = k := by
    rintro t chunk k k' s hk ⟨t', h, -, -, r, hr, rfl⟩
    cases hk.symm.trans hr
    rfl
  refine Set.disjoint_left.2 fun k hk hk' => ?_
  have hab : k = ascii "ab\n" := hread (by decide +kernel) hk
  have hcd : k = ascii "cd\n" := hread (by decide +kernel) hk'
  exact absurd (hab.symm.trans hcd) (by decide)

end

end Server

end DesperateStruggle
