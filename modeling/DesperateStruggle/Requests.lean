import DesperateStruggle.RoomInvariant
import DesperateStruggle.Stream

/-!
# The requests of a connection

A client writes lines, the handler reads chunks, and it takes each chunk for one request.
`requests` are those it makes of a list of chunks. `serve` lets the handler of one connection
read its chunks while the other connections take their steps.

Of the requests some have an answer that is fixed by those before them : a `CREATE` of a room
that the connection has asked to create before is answered `EXIST`, and a `JOIN` that comes
after another one and a `CREATE` is answered `FULL`. `normal` replaces these by their answer.
Where the normal forms of two lists of chunks agree, so do the rooms and the replies, whatever
the other connections do (`sameService_of_normal`).
-/

open CString Stream

namespace DesperateStruggle

namespace Server

/-! ## Reading -/

/-- A request that the handler makes of a message. -/
inductive Request
  | create (password : Key)
  | join (password : Key)
deriving DecidableEq, Repr

/-- What the handler takes a message for : nothing, a request, or neither because `substr`
throws. -/
def readsAs (message : List Byte) : Except OutOfRange (Option Request) :=
  if startsWith message CREATE then (substr message 7 4).map fun k => some (.create k)
  else if startsWith message JOIN then (substr message 5 4).map fun k => some (.join k)
  else .ok none

/-- What the handler does about a request. -/
def answer (rooms : Rooms) (c : Socket) : Request → Rooms × List Sent × Control
  | .create k => handleCreate rooms c k
  | .join k => handleJoin rooms c k

/-- The handler does nothing but answer the request it reads. -/
theorem handleMessage_eq (rooms : Rooms) (c : Socket) (m : List Byte) :
    handleMessage rooms c m = (readsAs m).map fun
      | some r => answer rooms c r
      | none => (rooms, [], .recv) := by
  unfold handleMessage readsAs
  split_ifs
  · cases substr m 7 4 <;> rfl
  · cases substr m 5 4 <;> rfl
  · rfl

/-- The requests the handler makes of chunks that leave a byte of the buffer free, up to an
exception. -/
def requests : List (List Byte) → List Request
  | [] => []
  | chunk :: chunks =>
    match readsAs (cstr chunk) with
    | .ok (some r) => r :: requests chunks
    | .ok none => requests chunks
    | .error _ => []

/-- Connection `t` reads chunks up to its next request, if its handler waits for them. -/
def deliver (t : Nat) (s : State) : List (List Byte) → State × List Event × List (List Byte)
  | [] => (s, [], [])
  | chunk :: chunks =>
    match step s (.recv t chunk []) with
    | some (s', o) =>
      match readsAs (cstr chunk) with
      | .ok none => deliver t s' chunks
      | _ => (s', o, chunks)
    | none => (s, [], chunk :: chunks)

/-- Connection `t` reads its chunks at the `none`s of the schedule, a request at each, and the
other steps are taken in between. -/
def serve (t : Nat) : State → List (Option Label) → List (List Byte) → Option (State × List Event)
  | s, [], _ => some (s, [])
  | s, some l :: schedule, chunks =>
    match step s l with
    | some (s', o) => (serve t s' schedule chunks).map fun (u, os) => (u, o ++ os)
    | none => none
  | s, none :: schedule, chunks =>
    let (s', o, rest) := deliver t s chunks
    (serve t s' schedule rest).map fun (u, os) => (u, o ++ os)

/-- What the handler of connection `t` has replied. -/
def replies (t : Nat) (os : List Event) : List ServerMessage :=
  os.filterMap fun
    | (t', .reply _ _ m) => if t' = t then some m else none
    | _ => none

/-- From every reachable state in which connection `t` waits for requests, and whatever the
other connections do between them, the two lists of chunks lead to the same rooms and the same
replies. -/
def SameService (chunks chunks' : List (List Byte)) : Prop :=
  ∀ ls₀ os₀ s t c, machine.Run State.init ls₀ os₀ s → s.handlers[t]? = some ⟨c, .recv⟩ →
    ∀ schedule, (∀ chunk beyond, some (.recv t chunk beyond) ∉ schedule) →
    ∀ u os u' os', serve t s schedule chunks = some (u, os) →
      serve t s schedule chunks' = some (u', os') →
      u.rooms = u'.rooms ∧ replies t os = replies t os'

/-! ## Normal forms -/

/-- A request, or the answer to one that can have no other. -/
inductive Asked
  | create (password : Key)
  | join (password : Key)
  | exist
  | full
deriving DecidableEq, Repr

/-- The requests with the fixed answers put in their place. The rooms in `created` exist, those
in `full` have two players. -/
def normal (created full : List Key) : List Request → List Asked
  | [] => []
  | .create k :: rs =>
    if k ∈ created then .exist :: normal created full rs
    else .create k :: normal (k :: created) full rs
  | .join k :: rs =>
    if k ∈ full then .full :: normal created full rs
    else .join k :: normal created (if k ∈ created then k :: full else full) rs

@[simp] theorem replies_append (t : Nat) (os os' : List Event) :
    replies t (os ++ os') = replies t os ++ replies t os' :=
  List.filterMap_append

@[simp] theorem replies_nil (t : Nat) : replies t [] = [] :=
  rfl

/-! ## Answers -/

section

variable {rooms : Rooms} {c : Socket} {k : Key} {room : Room}

/-- A `CREATE` of a room that exists. -/
theorem answer_create_of_some (h : rooms k = some room) :
    answer rooms c (.create k) = (rooms, [.reply k c .EXIST], .recv) := by
  have hc : rooms.contains k = true := Rooms.contains_iff.2 ⟨room, h⟩
  simp [answer, handleCreate, hc]

/-- A `CREATE` of a room that does not exist. -/
theorem answer_create_of_none (h : rooms k = none) : answer rooms c (.create k) =
    (rooms.assign k { password := k, players := [c] }, [.reply k c .WAIT], .recv) := by
  have hc : rooms.contains k = false := Rooms.contains_eq_false_iff.2 h
  simp [answer, handleCreate, hc]

/-- A `JOIN` of a room that does not exist. -/
theorem answer_join_of_none (h : rooms k = none) :
    answer rooms c (.join k) = (rooms, [.reply k c .FULL], .recv) := by
  have hc : rooms.contains k = false := Rooms.contains_eq_false_iff.2 h
  simp [answer, handleJoin, hc]

/-- A `JOIN` of a room with two players. -/
theorem answer_join_of_two (h : rooms k = some room) (hlen : room.players.length = 2) :
    answer rooms c (.join k) = (rooms, [.reply k c .FULL], .recv) := by
  have hc : rooms.contains k = true := Rooms.contains_iff.2 ⟨room, h⟩
  simp [answer, handleJoin, hc, Rooms.subscript_of_some h, hlen]

/-- A `JOIN` of a room with one player. -/
theorem answer_join_of_one (h : rooms k = some room) {p : Socket} (hplayers : room.players = [p]) :
    answer rooms c (.join k) = (rooms.assign k (room.pushBack c),
      [.reply k c .WAIT, .seat k 0 p .COUNTDOWN, .seat k 1 c .COUNTDOWN], .countdown k) := by
  have hc : rooms.contains k = true := Rooms.contains_iff.2 ⟨room, h⟩
  simp [answer, handleJoin, hc, Rooms.subscript_of_some h, Rooms.modify_of_some h, hplayers,
    broadcast]

end

/-! ## Deliveries -/

section

variable {s : State} {t : Nat} {c : Socket} {chunks : List (List Byte)}

/-- A handler that waits where it did and leaves the table. -/
theorem resume_self {control : Control} (here : s.handlers[t]? = some ⟨c, control⟩)
    (sends : List Sent) : s.resume t (s.rooms, sends, control) = (s, sends.map (t, ·)) := by
  have hself : s.setControl t control = s := by
    have hmodify : s.handlers.modify t (fun h => { h with control }) = s.handlers := by
      refine List.ext_getElem? fun i => ?_
      rw [List.getElem?_modify]
      split_ifs with hi
      · subst hi
        simp [here]
      · simp
    simp [State.setControl, hmodify]
  simp [State.resume, hself]

/-- A handler that goes back to its `recv` and leaves the table. -/
theorem resume_recv (here : s.handlers[t]? = some ⟨c, .recv⟩) (sends : List Sent) :
    s.resume t (s.rooms, sends, .recv) = (s, sends.map (t, ·)) :=
  resume_self here sends

/-- The step that reads a chunk. -/
theorem step_recv (here : s.handlers[t]? = some ⟨c, .recv⟩) {chunk : List Byte}
    (hsize : 1 ≤ chunk.length ∧ chunk.length ≤ 1023) : step s (.recv t chunk []) = some
      (match readsAs (cstr chunk) with
        | .ok (some r) => s.resume t (answer s.rooms c r)
        | .ok none => (s, [])
        | .error _ => (s.setControl t .exited, [])) := by
  have hbuffer : bufferString (zeros 1024) [] chunk = cstr chunk :=
    bufferString_zeros (by omega) []
  have hlen : 1 ≤ chunk.length ∧ chunk.length ≤ 1024 := ⟨hsize.1, by omega⟩
  simp only [step, here, if_pos hlen, hbuffer, handleMessage_eq]
  rcases readsAs (cstr chunk) with e | (- | r)
  · rfl
  · simp [Except.map, resume_recv here]
  · rfl

/-- A handler that does not wait in `recv` reads nothing. -/
theorem deliver_of_not_recv (h : ∀ c, s.handlers[t]? ≠ some ⟨c, .recv⟩) :
    deliver t s chunks = (s, [], chunks) := by
  cases chunks with
  | nil => rfl
  | cons chunk chunks =>
    have hstep : step s (.recv t chunk []) = none := by
      rcases here : s.handlers[t]? with - | ⟨c, control⟩
      · simp [step, here]
      · cases control with
        | recv => exact (h c here).elim
        | countdown | game | exited => simp [step, here]
    simp [deliver, hstep]

end

/-! ## A connection that has finished -/

/-- Connection `t` asks for nothing more : its handler has returned, or there are no requests
left. -/
def Finished (t : Nat) (s : State) (chunks : List (List Byte)) : Prop :=
  ∃ c, s.handlers[t]? = some ⟨c, .exited⟩ ∨
    s.handlers[t]? = some ⟨c, .recv⟩ ∧ requests chunks = []

/-- Handler `t` aside, the states are the same. -/
def SameBut (t : Nat) (s s' : State) : Prop :=
  s.setControl t .exited = s'.setControl t .exited

section

variable {s s' s₁ s₁' : State} {t : Nat} {c : Socket} {l : Label} {o o' : List Event}
  {chunks chunks' : List (List Byte)}

theorem setControl_setControl {control control' : Control} :
    (s.setControl t control).setControl t control' = s.setControl t control' := by
  simp [State.setControl, List.modify_modify_eq, Function.comp_def]

theorem setControl_comm {i : Nat} (hne : i ≠ t) {control control' : Control} :
    (s.setControl i control).setControl t control' =
      (s.setControl t control').setControl i control := by
  simp [State.setControl, List.modify_modify_ne _ _ _ hne]

theorem SameBut.rooms (h : SameBut t s s') : s.rooms = s'.rooms := by
  have hrooms : (s.setControl t .exited).rooms = (s'.setControl t .exited).rooms :=
    congrArg State.rooms h
  exact hrooms

/-- What a delivery does : it finds no request and at most ends the handler, or it answers the
next request. -/
theorem deliver_cases (here : s.handlers[t]? = some ⟨c, .recv⟩)
    (hsize : ∀ chunk ∈ chunks, 1 ≤ chunk.length ∧ chunk.length ≤ 1023) :
    (requests chunks = [] ∧ ∃ s' rest, deliver t s chunks = (s', [], rest) ∧ rest ⊆ chunks ∧
      SameBut t s' s ∧ Finished t s' rest) ∨
    ∃ r rest chunk, requests chunks = r :: requests rest ∧ rest ⊆ chunks ∧
      step s (.recv t chunk []) = some (s.resume t (answer s.rooms c r)) ∧
      deliver t s chunks = ((s.resume t (answer s.rooms c r)).1,
        (s.resume t (answer s.rooms c r)).2, rest) := by
  induction chunks with
  | nil =>
    exact Or.inl ⟨rfl, s, [], rfl, List.Subset.refl _, rfl, c, Or.inr ⟨here, rfl⟩⟩
  | cons chunk chunks ih =>
    have hstep := step_recv here (hsize chunk (by simp))
    have ih := ih fun chunk' hmem => hsize chunk' (by simp [hmem])
    have hsub : ∀ {rest : List (List Byte)}, rest ⊆ chunks → rest ⊆ chunk :: chunks :=
      fun h _ hmem => List.mem_cons_of_mem _ (h hmem)
    rcases hread : readsAs (cstr chunk) with e | (- | r)
    · refine Or.inl ⟨by simp [requests, hread], s.setControl t .exited, chunks, ?_,
        hsub (List.Subset.refl _), setControl_setControl, c,
        Or.inl (s.getElem?_setControl_self here)⟩
      simp [deliver, hstep, hread]
    · have hreq : requests (chunk :: chunks) = requests chunks := by simp [requests, hread]
      have hdeliver : deliver t s (chunk :: chunks) = deliver t s chunks := by
        simp [deliver, hstep, hread]
      rw [hreq, hdeliver]
      rcases ih with ⟨hnone, s', rest, hd, hrest, hfin⟩ | ⟨r, rest, chunk', hr, hrest, hfin⟩
      · exact Or.inl ⟨hnone, s', rest, hd, hsub hrest, hfin⟩
      · exact Or.inr ⟨r, rest, chunk', hr, hsub hrest, hfin⟩
    · refine Or.inr ⟨r, chunks, chunk, by simp [requests, hread], hsub (List.Subset.refl _), ?_, ?_⟩
      · simp [hstep, hread]
      · simp [deliver, hstep, hread]

/-- A delivery to a connection that has finished. -/
theorem Finished.deliver (h : Finished t s chunks)
    (hsize : ∀ chunk ∈ chunks, 1 ≤ chunk.length ∧ chunk.length ≤ 1023) :
    ∃ s' rest, Server.deliver t s chunks = (s', [], rest) ∧ rest ⊆ chunks ∧ SameBut t s' s ∧
      Finished t s' rest := by
  obtain ⟨c, hexited | ⟨here, hnone⟩⟩ := h
  · have hnot : ∀ c', s.handlers[t]? ≠ some ⟨c', .recv⟩ := by simp [hexited]
    exact ⟨s, chunks, deliver_of_not_recv hnot, List.Subset.refl _, rfl, c, Or.inl hexited⟩
  · rcases deliver_cases here hsize with ⟨-, hd⟩ | ⟨r, rest, -, hr, -⟩
    · exact hd
    · simp [hnone] at hr

/-- A step accepts a connection, or it is the step of one handler, and then it depends on the table
and that handler alone. -/
theorem step_local (hstep : Server.step s l = some (s₁, o)) :
    (∃ c, l = .accept c ∧ ¬s.IsOpen c ∧ s₁ = s.accept c ∧ o = []) ∨
    ∃ i res, ((∃ chunk beyond, l = .recv i chunk beyond) ∨ l = .disconnect i ∨ l = .wake i) ∧
      s.resume i res = (s₁, o) ∧ ∀ s', s'.handlers[i]? = s.handlers[i]? → s'.rooms = s.rooms →
        Server.step s' l = some (s'.resume i res) := by
  cases l with
  | accept c =>
    simp only [Server.step] at hstep
    split_ifs at hstep with hopen
    cases hstep
    exact Or.inl ⟨c, rfl, hopen, rfl, rfl⟩
  | recv i chunk beyond =>
    simp only [Server.step] at hstep
    split at hstep
    · next c here =>
      split_ifs at hstep with hlen
      split at hstep
      · next res hres =>
        refine Or.inr ⟨i, res, Or.inl ⟨_, _, rfl⟩, Option.some.inj hstep, fun s' hi hrooms => ?_⟩
        simp only [Server.step, hi, here, if_pos hlen, hrooms, hres]
      · next e he =>
        refine Or.inr ⟨i, (s.rooms, [], .exited), Or.inl ⟨_, _, rfl⟩, Option.some.inj hstep,
          fun s' hi hrooms => ?_⟩
        simp only [Server.step, hi, here, if_pos hlen, hrooms, he]
        rw [← hrooms]
        rfl
    · cases hstep
  | disconnect i =>
    simp only [Server.step] at hstep
    split at hstep
    · next c here =>
      refine Or.inr ⟨i, (s.rooms, [], .exited), Or.inr (Or.inl rfl), Option.some.inj hstep,
        fun s' hi hrooms => ?_⟩
      simp only [Server.step, hi, here]
      rw [← hrooms]
      rfl
    · cases hstep
  | wake i =>
    simp only [Server.step] at hstep
    split at hstep
    · next c k here =>
      obtain ⟨res, hres, heq⟩ := Option.map_eq_some_iff.1 hstep
      refine Or.inr ⟨i, res, Or.inr (Or.inr rfl), heq, fun s' hi hrooms => ?_⟩
      simp only [Server.step, hi, here, hrooms, hres, Option.map_some]
    · next c k here =>
      obtain ⟨res, hres, heq⟩ := Option.map_eq_some_iff.1 hstep
      refine Or.inr ⟨i, res, Or.inr (Or.inr rfl), heq, fun s' hi hrooms => ?_⟩
      simp only [Server.step, hi, here, hrooms, hres, Option.map_some]
    · cases hstep

/-- What a handler does and the return of another commute. -/
theorem resume_setControl {i : Nat} (hne : i ≠ t) (res : Rooms × List Sent × Control) :
    (s.setControl t .exited).resume i res =
      ((s.resume i res).1.setControl t .exited, (s.resume i res).2) := by
  have hcomm : (s.setControl i res.2.2).setControl t .exited =
      (s.setControl t .exited).setControl i res.2.2 := setControl_comm hne
  rw [State.resume, ← hcomm]
  rfl

/-- A new connection and the move of a handler commute. -/
theorem accept_setControl (ht : t < s.handlers.length) {control : Control} :
    (s.accept c).setControl t control = (s.setControl t control).accept c := by
  simp only [State.accept, State.setControl, State.mk.injEq, true_and]
  refine List.ext_getElem? fun i => ?_
  simp only [List.getElem?_modify, List.getElem?_append, List.length_modify]
  by_cases hi : i < s.handlers.length
  · simp [hi]
  · have hit : t ≠ i := by omega
    simp [hi, hit]

/-- A socket that is free is still free after a handler has returned. -/
theorem not_isOpen_setControl (h : ¬s.IsOpen c) : ¬(s.setControl t .exited).IsOpen c := by
  rintro ⟨hd, hmem, hsocket, hne⟩
  obtain ⟨i, hi⟩ := List.mem_iff_getElem?.1 hmem
  obtain ⟨hd', hi', hsocket', hkeep⟩ := s.clientSocket_setControl hi
  by_cases hit : i = t
  · subst hit
    rw [s.getElem?_setControl_self hi'] at hi
    cases hi
    exact hne rfl
  · rw [hkeep hit] at hi'
    exact h ⟨hd, List.mem_iff_getElem?.2 ⟨i, hi'⟩, hsocket, hne⟩

/-- A connection that has finished stays so. -/
theorem Finished.congr (h : Finished t s chunks) (ht : s'.handlers[t]? = s.handlers[t]?) :
    Finished t s' chunks := by
  obtain ⟨c, hc⟩ := h
  exact ⟨c, by rwa [ht]⟩

theorem Finished.not_wake (h : Finished t s chunks) : Server.step s (.wake t) = none := by
  obtain ⟨c, here | ⟨here, -⟩⟩ := h <;> simp [Server.step, here]

/-- Another step does not tell whether the handler of a connection that has finished has
returned. -/
theorem Finished.step (h : Finished t s chunks) (hl : ∀ chunk beyond, l ≠ .recv t chunk beyond)
    (hstep : Server.step s l = some (s₁, o)) :
    Finished t s₁ chunks ∧
      (l = .disconnect t ∧ SameBut t s₁ s ∧ o = [] ∨ l ≠ .disconnect t ∧
        Server.step (s.setControl t .exited) l = some (s₁.setControl t .exited, o)) := by
  rcases step_local hstep with ⟨c, rfl, hopen, rfl, rfl⟩ | ⟨i, res, hown, hres, hlocal⟩
  · have hlt : t < s.handlers.length := by
      obtain ⟨c', hc | ⟨hc, -⟩⟩ := h <;> exact (List.getElem?_eq_some_iff.1 hc).1
    refine ⟨h.congr (List.getElem?_append_left hlt), Or.inr ⟨by simp, ?_⟩⟩
    rw [accept_setControl hlt]
    simp [Server.step, not_isOpen_setControl hopen]
  · by_cases hit : i = t
    · subst hit
      rcases hown with ⟨chunk, beyond, rfl⟩ | rfl | rfl
      · exact (hl chunk beyond rfl).elim
      · simp only [Server.step] at hstep
        split at hstep
        · next c here =>
          cases hstep
          exact ⟨⟨c, Or.inl (s.getElem?_setControl_self here)⟩,
            Or.inl ⟨rfl, setControl_setControl, rfl⟩⟩
        · cases hstep
      · rw [h.not_wake] at hstep
        cases hstep
    · have ht : s₁.handlers[t]? = s.handlers[t]? := by
        rw [← (Prod.mk.inj hres).1]
        exact s.getElem?_setControl_of_ne (Ne.symm hit)
      have hlabel : l ≠ .disconnect t := by
        rintro rfl
        rcases hown with ⟨chunk, beyond, hown⟩ | hown | hown <;> cases hown
        exact hit rfl
      refine ⟨h.congr ht, Or.inr ⟨hlabel, ?_⟩⟩
      rw [hlocal _ (s.getElem?_setControl_of_ne hit) rfl, resume_setControl hit, hres]

/-- The sizes of the chunks that a connection receives. -/
def Sized (chunks : List (List Byte)) : Prop :=
  ∀ chunk ∈ chunks, 1 ≤ chunk.length ∧ chunk.length ≤ 1023

theorem Sized.subset (h : Sized chunks) (hsub : chunks' ⊆ chunks) : Sized chunks' :=
  fun chunk hmem => h chunk (hsub hmem)

/-- The first step of a schedule. -/
theorem serve_step {schedule : List (Option Label)} {u : State} {os : List Event}
    (h : serve t s (some l :: schedule) chunks = some (u, os)) :
    ∃ s₁ o os₁, Server.step s l = some (s₁, o) ∧ serve t s₁ schedule chunks = some (u, os₁) ∧
      os = o ++ os₁ := by
  unfold serve at h
  split at h
  · next s₁ o hstep =>
    obtain ⟨⟨u', os₁⟩, hserve, heq⟩ := Option.map_eq_some_iff.1 h
    cases heq
    exact ⟨s₁, o, os₁, hstep, hserve, rfl⟩
  · cases h

/-- The first delivery of a schedule. -/
theorem serve_deliver {schedule : List (Option Label)} {u : State} {os : List Event}
    {rest : List (List Byte)} (hd : Server.deliver t s chunks = (s₁, o, rest))
    (h : serve t s (none :: schedule) chunks = some (u, os)) :
    ∃ os₁, serve t s₁ schedule rest = some (u, os₁) ∧ os = o ++ os₁ := by
  simp only [serve, hd, Option.map_eq_some_iff] at h
  obtain ⟨⟨u', os₁⟩, hserve, heq⟩ := h
  cases heq
  exact ⟨os₁, hserve, rfl⟩

/-- A schedule that begins with a step. -/
theorem serve_step_eq {schedule : List (Option Label)} {u : State} {os : List Event}
    (hstep : Server.step s l = some (s₁, o)) (h : serve t s₁ schedule chunks = some (u, os)) :
    serve t s (some l :: schedule) chunks = some (u, o ++ os) := by
  simp [serve, hstep, h]

/-- A schedule that begins with a delivery. -/
theorem serve_deliver_eq {schedule : List (Option Label)} {u : State} {os : List Event}
    {rest : List (List Byte)} (hd : Server.deliver t s chunks = (s₁, o, rest))
    (h : serve t s₁ schedule rest = some (u, os)) :
    serve t s (none :: schedule) chunks = some (u, o ++ os) := by
  simp [serve, hd, h]

/-- After a connection has finished, nothing depends on what it has left to read. -/
theorem serve_finished {schedule : List (Option Label)} {u u' : State} {os os' : List Event}
    (hschedule : ∀ chunk beyond, some (.recv t chunk beyond) ∉ schedule) (hsame : SameBut t s s')
    (hfin : Finished t s chunks) (hfin' : Finished t s' chunks') (hsize : Sized chunks)
    (hsize' : Sized chunks') (h : serve t s schedule chunks = some (u, os))
    (h' : serve t s' schedule chunks' = some (u', os')) :
    u.rooms = u'.rooms ∧ replies t os = replies t os' := by
  induction schedule generalizing s s' chunks chunks' os os' with
  | nil =>
    simp only [serve, Option.some.injEq, Prod.mk.injEq] at h h'
    obtain ⟨rfl, rfl⟩ := h
    obtain ⟨rfl, rfl⟩ := h'
    exact ⟨hsame.rooms, rfl⟩
  | cons slot schedule ih =>
    have hschedule' : ∀ chunk beyond, some (.recv t chunk beyond) ∉ schedule :=
      fun chunk beyond hmem => hschedule chunk beyond (List.mem_cons_of_mem _ hmem)
    cases slot with
    | none =>
      obtain ⟨s₁, rest, hd, hrest, hsame₁, hfin₁⟩ := hfin.deliver hsize
      obtain ⟨s₁', rest', hd', hrest', hsame₁', hfin₁'⟩ := hfin'.deliver hsize'
      obtain ⟨os₁, hserve, rfl⟩ := serve_deliver hd h
      obtain ⟨os₁', hserve', rfl⟩ := serve_deliver hd' h'
      have hboth : SameBut t s₁ s₁' := hsame₁.trans (hsame.trans hsame₁'.symm)
      exact ih hschedule' hboth hfin₁ hfin₁' (hsize.subset hrest) (hsize'.subset hrest') hserve
        hserve'
    | some l =>
      have hl : ∀ chunk beyond, l ≠ .recv t chunk beyond := by
        rintro chunk beyond rfl
        exact hschedule chunk beyond (by simp)
      obtain ⟨s₁, o, os₁, hstep, hserve, rfl⟩ := serve_step h
      obtain ⟨s₁', o', os₁', hstep', hserve', rfl⟩ := serve_step h'
      obtain ⟨hfin₁, hcase⟩ := hfin.step hl hstep
      obtain ⟨hfin₁', hcase'⟩ := hfin'.step hl hstep'
      have hboth : SameBut t s₁ s₁' ∧ o = o' := by
        rcases hcase with ⟨hd, hs, rfl⟩ | ⟨hd, hs⟩ <;>
          rcases hcase' with ⟨hd', hs', rfl⟩ | ⟨hd', hs'⟩
        · exact ⟨hs.trans (hsame.trans hs'.symm), rfl⟩
        · exact (hd' hd).elim
        · exact (hd hd').elim
        · have herased : s.setControl t .exited = s'.setControl t .exited := hsame
          rw [herased, hs', Option.some.injEq, Prod.mk.injEq] at hs
          exact ⟨hs.1.symm, hs.2.symm⟩
      obtain ⟨hrooms, hreplies⟩ := ih hschedule' hboth.1 hfin₁ hfin₁' hsize hsize' hserve hserve'
      exact ⟨hrooms, by rw [replies_append, replies_append, hboth.2, hreplies]⟩

end

/-! ## Equal normal forms -/

/-- What the earlier requests of a connection tell about the rooms. -/
structure Knows (s : State) (created full : List Key) : Prop where
  created : ∀ k ∈ created, ∃ room, s.rooms k = some room
  full : ∀ k ∈ full, ∃ room, s.rooms k = some room ∧ room.players.length = 2

section

variable {s s' : State} {t : Nat} {c : Socket} {l : Label} {o : List Event}
  {created full : List Key} {r r' : Request} {rs rs' : List Request}

/-- It stays true. -/
theorem Knows.step (h : Knows s created full) (hinv : Inv s)
    (hstep : Server.step s l = some (s', o)) : Knows s' created full := by
  refine ⟨fun k hk => ?_, fun k hk => ?_⟩
  · obtain ⟨room, hroom⟩ := h.created k hk
    obtain ⟨room', hroom', -⟩ := hinv.keep_step hstep hroom
    exact ⟨room', hroom'⟩
  · obtain ⟨room, hroom, hlen⟩ := h.full k hk
    obtain ⟨room', hroom', hkeep⟩ := hinv.keep_step hstep hroom
    exact ⟨room', hroom', by rw [hkeep hlen, hlen]⟩

/-- After a `CREATE` the room exists. -/
theorem Knows.create (h : Knows s created full) {k : Key}
    (hcreated : ∃ room, s.rooms k = some room) : Knows s (k :: created) full := by
  refine ⟨fun k' hk' => ?_, h.full⟩
  rcases List.mem_cons.1 hk' with rfl | hk'
  · exact hcreated
  · exact h.created k' hk'

/-- After a `JOIN` of a room that exists, it has two players. -/
theorem Knows.join (h : Knows s created full) {k : Key}
    (hfull : k ∈ created → ∃ room, s.rooms k = some room ∧ room.players.length = 2) :
    Knows s created (if k ∈ created then k :: full else full) := by
  split_ifs with hk
  · refine ⟨h.created, fun k' hk' => ?_⟩
    rcases List.mem_cons.1 hk' with rfl | hk'
    · exact hfull hk
    · exact h.full k' hk'
  · exact h

/-- After a `CREATE` its room exists. -/
theorem exists_of_answer_create (rooms : Rooms) (c : Socket) (k : Key) :
    ∃ room, (answer rooms c (.create k)).1 k = some room := by
  cases hroom : rooms k with
  | none =>
    rw [answer_create_of_none hroom]
    exact ⟨_, Rooms.assign_self⟩
  | some room =>
    rw [answer_create_of_some hroom]
    exact ⟨room, hroom⟩

/-- After a `JOIN` of a room that exists, it has two players. -/
theorem full_of_answer_join {rooms : Rooms} {k : Key} {room : Room} (hroom : rooms k = some room)
    (hok : RoomOk k room) (c : Socket) :
    ∃ room', (answer rooms c (.join k)).1 k = some room' ∧ room'.players.length = 2 := by
  rcases hok.seats with hone | htwo
  · obtain ⟨p, hp⟩ := List.length_eq_one_iff.1 hone
    rw [answer_join_of_one hroom hp]
    exact ⟨_, Rooms.assign_self, by simp [hp]⟩
  · rw [answer_join_of_two hroom htwo]
    exact ⟨room, hroom, htwo⟩

/-- Two first requests in equal normal forms : they are the same, or both have the same fixed
answer. What is known after them is the same. -/
theorem normal_cons_eq (h : normal created full (r :: rs) = normal created full (r' :: rs')) :
    (r = r' ∧ ∃ created' full', normal created' full' rs = normal created' full' rs' ∧
      ((∃ k, r = .create k ∧ created' = k :: created ∧ full' = full) ∨
        ∃ k, r = .join k ∧ created' = created ∧
          full' = if k ∈ created then k :: full else full)) ∨
    normal created full rs = normal created full rs' ∧
      ((∃ k k', r = .create k ∧ r' = .create k' ∧ k ∈ created ∧ k' ∈ created) ∨
        ∃ k k', r = .join k ∧ r' = .join k' ∧ k ∈ full ∧ k' ∈ full) := by
  cases r with
  | create k =>
    cases r' with
    | create k' =>
      simp only [normal] at h
      split_ifs at h with hk hk' hk' <;> obtain ⟨hhead, htail⟩ := List.cons.inj h
      · exact Or.inr ⟨htail, Or.inl ⟨k, k', rfl, rfl, hk, hk'⟩⟩
      · cases hhead
      · cases hhead
      · cases hhead
        exact Or.inl ⟨rfl, _, _, htail, Or.inl ⟨k, rfl, rfl, rfl⟩⟩
    | join k' =>
      simp only [normal] at h
      split_ifs at h <;> cases (List.cons.inj h).1
  | join k =>
    cases r' with
    | create k' =>
      simp only [normal] at h
      split_ifs at h <;> cases (List.cons.inj h).1
    | join k' =>
      by_cases hk : k ∈ full <;> by_cases hk' : k' ∈ full <;>
        simp only [normal, hk, hk', if_true, if_false] at h <;>
        obtain ⟨hhead, htail⟩ := List.cons.inj h
      · exact Or.inr ⟨htail, Or.inr ⟨k, k', rfl, rfl, hk, hk'⟩⟩
      · cases hhead
      · cases hhead
      · cases hhead
        exact Or.inl ⟨rfl, _, _, htail, Or.inr ⟨k, rfl, rfl, rfl⟩⟩

/-- Where the normal forms agree, the next requests have the same answer, and what is known
after them is the same. -/
theorem same_answer (hinv : Inv s) (hknows : Knows s created full)
    (here : s.handlers[t]? = some ⟨c, .recv⟩)
    (hnormal : normal created full (r :: rs) = normal created full (r' :: rs'))
    (hstep : Server.step s l = some (s.resume t (answer s.rooms c r))) :
    (s.resume t (answer s.rooms c r)).1 = (s.resume t (answer s.rooms c r')).1 ∧
    replies t (s.resume t (answer s.rooms c r)).2 =
      replies t (s.resume t (answer s.rooms c r')).2 ∧
    ∃ created' full', normal created' full' rs = normal created' full' rs' ∧
      Knows (s.resume t (answer s.rooms c r)).1 created' full' := by
  have hstill := hknows.step hinv hstep
  have hfixed : ∀ {r r' : Request} {sends sends' : List Sent},
      answer s.rooms c r = (s.rooms, sends, .recv) →
      answer s.rooms c r' = (s.rooms, sends', .recv) →
      replies t (sends.map (t, ·)) = replies t (sends'.map (t, ·)) →
      (s.resume t (answer s.rooms c r)).1 = (s.resume t (answer s.rooms c r')).1 ∧
      replies t (s.resume t (answer s.rooms c r)).2 =
        replies t (s.resume t (answer s.rooms c r')).2 := by
    intro r r' sends sends' hr hr' hreplies
    rw [hr, hr', resume_recv here, resume_recv here]
    exact ⟨rfl, hreplies⟩
  rcases normal_cons_eq hnormal with ⟨rfl, created', full', htail, hcase⟩ | ⟨htail, hcase⟩
  · refine ⟨rfl, rfl, created', full', htail, ?_⟩
    rcases hcase with ⟨k, rfl, rfl, rfl⟩ | ⟨k, rfl, rfl, rfl⟩
    · exact hstill.create (exists_of_answer_create s.rooms c k)
    · refine hstill.join fun hk => ?_
      obtain ⟨room, hroom⟩ := hknows.created k hk
      exact full_of_answer_join hroom (hinv.room k room hroom) c
  · refine and_assoc.1 ⟨?_, created, full, htail, hstill⟩
    rcases hcase with ⟨k, k', rfl, rfl, hk, hk'⟩ | ⟨k, k', rfl, rfl, hk, hk'⟩
    · obtain ⟨room, hroom⟩ := hknows.created k hk
      obtain ⟨room', hroom'⟩ := hknows.created k' hk'
      exact hfixed (answer_create_of_some hroom) (answer_create_of_some hroom')
        (by simp [replies])
    · obtain ⟨room, hroom, hlen⟩ := hknows.full k hk
      obtain ⟨room', hroom', hlen'⟩ := hknows.full k' hk'
      exact hfixed (answer_join_of_two hroom hlen) (answer_join_of_two hroom' hlen')
        (by simp [replies])

theorem normal_eq_nil_iff : normal created full rs = [] ↔ rs = [] := by
  cases rs with
  | nil => simp [normal]
  | cons r rs =>
    cases r <;> simp only [normal] <;> split_ifs <;> simp

end

/-- Where the normal forms of two lists of chunks agree, the schedule leads to the same rooms and
the same replies. -/
theorem serve_of_normal {t : Nat} {schedule : List (Option Label)} {s u u' : State}
    {os os' : List Event} {chunks chunks' : List (List Byte)} {created full : List Key}
    (hschedule : ∀ chunk beyond, some (.recv t chunk beyond) ∉ schedule) (hinv : Inv s)
    (hknows : Knows s created full)
    (hnormal : normal created full (requests chunks) = normal created full (requests chunks'))
    (hsize : Sized chunks) (hsize' : Sized chunks')
    (h : serve t s schedule chunks = some (u, os))
    (h' : serve t s schedule chunks' = some (u', os')) :
    u.rooms = u'.rooms ∧ replies t os = replies t os' := by
  induction schedule generalizing s chunks chunks' created full os os' with
  | nil =>
    simp only [serve, Option.some.injEq, Prod.mk.injEq] at h h'
    obtain ⟨rfl, rfl⟩ := h
    obtain ⟨rfl, rfl⟩ := h'
    exact ⟨rfl, rfl⟩
  | cons slot schedule ih =>
    have hschedule' : ∀ chunk beyond, some (.recv t chunk beyond) ∉ schedule :=
      fun chunk beyond hmem => hschedule chunk beyond (List.mem_cons_of_mem _ hmem)
    cases slot with
    | some l =>
      obtain ⟨s₁, o, os₁, hstep, hserve, rfl⟩ := serve_step h
      obtain ⟨s₁', o', os₁', hstep', hserve', rfl⟩ := serve_step h'
      obtain ⟨rfl, rfl⟩ := Prod.mk.inj (Option.some.inj (hstep.symm.trans hstep'))
      obtain ⟨hrooms, hreplies⟩ := ih hschedule' (hinv.step hstep) (hknows.step hinv hstep)
        hnormal hsize hsize' hserve hserve'
      exact ⟨hrooms, by rw [replies_append, replies_append, hreplies]⟩
    | none =>
      by_cases here : ∃ c, s.handlers[t]? = some ⟨c, .recv⟩
      · obtain ⟨c, here⟩ := here
        rcases deliver_cases here hsize with ⟨hnil, s₁, rest, hd, hrest, hsame, hfin⟩ |
          ⟨r, rest, chunk, hr, hrest, hstep, hd⟩ <;>
        rcases deliver_cases here hsize' with ⟨hnil', s₁', rest', hd', hrest', hsame', hfin'⟩ |
          ⟨r', rest', chunk', hr', hrest', hstep', hd'⟩
        · obtain ⟨os₁, hserve, rfl⟩ := serve_deliver hd h
          obtain ⟨os₁', hserve', rfl⟩ := serve_deliver hd' h'
          exact serve_finished hschedule' (hsame.trans hsame'.symm) hfin hfin'
            (hsize.subset hrest) (hsize'.subset hrest') hserve hserve'
        · rw [hnil, hr', eq_comm, normal, normal_eq_nil_iff] at hnormal
          cases hnormal
        · rw [hnil', hr, normal, normal_eq_nil_iff] at hnormal
          cases hnormal
        · rw [hr, hr'] at hnormal
          obtain ⟨os₁, hserve, rfl⟩ := serve_deliver hd h
          obtain ⟨os₁', hserve', rfl⟩ := serve_deliver hd' h'
          obtain ⟨hstate, hanswer, created', full', htail, hknows'⟩ :=
            same_answer hinv hknows here hnormal hstep
          rw [← hstate] at hserve'
          obtain ⟨hrooms, hreplies⟩ := ih hschedule' (hinv.step hstep) hknows' htail
            (hsize.subset hrest) (hsize'.subset hrest') hserve hserve'
          exact ⟨hrooms, by rw [replies_append, replies_append, hanswer, hreplies]⟩
      · have hnot : ∀ c, s.handlers[t]? ≠ some ⟨c, .recv⟩ := fun c hc => here ⟨c, hc⟩
        obtain ⟨os₁, hserve, rfl⟩ := serve_deliver (deliver_of_not_recv hnot) h
        obtain ⟨os₁', hserve', rfl⟩ := serve_deliver (deliver_of_not_recv hnot) h'
        exact ih hschedule' hinv hknows hnormal hsize hsize' hserve hserve'

/-- Chunks with equal normal forms are served alike. -/
theorem sameService_of_normal {chunks chunks' : List (List Byte)} (hsize : Sized chunks)
    (hsize' : Sized chunks')
    (hnormal : normal [] [] (requests chunks) = normal [] [] (requests chunks')) :
    SameService chunks chunks' := by
  intro ls₀ os₀ s t c hrun _ schedule hschedule u os u' os' h h'
  exact serve_of_normal hschedule (inv_init.run hrun) ⟨by simp, by simp⟩ hnormal hsize hsize' h h'

end Server

end DesperateStruggle
