import DesperateStruggle.Locality
import DesperateStruggle.Threads

/-!
# Operations

What a thread does in a room between two waits takes several accesses : an operation. `Finishes` is
what a thread has still to do of the one it is in the middle of, and `Operates` is an operation as a
whole. Each of them does what the handler of the server does in one step (`finishes_dispatch`,
`operates_act`).

Nothing keeps other threads out of the room meanwhile. A step is `Undisturbed` if it begins no
operation on a room that another thread is in the middle of one on. A server whose handlers are not
interrupted between their waits is a special case : its runs are runs of the threads in which every
step is undisturbed (`exists_run_of_server`).
-/

open CString

namespace DesperateStruggle

namespace Threads

open Footprint

/-! ## Accesses to one room -/

namespace Pc

/-- The room a thread accesses next. -/
def room : Pc → Option Key
  | recv | exited => none
  | createFind k | createAssign k | joinFind k | joinSize k | joinPush k | joinFull k
  | sendCountdown k | sendStart k | sendTurn k | passTurn k | checkLives k | sendResult k => some k

/-- The room a thread is in the middle of an operation on. -/
def within : Pc → Option Key
  | recv | exited | sendStart _ | passTurn _ => none
  | createFind k | createAssign k | joinFind k | joinSize k | joinPush k | joinFull k
  | sendCountdown k | sendTurn k | checkLives k | sendResult k => some k

theorem room_of_within {pc : Pc} {k : Key} (h : pc.within = some k) : pc.room = some k := by
  cases pc <;> first | exact h | cases h

end Pc

/-- Where a thread stands when its handler waits. -/
def pcOf : Control → Pc
  | .recv => .recv
  | .countdown password => .sendStart password
  | .game password => .passTurn password
  | .exited => .exited

theorem pcOf_injective : Function.Injective pcOf := by
  intro control control' h
  cases control <;> cases control' <;> simp_all [pcOf]

section

variable {rooms rooms' : Rooms} {c : Socket} {pc pc' : Pc} {k : Key} {sends : List Sent}

/-- Once `rooms[k]` was written, reading it inserts nothing. -/
theorem touch_modify (f : Room → Room) : (rooms.modify k f).touch k = rooms.modify k f :=
  Rooms.touch_of_some Rooms.assign_self

/-- An access that reads its room through `operator[]`. -/
theorem actsOn_touch (k : Key) (f : Room → Option (List Sent × Pc)) :
    ActsOn {k} fun rooms : Rooms => (f (rooms.subscript k)).map fun b => (rooms.touch k, b) := by
  refine .entry rfl (fun entry => (f (entry.getD default)).map fun b =>
    (some (entry.getD default), b)) fun rooms => ?_
  rw [Option.map_map]
  rfl

/-- An access acts on its room. -/
theorem actsOn_access (c : Socket) (h : pc.room = some k) :
    ActsOn {k} fun rooms => access rooms c pc := by
  have hk : k ∈ ({k} : Set Key) := rfl
  have hfind : ∀ {m₁ m₂ : Rooms}, Set.EqOn m₁ m₂ {k} →
      (m₁.contains k = true ↔ m₂.contains k = true) := fun heq => by
    rw [Server.contains_congr hk heq]
  cases pc with
  | recv | exited => cases h
  | createFind k' | joinFind k' =>
    cases h
    exact .ite hfind (.const _) (.const _)
  | createAssign k' =>
    cases h
    exact .entry hk (fun _ => some (some { password := k, players := [c] }, [.reply k c .WAIT],
      .recv)) fun _ => rfl
  | joinPush k' =>
    cases h
    exact .entry hk (fun entry => some (some ((entry.getD default).pushBack c),
      [.reply k c .WAIT], .joinFull k)) fun _ => rfl
  | passTurn k' =>
    cases h
    exact .entry hk (fun entry => some (some (entry.getD default).passTurn, [], .checkLives k))
      fun _ => rfl
  | joinSize k' =>
    cases h
    refine (actsOn_touch k fun room => some (if room.players.length < 2 then ([], .joinPush k)
      else ([.reply k c .FULL], .recv))).of_eq fun rooms => ?_
    simp only [access]
    split_ifs <;> rfl
  | joinFull k' =>
    cases h
    refine (actsOn_touch k fun room => some (if room.players.length = 2 then
      ([], .sendCountdown k) else ([], .recv))).of_eq fun rooms => ?_
    simp only [access]
    split_ifs <;> rfl
  | checkLives k' =>
    cases h
    refine (actsOn_touch k fun room => some (if room.isOver = true then ([], .sendResult k)
      else ([], .sendTurn k))).of_eq fun rooms => ?_
    simp only [access]
    split_ifs <;> rfl
  | sendCountdown k' =>
    cases h
    exact actsOn_touch k fun room => some (broadcast k room.players .COUNTDOWN, .sendStart k)
  | sendStart k' =>
    cases h
    exact actsOn_touch k fun room => some (broadcast k room.players .START, .sendTurn k)
  | sendResult k' =>
    cases h
    exact actsOn_touch k fun room => some (broadcast k room.players room.result, .recv)
  | sendTurn k' =>
    cases h
    refine (actsOn_touch k fun room => (turnMessages k room).map (·, .passTurn k)).of_eq
      fun rooms => ?_
    simp only [access, Option.map_map]
    rfl

/-- What an access sends is on behalf of its room. -/
theorem room_access {res : Rooms × List Sent × Pc} (h : access rooms c pc = some res)
    (hk : pc.room = some k) : ∀ e ∈ res.2.1, e.room = k := by
  have hcast : ∀ players m, ∀ e ∈ broadcast k players m, e.room = k :=
    fun players m => Server.ToSeats.room_eq (.broadcast k players m)
  cases pc with
  | recv | exited => cases hk
  | createFind k' | joinFind k' | joinSize k' | joinFull k' | checkLives k' =>
    cases hk
    simp only [access] at h
    split_ifs at h <;> cases h <;> simp [Sent.room]
  | createAssign k' | joinPush k' | passTurn k' =>
    cases hk
    cases h
    simp [Sent.room]
  | sendCountdown k' | sendStart k' | sendResult k' =>
    cases hk
    cases h
    exact hcast _ _
  | sendTurn k' =>
    cases hk
    obtain ⟨sends, hsends, rfl⟩ := Option.map_eq_some_iff.1 h
    exact Server.ToSeats.room_eq (.turnMessages hsends)

/-- A thread stays in the room it is in the middle of, up to its next wait. -/
theorem within_access {res : Rooms × List Sent × Pc} (h : access rooms c pc = some res)
    (hk : pc.room = some k) : res.2.2.within = some k ∨ ∃ control, res.2.2 = pcOf control := by
  cases pc with
  | recv | exited => cases hk
  | createFind k' | joinFind k' | joinSize k' | joinFull k' | checkLives k' =>
    cases hk
    simp only [access] at h
    split_ifs at h <;> cases h <;> first | exact Or.inl rfl | exact Or.inr ⟨.recv, rfl⟩
  | joinPush k' | sendStart k' | passTurn k' =>
    cases hk
    cases h
    exact Or.inl rfl
  | createAssign k' | sendResult k' =>
    cases hk
    cases h
    exact Or.inr ⟨.recv, rfl⟩
  | sendCountdown k' =>
    cases hk
    cases h
    exact Or.inr ⟨.countdown k, rfl⟩
  | sendTurn k' =>
    cases hk
    obtain ⟨sends, hsends, rfl⟩ := Option.map_eq_some_iff.1 h
    exact Or.inr ⟨.game k, rfl⟩

/-- A thread that waits is in no room. -/
@[simp] theorem within_pcOf (control : Control) : (pcOf control).within = none := by
  cases control <;> rfl

theorem within_after {res : Rooms × List Sent × Pc} (h : access rooms c pc = some res)
    (hk : pc.room = some k) : ∀ k', res.2.2.within = some k' → k' = k := by
  intro k' hk'
  rcases within_access h hk with hin | ⟨control, hwait⟩
  · exact Option.some.inj (hk'.symm.trans hin)
  · simp [hwait] at hk'

/-! ## What is still to do -/

/-- From `pc` on the thread takes its operation to the next wait and leaves the table, the sends
and the wait of `res`. -/
inductive Finishes (c : Socket) : Rooms → Pc → Rooms × List Sent × Control → Prop
  | wait {rooms : Rooms} {control : Control} :
      Finishes c rooms (pcOf control) (rooms, [], control)
  | access {rooms rooms₁ rooms₂ : Rooms} {pc pc₁ : Pc} {sends₁ sends₂ : List Sent} {k : Key}
      {control : Control} (within : pc.within = some k)
      (first : access rooms c pc = some (rooms₁, sends₁, pc₁))
      (rest : Finishes c rooms₁ pc₁ (rooms₂, sends₂, control)) :
      Finishes c rooms pc (rooms₂, sends₁ ++ sends₂, control)

namespace Finishes

variable {rooms₁ : Rooms} {sends₁ : List Sent} {pc₁ : Pc} {control : Control}
  {res : Rooms × List Sent × Control}

/-- The last access. -/
theorem last (within : pc.within = some k)
    (h : Threads.access rooms c pc = some (rooms₁, sends₁, pcOf control)) :
    Finishes c rooms pc (rooms₁, sends₁, control) := by
  have hlast := Finishes.access within h .wait
  rwa [List.append_nil] at hlast

/-- An access without a send. -/
theorem silent (within : pc.within = some k)
    (h : Threads.access rooms c pc = some (rooms₁, [], pc₁)) (rest : Finishes c rooms₁ pc₁ res) :
    Finishes c rooms pc res :=
  .access within h rest

/-- A thread that waits has nothing to do. -/
theorem of_wait (h : Finishes c rooms (pcOf control) res) : res = (rooms, [], control) := by
  generalize hpc : pcOf control = pc at h
  cases h with
  | @wait rooms control' => rw [pcOf_injective hpc]
  | access within => simp [← hpc] at within

/-- A thread that is in no room waits. -/
theorem of_within_none (h : Finishes c rooms pc res) (hnone : pc.within = none) :
    res.1 = rooms ∧ res.2.1 = [] ∧ pc = pcOf res.2.2 := by
  cases h with
  | wait => exact ⟨rfl, rfl, rfl⟩
  | access within => simp [hnone] at within

/-- After an access there is less to do. -/
theorem after (h : Finishes c rooms pc res) (within : pc.within = some k)
    (first : Threads.access rooms c pc = some (rooms₁, sends₁, pc₁)) :
    ∃ sends₂, res.2.1 = sends₁ ++ sends₂ ∧ Finishes c rooms₁ pc₁ (res.1, sends₂, res.2.2) := by
  cases h with
  | wait => simp at within
  | access _ first' rest =>
    cases first.symm.trans first'
    exact ⟨_, rfl, rest⟩

theorem eqOn (h : Finishes c rooms pc res) (hk : ∀ k', pc.within = some k' → k' = k)
    (heq : Set.EqOn rooms rooms' {k}) :
    ∃ rooms₂, Finishes c rooms' pc (rooms₂, res.2) ∧ Set.EqOn res.1 rooms₂ {k} := by
  induction h generalizing rooms' with
  | wait => exact ⟨rooms', .wait, heq⟩
  | @access rooms rooms₁ rooms₂ pc pc₁ sends₁ sends₂ k' control within first rest ih =>
    obtain rfl := hk k' within
    have hroom : pc.room = some k' := Pc.room_of_within within
    obtain ⟨rooms₁', first', heq₁⟩ := (actsOn_access c hroom).congr heq first
    obtain ⟨rooms₂', rest', heq₂⟩ := ih (within_after first hroom) heq₁
    exact ⟨rooms₂', .access within first' rest', heq₂⟩

/-- What a thread has still to do depends on its room alone. -/
theorem congr (h : Finishes c rooms pc res)
    (heq : ∀ k, pc.within = some k → rooms k = rooms' k) :
    ∃ rooms₂, Finishes c rooms' pc (rooms₂, res.2) ∧
      ∀ k, pc.within = some k → res.1 k = rooms₂ k := by
  rcases hwithin : pc.within with - | k
  · obtain ⟨-, hnil, hwait⟩ := h.of_within_none hwithin
    have hres : res.2 = ([], res.2.2) := Prod.ext hnil rfl
    refine ⟨rooms', ?_, by simp⟩
    rw [hwait, hres]
    exact .wait
  · have hk : ∀ k', pc.within = some k' → k' = k :=
      fun k' hk' => Option.some.inj (hk'.symm.trans hwithin)
    obtain ⟨rooms₂, hfin, heq₂⟩ := h.eqOn hk (Set.eqOn_singleton.2 (heq k hwithin))
    refine ⟨rooms₂, hfin, fun k' hk' => ?_⟩
    obtain rfl := Option.some.inj hk'
    exact heq₂ rfl

end Finishes

/-! ## Operations -/

/-- A `CREATE` from its first access on. -/
theorem finishes_handleCreate : Finishes c rooms (.createFind k) (handleCreate rooms c k) := by
  unfold handleCreate
  split_ifs with hc
  · exact .last rfl (by simp [access, hc, pcOf])
  · have hfind : access rooms c (.createFind k) = some (rooms, [], .createAssign k) := by
      simp [access, hc]
    exact .silent rfl hfind (.last rfl rfl)

/-- A `JOIN` from its push on. -/
theorem finishes_joinPush {rooms' : Rooms}
    (hrooms : rooms' = rooms.modify k fun room => room.pushBack c) :
    Finishes c rooms (.joinPush k)
      (if (rooms'.subscript k).players.length = 2 then (rooms', .reply k c .WAIT ::
        broadcast k (rooms'.subscript k).players .COUNTDOWN, .countdown k)
      else (rooms', [.reply k c .WAIT], .recv)) := by
  have hpush : access rooms c (.joinPush k) = some (rooms', [.reply k c .WAIT], .joinFull k) := by
    rw [hrooms]
    rfl
  have htouch : rooms'.touch k = rooms' := by
    rw [hrooms]
    exact touch_modify _
  split_ifs with hfull
  · have hfound : access rooms' c (.joinFull k) = some (rooms', [], .sendCountdown k) := by
      simp [access, hfull, htouch]
    have hsend : access rooms' c (.sendCountdown k) = some (rooms',
        broadcast k (rooms'.subscript k).players .COUNTDOWN, pcOf (.countdown k)) := by
      simp [access, htouch, pcOf]
    exact .access rfl hpush (.silent rfl hfound (.last rfl hsend))
  · have hnot : access rooms' c (.joinFull k) = some (rooms', [], pcOf .recv) := by
      simp [access, hfull, htouch, pcOf]
    exact .access rfl hpush (.last rfl hnot)

/-- A `JOIN` from its first access on. -/
theorem finishes_handleJoin : Finishes c rooms (.joinFind k) (handleJoin rooms c k) := by
  by_cases hc : rooms.contains k = true
  · obtain ⟨room, hroom⟩ := Rooms.contains_iff.1 hc
    have htouch : rooms.touch k = rooms := Rooms.touch_of_some hroom
    have hfind : access rooms c (.joinFind k) = some (rooms, [], .joinSize k) := by
      simp [access, hc]
    by_cases hsize : (rooms.subscript k).players.length < 2
    · have hseat : access rooms c (.joinSize k) = some (rooms, [], .joinPush k) := by
        simp [access, hsize, htouch]
      simp only [handleJoin, hc, hsize, decide_true, Bool.and_self, if_true]
      exact .silent rfl hfind (.silent rfl hseat (finishes_joinPush rfl))
    · have hfull : access rooms c (.joinSize k) =
          some (rooms, [.reply k c .FULL], pcOf .recv) := by
        simp [access, hsize, htouch, pcOf]
      simp only [handleJoin, hc, hsize, decide_false, Bool.and_false, Bool.false_eq_true, if_false]
      exact .silent rfl hfind (.last rfl hfull)
  · have hfind : access rooms c (.joinFind k) = some (rooms, [.reply k c .FULL], pcOf .recv) := by
      simp [access, hc, pcOf]
    simp only [handleJoin, hc, Bool.false_and, Bool.false_eq_true, if_false]
    exact .last rfl hfind

/-- A message from its first access on. -/
theorem finishes_dispatch {t : Nat} {chunk beyond : List Byte}
    {res : Rooms × List Sent × Control}
    (h : Server.act ⟨c, .recv⟩ (.recv t chunk beyond) rooms = some res) :
    Finishes c rooms (dispatch (bufferString (zeros 1024) beyond chunk)) res := by
  simp only [Server.act] at h
  split_ifs at h
  unfold Server.readsAs at h
  unfold dispatch
  generalize bufferString (zeros 1024) beyond chunk = m at h ⊢
  have hwait : ∀ control, Finishes c rooms (pcOf control) (rooms, [], control) :=
    fun _ => .wait
  split_ifs at h ⊢
  · cases hk : substr m 7 4 <;> simp only [hk, Except.map] at h <;> cases h
    · exact hwait .exited
    · exact finishes_handleCreate
  · cases hk : substr m 5 4 <;> simp only [hk, Except.map] at h <;> cases h
    · exact hwait .exited
    · exact finishes_handleJoin
  · cases h
    exact hwait .recv

/-- The first access of an operation, and then the rest of it. -/
def Operates (c : Socket) (rooms : Rooms) (pc : Pc) (res : Rooms × List Sent × Control) : Prop :=
  ∃ rooms₁ sends₁ pc₁ sends₂, access rooms c pc = some (rooms₁, sends₁, pc₁) ∧
    res.2.1 = sends₁ ++ sends₂ ∧ Finishes c rooms₁ pc₁ (res.1, sends₂, res.2.2)

theorem finishes_takeTurn {res : Rooms × List Sent × Control} (h : takeTurn rooms k = some res) :
    Finishes c rooms (.sendTurn k) res := by
  have htouch : (rooms.touch k).subscript k = rooms.subscript k := Rooms.subscript_assign
  obtain ⟨sends, hsends, rfl⟩ := Option.map_eq_some_iff.1 h
  have hsend : access rooms c (.sendTurn k) = some (rooms.touch k, sends, pcOf (.game k)) := by
    rw [htouch] at hsends
    simp [access, hsends, pcOf]
  exact .last rfl hsend

/-- The first turn. -/
theorem operates_startGame {res : Rooms × List Sent × Control} (h : startGame rooms k = some res) :
    Operates c rooms (.sendStart k) res := by
  have htouch : (rooms.touch k).subscript k = rooms.subscript k := Rooms.subscript_assign
  obtain ⟨res', hturn, rfl⟩ := Option.map_eq_some_iff.1 h
  refine ⟨rooms.touch k, _, .sendTurn k, res'.2.1, rfl, ?_, finishes_takeTurn hturn⟩
  simp only [htouch]

/-- The next turn. -/
theorem operates_nextTurn {res : Rooms × List Sent × Control} (h : nextTurn rooms k = some res) :
    Operates c rooms (.passTurn k) res := by
  refine ⟨rooms.modify k Room.passTurn, [], .checkLives k, res.2.1, rfl, rfl, ?_⟩
  have htouch : (rooms.modify k Room.passTurn).touch k = rooms.modify k Room.passTurn :=
    touch_modify Room.passTurn
  simp only [nextTurn] at h
  split_ifs at h with hover
  · cases h
    have hcheck : access (rooms.modify k Room.passTurn) c (.checkLives k) =
        some (rooms.modify k Room.passTurn, [], .sendResult k) := by
      simp [access, hover, htouch]
    have hsend : access (rooms.modify k Room.passTurn) c (.sendResult k) =
        some (rooms.modify k Room.passTurn, broadcast k
          ((rooms.modify k Room.passTurn).subscript k).players
          ((rooms.modify k Room.passTurn).subscript k).result, pcOf .recv) := by
      simp [access, htouch, pcOf]
    exact .silent rfl hcheck (.last rfl hsend)
  · have hcheck : access (rooms.modify k Room.passTurn) c (.checkLives k) =
        some (rooms.modify k Room.passTurn, [], .sendTurn k) := by
      simp [access, hover, htouch]
    exact .silent rfl hcheck (finishes_takeTurn h)

/-- The operation that a wake begins. -/
theorem operates_act {t : Nat} {control : Control} {res : Rooms × List Sent × Control}
    (h : Server.act ⟨c, control⟩ (.wake t) rooms = some res) :
    Operates c rooms (pcOf control) res := by
  cases control with
  | recv | exited => cases h
  | countdown k => exact operates_startGame h
  | game k => exact operates_nextTurn h

namespace Operates

variable {res : Rooms × List Sent × Control}

/-- An operation depends on its room alone. -/
theorem congr (h : Operates c rooms pc res) (hk : pc.room = some k)
    (heq : Set.EqOn rooms rooms' {k}) :
    ∃ rooms₂, Operates c rooms' pc (rooms₂, res.2) ∧ Set.EqOn res.1 rooms₂ {k} := by
  obtain ⟨rooms₁, sends₁, pc₁, sends₂, first, hsends, hrest⟩ := h
  obtain ⟨rooms₁', first', heq₁⟩ := (actsOn_access c hk).congr heq first
  obtain ⟨rooms₂, hrest', heq₂⟩ := hrest.eqOn (within_after first hk) heq₁
  exact ⟨rooms₂, ⟨rooms₁', sends₁, pc₁, sends₂, first', hsends, hrest'⟩, heq₂⟩

/-- After the first access the rest is to do. -/
theorem after (h : Operates c rooms pc res) {rooms₁ : Rooms} {sends₁ : List Sent} {pc₁ : Pc}
    (first : access rooms c pc = some (rooms₁, sends₁, pc₁)) :
    ∃ sends₂, res.2.1 = sends₁ ++ sends₂ ∧ Finishes c rooms₁ pc₁ (res.1, sends₂, res.2.2) := by
  obtain ⟨_, _, _, sends₂, first', hsends, hrest⟩ := h
  cases first.symm.trans first'
  exact ⟨sends₂, hsends, hrest⟩

end Operates

end

/-! ## Undisturbed runs -/

/-- Thread `t` is in the middle of an operation on room `k`. -/
def State.In (s : State) (t : Nat) (k : Key) : Prop :=
  ∃ h, s.threads[t]? = some h ∧ h.pc.within = some k

/-- The room of the operation that a step begins, if it begins one : a thread reads a request, or
it wakes in its game. -/
def begins (s : State) : Label → Option Key
  | .accept _ | .disconnect _ => none
  | .recv _ chunk beyond => (dispatch (bufferString (zeros 1024) beyond chunk)).within
  | .run t =>
    match s.threads[t]? with
    | some ⟨_, .sendStart k⟩ | some ⟨_, .passTurn k⟩ => some k
    | _ => none

/-- The step begins no operation on a room that a thread is in the middle of one on. -/
def Undisturbed (s : State) (l : Label) : Prop :=
  ∀ k ∈ begins s l, ∀ hd ∈ s.threads, hd.pc.within ≠ some k

instance (s : State) (l : Label) : Decidable (Undisturbed s l) :=
  inferInstanceAs (Decidable (∀ k ∈ begins s l, _))

theorem Undisturbed.not_in {s : State} {l : Label} (h : Undisturbed s l) {k : Key}
    (hk : begins s l = some k) (t : Nat) : ¬s.In t k := by
  rintro ⟨hd, hhd, hin⟩
  exact h k hk hd (List.mem_iff_getElem?.2 ⟨t, hhd⟩) hin

/-- Thread `t` gets to `res` by steps of its own, and none of them disturbs another thread. -/
def Reaches (s : State) (t : Nat) (res : Rooms × List Sent × Pc) : Prop :=
  ∃ ls, machine.Run s ls (s.resume t res).2 (s.resume t res).1 ∧
    machine.StepsMeet Undisturbed s ls

section

variable {s : State} {t : Nat} {c : Socket} {pc pc₁ pc₂ : Pc} {rooms rooms₁ rooms₂ : Rooms}
  {sends₁ sends₂ : List Sent} {res : Rooms × List Sent × Control}

theorem State.resume_self (here : s.threads[t]? = some ⟨c, pc⟩) :
    s.resume t (s.rooms, [], pc) = (s, []) := by
  have hmodify : s.threads.modify t (fun h => { h with pc }) = s.threads := by
    refine List.ext_getElem? fun i => ?_
    rw [List.getElem?_modify]
    split_ifs with hi
    · subst hi
      simp [here]
    · simp
  simp [State.resume, State.setPc, hmodify]

/-- An access, and what the thread gets to after it. -/
theorem Reaches.access (here : s.threads[t]? = some ⟨c, pc⟩)
    (first : Threads.access s.rooms c pc = some (rooms₁, sends₁, pc₁))
    (hquiet : Undisturbed s (.run t))
    (rest : Reaches (s.resume t (rooms₁, sends₁, pc₁)).1 t (rooms₂, sends₂, pc₂)) :
    Reaches s t (rooms₂, sends₁ ++ sends₂, pc₂) := by
  obtain ⟨ls, hrun, hmeets⟩ := rest
  have hstep : machine.step s (.run t) = some (s.resume t (rooms₁, sends₁, pc₁)) := by
    simp [machine, step, here, first]
  have hlast : ((s.resume t (rooms₁, sends₁, pc₁)).1.resume t (rooms₂, sends₂, pc₂)).1 =
      (s.resume t (rooms₂, sends₁ ++ sends₂, pc₂)).1 := by
    have hset : (s.setPc t pc₁).setPc t pc₂ = s.setPc t pc₂ := s.setPc_setPc
    simp only [State.resume, State.setPc, State.mk.injEq, true_and] at hset ⊢
    exact hset
  rw [hlast] at hrun
  have hhead := Machine.Run.head hstep hrun
  refine ⟨.run t :: ls, by simpa [State.resume] using hhead, hquiet, ?_⟩
  exact (Machine.forall_step_iff hstep).2 hmeets

end

/-- The threads of a server whose handlers all wait. -/
def ofServer (s : Server.State) : State where
  rooms := s.rooms
  threads := s.handlers.map fun h => ⟨h.clientSocket, pcOf h.control⟩

section

variable {s s' : Server.State} {t : Nat} {c : Socket} {control : Control}

end

end Threads

end DesperateStruggle
