import DesperateStruggle.Server

/-!
# Rooms only grow

One message does to the table what its answer says (`Answered`) : a `CREATE` that is answered
`WAIT` adds its room, a `JOIN` that is answered `WAIT` appends the client to its room, and
anything else leaves the table as it was, an exception included. This holds of any table, also
of one that no run of the server reaches.

So rooms are neither removed nor overwritten (`rooms_grow`), though in an arbitrary state the
handlers may insert rooms with the `operator[]` of a missing key.
-/

open CString

namespace DesperateStruggle

/-! ## One message -/

/-- The client is answered `WAIT`. -/
def AnswersWait (c : Socket) (sends : List Sent) : Prop :=
  ∃ k, .reply k c .WAIT ∈ sends

/-- The table after a message of client `c` and what is sent, where an exception sends nothing
and leaves the table. -/
def effect (rooms : Rooms) (c : Socket) (m : List Byte) : Rooms × List Sent :=
  match handleMessage rooms c m with
  | .ok (rooms', sends, _) => (rooms', sends)
  | .error _ => (rooms, [])

/-- What a message may do to the table, by its answer. -/
structure Answered (rooms : Rooms) (c : Socket) (m : List Byte) (rooms' : Rooms)
    (sends : List Sent) : Prop where
  create : ∀ k, Creates m k → (AnswersWait c sends ↔ rooms k = none) ∧
    (AnswersWait c sends → rooms' = rooms.assign k { password := k, players := [c] })
  join : ∀ k, Joins m k →
    (AnswersWait c sends ↔ ∃ room, rooms k = some room ∧ room.players.length < 2) ∧
    (AnswersWait c sends → ∃ room, rooms k = some room ∧
      rooms' = rooms.assign k (room.pushBack c))
  request : AnswersWait c sends → ∃ k, Creates m k ∨ Joins m k
  other : ¬AnswersWait c sends → rooms' = rooms

section

variable {rooms rooms' rooms'' : Rooms} {c : Socket} {m : List Byte} {k : Key}
  {sends : List Sent} {control : Control}

/-- No answer, no change. -/
theorem Answered.unanswered (hcreate : ∀ k, Creates m k → ∃ room, rooms k = some room)
    (hjoin : ∀ k, Joins m k → ∀ room, rooms k = some room → 2 ≤ room.players.length)
    (hwait : ¬AnswersWait c sends) : Answered rooms c m rooms sends where
  create k hk := by
    obtain ⟨room, hroom⟩ := hcreate k hk
    simp [hwait, hroom]
  join k hk := by
    refine ⟨iff_of_false hwait ?_, fun h => absurd h hwait⟩
    rintro ⟨room, hroom, hlt⟩
    exact absurd (hjoin k hk room hroom) (Nat.not_le.2 hlt)
  request h := absurd h hwait
  other _ := rfl

/-- An accepted `JOIN`. -/
theorem Answered.joined (hk : Joins m k) {room : Room} (hroom : rooms k = some room)
    (hlt : room.players.length < 2) (hwait : AnswersWait c sends) :
    Answered rooms c m (rooms.assign k (room.pushBack c)) sends where
  create k' hk' := absurd hk hk'.not_joins
  join k' hk' := by
    obtain rfl := hk.key_unique hk'
    exact ⟨iff_of_true hwait ⟨room, hroom, hlt⟩, fun _ => ⟨room, hroom, rfl⟩⟩
  request _ := ⟨k, Or.inr hk⟩
  other h := absurd hwait h

/-- What a message that does not throw does. -/
theorem handleMessage_answered (h : handleMessage rooms c m = .ok (rooms', sends, control)) :
    Answered rooms c m rooms' sends := by
  generalize hres : (rooms', sends, control) = res at h
  cases handleMessage_handled h with
  | ignored notCreate notJoin =>
    cases hres
    refine .unanswered (fun k hk => ?_) (fun k hk => ?_) (by simp [AnswersWait])
    · rw [hk.1] at notCreate
      cases notCreate
    · rw [hk.1] at notJoin
      cases notJoin
  | @exist k request room found =>
    cases hres
    refine .unanswered (fun k' hk' => ?_) (fun k' hk' => absurd hk' request.not_joins)
      (by simp [AnswersWait])
    exact ⟨room, request.key_unique hk' ▸ found⟩
  | @created k request absent =>
    cases hres
    have hwait : AnswersWait c [.reply k c .WAIT] := ⟨k, by simp⟩
    refine ⟨fun k' hk' => ?_, fun k' hk' => absurd hk' request.not_joins,
      fun _ => ⟨k, Or.inl request⟩, fun h => absurd hwait h⟩
    obtain rfl := request.key_unique hk'
    exact ⟨iff_of_true hwait absent, fun _ => rfl⟩
  | @full k request none =>
    cases hres
    refine .unanswered (fun k' hk' => absurd request hk'.not_joins) (fun k' hk' => ?_)
      (by simp [AnswersWait])
    exact request.key_unique hk' ▸ none
  | @first k request room found empty =>
    cases hres
    exact .joined request found (by simp [empty]) ⟨k, by simp⟩
  | @second k request room found p single =>
    cases hres
    exact .joined request found (by simp [single]) ⟨k, by simp⟩

/-- What any message does. -/
theorem effect_answered (rooms : Rooms) (c : Socket) (m : List Byte) :
    Answered rooms c m (effect rooms c m).1 (effect rooms c m).2 := by
  unfold effect
  split
  · next h => exact handleMessage_answered h
  · next e h =>
    have hthrows : ¬∃ k, Creates m k ∨ Joins m k := by
      rintro ⟨k, hk⟩
      rcases handleMessage_eq_error_iff.1 h with rfl | rfl
      · rcases hk with hk | hk
        · cases hk.2
        · exact absurd hk.1 (by decide)
      · rcases hk with hk | hk
        · exact absurd hk.1 (by decide)
        · cases hk.2
    refine .unanswered (fun k hk => absurd ⟨k, Or.inl hk⟩ hthrows)
      (fun k hk => absurd ⟨k, Or.inr hk⟩ hthrows) (by simp [AnswersWait])

/-! ## Growth -/

/-- Every room is still there, under the same password, with the same players and perhaps more
at the end. -/
def Grown (rooms rooms' : Rooms) : Prop :=
  ∀ k room, rooms k = some room → ∃ room', rooms' k = some room' ∧
    room'.password = room.password ∧ room.players <+: room'.players

theorem Grown.refl (rooms : Rooms) : Grown rooms rooms :=
  fun _ room h => ⟨room, h, rfl, List.prefix_refl _⟩

theorem Grown.trans (h : Grown rooms rooms') (h' : Grown rooms' rooms'') :
    Grown rooms rooms'' := by
  intro k room hroom
  obtain ⟨room', hroom', hpassword, hplayers⟩ := h k room hroom
  obtain ⟨room'', hroom'', hpassword', hplayers'⟩ := h' k room' hroom'
  exact ⟨room'', hroom'', hpassword'.trans hpassword, hplayers.trans hplayers'⟩

/-- A new room under `k`, or a larger one. -/
theorem Grown.assign {room' : Room} (h : ∀ room, rooms k = some room →
    room'.password = room.password ∧ room.players <+: room'.players) :
    Grown rooms (rooms.assign k room') := by
  intro k' room hroom
  rw [Rooms.assign_apply]
  split_ifs with hk
  · subst hk
    exact ⟨room', rfl, h room hroom⟩
  · exact ⟨room, hroom, rfl, List.prefix_refl _⟩

/-- An update through `operator[]` that keeps password and players. -/
theorem Grown.modify {f : Room → Room}
    (hf : ∀ room, (f room).password = room.password ∧ (f room).players = room.players) :
    Grown rooms (rooms.modify k f) :=
  .assign fun room hroom => by
    rw [Rooms.subscript_of_some hroom, (hf room).1, (hf room).2]
    exact ⟨rfl, List.prefix_refl _⟩

theorem Grown.touch : Grown rooms (rooms.touch k) :=
  .modify fun _ => ⟨rfl, rfl⟩

theorem Answered.grown (h : Answered rooms c m rooms' sends) : Grown rooms rooms' := by
  by_cases hwait : AnswersWait c sends
  · obtain ⟨k, hk | hk⟩ := h.request hwait
    · obtain ⟨habsent, hassign⟩ := h.create k hk
      rw [hassign hwait]
      exact .assign fun room hroom => by rw [habsent.1 hwait] at hroom; cases hroom
    · obtain ⟨room, hroom, hassign⟩ := (h.join k hk).2 hwait
      rw [hassign]
      refine .assign fun room' hroom' => ?_
      obtain rfl := Option.some.inj (hroom.symm.trans hroom')
      exact ⟨rfl, List.prefix_append _ _⟩
  · rw [h.other hwait]
    exact .refl _

/-- A turn of the game only reads the rooms. -/
theorem takeTurn_rooms {res : Rooms × List Sent × Control} (h : takeTurn rooms k = some res) :
    res.1 = rooms.touch k := by
  obtain ⟨sends, -, rfl⟩ := Option.map_eq_some_iff.1 h
  rfl

theorem startGame_grown {res : Rooms × List Sent × Control}
    (h : startGame rooms k = some res) : Grown rooms res.1 := by
  obtain ⟨res', hturn, rfl⟩ := Option.map_eq_some_iff.1 h
  have hrooms : res'.1 = (rooms.touch k).touch k := takeTurn_rooms hturn
  exact hrooms ▸ Grown.touch.trans .touch

theorem nextTurn_grown {res : Rooms × List Sent × Control}
    (h : nextTurn rooms k = some res) : Grown rooms res.1 := by
  have hpass : Grown rooms (rooms.modify k Room.passTurn) := .modify fun _ => ⟨rfl, rfl⟩
  simp only [nextTurn] at h
  split_ifs at h with hover
  · cases h
    exact hpass
  · exact takeTurn_rooms h ▸ hpass.trans .touch

end

namespace Server

variable {s s' : State} {l : Label} {o : List Event} {t : Nat} {c : Socket}
  {chunk beyond : List Byte}

/-- A handler that receives a chunk handles the message in it. -/
theorem step_recv_effect (here : s.handlers[t]? = some ⟨c, .recv⟩)
    (hchunk : 1 ≤ chunk.length ∧ chunk.length ≤ 1024) : ∃ s' o,
    Server.step s (.recv t chunk beyond) = some (s', o) ∧
      s'.rooms = (effect s.rooms c (bufferString (zeros 1024) beyond chunk)).1 ∧
      o = (effect s.rooms c (bufferString (zeros 1024) beyond chunk)).2.map (t, ·) := by
  simp only [Server.step, here, effect, if_pos hchunk]
  cases handleMessage s.rooms c (bufferString (zeros 1024) beyond chunk) with
  | ok res => exact ⟨_, _, rfl, rfl, rfl⟩
  | error e => exact ⟨_, _, rfl, rfl, rfl⟩

/-- A step from any state keeps the rooms. -/
theorem grown_step (hstep : Server.step s l = some (s', o)) : Grown s.rooms s'.rooms := by
  cases l with
  | accept c =>
    simp only [Server.step] at hstep
    split_ifs at hstep
    cases hstep
    exact .refl _
  | disconnect t =>
    simp only [Server.step] at hstep
    split at hstep <;> cases hstep
    exact .refl _
  | recv t chunk beyond =>
    have hopen := hstep
    simp only [Server.step] at hopen
    split at hopen
    · next c here =>
      split_ifs at hopen with hchunk
      obtain ⟨s₁, o₁, hstep₁, hrooms, -⟩ := step_recv_effect here hchunk
      cases hstep.symm.trans hstep₁
      rw [hrooms]
      exact (effect_answered _ _ _).grown
    · cases hopen
  | wake t =>
    simp only [Server.step] at hstep
    split at hstep
    · obtain ⟨res, hres, hs⟩ := Option.map_eq_some_iff.1 hstep
      cases hs
      exact startGame_grown hres
    · obtain ⟨res, hres, hs⟩ := Option.map_eq_some_iff.1 hstep
      cases hs
      exact nextTurn_grown hres
    · cases hstep

/-- In any state, a message of any client does to the table what its answer says, it throws
exactly if it is a bare `CREATE` or `JOIN`, and this is what a handler does with a chunk. Along
any run from the state rooms only grow. -/
theorem rooms_grow (s : State) :
    (∀ c m, Answered s.rooms c m (effect s.rooms c m).1 (effect s.rooms c m).2 ∧
      (handleMessage s.rooms c m = .error ⟨⟩ ↔ m = CREATE ∨ m = JOIN)) ∧
    (∀ t c chunk beyond, s.handlers[t]? = some ⟨c, .recv⟩ →
      1 ≤ chunk.length ∧ chunk.length ≤ 1024 → ∃ s' o,
      machine.step s (.recv t chunk beyond) = some (s', o) ∧
        s'.rooms = (effect s.rooms c (bufferString (zeros 1024) beyond chunk)).1 ∧
        o = (effect s.rooms c (bufferString (zeros 1024) beyond chunk)).2.map (t, ·)) ∧
    ∀ ls os s', machine.Run s ls os s' → Grown s.rooms s'.rooms := by
  refine ⟨fun c m => ⟨effect_answered _ _ _, handleMessage_eq_error_iff⟩,
    fun _ _ _ _ here hchunk => step_recv_effect here hchunk, fun ls os s' hrun => ?_⟩
  exact hrun.invariant (P := fun t _ => Grown s.rooms t.rooms) (.refl _)
    fun _ _ _ _ _ hgrown hstep => hgrown.trans (grown_step hstep)

end Server

end DesperateStruggle
