import DesperateStruggle.Duel

/-!
# The histories of a room

Each room of the server is a duel (`duel_of_run`). Conversely each duel is a room of the server,
with one restriction : the handler of its guest plays, so the guest asks for nothing more
(`GuestSilent`). So what can happen to a room, and what is then sent on its behalf, is exactly what
the duels with silent guests say (`history_iff`).
-/

open CString

namespace DesperateStruggle

namespace Duel

variable {k : Key} {phase phase' : Phase} {m : Move} {sends : List Sent} {c : Socket}
  {h : Server.Handler}

/-- The client whose request a move is. -/
def Move.client : Move → Option Socket
  | create c | join c => some c
  | wake => none

/-- The guest, once it has joined. -/
def Phase.guest : Phase → Option Socket
  | absent | waiting _ => none
  | countdown _ guest | turn _ guest _ => some guest

/-- The move is no request of the guest. -/
def GuestSilent (phase : Phase) (m : Move) : Prop :=
  ∀ c ∈ m.client, phase.guest ≠ some c

instance (phase : Phase) (m : Move) : Decidable (GuestSilent phase m) :=
  inferInstanceAs (Decidable (∀ c ∈ m.client, _))

theorem Phase.guest_of_handler (hhandler : phase.handler k = some h) :
    phase.guest = some h.clientSocket := by
  cases phase <;> cases hhandler <;> rfl

theorem Phase.exists_handler (k : Key) (hguest : phase.guest = some c) :
    ∃ control, phase.handler k = some ⟨c, control⟩ := by
  cases phase <;> cases hguest <;> exact ⟨_, rfl⟩

/-- The guest stays. -/
theorem guest_step (hstep : step k phase m = some (phase', sends)) (hguest : phase.guest = some c) :
    phase'.guest = some c := by
  cases phase <;> cases hguest <;> cases m <;> cases hstep <;> rfl

/-- Only a room that is played can wake. -/
theorem exists_handler_of_wake (hstep : step k phase .wake = some (phase', sends)) :
    ∃ h, phase.handler k = some h := by
  cases phase with
  | absent | waiting => cases hstep
  | countdown | turn => exact ⟨_, rfl⟩

end Duel

namespace Server

section

variable {s s' : State} {l : Label} {o : List Event} {t : Nat} {h : Handler} {c : Socket} {k : Key}
  {phase phase' : Duel.Phase} {m : Duel.Move} {sends : List Sent} {clients : List Socket}

/-! ## The guest is silent -/

/-- What a move of the duel is. -/
theorem move_cases (hmove : move k s l = some m) :
    (∃ (t : Nat) (chunk beyond : List Byte) (h : Handler) (r : Request),
      l = .recv t chunk beyond ∧ s.handlers[t]? = some h ∧
      readsAs (bufferString (zeros 1024) beyond chunk) = .ok (some r) ∧ r.password = k ∧
      m = r.move h.clientSocket) ∨
    ∃ (t : Nat) (h : Handler),
      l = .wake t ∧ s.handlers[t]? = some h ∧ h.control.Plays k ∧ m = .wake := by
  cases l with
  | accept | disconnect => cases hmove
  | recv t chunk beyond =>
    simp only [move] at hmove
    split at hmove
    · next h r here hread =>
      split_ifs at hmove with hr
      cases hmove
      exact Or.inl ⟨t, chunk, beyond, h, r, rfl, here, hread, hr, rfl⟩
    · cases hmove
  | wake t =>
    simp only [move] at hmove
    split at hmove
    · next h here =>
      split_ifs at hmove with hplays
      cases hmove
      exact Or.inr ⟨t, h, rfl, here, hplays, rfl⟩
    · cases hmove

theorem Request.client_move (c : Socket) (r : Request) : (r.move c).client = some c := by
  cases r <;> rfl

/-- A request is made by a handler that reads requests. -/
theorem exists_of_move_client (hmove : move k s l = some m) (hc : m.client = some c)
    (hstep : step s l = some (s', o)) : ∃ t : Nat, s.handlers[t]? = some ⟨c, .recv⟩ := by
  rcases move_cases hmove with ⟨t, chunk, beyond, h, r, rfl, here, -, -, rfl⟩ | ⟨t, h, -, -, -, rfl⟩
  · obtain rfl := Option.some.inj ((Request.client_move h.clientSocket r).symm.trans hc)
    have hcontrol := control_of_recv hstep here
    exact ⟨t, by rw [here, ← hcontrol]⟩
  · cases hc

/-- The handler of the guest plays, so none with its socket makes a request. -/
theorem guestSilent_of_move (hu : OpenUnique s) (hrep : Represents k s phase)
    (hstep : step s l = some (s', o)) (hmove : move k s l = some m) :
    Duel.GuestSilent phase m := by
  intro c hc hguest
  obtain ⟨t, here⟩ := exists_of_move_client hmove hc hstep
  obtain ⟨control, hhandler⟩ := Duel.Phase.exists_handler k hguest
  have hplays : control.Plays k := Duel.Phase.plays_handler hhandler
  obtain ⟨t', ht'⟩ := hrep.plays _ hhandler
  have hopen : s.Open t' c := ⟨_, ht', rfl, by rintro rfl; exact Inv.not_plays_exited hplays⟩
  obtain rfl := hu t t' c ⟨_, here, rfl, by simp⟩ hopen
  obtain ⟨-, rfl⟩ := Handler.mk.inj (Option.some.inj (here.symm.trans ht'))
  exact Inv.not_plays_recv hplays

theorem guestSilent_of_run {ls : List Label} {os : List Event}
    (hrun : machine.Run State.init ls os s) (k : Key) :
    (Duel.machine k).StepsMeet Duel.GuestSilent .absent (moves k State.init ls) := by
  refine hrun.project_meets (I := fun s => Inv s ∧ OpenUnique s) (projects_duel k)
    (fun s l t o hinv hstep => ?_) (fun s phase l m t o hinv hrep hstep hmove => ?_)
    ⟨inv_init, SeatInv.init.openUnique⟩ represents_init
  · exact ⟨hinv.1.step hstep, SeatInv.openUnique_step hinv.1 hinv.2 hstep⟩
  · exact guestSilent_of_move hinv.2 hrep hstep hmove

/-! ## Every duel with a silent guest can happen -/

/-- The room is in a phase of its duel, and each of the clients that is not its guest waits for
requests. -/
structure Standing (k : Key) (clients : List Socket) (s : State) (phase : Duel.Phase) : Prop where
  represents : Represents k s phase
  idle : ∀ c ∈ clients, phase.guest ≠ some c → ∃ t : Nat, s.handlers[t]? = some ⟨c, .recv⟩

/-- The request of a client that waits, as a step. -/
theorem exists_request_step (here : s.handlers[t]? = some ⟨c, .recv⟩) {r : Request}
    (hvalid : Valid r.password) :
    ∃ s' o, step s (.recv t r.message []) = some (s', o) ∧
      move r.password s (.recv t r.message []) = some (r.move c) := by
  obtain ⟨s', o, hstep, -⟩ := step_message here hvalid rfl
  have hread : readsAs (bufferString (zeros 1024) [] r.message) = .ok (some r) := by
    have hlen := (length_message hvalid).2
    rw [bufferString_zeros (by omega), readsAs_message hvalid]
  exact ⟨s', o, hstep, by simp [move, here, hread]⟩

/-- A move of the duel, as a step. -/
theorem exists_move_step (hk : Valid k) (h : Standing k clients s phase)
    (hclient : ∀ c, m.client = some c → c ∈ clients) (hsilent : Duel.GuestSilent phase m)
    (hduel : Duel.step k phase m = some (phase', sends)) :
    ∃ l s' o, step s l = some (s', o) ∧ move k s l = some m := by
  cases m with
  | create c =>
    obtain ⟨t, here⟩ := h.idle c (hclient c rfl) (hsilent c rfl)
    obtain ⟨s', o, hstep, hmove⟩ := exists_request_step here (r := .create k) hk
    exact ⟨_, s', o, hstep, hmove⟩
  | join c =>
    obtain ⟨t, here⟩ := h.idle c (hclient c rfl) (hsilent c rfl)
    obtain ⟨s', o, hstep, hmove⟩ := exists_request_step here (r := .join k) hk
    exact ⟨_, s', o, hstep, hmove⟩
  | wake =>
    obtain ⟨hd, hhandler⟩ := Duel.exists_handler_of_wake hduel
    obtain ⟨t, here⟩ := h.represents.plays hd hhandler
    have hplays := Duel.Phase.plays_handler hhandler
    obtain ⟨⟨s', o⟩, hstep⟩ :=
      Option.isSome_iff_exists.1 (h.represents.inv.wake_isSome ⟨hd, here, hplays⟩)
    exact ⟨.wake t, s', o, hstep, by simp [move, here, hplays]⟩

/-- After a request its handler reads the next one, or it plays the room. -/
theorem control_answer (rooms : Rooms) (c : Socket) (r : Request) :
    (answer rooms c r).2.2 = .recv ∨ (answer rooms c r).2.2.Plays r.password := by
  cases r with
  | create k =>
    simp only [answer, handleCreate]
    split_ifs <;> exact Or.inl rfl
  | join k =>
    simp only [answer, handleJoin]
    split_ifs <;> first | exact Or.inl rfl | exact Or.inr (Or.inl rfl)

/-- A step that is a move takes the room to the next phase, and all but its guest wait for
requests. -/
theorem Standing.step (h : Standing k clients s phase) (hstep : Server.step s l = some (s', o))
    (hmove : move k s l = some m) (hduel : Duel.step k phase m = some (phase', sends)) :
    messages k o = sends ∧ Standing k clients s' phase' := by
  have hone := projects_duel k s phase l s' o h.represents hstep
  rw [hmove] at hone
  obtain ⟨phase₁, hduel₁, hrep⟩ := hone
  obtain ⟨rfl, rfl⟩ := Prod.mk.inj (Option.some.inj (hduel.symm.trans hduel₁))
  refine ⟨rfl, hrep, fun c hc hguest => ?_⟩
  obtain ⟨t, here⟩ := h.idle c hc fun hold => hguest (Duel.guest_step hduel hold)
  rcases move_cases hmove with
    ⟨t₀, chunk, beyond, h₀, r, rfl, here₀, hread, hr, -⟩ | ⟨t₀, h₀, rfl, here₀, hplays, -⟩
  · obtain ⟨h₁, res, here₁, hact, hres⟩ := exists_act rfl hstep
    obtain rfl : (s.resume t₀ res).1 = s' := congrArg Prod.fst hres
    by_cases hne : t = t₀
    · subst hne
      obtain rfl := Option.some.inj (here.symm.trans here₁)
      simp only [act, hread] at hact
      split_ifs at hact
      obtain rfl := Option.some.inj hact
      have hafter : (s.setControl t (answer s.rooms c r).2.2).handlers[t]? =
          some ⟨c, (answer s.rooms c r).2.2⟩ := s.getElem?_setControl_self here
      rcases control_answer s.rooms c r with hcontrol | hcontrol
      · exact ⟨t, by rw [State.handlers_resume, hafter, hcontrol]⟩
      · rw [hr] at hcontrol
        exact (hguest (Duel.Phase.guest_of_handler (hrep.handler_of_plays hafter hcontrol))).elim
    · exact ⟨t, (s.getElem?_setControl_of_ne hne).trans here⟩
  · obtain ⟨h₁, res, -, -, hres⟩ := exists_act rfl hstep
    obtain rfl : (s.resume t₀ res).1 = s' := congrArg Prod.fst hres
    have hne : t ≠ t₀ := by
      rintro rfl
      obtain rfl := Option.some.inj (here.symm.trans here₀)
      exact Inv.not_plays_recv hplays
    exact ⟨t, (s.getElem?_setControl_of_ne hne).trans here⟩

/-- New clients, none of which has asked for anything. -/
theorem exists_run_accept (hnodup : clients.Nodup) :
    ∃ s, machine.Run State.init (clients.map .accept) [] s ∧
      s.handlers = clients.map fun c => ⟨c, .recv⟩ := by
  induction clients using List.reverseRecOn with
  | nil => exact ⟨_, .nil, rfl⟩
  | append_singleton clients c ih =>
    rw [List.nodup_append] at hnodup
    obtain ⟨s, hrun, hhandlers⟩ := ih hnodup.1
    have hfresh : ¬s.IsOpen c := by
      rintro ⟨h, hmem, rfl, -⟩
      rw [hhandlers] at hmem
      obtain ⟨c', hc', rfl⟩ := List.mem_map.1 hmem
      exact hnodup.2.2 c' hc' c' (by simp) rfl
    have hstep : machine.step s (.accept c) = some (s.accept c, []) :=
      step_accept_eq_some.2 ⟨hfresh, rfl, rfl⟩
    refine ⟨s.accept c, by simpa using hrun.snoc hstep, ?_⟩
    simp [State.accept, hhandlers]

/-- All clients that will ask for something have come. -/
theorem exists_run_standing (k : Key) (hnodup : clients.Nodup) :
    ∃ ls s, machine.Run State.init ls [] s ∧ moves k State.init ls = [] ∧
      Standing k clients s .absent := by
  obtain ⟨s, hrun, hhandlers⟩ := exists_run_accept hnodup
  have hnone : moves k State.init (clients.map .accept) = [] := by
    refine Machine.project_eq_nil fun l hl s => ?_
    obtain ⟨c, -, rfl⟩ := List.mem_map.1 hl
    rfl
  obtain ⟨phase, hduel, hrep⟩ := hrun.project (projects_duel k) represents_init
  rw [show machine.project (move k) State.init (clients.map .accept) = [] from hnone] at hduel
  obtain ⟨-, rfl⟩ := hduel.eq_of_nil
  refine ⟨_, s, hrun, hnone, hrep, fun c hc _ => ?_⟩
  obtain ⟨t, ht⟩ := List.mem_iff_getElem?.1 hc
  exact ⟨t, by rw [hhandlers, List.getElem?_map, ht, Option.map_some]⟩

/-- Let `k` be a key that a message can name. Then the moves of the room and the messages on its
behalf in the runs of the server are exactly those of the duels whose guests are silent. -/
theorem history_iff (hk : Valid k) (ms : List Duel.Move) (sends : List Sent) :
    (∃ ls os s, machine.Run State.init ls os s ∧ moves k State.init ls = ms ∧
      messages k os = sends) ↔
    ∃ phase, (Duel.machine k).Run .absent ms sends phase ∧
      (Duel.machine k).StepsMeet Duel.GuestSilent .absent ms := by
  constructor
  · rintro ⟨ls, os, s, hrun, rfl, rfl⟩
    obtain ⟨phase, hduel, -⟩ := hrun.project (projects_duel k) represents_init
    exact ⟨phase, hduel, guestSilent_of_run hrun k⟩
  · rintro ⟨phase, hduel, hsilent⟩
    obtain ⟨ls₀, s₀, hrun₀, hmoves₀, hstanding⟩ :=
      exists_run_standing k (ms.filterMap Duel.Move.client).nodup_dedup
    have hfollow : ∀ m ∈ ms, ∀ s phase phase' sends,
        Standing k (ms.filterMap Duel.Move.client).dedup s phase → Duel.GuestSilent phase m →
        (Duel.machine k).step phase m = some (phase', sends) →
        ∃ l s' o, machine.step s l = some (s', o) ∧ move k s l = some m ∧
          o.filterMap (onBehalf k) = sends ∧
          Standing k (ms.filterMap Duel.Move.client).dedup s' phase' := by
      intro m hm s phase phase' sends hstand hquiet hduel
      have hclient : ∀ c, m.client = some c → c ∈ (ms.filterMap Duel.Move.client).dedup :=
        fun c hc => List.mem_dedup.2 (List.mem_filterMap.2 ⟨m, hm, hc⟩)
      obtain ⟨l, s', o, hstep, hmove⟩ := exists_move_step hk hstand hclient hquiet hduel
      exact ⟨l, s', o, hstep, hmove, hstand.step hstep hmove hduel⟩
    obtain ⟨ls, os, s, hrun, hmoves, hsends, -⟩ :=
      hduel.exists_of_project hsilent hstanding hfollow
    refine ⟨ls₀ ++ ls, os, s, by simpa using hrun₀.trans hrun, ?_, hsends⟩
    rw [moves, hrun₀.project_append]
    exact (congrArg (· ++ _) hmoves₀).trans hmoves

end

/-- The moves of a room up to its second turn, with a client that is turned away. -/
def refused : List Duel.Move :=
  [.create 3, .join 4, .wake, .wake, .join 5]

theorem isSome_refused : ((Duel.machine (ascii "ab")).exec .absent refused).isSome := by
  decide

/-- There is a run of the server in which they happen to a room. -/
theorem history_iff_refused : ∃ ls os s, machine.Run State.init ls os s ∧
    moves (ascii "ab") State.init ls = refused ∧
    messages (ascii "ab") os = (Duel.machine (ascii "ab")).outputs .absent refused isSome_refused :=
  (history_iff ⟨by decide, by decide⟩ _ _).2 ⟨_, Machine.run_final isSome_refused, by decide⟩

end Server

end DesperateStruggle
