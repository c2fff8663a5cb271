import DesperateStruggle.Process

/-!
# The life of the client's socket

`cleanupClient` tests `clientSocket` but does not reset it, so the test holds again for the next one
who cleans up. If the listener finds the connection closed it cleans up, and `main` goes on with a
socket that is closed. `orderly_iff` says when this shows : when `main` sends, receives or cleans up
after that. As long as the listener does not find the connection closed, it does not
(`orderly_of_connected`).
-/

open CString

namespace DesperateStruggle

namespace NetCall

/-- A `send` or a `recv`. -/
def Uses : NetCall → Prop
  | send _ => True
  | recv => True
  | closesocket => False
  | WSACleanup => False

/-- The socket is closed at most once and not used after that, and sockets are given up at most
once. -/
structure Orderly (os : List NetCall) : Prop where
  closesocket : os.count .closesocket ≤ 1
  cleanup : os.count .WSACleanup ≤ 1
  unused : os.Pairwise fun a b => a = .closesocket → ¬b.Uses

section

variable {os : List NetCall} {call : NetCall}

theorem count_snoc_le_one {a : NetCall} :
    (os ++ [call]).count a ≤ 1 ↔ os.count a ≤ 1 ∧ (call = a → a ∉ os) := by
  rw [List.count_append, List.count_singleton]
  by_cases hcall : call = a
  · have hzero : os.count a + 1 ≤ 1 ↔ a ∉ os := by
      rw [← List.count_eq_zero]
      omega
    simp only [hcall, beq_self_eq_true, if_true, hzero, true_imp_iff]
    exact ⟨fun hnone => ⟨by simp [List.count_eq_zero.2 hnone], hnone⟩, And.right⟩
  · simp [hcall]

/-- One more call. -/
theorem orderly_snoc : Orderly (os ++ [call]) ↔ Orderly os ∧
    (call = .closesocket → .closesocket ∉ os) ∧ (call = .WSACleanup → .WSACleanup ∉ os) ∧
      (call.Uses → .closesocket ∉ os) := by
  have hunused : (os ++ [call]).Pairwise (fun a b => a = .closesocket → ¬b.Uses) ↔
      os.Pairwise (fun a b => a = .closesocket → ¬b.Uses) ∧ (call.Uses → .closesocket ∉ os) := by
    rw [List.pairwise_append]
    simp only [List.pairwise_singleton, List.mem_singleton, forall_eq, true_and]
    exact and_congr_right fun _ =>
      ⟨fun h huses hmem => h _ hmem rfl huses, fun h a ha heq huses => h huses (heq ▸ ha)⟩
  constructor
  · rintro ⟨hclose, hclean, hpair⟩
    rw [count_snoc_le_one] at hclose hclean
    rw [hunused] at hpair
    exact ⟨⟨hclose.1, hclean.1, hpair.1⟩, hclose.2, hclean.2, hpair.2⟩
  · rintro ⟨⟨hclose, hclean, hpair⟩, hclose', hclean', huses⟩
    exact ⟨count_snoc_le_one.2 ⟨hclose, hclose'⟩, count_snoc_le_one.2 ⟨hclean, hclean'⟩,
      hunused.2 ⟨hpair, huses⟩⟩

/-- A call on the socket needs it open. -/
theorem orderly_snoc_of_ne (hcall : call ≠ .WSACleanup) :
    Orderly (os ++ [call]) ↔ Orderly os ∧ .closesocket ∉ os := by
  rw [orderly_snoc]
  refine and_congr_right fun _ => ⟨?_, fun hopen => ?_⟩
  · rintro ⟨hclose, -, huses⟩
    cases call with
    | send bytes => exact huses trivial
    | recv => exact huses trivial
    | closesocket => exact hclose rfl
    | WSACleanup => exact absurd rfl hcall
  · exact ⟨fun _ => hopen, fun heq => absurd heq hcall, fun _ => hopen⟩

theorem orderly_snoc_cleanup :
    Orderly (os ++ [.WSACleanup]) ↔ Orderly os ∧ .WSACleanup ∉ os := by
  rw [orderly_snoc]
  refine and_congr_right fun _ => ⟨fun h => h.2.1 rfl, fun hnone => ⟨?_, fun _ => hnone, ?_⟩⟩
  · intro heq
    cases heq
  · exact False.elim

/-- Some requests. -/
theorem orderly_append_sends (requests : List (List Byte)) :
    Orderly (os ++ requests.map .send) ↔
      Orderly os ∧ (requests ≠ [] → .closesocket ∉ os) := by
  induction requests using List.reverseRecOn with
  | nil => simp
  | append_singleton requests r ih =>
    have hsends : .closesocket ∈ os ++ requests.map .send ↔ .closesocket ∈ os := by simp
    have hlast : .send r ≠ NetCall.WSACleanup := by simp
    rw [List.map_append, ← List.append_assoc, List.map_singleton, orderly_snoc_of_ne hlast, ih,
      hsends]
    constructor
    · rintro ⟨⟨horderly, -⟩, hopen⟩
      exact ⟨horderly, fun _ => hopen⟩
    · rintro ⟨horderly, hopen⟩
      have hopen := hopen (by simp)
      exact ⟨⟨horderly, fun _ => hopen⟩, hopen⟩

end

end NetCall

namespace Process

/-- `main` makes a call in this step : it sends a request, reads an answer or cleans up. -/
def MainCalls (s : Process) : Label → Prop
  | .event e mousePos => (s.client.handleEvent e mousePos).2 ≠ []
  | .recvReply => True
  | .cleanupMain => True
  | _ => False

/-- `main` makes no call once the listener has closed the socket. -/
def NotAfterClose (s : Process) (l : Label) : Prop :=
  s.listener.HasClosed → ¬s.MainCalls l

/-! ## What has been called -/

/-- What has been called when `main` and the listener are at these places. -/
structure Inv (main : MainAt) (listener : ListenerAt) (os : List NetCall) : Prop where
  starting : main.Starting → listener = .notStarted
  ending : main.Ending → listener.Idle
  /-- Before `main` closes the socket the listener may have. -/
  closed : main ≠ .cleaning → main ≠ .exited → (.closesocket ∈ os ↔ listener.HasClosed)
  cleaned : main ≠ .exited → (.WSACleanup ∈ os ↔ listener = .disconnected)

section

variable {s s' : Process} {l : Label} {ls : List Label} {os o : List NetCall}

theorem Inv.init : Inv .socket .notStarted [] where
  starting _ := rfl
  ending h := by simp [MainAt.Ending] at h
  closed _ _ := by simp [ListenerAt.HasClosed]
  cleaned _ := by simp

/-- `main` moves before its own cleanup, and neither closes the socket nor gives sockets up. -/
theorem Inv.moveMain {main main' : MainAt} {listener : ListenerAt} (h : Inv main listener os)
    (hbefore : main ≠ .cleaning ∧ main ≠ .exited)
    (hstarting : main'.Starting → listener = .notStarted)
    (hending : main'.Ending → listener.Idle) (ho : .closesocket ∉ o ∧ .WSACleanup ∉ o) :
    Inv main' listener (os ++ o) where
  starting := hstarting
  ending := hending
  closed _ _ := by
    rw [List.mem_append, or_iff_left ho.1]
    exact h.closed hbefore.1 hbefore.2
  cleaned _ := by
    rw [List.mem_append, or_iff_left ho.2]
    exact h.cleaned hbefore.2

/-- `main` moves to a place where it neither starts nor ends. -/
theorem Inv.moveMain_inside {main main' : MainAt} {listener : ListenerAt}
    (h : Inv main listener os) (hbefore : main ≠ .cleaning ∧ main ≠ .exited)
    (hinside : ¬main'.Starting ∧ ¬main'.Ending) (ho : .closesocket ∉ o ∧ .WSACleanup ∉ o) :
    Inv main' listener (os ++ o) :=
  h.moveMain hbefore (fun hstart => absurd hstart hinside.1) (fun hend => absurd hend hinside.2) ho

/-- While the listener runs, `main` neither starts nor ends. -/
theorem Inv.of_running {main : MainAt} {listener : ListenerAt} (h : Inv main listener os)
    (hrun : ¬listener.Idle) : ¬main.Starting ∧ ¬main.Ending :=
  ⟨fun hstart => hrun (h.starting hstart ▸ Or.inl rfl), fun hend => hrun (h.ending hend)⟩

/-- The listener moves. -/
theorem Inv.moveListener {main : MainAt} {listener listener' : ListenerAt}
    (h : Inv main listener os) (hrun : ¬listener.Idle)
    (hclosed : listener'.HasClosed ↔ listener.HasClosed ∨ .closesocket ∈ o)
    (hcleaned : listener' = .disconnected ↔ .WSACleanup ∈ o) : Inv main listener' (os ++ o) where
  starting hstart := absurd hstart (h.of_running hrun).1
  ending hend := absurd hend (h.of_running hrun).2
  closed hclean hexit := by
    rw [List.mem_append, h.closed hclean hexit, hclosed]
  cleaned hexit := by
    have hnot : listener ≠ .disconnected := fun heq => hrun (heq ▸ Or.inr (Or.inl rfl))
    rw [List.mem_append, h.cleaned hexit, or_iff_right hnot, hcleaned]

/-- Every step keeps the invariant. -/
theorem Inv.step (h : Inv s.main s.listener os) {main : MainAt} {listener : ListenerAt}
    {client : Client} (hmoves : s.Moves l main listener client o) :
    Inv main listener (os ++ o) := by
  have hidle : ListenerAt.notStarted.Idle := by decide
  cases hmoves with
  | socket here next =>
    have hlistener := h.starting (Or.inl here)
    refine h.moveMain (by simp [here]) (fun _ => hlistener) (fun hend => ?_) (by simp)
    rcases next with rfl | rfl <;> exact absurd hend (by decide)
  | connected here =>
    have hlistener := h.starting (Or.inr (Or.inl here))
    have hclosed := h.closed (by simp [here]) (by simp [here])
    have hcleaned := h.cleaned (by simp [here])
    rw [hlistener] at hclosed hcleaned
    refine ⟨fun hstart => absurd hstart (by decide), fun hend => absurd hend (by decide),
      fun _ _ => ?_, fun _ => ?_⟩
    · rw [List.append_nil, hclosed]
      decide
    · rw [List.append_nil, hcleaned]
      decide
  | refused here next =>
    have hlistener := h.starting (Or.inr (Or.inl here))
    exact h.moveMain (by simp [here]) (fun _ => hlistener) (fun _ => hlistener ▸ hidle) (by simp)
  | event here next step =>
    refine h.moveMain_inside (by simp [here]) ?_ (by simp)
    rcases next with rfl | rfl <;> decide
  | recvReply here => exact h.moveMain_inside (by simp [here]) (by decide) (by simp)
  | reply here step => exact h.moveMain_inside (by simp [here]) (by decide) (by simp)
  | leave here => exact h.moveMain_inside (by simp [here]) (by decide) (by simp)
  | join here done next =>
    refine h.moveMain (by simp [here]) (fun hstart => ?_) (fun _ => Or.inr done) (by simp)
    rcases next with rfl | rfl <;> exact absurd hstart (by decide)
  | closeMain here =>
    refine ⟨fun hstart => absurd hstart (by decide), fun _ => h.ending (Or.inl here),
      fun hclean => absurd rfl hclean, fun _ => ?_⟩
    rw [List.mem_append, h.cleaned (by simp [here])]
    simp
  | cleanMain here =>
    refine ⟨fun hstart => absurd hstart (by decide), fun _ => ?_, fun _ hexit => absurd rfl hexit,
      fun hexit => absurd rfl hexit⟩
    rcases here with here | here
    · exact h.ending (Or.inr (Or.inl here))
    · exact h.starting (Or.inr (Or.inr here)) ▸ hidle
  | poll here =>
    refine h.moveListener (by rw [here]; decide) ?_ (by decide)
    rw [here]
    decide
  | receive here next step =>
    refine h.moveListener (by rw [here]; decide) ?_ ?_
    · rw [here]
      rcases next with rfl | rfl | ⟨-, rfl⟩ <;> decide
    · rcases next with rfl | rfl | ⟨-, rfl⟩ <;> decide
  | closeListener here =>
    refine h.moveListener (by rw [here]; decide) ?_ (by decide)
    rw [here]
    decide
  | cleanListener here =>
    refine h.moveListener (by rw [here]; decide) ?_ (by decide)
    rw [here]
    decide

theorem notAfterClose_iff (h : s.MainCalls l) : s.NotAfterClose l ↔ ¬s.listener.HasClosed :=
  imp_not_comm.trans (forall_prop_of_true h)

theorem notAfterClose_of_not (h : ¬s.MainCalls l) : s.NotAfterClose l :=
  fun _ => h

/-- A call on the socket is in order unless the listener has closed it. -/
theorem Inv.orderly_call {main : MainAt} {listener : ListenerAt} {call : NetCall}
    (h : Inv main listener os) (hbefore : main ≠ .cleaning ∧ main ≠ .exited)
    (hcall : call ≠ .WSACleanup) :
    NetCall.Orderly (os ++ [call]) ↔ NetCall.Orderly os ∧ ¬listener.HasClosed := by
  rw [NetCall.orderly_snoc_of_ne hcall, h.closed hbefore.1 hbefore.2]

/-- The last cleanup is in order unless the listener has done one. -/
theorem Inv.orderly_cleanup {main : MainAt} {listener : ListenerAt} (h : Inv main listener os)
    (hbefore : main ≠ .exited) :
    NetCall.Orderly (os ++ [.WSACleanup]) ↔ NetCall.Orderly os ∧ listener ≠ .disconnected := by
  rw [NetCall.orderly_snoc_cleanup, h.cleaned hbefore]

/-- After a step the calls are orderly exactly if they were before it and `main` made none after
the listener closed the socket. -/
theorem Inv.orderly_step (h : Inv s.main s.listener os) {main : MainAt} {listener : ListenerAt}
    {client : Client} (hmoves : s.Moves l main listener client o) :
    NetCall.Orderly (os ++ o) ↔ NetCall.Orderly os ∧ s.NotAfterClose l := by
  have hrunning : ∀ {listener}, s.listener = listener → ¬listener.Idle →
      s.main ≠ .cleaning ∧ s.main ≠ .exited := by
    rintro listener rfl hrun
    have hend := (h.of_running hrun).2
    exact ⟨fun heq => hend (heq ▸ by decide), fun heq => hend (heq ▸ by decide)⟩
  cases hmoves with
  | event here next step =>
    have hclosed := h.closed (by simp [here]) (by simp [here])
    rw [NetCall.orderly_append_sends, hclosed, NotAfterClose, MainCalls, step_event step]
    exact and_congr_right fun _ => imp_not_comm
  | recvReply here =>
    have hcalls : s.MainCalls .recvReply := trivial
    rw [h.orderly_call (by simp [here]) (by simp), notAfterClose_iff hcalls]
  | closeMain here =>
    have hcalls : s.MainCalls .cleanupMain := trivial
    rw [h.orderly_call (by simp [here]) (by simp), notAfterClose_iff hcalls]
  | cleanMain here =>
    have hexit : s.main ≠ .exited := by
      rcases here with here | here <;> simp [here]
    have hidle : s.listener.Idle := by
      rcases here with here | here
      · exact h.ending (Or.inr (Or.inl here))
      · exact h.starting (Or.inr (Or.inr here)) ▸ Or.inl rfl
    have hcalls : s.MainCalls .cleanupMain := trivial
    rw [h.orderly_cleanup hexit, notAfterClose_iff hcalls, hidle.hasClosed_iff]
  | poll here =>
    have hopen : ¬s.listener.HasClosed := by rw [here]; decide
    rw [h.orderly_call (hrunning here (by decide)) (by simp)]
    exact and_congr_right fun _ => iff_of_true hopen (notAfterClose_of_not id)
  | closeListener here =>
    have hopen : ¬s.listener.HasClosed := by rw [here]; decide
    rw [h.orderly_call (hrunning here (by decide)) (by simp)]
    exact and_congr_right fun _ => iff_of_true hopen (notAfterClose_of_not id)
  | cleanListener here =>
    have hfirst : s.listener ≠ .disconnected := by rw [here]; decide
    rw [h.orderly_cleanup (hrunning here (by decide)).2]
    exact and_congr_right fun _ => iff_of_true hfirst (notAfterClose_of_not id)
  | _ => simp [NotAfterClose, MainCalls]

/-- A run is orderly exactly if `main` neither sends nor receives nor cleans up after the
listener has closed the socket. -/
theorem orderly_iff (h : machine.Run {} ls os s) :
    NetCall.Orderly os ↔ machine.StepsMeet NotAfterClose {} ls :=
  h.iff_meets (I := fun s os => Inv s.main s.listener os) (P := fun _ os => NetCall.Orderly os)
    .init (by constructor <;> simp) (fun _ _ _ _ _ hinv hstep => hinv.step (step_moves hstep))
    fun _ _ _ _ _ hinv hstep => hinv.orderly_step (step_moves hstep)

/-- The server disconnects, and the window is closed after that. -/
def disconnecting : List Label :=
  [.socket (some 1), .connect true, .poll, .receive none, .cleanupListener, .cleanupListener,
    .event .closed (0, 0), .leave, .join, .cleanupMain, .cleanupMain]

theorem isSome_disconnecting : (machine.exec {} disconnecting).isSome := by
  decide

/-- Its socket is closed twice. -/
theorem orderly_iff_disconnecting :
    NetCall.Orderly (machine.outputs {} disconnecting isSome_disconnecting) ↔
      machine.StepsMeet NotAfterClose {} disconnecting :=
  orderly_iff (Machine.run_final isSome_disconnecting)

/-- It is not so that every run is orderly. -/
theorem not_forall_orderly : ¬∀ ls os s, machine.Run {} ls os s → NetCall.Orderly os := by
  intro hall
  have horderly := hall _ _ _ (Machine.run_final isSome_disconnecting)
  exact absurd horderly.closesocket (by decide)

/-- A listener that has not found the connection closed does not close the socket. -/
theorem Moves.not_closing {main : MainAt} {listener : ListenerAt} {client : Client}
    (hmoves : s.Moves l main listener client o) (hl : l ≠ .receive none)
    (h : s.listener ≠ .closing ∧ ¬s.listener.HasClosed) :
    listener ≠ .closing ∧ ¬listener.HasClosed := by
  cases hmoves with
  | connected => decide
  | poll => decide
  | receive here next step =>
    rcases next with rfl | rfl | ⟨rfl, -⟩
    · decide
    · decide
    · exact absurd rfl hl
  | closeListener here => exact absurd here h.1
  | cleanListener here => exact absurd (Or.inl here) h.2
  | _ => exact h

/-- As long as the listener does not find the connection closed the run is orderly. -/
theorem orderly_of_connected (h : machine.Run {} ls os s) (hnone : .receive none ∉ ls) :
    NetCall.Orderly os := by
  have hmeets : machine.StepsMeet (fun _ l => l ≠ .receive none) {} ls :=
    Machine.stepsMeet_of_forall fun l hl _ heq => hnone (heq ▸ hl)
  have hinv := h.invariant_of_meets (P := fun s os => Inv s.main s.listener os ∧
    (s.listener ≠ .closing ∧ ¬s.listener.HasClosed) ∧ NetCall.Orderly os) hmeets
    ⟨.init, by decide, by constructor <;> simp⟩ ?_
  · exact hinv.2.2
  · rintro t os l t' o ⟨hinv, hopen, horderly⟩ hl hstep
    have hmoves := step_moves hstep
    have hcalls : t.NotAfterClose l := fun hclosed => absurd hclosed hopen.2
    exact ⟨hinv.step hmoves, hmoves.not_closing hl hopen,
      (hinv.orderly_step hmoves).2 ⟨horderly, hcalls⟩⟩

end

end Process

end DesperateStruggle
