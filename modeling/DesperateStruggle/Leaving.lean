import DesperateStruggle.SocketLife

/-!
# How the client process ends

After the window loop `main` waits for the listener, and the listener returns only at a `START` or
when its `recv` finds the connection closed. So a connected client whose window is closed does not
end before that (`over_of_run`).

It does not get stuck either : once the connection has ended and the window is only closed, both
threads come to their ends in a few steps, in whatever order they move (`ends_of_quiet`).
-/

open CString

namespace DesperateStruggle

namespace Client

/-- The listener returns at `START` only. -/
theorem eq_start_of_onMessage {f : Flags} {message : List Byte}
    (h : (onMessage f message).2 = false) : message = ascii "START\n" := by
  unfold onMessage at h
  split_ifs at h with hwait hstart
  exact hstart

end Client

namespace Process

/-! ## It ends after the game has started or the connection has ended -/

/-- The listener has read `START` or found the connection closed. -/
def Over (ls : List Label) : Prop :=
  .receive none ∈ ls ∨ .receive (some (ascii "START\n")) ∈ ls

section

variable {s s' : Process} {l : Label} {ls : List Label} {os o : List NetCall}

theorem Over.append (h : Over ls) (ls' : List Label) : Over (ls ++ ls') :=
  h.imp (List.mem_append_left _) (List.mem_append_left _)

/-- What ends the listener. -/
theorem receive_cases {message : Option (List Byte)}
    (h : s.step (.receive message) = some (s', o)) :
    s'.listener = .poll ∨ Over [.receive message] := by
  have h : s.stepListener (.receive message) = some (s', o) := by
    rcases Option.or_eq_some_iff.1 h with h | ⟨-, h⟩
    · cases h
    · exact h
  cases message with
  | none => exact Or.inr (Or.inl (by simp))
  | some message =>
    obtain ⟨here, h⟩ := Option.ite_none_right_eq_some.1 h
    split at h
    · next client requests hclient =>
      cases h
      simp only [Client.step] at hclient
      split_ifs at hclient
      cases hclient
      by_cases hlistening : (Client.onMessage s.client.flags message).2 = true
      · exact Or.inl (if_pos hlistening)
      · have hstart := Client.eq_start_of_onMessage (Bool.eq_false_iff.2 hlistening)
        exact Or.inr (Or.inr (by simp [hstart]))
    · cases h

/-- Where the listener is, after these steps. -/
structure Listens (s : Process) (ls : List Label) : Prop where
  started : .connect true ∈ ls → s.listener ≠ .notStarted
  running : s.listener = .notStarted ∨ s.listener = .poll ∨ s.listener = .receiving ∨ Over ls

theorem Listens.step (h : Listens s ls) (hstep : s.step l = some (s', o)) :
    Listens s' (ls ++ [l]) := by
  have hmoves := step_moves hstep
  have hkeep : s'.listener = s.listener → l ≠ .connect true → Listens s' (ls ++ [l]) := by
    intro hsame hl
    refine ⟨fun hmem => ?_, ?_⟩
    · rw [hsame]
      exact h.started ((List.mem_append.1 hmem).resolve_right (by simpa using Ne.symm hl))
    · rw [hsame]
      exact h.running.imp id (Or.imp id (Or.imp id fun hover => hover.append _))
  generalize hmain : s'.main = main, hlistener : s'.listener = listener, s'.client = client
    at hmoves
  cases hmoves with
  | connected here =>
    exact ⟨fun _ => by simp [hlistener], Or.inr (Or.inl hlistener)⟩
  | poll here =>
    exact ⟨fun _ => by simp [hlistener], Or.inr (Or.inr (Or.inl hlistener))⟩
  | @receive message listener client here next step =>
    refine ⟨fun _ => ?_, ?_⟩
    · rw [hlistener]
      rcases next with rfl | rfl | ⟨-, rfl⟩ <;> decide
    · rcases receive_cases hstep with hpoll | hover
      · exact Or.inr (Or.inl hpoll)
      · exact Or.inr (Or.inr (Or.inr (hover.imp (List.mem_append_right _)
          (List.mem_append_right _))))
  | closeListener here | cleanListener here =>
    have hover : Over ls := by
      rcases h.running with h | h | h | h
      · rw [here] at h
        cases h
      · rw [here] at h
        cases h
      · rw [here] at h
        cases h
      · exact h
    exact ⟨fun _ => by simp [hlistener], Or.inr (Or.inr (Or.inr (hover.append _)))⟩
  | refused => exact hkeep hlistener (by simp)
  | _ => exact hkeep hlistener (by simp)

theorem Listens.run (h : machine.Run {} ls os s) : Inv s.main s.listener os ∧ Listens s ls := by
  induction h with
  | nil => exact ⟨.init, by simp, Or.inl rfl⟩
  | snoc hrun hstep ih => exact ⟨ih.1.step (step_moves hstep), ih.2.step hstep⟩

/-- In every run, a client that was connected cleans up and ends only after its listener has read
`START` or found the connection closed, whatever happens to the window. -/
theorem over_of_run (h : machine.Run {} ls os s) (hconnected : .connect true ∈ ls)
    (hending : s.main.Ending) : Over ls := by
  obtain ⟨hinv, hlistens⟩ := Listens.run h
  have hidle := hinv.ending hending
  rcases hlistens.running with hlistener | hlistener | hlistener | hover
  · exact (hlistens.started hconnected hlistener).elim
  · exact absurd hidle (by rw [hlistener]; decide)
  · exact absurd hidle (by rw [hlistener]; decide)
  · exact hover

/-- The client that the server has disconnected. -/
theorem over_of_run_disconnecting : Over disconnecting :=
  over_of_run (Machine.run_final isSome_disconnecting) (by decide) (by decide)

/-! ## It comes to its end -/

/-- Nothing comes from the network any more, and the only window event is that it is closed. -/
def Quiet : Label → Prop
  | .event e _ => e = .closed
  | .reply message => message = none
  | .receive message => message = none
  | _ => True

/-- How far `main` is from its end, where it starts a listener on the way. -/
def mainRank (s : Process) : Nat :=
  match s.main with
  | .exited => 0
  | .noSocket | .cleaning => 1
  | .closing => 2
  | .join => 3
  | .loop => if s.client.windowOpen then 5 else 4
  | .replying => 6
  | .reply => 7
  | .connect => 10
  | .socket => 11

/-- How far the listener is from its end. -/
def listenerRank (s : Process) : Nat :=
  match s.listener with
  | .poll => 4
  | .receiving => 3
  | .closing => 2
  | .cleaning => 1
  | .notStarted | .disconnected | .returned => 0

/-- `main` waits for an answer while the client does, and a listener that reads is listening. -/
structure Sound (s : Process) : Prop where
  joining : s.client.joining = true ↔ s.main = .reply ∨ s.main = .replying
  listening : s.listener = .notStarted ∨ s.listener = .poll ∨ s.listener = .receiving →
    s.client.listening = true
  started : s.listener = .notStarted → s.main.Starting ∨ s.main.Ending

/-- `main` moves from a place where it waits for no answer to another one. -/
theorem Sound.moveMain (h : Sound s) {main : MainAt} (clientSocket : Option Nat)
    (hbefore : s.main ≠ .reply ∧ s.main ≠ .replying) (hafter : main ≠ .reply ∧ main ≠ .replying)
    (hstarted : s.listener = .notStarted → main.Starting ∨ main.Ending) :
    Sound { s with clientSocket, main } where
  joining := by
    rw [h.joining]
    simp [hbefore, hafter]
  listening := h.listening
  started := hstarted

/-- A place in or after the window loop. -/
theorem Sound.not_notStarted (h : Sound s) (hinside : ¬(s.main.Starting ∨ s.main.Ending)) :
    s.listener ≠ .notStarted :=
  fun heq => hinside (h.started heq)

/-- Where a cleanup begins, or the end. -/
theorem guard_ending (s : Process) :
    (s.guard MainAt.closing .exited ≠ .reply ∧ s.guard MainAt.closing .exited ≠ .replying) ∧
      (s.guard MainAt.closing .exited).Ending := by
  rcases s.guard_eq_or MainAt.closing .exited with hguard | hguard <;> rw [hguard] <;> decide

theorem Sound.stepMain (h : Sound s) (hinv : Inv s.main s.listener os)
    (hstep : s.stepMain l = some (s', o)) : Sound s' := by
  cases l with
  | socket result =>
    cases result with
    | some c | none =>
      obtain ⟨here, hstep⟩ := Option.ite_none_right_eq_some.1 hstep
      cases hstep
      exact h.moveMain _ (by simp [here]) (by simp) fun _ => Or.inl (by decide)
  | connect result =>
    cases result with
    | true =>
      obtain ⟨here, hstep⟩ := Option.ite_none_right_eq_some.1 hstep
      cases hstep
      have hjoining := h.joining
      have hlistening := h.listening (Or.inl (hinv.starting (Or.inr (Or.inl here))))
      exact ⟨by simpa [here] using hjoining, fun _ => hlistening, by simp⟩
    | false =>
      obtain ⟨here, hstep⟩ := Option.ite_none_right_eq_some.1 hstep
      cases hstep
      exact h.moveMain _ (by simp [here]) s.guard_ending.1 fun _ => Or.inr s.guard_ending.2
  | event e mousePos =>
    obtain ⟨here, hstep⟩ := Option.ite_none_right_eq_some.1 hstep
    split at hstep
    · next client requests hclient =>
      cases hstep
      refine ⟨?_, fun hlistener => ?_, fun hnot => ?_⟩
      · cases client.joining <;> simp
      · simp only [Client.step] at hclient
        split_ifs at hclient
        have hkeep := s.client.listening_handleEvent e mousePos
        rw [Option.some.inj hclient] at hkeep
        exact hkeep.trans (h.listening hlistener)
      · exact (h.not_notStarted (by rw [here]; decide) hnot).elim
    · cases hstep
  | recvReply =>
    obtain ⟨here, hstep⟩ := Option.ite_none_right_eq_some.1 hstep
    cases hstep
    exact ⟨iff_of_true (h.joining.2 (Or.inl here)) (Or.inr rfl), h.listening,
      fun hnot => (h.not_notStarted (by rw [here]; decide) hnot).elim⟩
  | reply message =>
    obtain ⟨here, hstep⟩ := Option.ite_none_right_eq_some.1 hstep
    split at hstep
    · next client requests hclient =>
      cases hstep
      have hread : client.joining = false ∧ client.listening = s.client.listening := by
        cases message with
        | none =>
          simp only [Option.elim, Client.step] at hclient
          split_ifs at hclient
          cases hclient
          exact ⟨rfl, rfl⟩
        | some message =>
          simp only [Option.elim, Client.step] at hclient
          split_ifs at hclient
          cases hclient
          unfold Client.joinReply
          split_ifs <;> exact ⟨rfl, rfl⟩
      exact ⟨by simp [hread.1], fun hlistener => hread.2.trans (h.listening hlistener),
        fun hnot => (h.not_notStarted (by rw [here]; decide) hnot).elim⟩
    · cases hstep
  | leave =>
    obtain ⟨here, hstep⟩ := Option.ite_none_right_eq_some.1 hstep
    cases hstep
    exact h.moveMain _ (by simp [here.1]) (by simp) fun hnot =>
      (h.not_notStarted (by rw [here.1]; decide) hnot).elim
  | join =>
    obtain ⟨here, hstep⟩ := Option.ite_none_right_eq_some.1 hstep
    cases hstep
    exact h.moveMain _ (by simp [here.1]) s.guard_ending.1 fun _ => Or.inr s.guard_ending.2
  | cleanupMain =>
    simp only [Process.stepMain] at hstep
    split at hstep
    all_goals cases hstep
    all_goals next here =>
      exact h.moveMain _ (by simp [here]) (by simp) fun _ => Or.inr (by decide)
  | _ => cases hstep

theorem Sound.stepListener (h : Sound s) (hstep : s.stepListener l = some (s', o)) :
    Sound s' := by
  cases l with
  | poll =>
    obtain ⟨here, hstep⟩ := Option.ite_none_right_eq_some.1 hstep
    cases hstep
    exact ⟨h.joining, fun _ => h.listening (Or.inr (Or.inl here)), by simp⟩
  | receive message =>
    cases message with
    | some message =>
      obtain ⟨here, hstep⟩ := Option.ite_none_right_eq_some.1 hstep
      split at hstep
      · next client requests hclient =>
        cases hstep
        simp only [Client.step] at hclient
        split_ifs at hclient
        cases hclient
        refine ⟨h.joining, fun hlistener => ?_, fun hnot => ?_⟩
        · by_contra hfalse
          simp [hfalse] at hlistener
        · split_ifs at hnot
      · cases hstep
    | none =>
      obtain ⟨here, hstep⟩ := Option.ite_none_right_eq_some.1 hstep
      split at hstep
      · next client requests hclient =>
        cases hstep
        simp only [Client.step] at hclient
        split_ifs at hclient
        cases hclient
        rcases s.guard_eq_or ListenerAt.closing .returned with hguard | hguard <;>
          exact ⟨h.joining, by simp [hguard], by simp [hguard]⟩
      · cases hstep
  | cleanupListener =>
    simp only [Process.stepListener] at hstep
    split at hstep
    · cases hstep
      exact ⟨h.joining, by simp, by simp⟩
    · cases hstep
      exact ⟨h.joining, by simp, by simp⟩
    · cases hstep
  | _ => cases hstep

theorem Sound.run (h : machine.Run {} ls os s) : Inv s.main s.listener os ∧ Sound s := by
  refine h.invariant (P := fun s os => Inv s.main s.listener os ∧ Sound s)
    ⟨.init, by simp, fun _ => rfl, fun _ => Or.inl (by decide)⟩ ?_
  intro t os l t' o ⟨hinv, hsound⟩ hstep
  refine ⟨hinv.step (step_moves hstep), ?_⟩
  rcases Option.or_eq_some_iff.1 hstep with h | ⟨-, h⟩
  exacts [hsound.stepMain hinv h, hsound.stepListener h]

theorem mainRank_guard (s : Process) :
    mainRank { s with main := s.guard .closing .exited } ≤ 2 := by
  rcases s.guard_eq_or MainAt.closing .exited with hguard | hguard <;> simp [mainRank, hguard]

/-- A step of `main` in the quiet brings the process nearer to its end. -/
theorem rank_stepMain (hquiet : Quiet l) (hstep : s.stepMain l = some (s', o)) :
    s'.mainRank + s'.listenerRank < s.mainRank + s.listenerRank := by
  have hguard := s.mainRank_guard
  cases l with
  | socket result =>
    cases result with
    | some c | none =>
      obtain ⟨here, hstep⟩ := Option.ite_none_right_eq_some.1 hstep
      cases hstep
      simp [mainRank, listenerRank, here]
  | connect result =>
    cases result with
    | true =>
      obtain ⟨here, hstep⟩ := Option.ite_none_right_eq_some.1 hstep
      cases hstep
      simp only [mainRank, listenerRank, here]
      split_ifs <;> omega
    | false =>
      obtain ⟨here, hstep⟩ := Option.ite_none_right_eq_some.1 hstep
      cases hstep
      have hconnect : s.mainRank = 10 := by simp [mainRank, here]
      exact Nat.add_lt_add_right (by omega) _
  | event e mousePos =>
    obtain ⟨here, hstep⟩ := Option.ite_none_right_eq_some.1 hstep
    obtain rfl : e = .closed := hquiet
    split at hstep
    · next client requests hclient =>
      cases hstep
      simp only [Client.step] at hclient
      split_ifs at hclient with hopen
      cases hclient
      obtain ⟨hopen, hjoining⟩ := Bool.and_eq_true_iff.1 hopen
      rw [Bool.not_eq_true'] at hjoining
      simp [mainRank, listenerRank, here, hopen, Client.handleInput, hjoining]
    · cases hstep
  | recvReply =>
    obtain ⟨here, hstep⟩ := Option.ite_none_right_eq_some.1 hstep
    cases hstep
    simp [mainRank, listenerRank, here]
  | reply message =>
    obtain ⟨here, hstep⟩ := Option.ite_none_right_eq_some.1 hstep
    split at hstep
    · next client requests hclient =>
      cases hstep
      simp only [mainRank, listenerRank, here]
      split_ifs <;> omega
    · cases hstep
  | leave =>
    obtain ⟨here, hstep⟩ := Option.ite_none_right_eq_some.1 hstep
    cases hstep
    simp [mainRank, listenerRank, here.1, here.2]
  | join =>
    obtain ⟨here, hstep⟩ := Option.ite_none_right_eq_some.1 hstep
    cases hstep
    have hjoin : s.mainRank = 3 := by simp [mainRank, here.1]
    exact Nat.add_lt_add_right (by omega) _
  | cleanupMain =>
    simp only [stepMain] at hstep
    split at hstep
    all_goals cases hstep
    all_goals next here => simp [mainRank, listenerRank, here]
  | _ => cases hstep

/-- So does a step of the listener. -/
theorem rank_stepListener (hquiet : Quiet l) (hstep : s.stepListener l = some (s', o)) :
    s'.mainRank + s'.listenerRank < s.mainRank + s.listenerRank := by
  cases l with
  | poll =>
    obtain ⟨here, hstep⟩ := Option.ite_none_right_eq_some.1 hstep
    cases hstep
    simp [mainRank, listenerRank, here]
  | receive message =>
    obtain rfl : message = none := hquiet
    obtain ⟨here, hstep⟩ := Option.ite_none_right_eq_some.1 hstep
    split at hstep
    · next client requests hclient =>
      cases hstep
      simp only [Client.step] at hclient
      split_ifs at hclient
      cases hclient
      rcases s.guard_eq_or ListenerAt.closing .returned with hguard | hguard <;>
        simp [mainRank, listenerRank, here, hguard]
    · cases hstep
  | cleanupListener =>
    simp only [stepListener] at hstep
    split at hstep
    · next here =>
      cases hstep
      simp [mainRank, listenerRank, here]
    · next here =>
      cases hstep
      simp [mainRank, listenerRank, here]
    · cases hstep
  | _ => cases hstep

/-- A listener that runs can move. -/
theorem exists_listener_step (h : Sound s) (hrun : ¬s.listener.Idle) :
    ∃ l, Quiet l ∧ s.step l ≠ none := by
  cases here : s.listener with
  | poll => exact ⟨.poll, trivial, by simp [step, stepMain, stepListener, here]⟩
  | receiving =>
    have hlistening := h.listening (Or.inr (Or.inr here))
    refine ⟨.receive none, rfl, ?_⟩
    simp [step, stepMain, stepListener, here, Client.step, hlistening]
  | closing | cleaning =>
    exact ⟨.cleanupListener, trivial, by simp [step, stepMain, stepListener, here]⟩
  | notStarted | disconnected | returned =>
    rw [here] at hrun
    exact absurd (by decide) hrun

/-- Before its end `main` can move, if it does not wait for the listener. -/
theorem exists_main_step (h : Sound s) (hexit : s.main ≠ .exited)
    (hjoin : s.main = .join → s.listener.Idle) : ∃ l, Quiet l ∧ s.step l ≠ none := by
  have hmoves : ∀ {l : Label}, Quiet l → s.stepMain l ≠ none → ∃ l, Quiet l ∧ s.step l ≠ none := by
    intro l hquiet hstep
    refine ⟨l, hquiet, fun hnone => hstep ?_⟩
    exact (Option.or_eq_none_iff.1 hnone).1
  cases here : s.main with
  | socket => exact hmoves (l := .socket none) trivial (by simp [stepMain, here])
  | connect => exact hmoves (l := .connect false) trivial (by simp [stepMain, here])
  | loop =>
    have hjoining : s.client.joining = false := by
      rw [Bool.eq_false_iff]
      intro hjoining
      have hwaits := h.joining.1 hjoining
      simp [here] at hwaits
    cases hopen : s.client.windowOpen with
    | true =>
      exact hmoves (l := .event .closed (0, 0)) rfl
        (by simp [stepMain, here, Client.step, hopen, hjoining])
    | false => exact hmoves (l := .leave) trivial (by simp [stepMain, here, hopen])
  | reply => exact hmoves (l := .recvReply) trivial (by simp [stepMain, here])
  | replying =>
    have hjoining := h.joining.2 (Or.inr here)
    exact hmoves (l := .reply none) rfl (by simp [stepMain, here, Client.step, hjoining])
  | join =>
    have hended : s.listener = .disconnected ∨ s.listener = .returned := by
      rcases hjoin here with hnot | hended
      · exact (h.not_notStarted (by rw [here]; decide) hnot).elim
      · exact hended
    exact hmoves (l := .join) trivial (by simp [stepMain, here, hended])
  | closing | cleaning | noSocket =>
    exact hmoves (l := .cleanupMain) trivial (by simp [stepMain, here])
  | exited => exact (hexit here).elim

/-- No process is further from its end than a new one. -/
theorem rank_le (hinv : Inv s.main s.listener os) : s.mainRank + s.listenerRank ≤ 11 := by
  have hlistener : s.listenerRank ≤ 4 := by
    unfold listenerRank
    split <;> decide
  cases here : s.main with
  | socket | connect =>
    have hnot := hinv.starting (by rw [here]; decide)
    simp [mainRank, listenerRank, here, hnot]
  | loop =>
    have hmain : s.mainRank ≤ 5 := by
      simp only [mainRank, here]
      split_ifs <;> decide
    omega
  | _ =>
    simp only [mainRank, here]
    omega

/-- From every reachable state, once the connection has ended and the window is only closed, the
threads take at most eleven more steps, in whatever order. Where no step is left, both have
returned. -/
theorem ends_of_quiet {ls' : List Label} {os' : List NetCall} (h : machine.Run {} ls os s)
    (hrun : machine.Run s ls' os' s') (hquiet : ∀ l ∈ ls', Quiet l) : ls'.length ≤ 11 ∧
      ((∀ l, Quiet l → s'.step l = none) → s'.main = .exited ∧ s'.listener.Idle) := by
  obtain ⟨-, hsound⟩ := Sound.run (h.trans hrun)
  refine ⟨?_, fun hstuck => ?_⟩
  · have hlower : ∀ s l t o, Quiet l → machine.step s l = some (t, o) →
        t.mainRank + t.listenerRank < s.mainRank + s.listenerRank := by
      intro s l t o hl hstep
      rcases Option.or_eq_some_iff.1 hstep with hstep | ⟨-, hstep⟩
      exacts [rank_stepMain hl hstep, rank_stepListener hl hstep]
    have hlen := hrun.length_le_of_measure _ hlower hquiet
    have hrank := rank_le (Sound.run h).1
    omega
  · by_contra hgoesOn
    obtain ⟨l, hl, hstep⟩ : ∃ l, Quiet l ∧ s'.step l ≠ none := by
      by_cases hidle : s'.listener.Idle
      · exact exists_main_step hsound (fun heq => hgoesOn ⟨heq, hidle⟩) fun _ => hidle
      · exact exists_listener_step hsound hidle
    exact hstep (hstuck l hl)

/-- The client that is disconnected takes all eleven. -/
theorem ends_of_quiet_disconnecting : disconnecting.length ≤ 11 ∧
    ((∀ l, Quiet l → (machine.final {} disconnecting isSome_disconnecting).step l = none) →
      (machine.final {} disconnecting isSome_disconnecting).main = .exited ∧
        (machine.final {} disconnecting isSome_disconnecting).listener.Idle) :=
  ends_of_quiet .nil (Machine.run_final isSome_disconnecting) (by simp [disconnecting, Quiet])

end

end Process

end DesperateStruggle
