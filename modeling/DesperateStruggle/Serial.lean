import DesperateStruggle.Operations

/-!
# Threads that do not disturb each other

If every step of a run is `Undisturbed`, as it would be with a lock for each room, the threads do
what a server does whose handlers are not interrupted (`serial_of_undisturbed`) : each thread sends
the same messages in the same order, so does each room, and once all threads wait the tables are
the same. Such a server in turn is a case of the threads, so the two are the same up to the order
in which different threads and rooms send (`exists_run_iff_undisturbed`).

An operation counts as done when it begins, and `Serial` says that the server is ahead of the
threads by just what `Finishes` says they have still to do.
-/

open CString

namespace DesperateStruggle

namespace Threads

/-- The server is ahead of the threads by what they have still to do : by `rest t` of thread `t`. -/
structure Serial (s : State) (os : List Server.Event) (a : Server.State)
    (os' : List Server.Event) (rest : Nat → List Sent) : Prop where
  inv : Server.Inv a
  length : a.handlers.length = s.threads.length
  thread : ∀ t c pc, s.threads[t]? = some ⟨c, pc⟩ → ∃ control rooms,
    a.handlers[t]? = some ⟨c, control⟩ ∧ Finishes c s.rooms pc (rooms, rest t, control) ∧
      ∀ k, pc.within = some k → rooms k = a.rooms k
  fresh : ∀ t, s.threads.length ≤ t → rest t = []
  alone : ∀ t t' k, s.In t k → s.In t' k → t = t'
  idle : ∀ k, (∀ t, ¬s.In t k) → s.rooms k = a.rooms k ∧
    Server.sentFor k os' = Server.sentFor k os
  busy : ∀ t k, s.In t k →
    Server.sentFor k os' = Server.sentFor k os ++ (rest t).map (t, ·)
  sent : ∀ t, Server.sentBy t os' = Server.sentBy t os ++ (rest t).map (t, ·)

namespace Serial

variable {s s' : State} {os o os' : List Server.Event} {a : Server.State} {rest : Nat → List Sent}
  {l : Label} {t : Nat} {c : Socket} {pc : Pc} {k : Key}

theorem init : Serial State.init [] Server.State.init [] fun _ => [] where
  inv := Server.inv_init
  length := rfl
  thread := by simp [State.init]
  fresh _ _ := rfl
  alone := by simp [State.In, State.init]
  idle _ _ := ⟨rfl, rfl⟩
  busy := by simp [State.In, State.init]
  sent _ := rfl

/-- The handler of a thread that waits. -/
theorem handler (h : Serial s os a os' rest) {control : Control}
    (here : s.threads[t]? = some ⟨c, pcOf control⟩) :
    a.handlers[t]? = some ⟨c, control⟩ ∧ rest t = [] := by
  obtain ⟨control', rooms, hthere, hfin, -⟩ := h.thread t c _ here
  have heq := hfin.of_wait
  simp only [Prod.mk.injEq] at heq
  obtain ⟨-, hrest, rfl⟩ := heq
  exact ⟨hthere, hrest⟩

/-- A thread that is in no room has nothing to do. -/
theorem rest_eq_nil (h : Serial s os a os' rest) (hout : ∀ k, ¬s.In t k) : rest t = [] := by
  rcases here : s.threads[t]? with - | ⟨c, pc⟩
  · exact h.fresh t (List.getElem?_eq_none_iff.1 here)
  · obtain ⟨control, rooms, -, hfin, -⟩ := h.thread t c pc here
    exact (hfin.of_within_none (Option.eq_none_iff_forall_not_mem.2 fun k hk =>
      hout k ⟨_, here, hk⟩)).2.1

/-- What was sent on behalf of a room that only thread `t` may be in. -/
theorem sentFor_eq (h : Serial s os a os' rest) (honly : ∀ t', s.In t' k → t' = t)
    (hin : ∀ k', s.In t k' → k' = k) :
    Server.sentFor k os' = Server.sentFor k os ++ (rest t).map (t, ·) := by
  by_cases hk : s.In t k
  · exact h.busy t k hk
  · have hnobody : ∀ t', ¬s.In t' k := fun t' ht' => hk (honly t' ht' ▸ ht')
    have hout : ∀ k', ¬s.In t k' := fun k' hk' => hk (hin k' hk' ▸ hk')
    rw [(h.idle k hnobody).2, h.rest_eq_nil hout, List.map_nil, List.append_nil]

end Serial

/-- Thread `t` moves to `res`, in room `κ` if in any, and its handler to `res'`. What the thread had
to do and the handler adds is what the thread sends now and has to do then. -/
structure Move (s : State) (a : Server.State) (rest : Nat → List Sent) (t : Nat) (c : Socket)
    (pc : Pc) (κ : Option Key) (res : Rooms × List Sent × Pc) (res' : Rooms × List Sent × Control)
    (sends : List Sent) : Prop where
  here : s.threads[t]? = some ⟨c, pc⟩
  only : ∀ k ∈ κ, ∀ t', s.In t' k → t' = t
  before : ∀ k, pc.within = some k → k ∈ κ
  after : ∀ k, res.2.2.within = some k → k ∈ κ
  frame : ∀ k ∉ κ, res.1 k = s.rooms k
  inv : Server.Inv (a.resume t res').1
  frame' : ∀ k ∉ κ, res'.1 k = a.rooms k
  finishes : ∃ rooms, Finishes c res.1 res.2.2 (rooms, sends, res'.2.2) ∧
    ∀ k ∈ κ, rooms k = res'.1 k
  sent : rest t ++ res'.2.1 = res.2.1 ++ sends
  room : ∀ e ∈ res.2.1, e.room ∈ κ
  room' : ∀ e ∈ res'.2.1, e.room ∈ κ

namespace Move

variable {s : State} {os os' : List Server.Event} {a : Server.State} {rest : Nat → List Sent}
  {t t' : Nat} {c c' : Socket} {pc pc' : Pc} {k : Key} {κ : Option Key}
  {res : Rooms × List Sent × Pc} {res' : Rooms × List Sent × Control} {sends : List Sent}

theorem eq_of_mem {k' : Key} (hk : k ∈ κ) (hk' : k' ∈ κ) : k' = k :=
  Option.mem_unique hk' hk

theorem mem_of_in (m : Move s a rest t c pc κ res res' sends) (h : s.In t k) : k ∈ κ := by
  obtain ⟨hd, hhd, hk⟩ := h
  obtain rfl := Option.some.inj (m.here.symm.trans hhd)
  exact m.before k hk

theorem not_mem (m : Move s a rest t c pc κ res res' sends) (hne : t' ≠ t) (h : s.In t' k) :
    k ∉ κ :=
  fun hk => hne (m.only k hk t' h)

theorem threads_of_ne (hne : t' ≠ t) : (s.resume t res).1.threads[t']? = s.threads[t']? := by
  simp [State.resume, State.setPc, Ne.symm hne]

/-- The rooms that threads are in afterwards. -/
theorem in_resume (m : Move s a rest t c pc κ res res' sends) : (s.resume t res).1.In t' k ↔
    if t' = t then res.2.2.within = some k else s.In t' k := by
  split_ifs with ht
  · subst ht
    have hself : (s.resume t' res).1.threads[t']? = some ⟨c, res.2.2⟩ :=
      s.getElem?_setPc_self m.here
    simp [State.In, hself]
  · simp [State.In, threads_of_ne ht]

/-- What is sent on behalf of the room of the move. -/
theorem sentFor (m : Move s a rest t c pc κ res res' sends) (h : Serial s os a os' rest)
    (hk : k ∈ κ) : Server.sentFor k (os' ++ (a.resume t res').2) =
      Server.sentFor k (os ++ (s.resume t res).2) ++ sends.map (t, ·) := by
  have hold := h.sentFor_eq (m.only k hk) fun k' hk' => eq_of_mem hk (m.mem_of_in hk')
  have hmine : Server.sentFor k (s.resume t res).2 = res.2.1.map (t, ·) :=
    Server.sentFor_map_self fun e he => eq_of_mem hk (m.room e he)
  have hmine' : Server.sentFor k (a.resume t res').2 = res'.2.1.map (t, ·) :=
    Server.sentFor_map_self fun e he => eq_of_mem hk (m.room' e he)
  rw [Server.sentFor_append, Server.sentFor_append, hold, hmine, hmine', List.append_assoc,
    List.append_assoc, ← List.map_append, ← List.map_append, m.sent]

/-- Nothing is sent on behalf of another room. -/
theorem sentFor_of_not_mem (m : Move s a rest t c pc κ res res' sends) (hk : k ∉ κ) :
    Server.sentFor k (s.resume t res).2 = [] ∧ Server.sentFor k (a.resume t res').2 = [] :=
  ⟨Server.sentFor_map_of_ne fun e he heq => hk (heq ▸ m.room e he),
    Server.sentFor_map_of_ne fun e he heq => hk (heq ▸ m.room' e he)⟩

/-- What the threads have still to do. -/
theorem thread (m : Move s a rest t c pc κ res res' sends) (h : Serial s os a os' rest)
    (hthere : (s.resume t res).1.threads[t']? = some ⟨c', pc'⟩) : ∃ control rooms,
      (a.resume t res').1.handlers[t']? = some ⟨c', control⟩ ∧
      Finishes c' res.1 pc' (rooms, Function.update rest t sends t', control) ∧
        ∀ k, pc'.within = some k → rooms k = res'.1 k := by
  by_cases ht : t' = t
  · subst ht
    obtain ⟨control, rooms₀, there, -⟩ := h.thread t' c pc m.here
    obtain ⟨rooms, hfin, hagree⟩ := m.finishes
    have hself : (s.resume t' res).1.threads[t']? = some ⟨c, res.2.2⟩ :=
      s.getElem?_setPc_self m.here
    cases hself.symm.trans hthere
    rw [Function.update_self]
    exact ⟨res'.2.2, rooms, a.getElem?_setControl_self there, hfin,
      fun k hk => hagree k (m.after k hk)⟩
  · rw [threads_of_ne ht] at hthere
    obtain ⟨control, rooms, there, hfin, hagree⟩ := h.thread t' c' pc' hthere
    have hstays : (a.resume t res').1.handlers[t']? = some ⟨c', control⟩ :=
      (a.getElem?_setControl_of_ne ht).trans there
    rw [Function.update_of_ne ht]
    have hk : ∀ k, pc'.within = some k → k ∉ κ := fun k hk => m.not_mem ht ⟨_, hthere, hk⟩
    obtain ⟨rooms₁, hfin₁, heq⟩ := hfin.congr fun k hin => (m.frame k (hk k hin)).symm
    refine ⟨control, rooms₁, hstays, hfin₁, fun k hin => ?_⟩
    exact (heq k hin).symm.trans ((hagree k hin).trans (m.frame' k (hk k hin)).symm)

/-- The rooms that no thread is in. -/
theorem idle (m : Move s a rest t c pc κ res res' sends) (h : Serial s os a os' rest)
    (hnobody : ∀ t', ¬(s.resume t res).1.In t' k) : res.1 k = res'.1 k ∧
      Server.sentFor k (os' ++ (a.resume t res').2) =
        Server.sentFor k (os ++ (s.resume t res).2) := by
  simp only [m.in_resume] at hnobody
  by_cases hk : k ∈ κ
  · have hnone : res.2.2.within = none := by
      refine Option.eq_none_iff_forall_not_mem.2 fun k' hk' => ?_
      obtain rfl := eq_of_mem hk (m.after k' hk')
      have hself := hnobody t
      rw [if_pos rfl] at hself
      exact hself hk'
    obtain ⟨rooms, hfin, hagree⟩ := m.finishes
    obtain ⟨hrooms, hnil, -⟩ := hfin.of_within_none hnone
    have hfor := m.sentFor h hk
    rw [show sends = [] from hnil, List.map_nil, List.append_nil] at hfor
    rw [← hagree k hk, show rooms = res.1 from hrooms]
    exact ⟨rfl, hfor⟩
  · have hbefore : ∀ t', ¬s.In t' k := by
      intro t' ht'
      have hstill := hnobody t'
      by_cases heq : t' = t
      · exact hk (m.mem_of_in (heq ▸ ht'))
      · rw [if_neg heq] at hstill
        exact hstill ht'
    obtain ⟨hrooms, hfor⟩ := h.idle k hbefore
    obtain ⟨hnone, hnone'⟩ := m.sentFor_of_not_mem hk
    rw [Server.sentFor_append, Server.sentFor_append, hnone, hnone', m.frame k hk, m.frame' k hk,
      List.append_nil, List.append_nil]
    exact ⟨hrooms, hfor⟩

/-- What each thread sends. -/
theorem sentBy (m : Move s a rest t c pc κ res res' sends) (h : Serial s os a os' rest)
    (t' : Nat) : Server.sentBy t' (os' ++ (a.resume t res').2) =
      Server.sentBy t' (os ++ (s.resume t res).2) ++
        (Function.update rest t sends t').map (t', ·) := by
  by_cases ht : t' = t
  · subst ht
    rw [Function.update_self, Server.sentBy_append, Server.sentBy_append, h.sent t']
    simp only [Server.State.resume, State.resume, Server.sentBy_map_self, List.append_assoc,
      ← List.map_append, m.sent]
  · have hnone : Server.sentBy t' (s.resume t res).2 = [] :=
      Server.sentBy_map_of_ne (Ne.symm ht)
    have hnone' : Server.sentBy t' (a.resume t res').2 = [] :=
      Server.sentBy_map_of_ne (Ne.symm ht)
    rw [Function.update_of_ne ht, Server.sentBy_append, Server.sentBy_append, hnone, hnone',
      List.append_nil, List.append_nil]
    exact h.sent t'

/-- A move keeps the server ahead by what there is to do. -/
theorem serial (m : Move s a rest t c pc κ res res' sends) (h : Serial s os a os' rest) :
    Serial (s.resume t res).1 (os ++ (s.resume t res).2) (a.resume t res').1
      (os' ++ (a.resume t res').2) (Function.update rest t sends) where
  inv := m.inv
  length := by simp [State.resume, State.setPc, Server.State.setControl, h.length]
  thread _ _ _ hthere := m.thread h hthere
  fresh t' ht' := by
    have hle : s.threads.length ≤ t' := by simpa [State.resume, State.setPc] using ht'
    have hlt : t < s.threads.length := (List.getElem?_eq_some_iff.1 m.here).1
    rw [Function.update_of_ne (by omega)]
    exact h.fresh t' hle
  alone t₁ t₂ k h₁ h₂ := by
    rw [m.in_resume] at h₁ h₂
    split_ifs at h₁ h₂ with ht₁ ht₂ ht₂
    · exact ht₁.trans ht₂.symm
    · exact (m.not_mem ht₂ h₂ (m.after k h₁)).elim
    · exact (m.not_mem ht₁ h₁ (m.after k h₂)).elim
    · exact h.alone t₁ t₂ k h₁ h₂
  idle _ hnobody := m.idle h hnobody
  busy t' k hin := by
    rw [m.in_resume] at hin
    split_ifs at hin with ht
    · subst ht
      rw [Function.update_self]
      exact m.sentFor h (m.after k hin)
    · have hk : k ∉ κ := m.not_mem ht hin
      obtain ⟨hnone, hnone'⟩ := m.sentFor_of_not_mem hk
      rw [Server.sentFor_append, Server.sentFor_append, hnone, hnone', Function.update_of_ne ht,
        List.append_nil, List.append_nil]
      exact h.busy t' k hin
  sent := m.sentBy h

end Move

namespace Serial

variable {s s' : State} {os o os' : List Server.Event} {a : Server.State} {rest : Nat → List Sent}
  {l : Label} {t : Nat} {c : Socket} {pc : Pc} {k : Key}

/-- The room of a request is the one its thread is in first. -/
theorem within_dispatch {m : List Byte} : (dispatch m).within = some k ↔
    ∃ r : Server.Request, Server.readsAs m = .ok (some r) ∧ r.password = k := by
  unfold dispatch Server.readsAs
  split_ifs
  · cases substr m 7 4 <;> simp [Except.map, Pc.within, Server.Request.password]
  · cases substr m 5 4 <;> simp [Except.map, Pc.within, Server.Request.password]
  · simp [Pc.within]

/-- A socket that no thread has is no handler's either. -/
theorem not_isOpen (h : Serial s os a os' rest) (hopen : ¬s.IsOpen c) : ¬a.IsOpen c := by
  rintro ⟨⟨c', control⟩, hmem, rfl, hne⟩
  obtain ⟨t, ht⟩ := List.mem_iff_getElem?.1 hmem
  have hlt : t < s.threads.length := h.length ▸ (List.getElem?_eq_some_iff.1 ht).1
  obtain ⟨⟨c₁, pc⟩, here⟩ : ∃ hd, s.threads[t]? = some hd := ⟨_, List.getElem?_eq_getElem hlt⟩
  obtain ⟨control', rooms, ht', hfin, -⟩ := h.thread t c₁ pc here
  cases ht.symm.trans ht'
  refine hopen ⟨_, List.mem_iff_getElem?.2 ⟨t, here⟩, rfl, fun hexited => ?_⟩
  have hwait : pc = pcOf .exited := hexited
  rw [hwait] at hfin
  have heq := hfin.of_wait
  simp only [Prod.mk.injEq] at heq
  exact hne heq.2.2

theorem threads_accept {hd : Thread} : (s.accept c).threads[t]? = some hd ↔
    s.threads[t]? = some hd ∨ t = s.threads.length ∧ hd = ⟨c, .recv⟩ := by
  refine ⟨s.getElem?_accept, ?_⟩
  rintro (ht | ⟨rfl, rfl⟩)
  · rw [State.accept, List.getElem?_append_left (List.getElem?_eq_some_iff.1 ht).1, ht]
  · simp [State.accept]

theorem in_accept : (s.accept c).In t k ↔ s.In t k := by
  constructor
  · rintro ⟨hd, hhd, hk⟩
    rcases threads_accept.1 hhd with hhd | ⟨-, rfl⟩
    · exact ⟨hd, hhd, hk⟩
    · cases hk
  · rintro ⟨hd, hhd, hk⟩
    exact ⟨hd, threads_accept.2 (Or.inl hhd), hk⟩

/-- A new connection. -/
theorem accept (h : Serial s os a os' rest) (hopen : ¬s.IsOpen c) :
    Serial (s.accept c) os (a.accept c) os' rest where
  inv := by
    have hstep : Server.step a (.accept c) = some (a.accept c, []) := by
      simp [Server.step, h.not_isOpen hopen]
    exact h.inv.step hstep
  length := by simp [Server.State.accept, State.accept, h.length]
  thread t c' pc' hhd := by
    rcases threads_accept.1 hhd with hhd | ⟨rfl, heq⟩
    · obtain ⟨control, rooms, ht, hfin⟩ := h.thread t c' pc' hhd
      exact ⟨control, rooms, a.getElem?_accept.2 (Or.inl ht), hfin⟩
    · cases heq
      have hwait : Finishes c s.rooms (pcOf .recv) (s.rooms, [], .recv) := .wait
      have hthere : (a.accept c).handlers[s.threads.length]? = some ⟨c, .recv⟩ :=
        a.getElem?_accept.2 (Or.inr ⟨h.length.symm, rfl⟩)
      refine ⟨.recv, s.rooms, hthere, ?_, by simp [Pc.within]⟩
      rw [h.fresh _ le_rfl]
      exact hwait
  fresh t ht := by
    refine h.fresh t ?_
    simp only [State.accept, List.length_append, List.length_singleton] at ht
    omega
  alone t t' k ht ht' := h.alone t t' k (in_accept.1 ht) (in_accept.1 ht')
  idle k hnobody := h.idle k fun t ht => hnobody t (in_accept.2 ht)
  busy t k ht := h.busy t k (in_accept.1 ht)
  sent := h.sent

/-- A thread reads a message or the end of its connection. -/
theorem recv (h : Serial s os a os' rest) {al : Server.Label} {res' : Rooms × List Sent × Control}
    (here : s.threads[t]? = some ⟨c, .recv⟩) (hal : Server.actor al = some t)
    (hact : Server.act ⟨c, .recv⟩ al a.rooms = some res') (hfin : Finishes c a.rooms pc res')
    (hfoot : ∀ k, pc.within = some k ↔ k ∈ Server.footprint ⟨c, .recv⟩ al)
    (hquiet : ∀ k, pc.within = some k → ∀ t, ¬s.In t k) :
    ∃ ls a' oa rest', Server.machine.Run a ls oa a' ∧
      Serial (s.setPc t pc) os a' (os' ++ oa) rest' := by
  have hwait : s.threads[t]? = some ⟨c, pcOf .recv⟩ := here
  obtain ⟨there, hnil⟩ := h.handler hwait
  have hstep : Server.step a al = some (a.resume t res') := by
    rw [Server.step_eq_act hal there, hact]
    rfl
  obtain ⟨rooms, hfin', hagree⟩ := hfin.congr fun k hk => (h.idle k (hquiet k hk)).1.symm
  have m : Move s a rest t c .recv pc.within (s.rooms, [], pc) res' res'.2.1 := {
    here
    only := fun k hk t' ht' => (hquiet k hk t' ht').elim
    before := by simp [Pc.within]
    after := fun k hk => hk
    frame := fun _ _ => rfl
    inv := h.inv.step hstep
    frame' := fun k hk => (Server.actsOn_act _ _).frame hact k fun hin => hk ((hfoot k).2 hin)
    finishes := ⟨rooms, hfin', fun k hk => (hagree k hk).symm⟩
    sent := by rw [hnil]
    room := by simp
    room' := fun e he => (hfoot _).2 (Server.room_act hact e he) }
  have hserial := m.serial h
  simp only [State.resume, List.map_nil, List.append_nil] at hserial
  exact ⟨[al], _, _, _, .single hstep, hserial⟩

/-- A thread wakes and begins its operation. -/
theorem wake (h : Serial s os a os' rest) {control : Control} {res : Rooms × List Sent × Pc}
    (here : s.threads[t]? = some ⟨c, pcOf control⟩) (hplays : control.Plays k)
    (hquiet : ∀ t, ¬s.In t k) (haccess : access s.rooms c (pcOf control) = some res) :
    ∃ ls a' oa rest', Server.machine.Run a ls oa a' ∧
      Serial (s.resume t res).1 (os ++ (s.resume t res).2) a' (os' ++ oa) rest' := by
  obtain ⟨there, hnil⟩ := h.handler here
  have hwake := h.inv.wake_isSome (t := t) ⟨_, there, hplays⟩
  obtain ⟨⟨a', oa⟩, hstep⟩ := Option.isSome_iff_exists.1 hwake
  obtain ⟨hd, res', hhd, hact, hres⟩ := Server.exists_act rfl hstep
  obtain rfl := Option.some.inj (there.symm.trans hhd)
  have hroom : (pcOf control).room = some k := by
    rcases hplays with rfl | rfl <;> rfl
  have hfoot : ∀ k', k' ∈ Server.footprint ⟨c, control⟩ (.wake t) ↔ k' = k := by
    intro k'
    rcases hplays with rfl | rfl
    · exact Server.Inv.plays_countdown
    · exact Server.Inv.plays_game
  have hidle : Set.EqOn a.rooms s.rooms {k} := Set.eqOn_singleton.2 (h.idle k hquiet).1.symm
  obtain ⟨rooms, hop, hagree⟩ := (operates_act hact).congr hroom hidle
  obtain ⟨sends, hsends, hfin⟩ := hop.after haccess
  have m : Move s a rest t c (pcOf control) (some k) res res' sends := {
    here
    only := fun k' hk' t' ht' => by
      obtain rfl := Option.some.inj hk'
      exact (hquiet t' ht').elim
    before := by simp
    after := fun k' hk' => congrArg some (within_after haccess hroom k' hk').symm
    frame := fun k' hk' => (actsOn_access c hroom).frame haccess k' fun heq =>
      hk' (congrArg some heq.symm)
    inv := by
      rw [hres]
      exact h.inv.step hstep
    frame' := fun k' hk' => (Server.actsOn_act _ _).frame hact k' fun hin =>
      hk' (congrArg some ((hfoot k').1 hin).symm)
    finishes := ⟨rooms, hfin, fun k' hk' => by
      obtain rfl := Option.some.inj hk'
      exact (hagree rfl).symm⟩
    sent := by rw [hnil, List.nil_append, ← hsends]
    room := fun e he => congrArg some (room_access haccess hroom e he).symm
    room' := fun e he => congrArg some ((hfoot _).1 (Server.room_act hact e he)).symm }
  have hserial := m.serial h
  rw [hres] at hserial
  exact ⟨[.wake t], a', oa, _, .single hstep, hserial⟩

/-- A thread goes on with its operation. -/
theorem goOn (h : Serial s os a os' rest) {res : Rooms × List Sent × Pc}
    (here : s.threads[t]? = some ⟨c, pc⟩) (hin : pc.within = some k)
    (haccess : access s.rooms c pc = some res) :
    ∃ rest', Serial (s.resume t res).1 (os ++ (s.resume t res).2) a os' rest' := by
  obtain ⟨control, rooms, there, hfin, hagree⟩ := h.thread t c pc here
  obtain ⟨sends, hsends, hfin'⟩ := hfin.after hin haccess
  have hroom : pc.room = some k := Pc.room_of_within hin
  have hself : a.resume t (a.rooms, [], control) = (a, []) := Server.resume_self there []
  have m : Move s a rest t c pc (some k) res (a.rooms, [], control) sends := {
    here
    only := fun k' hk' t' ht' => by
      obtain rfl := Option.some.inj hk'
      exact h.alone t' t k ht' ⟨_, here, hin⟩
    before := fun k' hk' => by rw [← hin, hk']; rfl
    after := fun k' hk' => congrArg some (within_after haccess hroom k' hk').symm
    frame := fun k' hk' => (actsOn_access c hroom).frame haccess k' fun heq =>
      hk' (congrArg some heq.symm)
    inv := by
      rw [hself]
      exact h.inv
    frame' := fun _ _ => rfl
    finishes := ⟨rooms, hfin', fun k' hk' => by
      obtain rfl := Option.some.inj hk'
      exact hagree k hin⟩
    sent := by
      rw [List.append_nil]
      exact hsends
    room := fun e he => congrArg some (room_access haccess hroom e he).symm
    room' := by simp }
  have hserial := m.serial h
  rw [hself, List.append_nil] at hserial
  exact ⟨_, hserial⟩

/-- An undisturbed step of a thread is a run of the server. -/
theorem step (h : Serial s os a os' rest) (hstep : Threads.step s l = some (s', o))
    (hquiet : Undisturbed s l) : ∃ ls a' oa rest', Server.machine.Run a ls oa a' ∧
      Serial s' (os ++ o) a' (os' ++ oa) rest' := by
  cases l with
  | accept c =>
    simp only [Threads.step] at hstep
    split_ifs at hstep with hopen
    cases hstep
    have haccept : Server.machine.step a (.accept c) = some (a.accept c, []) := by
      simp [Server.step, h.not_isOpen hopen]
    refine ⟨_, _, _, rest, .single haccept, ?_⟩
    rw [List.append_nil, List.append_nil]
    exact h.accept hopen
  | disconnect t =>
    simp only [Threads.step] at hstep
    split at hstep
    · next c here =>
      cases hstep
      rw [List.append_nil]
      have hact : Server.act ⟨c, .recv⟩ (.disconnect t) a.rooms = some (a.rooms, [], .exited) := rfl
      have hwait : Finishes c a.rooms (pcOf .exited) (a.rooms, [], .exited) := .wait
      exact h.recv here rfl hact hwait (by simp [Server.footprint, Pc.within]) fun k hk => by
        cases hk
    · cases hstep
  | recv t chunk beyond =>
    simp only [Threads.step] at hstep
    split at hstep
    · next c here =>
      split_ifs at hstep with hlen
      cases hstep
      rw [List.append_nil]
      obtain ⟨res', hact⟩ : ∃ res', Server.act ⟨c, .recv⟩ (.recv t chunk beyond) a.rooms =
          some res' := by
        simp only [Server.act, hlen.1, hlen.2, and_self, if_true]
        rcases Server.readsAs (bufferString (zeros 1024) beyond chunk) with e | (- | r) <;>
          exact ⟨_, rfl⟩
      refine h.recv here rfl hact (finishes_dispatch hact) (fun k => within_dispatch) fun k hk => ?_
      exact hquiet.not_in hk
    · cases hstep
  | run t =>
    simp only [Threads.step] at hstep
    split at hstep
    · next c pc here =>
      obtain ⟨res, haccess, hres⟩ := Option.map_eq_some_iff.1 hstep
      obtain rfl : (s.resume t res).1 = s' := congrArg Prod.fst hres
      obtain rfl : (s.resume t res).2 = o := congrArg Prod.snd hres
      rcases hin : pc.within with - | k
      · have hwait : ∃ control k, pc = pcOf control ∧ control.Plays k := by
          cases pc with
          | recv | exited => cases haccess
          | sendStart k => exact ⟨.countdown k, k, rfl, Or.inl rfl⟩
          | passTurn k => exact ⟨.game k, k, rfl, Or.inr rfl⟩
          | _ => cases hin
        obtain ⟨control, k, rfl, hplays⟩ := hwait
        have hbegins : begins s (.run t) = some k := by
          rcases hplays with rfl | rfl <;> simp [begins, here, pcOf]
        exact h.wake here hplays (hquiet.not_in hbegins) haccess
      · obtain ⟨rest', hserial⟩ := h.goOn here hin haccess
        exact ⟨[], a, [], rest', .nil, by rwa [List.append_nil]⟩
    · cases hstep

/-- Once all threads wait, the server is not ahead any more. -/
theorem of_wait (h : Serial s os a os' rest)
    (hwait : ∀ hd ∈ s.threads, ∃ control, hd.pc = pcOf control) :
    s = ofServer a ∧ (∀ t, Server.sentBy t os = Server.sentBy t os') ∧
      ∀ k, Server.sentFor k os = Server.sentFor k os' := by
  have hout : ∀ t k, ¬s.In t k := by
    rintro t k ⟨hd, hhd, hk⟩
    obtain ⟨control, hpc⟩ := hwait hd (List.mem_iff_getElem?.2 ⟨t, hhd⟩)
    simp [hpc] at hk
  refine ⟨?_, fun t => ?_, fun k => ((h.idle k fun t => hout t k).2).symm⟩
  · have hrooms : s.rooms = a.rooms := funext fun k => (h.idle k fun t => hout t k).1
    have hthreads : s.threads = a.handlers.map fun hd => ⟨hd.clientSocket, pcOf hd.control⟩ := by
      refine List.ext_getElem? fun t => ?_
      rw [List.getElem?_map]
      rcases hhd : s.threads[t]? with - | ⟨c, pc⟩
      · rw [List.getElem?_eq_none_iff, ← h.length, ← List.getElem?_eq_none_iff] at hhd
        rw [hhd]
        rfl
      · obtain ⟨control, hpc⟩ := hwait _ (List.mem_iff_getElem?.2 ⟨t, hhd⟩)
        obtain rfl : pc = pcOf control := hpc
        rw [(h.handler hhd).1]
        rfl
    cases s
    cases hrooms
    cases hthreads
    rfl
  · rw [h.sent t, h.rest_eq_nil (hout t), List.map_nil, List.append_nil]

end Serial

/-- In every undisturbed run the server is ahead of the threads by what they have still to do. -/
theorem exists_serial {ls : List Label} {os : List Server.Event} {s : State}
    (hrun : machine.Run State.init ls os s)
    (hmeets : machine.StepsMeet Undisturbed State.init ls) :
    ∃ ls' a os' rest, Server.machine.Run Server.State.init ls' os' a ∧
      Serial s os a os' rest := by
  refine hrun.invariant_of_meets hmeets
    (P := fun s os => ∃ ls' a os' rest, Server.machine.Run Server.State.init ls' os' a ∧
      Serial s os a os' rest)
    ⟨[], Server.State.init, [], _, .nil, Serial.init⟩ ?_
  rintro s os l s' o ⟨ls', a, os', rest, hrun', hserial⟩ hquiet hstep
  obtain ⟨ls₁, a', oa, rest', hrun₁, hserial'⟩ := hserial.step hstep hquiet
  exact ⟨_, a', _, rest', hrun'.trans hrun₁, hserial'⟩

/-- In every undisturbed run, the threads do what a server does whose handlers are not interrupted.
At every point of it there is a run of the server in which every thread has sent what it has sent
here and perhaps more, and so has every room, and where all threads wait both end in the same state
and neither has sent more. -/
theorem serial_of_undisturbed {ls : List Label} {os : List Server.Event} {s : State}
    (hrun : machine.Run State.init ls os s)
    (hmeets : machine.StepsMeet Undisturbed State.init ls) :
    ∃ ls' os' a, Server.machine.Run Server.State.init ls' os' a ∧
      (∀ t, Server.sentBy t os <+: Server.sentBy t os') ∧
      (∀ k, Server.sentFor k os <+: Server.sentFor k os') ∧
      ((∀ hd ∈ s.threads, ∃ control, hd.pc = pcOf control) →
        s = ofServer a ∧ (∀ t, Server.sentBy t os = Server.sentBy t os') ∧
          ∀ k, Server.sentFor k os = Server.sentFor k os') := by
  obtain ⟨ls', a, os', rest, hrun', hserial⟩ := exists_serial hrun hmeets
  refine ⟨ls', os', a, hrun', fun t => ?_, fun k => ?_, hserial.of_wait⟩
  · rw [hserial.sent t]
    exact List.prefix_append _ _
  · by_cases hin : ∃ t, s.In t k
    · obtain ⟨t, ht⟩ := hin
      rw [hserial.busy t k ht]
      exact List.prefix_append _ _
    · rw [(hserial.idle k fun t ht => hin ⟨t, ht⟩).2]

/-- Two clients create two rooms, and each is in the middle of it when the other one is. -/
def meanwhile : List Label :=
  [.accept 3, .accept 4, .recv 0 (createRequest (ascii "ab")) [],
    .recv 1 (createRequest (ascii "cd")) [], .run 1, .run 0, .run 0, .run 1]

theorem isSome_meanwhile : (machine.exec State.init meanwhile).isSome := by
  decide +kernel

/-- The server has one of them create its room after the other. -/
theorem serial_of_undisturbed_meanwhile :
    ∃ ls' os' a, Server.machine.Run Server.State.init ls' os' a ∧
      (∀ t, Server.sentBy t (machine.outputs State.init meanwhile isSome_meanwhile) <+:
        Server.sentBy t os') ∧
      (∀ k, Server.sentFor k (machine.outputs State.init meanwhile isSome_meanwhile) <+:
        Server.sentFor k os') ∧
      ((∀ hd ∈ (machine.final State.init meanwhile isSome_meanwhile).threads,
          ∃ control, hd.pc = pcOf control) →
        machine.final State.init meanwhile isSome_meanwhile = ofServer a ∧
          (∀ t, Server.sentBy t (machine.outputs State.init meanwhile isSome_meanwhile) =
            Server.sentBy t os') ∧
          ∀ k, Server.sentFor k (machine.outputs State.init meanwhile isSome_meanwhile) =
            Server.sentFor k os') :=
  serial_of_undisturbed (Machine.run_final isSome_meanwhile) (by decide +kernel)

end Threads

end DesperateStruggle
