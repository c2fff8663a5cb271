import DesperateStruggle.Client
import DesperateStruggle.Machine

/-!
# A session of one client

The client alone, against any window events and any messages of the server. `main` and
`listenServer` read from the same socket : `main` while it waits for the answer to a `JOIN`, the
listener until a `START`. A message is taken by one of the two, which the label says.

`Navigates` is what a window event does to the flags, `Step` what any step does, and `Inv` what
holds in every reachable state. The two readers make different things of a `WAIT` : to the
listener it is the waiting screen, to the join click also the end of the join screen. So which
of them takes it decides where the client ends up (`entered_iff`).
-/

open CString

namespace DesperateStruggle

namespace Client

/-- What happens to a client. -/
inductive Label
  | event (e : Event) (mousePos : Int × Int)
  /-- The `recv` of the join click takes a message. -/
  | joinReply (message : List Byte)
  /-- The `recv` of the join click returns without one. -/
  | joinClosed
  /-- The listener takes a message. -/
  | listen (message : List Byte)
  /-- The listener finds the connection closed. -/
  | listenClosed
deriving DecidableEq, Repr

/-- One step of a client, with the requests it sends. -/
def step (cl : Client) : Label → Option (Client × List (List Byte))
  | .event e mousePos =>
    if cl.windowOpen && !cl.joining then some (cl.handleEvent e mousePos) else none
  | .joinReply message => if cl.joining then some (cl.joinReply message, []) else none
  | .joinClosed => if cl.joining then some ({ cl with joining := false }, []) else none
  | .listen message => if cl.listening then some (cl.listen message, []) else none
  | .listenClosed => if cl.listening then some ({ cl with listening := false }, []) else none

/-- A client as a machine. -/
def machine : Machine Client Label (List Byte) :=
  ⟨step⟩

/-- The messages taken, by either reader. -/
def taken (ls : List Label) : List (List Byte) :=
  ls.filterMap fun
    | .joinReply message => some message
    | .listen message => some message
    | _ => none

theorem taken_append (ls ls' : List Label) : taken (ls ++ ls') = taken ls ++ taken ls' :=
  List.filterMap_append

/-! ## Navigation -/

/-- What a window event does to the flags, to whether `main` waits for an answer, and what it
sends. -/
inductive Navigates (f : Flags) (joining : Bool) : Flags → Bool → List (List Byte) → Prop
  | stay : Navigates f joining f joining []
  | start (title : f.isTitleScreen = true) :
      Navigates f joining { f with isTitleScreen := false, isChoiceRoom := true } joining []
  | chooseCreate (choice : f.isChoiceRoom = true) :
      Navigates f joining { f with isChoiceRoom := false, isCreateRoom := true } joining []
  | chooseJoin (choice : f.isChoiceRoom = true) :
      Navigates f joining { f with isChoiceRoom := false, isJoinRoom := true } joining []
  | create (create : f.isCreateRoom = true) (password : List Byte) :
      Navigates f joining { f with isCreateRoom := false, isWaitingScreen := true } joining
        [createRequest password]
  | join (join : f.isJoinRoom = true) (password : List Byte) :
      Navigates f joining f true [joinRequest password]

theorem navigates_click (cl : Client) (mousePos : Int × Int) :
    Navigates cl.flags cl.joining (cl.click mousePos).1.flags (cl.click mousePos).1.joining
      (cl.click mousePos).2 := by
  unfold click
  split_ifs with htitle hchoice hcreate hjoin hcreating hclick hjoining hclick'
  · exact .start (Bool.and_eq_true_iff.1 htitle).1
  · exact .chooseCreate hchoice
  · exact .chooseJoin hchoice
  · exact .stay
  · exact .create hcreating _
  · exact .stay
  · exact .join hjoining _
  · exact .stay
  · exact .stay

theorem navigates_handleEvent (cl : Client) (e : Event) (mousePos : Int × Int) :
    Navigates cl.flags cl.joining (cl.handleEvent e mousePos).1.flags
      (cl.handleEvent e mousePos).1.joining (cl.handleEvent e mousePos).2 := by
  have hsame : ∀ cl' : Client, (cl'.handleInput e).flags = cl'.flags ∧
      (cl'.handleInput e).joining = cl'.joining := by
    intro cl'
    unfold handleInput
    split
    · split_ifs <;> exact ⟨rfl, rfl⟩
    · exact ⟨rfl, rfl⟩
  have hinput : ((if e = .closed then { cl with windowOpen := false } else cl).handleInput
      e).flags = cl.flags ∧ ((if e = .closed then { cl with windowOpen := false } else
        cl).handleInput e).joining = cl.joining := by
    obtain ⟨hflags, hjoining⟩ := hsame (if e = .closed then { cl with windowOpen := false } else cl)
    rw [hflags, hjoining]
    split_ifs <;> exact ⟨rfl, rfl⟩
  unfold handleEvent
  simp only
  generalize handleInput _ _ = cl₀ at hinput ⊢
  rw [← hinput.1, ← hinput.2]
  split_ifs
  · exact navigates_click cl₀ mousePos
  · exact .stay

@[simp] theorem listening_handleInput (cl : Client) (e : Event) :
    (cl.handleInput e).listening = cl.listening := by
  unfold handleInput
  split
  · split_ifs <;> rfl
  · rfl

@[simp] theorem listening_click (cl : Client) (mousePos : Int × Int) :
    (cl.click mousePos).1.listening = cl.listening := by
  unfold click
  split_ifs <;> rfl

/-- No window event ends the listener. -/
theorem listening_handleEvent (cl : Client) (e : Event) (mousePos : Int × Int) :
    (cl.handleEvent e mousePos).1.listening = cl.listening := by
  unfold handleEvent
  simp only
  split_ifs <;> simp

/-- The steps of a client. -/
inductive Step (cl : Client) : Label → Client → List (List Byte) → Prop
  | event {e : Event} {mousePos : Int × Int} {cl' : Client} {o : List (List Byte)}
      (notJoining : cl.joining = false)
      (navigates : Navigates cl.flags cl.joining cl'.flags cl'.joining o) :
      Step cl (.event e mousePos) cl' o
  | joinReply {message : List Byte} (joining : cl.joining = true) :
      Step cl (.joinReply message) (cl.joinReply message) []
  | joinClosed (joining : cl.joining = true) : Step cl .joinClosed { cl with joining := false } []
  | listen {message : List Byte} (listening : cl.listening = true) :
      Step cl (.listen message) (cl.listen message) []
  | listenClosed (listening : cl.listening = true) :
      Step cl .listenClosed { cl with listening := false } []

theorem step_cases {cl cl' : Client} {l : Label} {o : List (List Byte)}
    (h : step cl l = some (cl', o)) : Step cl l cl' o := by
  cases l with
  | event e mousePos =>
    simp only [step] at h
    split_ifs at h with hwaits
    have hmove := navigates_handleEvent cl e mousePos
    rw [Option.some.inj h] at hmove
    exact .event (by simpa using (Bool.and_eq_true_iff.1 hwaits).2) hmove
  | joinReply message =>
    simp only [step] at h
    split_ifs at h with hjoining
    cases h
    exact .joinReply hjoining
  | joinClosed =>
    simp only [step] at h
    split_ifs at h with hjoining
    cases h
    exact .joinClosed hjoining
  | listen message =>
    simp only [step] at h
    split_ifs at h with hlistening
    cases h
    exact .listen hlistening
  | listenClosed =>
    simp only [step] at h
    split_ifs at h with hlistening
    cases h
    exact .listenClosed hlistening

/-- The flags of the first four screens. -/
def front (f : Flags) : List Bool :=
  [f.isTitleScreen, f.isChoiceRoom, f.isCreateRoom, f.isJoinRoom]

/-- The client is on one of the first four screens, or it waits. -/
def OneScreen (f : Flags) : Prop :=
  (front f).count true = 1 ∨ (front f).count true = 0 ∧ f.isWaitingScreen = true

/-- What holds of a client that has sent the requests `os`. -/
structure Inv (cl : Client) (os : List (List Byte)) : Prop where
  screen : OneScreen cl.flags
  /-- It waits for an answer on the join screen only. -/
  joining : cl.joining = true → cl.flags.isJoinRoom = true
  /-- After a request it is on the join screen or it waits. -/
  asked : os ≠ [] → cl.flags.isJoinRoom = true ∨ cl.flags.isWaitingScreen = true

section

variable {cl cl' : Client} {l : Label} {os o : List (List Byte)} {f f' : Flags}
  {joining joining' : Bool}

theorem Inv.init : Inv {} [] where
  screen := Or.inl rfl
  joining h := by cases h
  asked h := absurd rfl h

/-- A client on the join screen is on none of the other three. -/
theorem Inv.front_of_join (h : Inv cl os) (hjoin : cl.flags.isJoinRoom = true) :
    cl.flags.isTitleScreen = false ∧ cl.flags.isChoiceRoom = false ∧
      cl.flags.isCreateRoom = false := by
  have hscreen := h.screen
  simp only [OneScreen, front, List.count_cons, hjoin] at hscreen
  revert hscreen
  cases cl.flags.isTitleScreen <;> cases cl.flags.isChoiceRoom <;>
    cases cl.flags.isCreateRoom <;> simp

/-- A click leads from one of the first four screens to another, or to the waiting screen. -/
theorem Navigates.oneScreen (hmove : Navigates f joining f' joining' o) (h : OneScreen f) :
    OneScreen f' := by
  obtain ⟨title, choice, create, join, waiting⟩ := f
  cases hmove with
  | stay => exact h
  | join => exact h
  | start htitle =>
    obtain rfl : title = true := htitle
    cases choice <;> cases create <;> cases join <;> simp_all [OneScreen, front]
  | chooseCreate hchoice =>
    obtain rfl : choice = true := hchoice
    cases title <;> cases create <;> cases join <;> simp_all [OneScreen, front]
  | chooseJoin hchoice =>
    obtain rfl : choice = true := hchoice
    cases title <;> cases create <;> cases join <;> simp_all [OneScreen, front]
  | create hcreate =>
    obtain rfl : create = true := hcreate
    cases title <;> cases choice <;> cases join <;> simp_all [OneScreen, front]

/-- No click leaves the waiting screen. -/
theorem Navigates.waiting (hmove : Navigates f joining f' joining' o)
    (h : f.isWaitingScreen = true) : f'.isWaitingScreen = true := by
  cases hmove <;> first | exact h | rfl

/-- Off the first three screens a click changes no flag, and it sends a `JOIN` or nothing. -/
theorem Navigates.of_front (hmove : Navigates f joining f' joining' o)
    (htitle : f.isTitleScreen = false) (hchoice : f.isChoiceRoom = false)
    (hcreate : f.isCreateRoom = false) :
    f' = f ∧ (f.isJoinRoom = true ∨ joining' = joining ∧ o = []) := by
  cases hmove with
  | stay => exact ⟨rfl, Or.inr ⟨rfl, rfl⟩⟩
  | join hjoin => exact ⟨rfl, Or.inl hjoin⟩
  | start h => simp [htitle] at h
  | chooseCreate h => simp [hchoice] at h
  | chooseJoin h => simp [hchoice] at h
  | create h => simp [hcreate] at h

/-- A click of `main` while it does not wait for an answer. -/
theorem Navigates.requests (hmove : Navigates f joining f' joining' o) :
    (o = [] ∧ joining' = joining) ∨ (f'.isWaitingScreen = true ∧ joining' = joining) ∨
      f'.isJoinRoom = true := by
  cases hmove with
  | create => exact Or.inr (Or.inl ⟨rfl, rfl⟩)
  | join hjoin => exact Or.inr (Or.inr hjoin)
  | _ => exact Or.inl ⟨rfl, rfl⟩

/-- A window event keeps the invariant. -/
theorem Inv.navigates (h : Inv cl os) (hwaits : cl.joining = false)
    (hmove : Navigates cl.flags cl.joining cl'.flags cl'.joining o) : Inv cl' (os ++ o) := by
  refine ⟨hmove.oneScreen h.screen, fun hjoining => ?_, fun hasked => ?_⟩
  · rcases hmove.requests with ⟨-, hsame⟩ | ⟨-, hsame⟩ | hjoin
    · simp [hsame, hwaits] at hjoining
    · simp [hsame, hwaits] at hjoining
    · exact hjoin
  · rcases hmove.requests with ⟨rfl, -⟩ | ⟨hwaiting, -⟩ | hjoin
    · rcases h.asked (by simpa using hasked) with hjoin | hwaiting
      · obtain ⟨htitle, hchoice, hcreate⟩ := h.front_of_join hjoin
        rw [(hmove.of_front htitle hchoice hcreate).1]
        exact Or.inl hjoin
      · exact Or.inr (hmove.waiting hwaiting)
    · exact Or.inr hwaiting
    · exact Or.inl hjoin

/-- What the listener does to the flags of the screens. -/
theorem onMessage_flags (f : Flags) (message : List Byte) :
    front (onMessage f message).1 = front f ∧
      ((onMessage f message).1.isWaitingScreen = true ↔
        f.isWaitingScreen = true ∨ message = ascii "WAIT\n") ∧
      ((onMessage f message).1.isGameStart = true ↔
        f.isGameStart = true ∨ message = ascii "START\n") := by
  have hne : ascii "WAIT\n" ≠ ascii "START\n" := by decide
  unfold onMessage
  split_ifs with hwait hstart
  · subst hwait
    simp [front, hne]
  · subst hstart
    simp [front, hne.symm]
  all_goals simp [front, hwait, hstart]

/-- The join click reads its answer on the join screen, and leaves it on a `WAIT`. -/
theorem joinReply_flags (cl : Client) (message : List Byte) :
    (cl.joinReply message).flags = (if message = ascii "WAIT\n" then
      { cl.flags with isJoinRoom := false, isWaitingScreen := true } else cl.flags) ∧
      (cl.joinReply message).joining = false := by
  unfold joinReply
  split_ifs <;> exact ⟨rfl, rfl⟩

theorem isJoinRoom_eq_of_front (h : front f' = front f) :
    f'.isJoinRoom = f.isJoinRoom := by
  simp only [front, List.cons.injEq] at h
  exact h.2.2.2.1

/-- A client with the same flags of the screens, or the waiting screen besides. -/
theorem Inv.of_flags (h : Inv cl os) (hfront : front cl'.flags = front cl.flags)
    (hwaiting : cl.flags.isWaitingScreen = true → cl'.flags.isWaitingScreen = true)
    (hjoining : cl'.joining = true → cl.joining = true) : Inv cl' os := by
  have hjoin := isJoinRoom_eq_of_front hfront
  refine ⟨?_, fun h' => hjoin ▸ h.joining (hjoining h'), fun h' => ?_⟩
  · rw [OneScreen, hfront]
    exact h.screen.imp id fun h' => ⟨h'.1, hwaiting h'.2⟩
  · rw [hjoin]
    exact (h.asked h').imp id hwaiting

/-- Every step keeps the invariant. -/
theorem Inv.step (h : Inv cl os) (hstep : Client.step cl l = some (cl', o)) :
    Inv cl' (os ++ o) := by
  cases step_cases hstep with
  | event notJoining navigates => exact h.navigates notJoining navigates
  | @joinReply message joining =>
    obtain ⟨hflags, hdone⟩ := joinReply_flags cl message
    rw [List.append_nil]
    by_cases hwait : message = ascii "WAIT\n"
    · obtain ⟨htitle, hchoice, hcreate⟩ := h.front_of_join (h.joining joining)
      rw [if_pos hwait] at hflags
      refine ⟨Or.inr ?_, by simp [hdone], fun _ => Or.inr ?_⟩
      · simp [hflags, front, htitle, hchoice, hcreate]
      · rw [hflags]
    · rw [if_neg hwait] at hflags
      exact h.of_flags (by rw [hflags]) (by rw [hflags]; exact id) (by simp [hdone])
  | joinClosed =>
    rw [List.append_nil]
    exact h.of_flags rfl id (by simp)
  | @listen message =>
    obtain ⟨hfront, hwaiting, -⟩ := onMessage_flags cl.flags message
    rw [List.append_nil]
    exact h.of_flags hfront (fun h' => hwaiting.2 (Or.inl h')) id
  | listenClosed =>
    rw [List.append_nil]
    exact h.of_flags rfl id id

theorem Inv.run {ls : List Label} (h : machine.Run {} ls os cl) : Inv cl os :=
  h.invariant .init fun _ _ _ _ _ hi hs => hi.step hs

/-! ## Two readers of one socket -/

/-- Only the join click that takes a `WAIT` leaves the join screen. -/
theorem Inv.stays (h : Inv cl os) (hjoin : cl.flags.isJoinRoom = true)
    (hl : l ≠ .joinReply (ascii "WAIT\n")) (hstep : Client.step cl l = some (cl', o)) :
    cl'.flags.isJoinRoom = true := by
  cases step_cases hstep with
  | event _ navigates =>
    obtain ⟨htitle, hchoice, hcreate⟩ := h.front_of_join hjoin
    rw [(navigates.of_front htitle hchoice hcreate).1]
    exact hjoin
  | @joinReply message =>
    have hne : message ≠ ascii "WAIT\n" := fun heq => hl (congrArg _ heq)
    rw [(joinReply_flags cl message).1, if_neg hne]
    exact hjoin
  | joinClosed => exact hjoin
  | @listen message =>
    exact (isJoinRoom_eq_of_front (onMessage_flags cl.flags message).1).trans hjoin
  | listenClosed => exact hjoin

/-- The client is past the join screen and waits for the game. -/
structure Waits (cl : Client) : Prop where
  past : front cl.flags = [false, false, false, false]
  waiting : cl.flags.isWaitingScreen = true
  joining : cl.joining = false

theorem Waits.flags (h : Waits cl) : cl.flags.isTitleScreen = false ∧
    cl.flags.isChoiceRoom = false ∧ cl.flags.isCreateRoom = false ∧
    cl.flags.isJoinRoom = false := by
  simpa [front] using h.past

/-- An accepted `JOIN`. -/
theorem Inv.waits (h : Inv cl os)
    (hstep : Client.step cl (.joinReply (ascii "WAIT\n")) = some (cl', o)) : Waits cl' := by
  cases step_cases hstep with
  | joinReply joining =>
    obtain ⟨hflags, hdone⟩ := joinReply_flags cl (ascii "WAIT\n")
    obtain ⟨htitle, hchoice, hcreate⟩ := h.front_of_join (h.joining joining)
    rw [if_pos rfl] at hflags
    exact ⟨by simp [hflags, front, htitle, hchoice, hcreate], by rw [hflags], hdone⟩

/-- It keeps waiting, and the next messages are the listener's. -/
theorem Waits.step (h : Waits cl) (hstep : Client.step cl l = some (cl', o)) :
    Waits cl' ∧ (cl.flags.isGameStart = true → cl'.flags.isGameStart = true) ∧
      (ascii "START\n" ∈ taken [l] → cl'.flags.isGameStart = true) := by
  obtain ⟨htitle, hchoice, hcreate, hjoin⟩ := h.flags
  cases step_cases hstep with
  | event _ navigates =>
    obtain ⟨hflags, hjoined | ⟨hjoining, -⟩⟩ := navigates.of_front htitle hchoice hcreate
    · simp [hjoin] at hjoined
    · rw [hflags]
      exact ⟨⟨hflags ▸ h.past, hflags ▸ h.waiting, hjoining.trans h.joining⟩, id,
        by simp [taken]⟩
  | joinReply joining => simp [h.joining] at joining
  | joinClosed joining => simp [h.joining] at joining
  | @listen message =>
    obtain ⟨hfront, hwaiting, hgame⟩ := onMessage_flags cl.flags message
    refine ⟨⟨hfront.trans h.past, hwaiting.2 (Or.inl h.waiting), h.joining⟩,
      fun hstarted => hgame.2 (Or.inl hstarted), fun hstart => hgame.2 (Or.inr ?_)⟩
    simpa [taken, eq_comm] using hstart
  | listenClosed => exact ⟨⟨h.past, h.waiting, h.joining⟩, id, by simp [taken]⟩

/-- The game starts for a client that waits once `START` is taken. -/
theorem Waits.run {ls : List Label} (h : Waits cl) (hrun : machine.Run cl ls os cl') :
    Waits cl' ∧ (ascii "START\n" ∈ taken ls → cl'.flags.isGameStart = true) := by
  induction hrun with
  | nil => exact ⟨h, by simp [taken]⟩
  | snoc _ hstep ih =>
    obtain ⟨hwaits, hkept, hstart⟩ := ih.1.step hstep
    refine ⟨hwaits, fun hmem => ?_⟩
    rw [taken_append, List.mem_append] at hmem
    exact hmem.elim (fun hmem => hkept (ih.2 hmem)) hstart

/-- The client has left the join screen for the waiting screen, and the game has started. -/
def Entered (f : Flags) : Prop :=
  f.isJoinRoom = false ∧ f.isWaitingScreen = true ∧ f.isGameStart = true

instance (f : Flags) : Decidable (Entered f) :=
  inferInstanceAs (Decidable (_ ∧ _))

/-- A client that has sent a `JOIN` takes a `WAIT` and then a `START`, by either reader. It has
entered the game exactly if the join click took the `WAIT`. -/
theorem entered_iff {ls₀ ls : List Label} {os₀ : List (List Byte)} {cl₀ : Client}
    {before after : List (List Byte)} (h₀ : machine.Run {} ls₀ os₀ cl₀)
    (hjoining : cl₀.joining = true) (h : machine.Run cl₀ ls os cl)
    (htaken : taken ls = before ++ ascii "WAIT\n" :: after)
    (hbefore : ascii "WAIT\n" ∉ before) (hafter : ascii "WAIT\n" ∉ after)
    (hstart : ascii "START\n" ∈ after) :
    Entered cl.flags ↔ .joinReply (ascii "WAIT\n") ∈ ls := by
  have hinv := Inv.run h₀
  constructor
  · intro hentered
    by_contra hnone
    have hmeets : machine.StepsMeet (fun _ l => l ≠ .joinReply (ascii "WAIT\n")) cl₀ ls :=
      Machine.stepsMeet_of_forall fun l hl _ heq => hnone (heq ▸ hl)
    have hstays := h.invariant_of_meets
      (P := fun cl os => Inv cl (os₀ ++ os) ∧ cl.flags.isJoinRoom = true) hmeets
      ⟨by simpa using hinv, hinv.joining hjoining⟩ fun t os l t' o ht hl hstep => by
        have hkept := ht.1.step hstep
        exact ⟨by simpa using hkept, ht.1.stays ht.2 hl hstep⟩
    simp [hentered.1] at hstays
  · intro hmem
    obtain ⟨ls₁, ls₂, rfl⟩ := List.append_of_mem hmem
    obtain ⟨os₁, cl₁, os₂, hrun₁, hrun₂, -⟩ := h.split
    obtain ⟨cl₂, o, os₃, hstep, hrun₃, -⟩ := hrun₂.exists_head
    have hinv₁ : Inv cl₁ (os₀ ++ os₁) := Inv.run (h₀.trans hrun₁)
    obtain ⟨hwaits, hgame⟩ := (hinv₁.waits hstep).run hrun₃
    have hsame : before = taken ls₁ ∧ after = taken ls₂ := by
      have hsplit : taken (ls₁ ++ .joinReply (ascii "WAIT\n") :: ls₂) =
          taken ls₁ ++ ascii "WAIT\n" :: taken ls₂ := taken_append _ _
      rw [hsplit] at htaken
      obtain ⟨hfirst, -, hlast⟩ :=
        (List.append_cons_inj_of_notMem hbefore hafter).1 htaken.symm
      exact ⟨hfirst, hlast⟩
    exact ⟨hwaits.flags.2.2.2, hwaits.waiting, hgame (hsame.2 ▸ hstart)⟩

/-- A client chooses to join a room and sends a `JOIN` with the password `a`. -/
def asking : List Label :=
  [.event .leftPressed (550, 420), .event .leftPressed (700, 420), .event (.textEntered 97) (0, 0),
    .event .leftPressed (550, 520)]

theorem isSome_asking : (machine.exec {} asking).isSome := by
  decide

/-- The client that waits for the answer. -/
def asker : Client :=
  machine.final {} asking isSome_asking

theorem joining_asker : asker.joining = true := by
  decide

/-- The join click takes the answer, the listener the rest. -/
def answered : List Label :=
  [.joinReply (ascii "WAIT\n"), .listen (ascii "COUNTDOWN\n"), .listen (ascii "START\n")]

theorem isSome_answered : (machine.exec asker answered).isSome := by
  decide

theorem taken_answered : taken answered =
    [] ++ ascii "WAIT\n" :: [ascii "COUNTDOWN\n", ascii "START\n"] :=
  rfl

theorem entered_iff_answered : Entered (machine.final asker answered isSome_answered).flags ↔
    .joinReply (ascii "WAIT\n") ∈ answered :=
  entered_iff (Machine.run_final isSome_asking) joining_asker (Machine.run_final isSome_answered)
    taken_answered (by decide) (by decide) (by decide)

/-- The listener takes the answer, and the join click the message after it. -/
def crossed : List Label :=
  [.listen (ascii "WAIT\n"), .joinReply (ascii "COUNTDOWN\n"), .listen (ascii "START\n")]

theorem isSome_crossed : (machine.exec asker crossed).isSome := by
  decide

/-- It is not so that a client enters the game whichever reader takes what. -/
theorem not_forall_entered : ¬∀ ls₀ os₀ cl₀ ls os cl, machine.Run {} ls₀ os₀ cl₀ →
    cl₀.joining = true → machine.Run cl₀ ls os cl →
    taken ls = [ascii "WAIT\n", ascii "COUNTDOWN\n", ascii "START\n"] → Entered cl.flags := by
  intro hall
  have hentered := hall _ _ _ _ _ _ (Machine.run_final isSome_asking) joining_asker
    (Machine.run_final isSome_crossed) rfl
  exact absurd hentered (by decide)

end

end Client

end DesperateStruggle
