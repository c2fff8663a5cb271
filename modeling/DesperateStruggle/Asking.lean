import DesperateStruggle.Screens
import DesperateStruggle.Typing

/-!
# What a client asks for

The buttons allow a client one `CREATE`, or any number of `JOIN`s, and never both : the create
button leads to the waiting screen, where no button is left, and from the join screen no way leads
to the create screen. `Asks` are the lists of requests that a client may have sent : there are no
others, whatever is typed and clicked and whatever the server answers, and each of them can be sent
(`asks_iff`). Any bytes can be typed on the create screen, as Hangul syllables cast to `char`.
-/

open CString

namespace DesperateStruggle

namespace Client

/-- A password of the join screen : not empty, and all letters and digits. -/
def Alnum (password : List Byte) : Prop :=
  password ≠ [] ∧ ∀ b ∈ password, isalnum b.toUInt32 = true

/-- The requests that a client may have sent. -/
inductive Asks : List (List Byte) → Prop
  | join (passwords : List (List Byte)) (alnum : ∀ p ∈ passwords, Alnum p) :
      Asks (passwords.map joinRequest)
  | create (password : List Byte) (nonempty : password ≠ []) : Asks [createRequest password]

/-- What the client has sent fits the screen it is on, and the field of the join screen holds
letters and digits. -/
structure Asking (cl : Client) (os : List (List Byte)) : Prop where
  typed : ∀ b ∈ cl.joinPassword, isalnum b.toUInt32 = true
  asked : os = [] ∨
    (cl.flags.isTitleScreen = false ∧ cl.flags.isChoiceRoom = false ∧
      cl.flags.isCreateRoom = false ∧
      ((∃ passwords : List (List Byte),
          (∀ p ∈ passwords, Alnum p) ∧ os = passwords.map joinRequest) ∨
        cl.flags.isJoinRoom = false ∧ ∃ p, p ≠ [] ∧ os = [createRequest p]))

theorem createRequest_ne_joinRequest (p p' : List Byte) : createRequest p ≠ joinRequest p' := by
  intro h
  have hhead := congrArg List.head? h
  revert hhead
  simp only [createRequest, joinRequest, List.append_assoc]
  exact of_decide_eq_false rfl

section

variable {cl cl' : Client} {l : Label} {os o : List (List Byte)} {b : Byte}

/-- What is typed on the join screen. -/
theorem isalnum_handleInput (h : ∀ b ∈ cl.joinPassword, isalnum b.toUInt32 = true) (e : Event) :
    ∀ b ∈ (cl.handleInput e).joinPassword, isalnum b.toUInt32 = true := by
  unfold handleInput
  split
  · split_ifs
    · exact h
    · exact isalnum_editPassword h
    · exact h
  · exact h

/-- What a request may be. -/
def Sends (m : List Byte) : Prop :=
  (∃ p, p ≠ [] ∧ m = createRequest p) ∨ ∃ p, Alnum p ∧ m = joinRequest p

/-- A click sends no empty password. -/
theorem sends_click (h : ∀ b ∈ cl.joinPassword, isalnum b.toUInt32 = true)
    (mousePos : Int × Int) :
    (∀ b ∈ (cl.click mousePos).1.joinPassword, isalnum b.toUInt32 = true) ∧
      ∀ m ∈ (cl.click mousePos).2, Sends m := by
  unfold click
  split_ifs with htitle hchoice hcreate hjoin hcreating hclick hjoining hclick'
  · exact ⟨by simp, by simp⟩
  · exact ⟨h, by simp⟩
  · exact ⟨by simp, by simp⟩
  · exact ⟨h, by simp⟩
  · refine ⟨h, fun m hm => Or.inl ⟨cl.createPassword, ?_, List.mem_singleton.1 hm⟩⟩
    rintro hnil
    simp [hnil] at hclick
  · exact ⟨h, by simp⟩
  · refine ⟨h, fun m hm => Or.inr ⟨cl.joinPassword, ⟨?_, h⟩, List.mem_singleton.1 hm⟩⟩
    rintro hnil
    simp [hnil] at hclick'
  · exact ⟨h, by simp⟩
  · exact ⟨h, by simp⟩

theorem sends_handleEvent (h : ∀ b ∈ cl.joinPassword, isalnum b.toUInt32 = true) (e : Event)
    (mousePos : Int × Int) :
    (∀ b ∈ (cl.handleEvent e mousePos).1.joinPassword, isalnum b.toUInt32 = true) ∧
      ∀ m ∈ (cl.handleEvent e mousePos).2, Sends m := by
  have hopen : ∀ b ∈ (if e = .closed then { cl with windowOpen := false } else cl).joinPassword,
      isalnum b.toUInt32 = true := by
    split_ifs <;> exact h
  have hinput := isalnum_handleInput hopen e
  unfold handleEvent
  simp only
  generalize handleInput _ e = cl₀ at hinput ⊢
  split_ifs with hleft
  · exact sends_click hinput mousePos
  · exact ⟨hinput, by simp⟩

theorem Asking.init : Asking {} [] where
  typed := by simp
  asked := Or.inl rfl

/-- A step that sends nothing and at most leaves the join screen. -/
theorem Asking.of_front (h : Asking cl os) (hpassword : cl'.joinPassword = cl.joinPassword)
    (hfront : cl'.flags.isTitleScreen = cl.flags.isTitleScreen ∧
      cl'.flags.isChoiceRoom = cl.flags.isChoiceRoom ∧
      cl'.flags.isCreateRoom = cl.flags.isCreateRoom)
    (hjoin : cl.flags.isJoinRoom = false → cl'.flags.isJoinRoom = false) : Asking cl' os where
  typed := by
    rw [hpassword]
    exact h.typed
  asked := by
    obtain ⟨htitle, hchoice, hcreate⟩ := hfront
    rw [htitle, hchoice, hcreate]
    exact h.asked.imp id fun ⟨h₁, h₂, h₃, h₄⟩ => ⟨h₁, h₂, h₃, h₄.imp id fun ⟨hj, hp⟩ =>
      ⟨hjoin hj, hp⟩⟩

/-- A client on the create screen is on none of the other three. -/
theorem Inv.front_of_create (h : Inv cl os) (hcreate : cl.flags.isCreateRoom = true) :
    cl.flags.isTitleScreen = false ∧ cl.flags.isChoiceRoom = false ∧
      cl.flags.isJoinRoom = false := by
  have hscreen := h.screen
  simp only [OneScreen, front, List.count_cons, hcreate] at hscreen
  revert hscreen
  cases cl.flags.isTitleScreen <;> cases cl.flags.isChoiceRoom <;>
    cases cl.flags.isJoinRoom <;> simp

theorem Sends.create {p : List Byte} (h : Sends (createRequest p)) :
    ∃ p', p' ≠ [] ∧ createRequest p = createRequest p' := by
  rcases h with h | ⟨p', -, heq⟩
  · exact h
  · exact (createRequest_ne_joinRequest p p' heq).elim

theorem Sends.join {p : List Byte} (h : Sends (joinRequest p)) :
    ∃ p', Alnum p' ∧ joinRequest p = joinRequest p' := by
  rcases h with ⟨p', -, heq⟩ | h
  · exact (createRequest_ne_joinRequest p' p heq.symm).elim
  · exact h

/-- A window event. The first request decides between the one `CREATE` and `JOIN`s. -/
theorem Asking.event (h : Asking cl os) (hinv : Inv cl os) (e : Event) (mousePos : Int × Int) :
    Asking (cl.handleEvent e mousePos).1 (os ++ (cl.handleEvent e mousePos).2) := by
  obtain ⟨htyped, hsends⟩ := sends_handleEvent h.typed e mousePos
  have hmove := navigates_handleEvent cl e mousePos
  refine ⟨htyped, ?_⟩
  generalize (cl.handleEvent e mousePos).1.flags = f', (cl.handleEvent e mousePos).1.joining = j,
    (cl.handleEvent e mousePos).2 = o at hmove hsends ⊢
  rcases h.asked with rfl | ⟨htitle, hchoice, hcreate, hasked⟩
  · cases hmove with
    | stay | start | chooseCreate | chooseJoin => exact Or.inl rfl
    | create hcreate p =>
      obtain ⟨htitle, hchoice, hjoin⟩ := hinv.front_of_create hcreate
      obtain ⟨p', hp', heq⟩ := (hsends _ (List.mem_singleton.2 rfl)).create
      exact Or.inr ⟨htitle, hchoice, rfl, Or.inr ⟨hjoin, p', hp', by rw [heq]; rfl⟩⟩
    | join hjoin p =>
      obtain ⟨htitle, hchoice, hcreate⟩ := hinv.front_of_join hjoin
      obtain ⟨p', hp', heq⟩ := (hsends _ (List.mem_singleton.2 rfl)).join
      exact Or.inr ⟨htitle, hchoice, hcreate, Or.inl ⟨[p'], by simpa using hp', by rw [heq]; rfl⟩⟩
  · have hflags := (hmove.of_front htitle hchoice hcreate).1
    refine Or.inr ⟨hflags ▸ htitle, hflags ▸ hchoice, hflags ▸ hcreate, ?_⟩
    cases hmove with
    | stay => simpa using hasked
    | start h => simp [htitle] at h
    | chooseCreate h => simp [hchoice] at h
    | chooseJoin h => simp [hchoice] at h
    | create h => simp [hcreate] at h
    | join hjoin p =>
      obtain ⟨p', hp', heq⟩ := (hsends _ (List.mem_singleton.2 rfl)).join
      rcases hasked with ⟨ps, hps, rfl⟩ | ⟨hnot, -⟩
      · refine Or.inl ⟨ps ++ [p'], ?_, by rw [heq, List.map_append]; rfl⟩
        simpa [or_imp, forall_and, hp'] using hps
      · simp [hjoin] at hnot

/-- Every step keeps what the client has sent in keeping with its screen. -/
theorem Asking.step (h : Asking cl os) (hinv : Inv cl os)
    (hstep : Client.step cl l = some (cl', o)) : Asking cl' (os ++ o) := by
  cases l with
  | event e mousePos =>
    simp only [Client.step] at hstep
    split_ifs at hstep
    have hevent := h.event hinv e mousePos
    rwa [Option.some.inj hstep] at hevent
  | joinReply message =>
    simp only [Client.step] at hstep
    split_ifs at hstep
    cases hstep
    rw [List.append_nil]
    unfold joinReply
    split_ifs
    · exact h.of_front rfl ⟨rfl, rfl, rfl⟩ fun _ => rfl
    · exact h.of_front rfl ⟨rfl, rfl, rfl⟩ id
  | listen message =>
    simp only [Client.step] at hstep
    split_ifs at hstep
    cases hstep
    rw [List.append_nil]
    obtain ⟨hfront, -⟩ := onMessage_flags cl.flags message
    simp only [front, List.cons.injEq, and_true] at hfront
    obtain ⟨htitle, hchoice, hcreate, hjoin⟩ := hfront
    exact h.of_front rfl ⟨htitle, hchoice, hcreate⟩ fun hnot => hjoin.trans hnot
  | joinClosed | listenClosed =>
    simp only [Client.step] at hstep
    split_ifs at hstep
    cases hstep
    rw [List.append_nil]
    exact h.of_front rfl ⟨rfl, rfl, rfl⟩ id

theorem Asking.run {ls : List Label} (h : machine.Run {} ls os cl) : Asking cl os := by
  have hasking : Inv cl os ∧ Asking cl os :=
    h.invariant (P := fun cl os => Inv cl os ∧ Asking cl os) ⟨.init, .init⟩
      fun _ _ _ _ _ hi hs => ⟨hi.1.step hs, hi.2.step hi.1 hs⟩
  exact hasking.2

theorem Asking.asks (h : Asking cl os) : Asks os := by
  rcases h.asked with rfl | ⟨-, -, -, ⟨ps, hps, rfl⟩ | ⟨-, p, hp, rfl⟩⟩
  · exact .join [] (by simp)
  · exact .join ps hps
  · exact .create p hp

/-- In every run, whatever is typed, clicked and received, the client has sent `JOIN`s with
passwords of letters and digits, or one `CREATE`. None of the passwords is empty. -/
theorem asks_of_run {ls : List Label} (h : machine.Run {} ls os cl) : Asks os :=
  (Asking.run h).asks

/-! ## All of it can happen -/

/-- A client on the create screen. -/
def onCreate (password : List Byte) : Client :=
  { flags := { isTitleScreen := false, isCreateRoom := true }, createPassword := password }

/-- A client on the join screen. -/
def onJoin (password : List Byte) : Client :=
  { flags := { isTitleScreen := false, isJoinRoom := true }, joinPassword := password }

/-- An event of the window. -/
def Label.IsEvent (l : Label) : Prop :=
  ∃ e mousePos, l = .event e mousePos

/-- Characters entered one by one. -/
def typing (us : List UInt32) : List Label :=
  us.map fun u => .event (.textEntered u) (0, 0)

theorem run_typing_onCreate (us : List UInt32) (password : List Byte) :
    machine.Run (onCreate password) (typing us) []
      (onCreate (us.foldl (editPassword createAccepts) password)) := by
  induction us generalizing password with
  | nil => exact .nil
  | cons u us ih =>
    have hstep : machine.step (onCreate password) (.event (.textEntered u) (0, 0)) =
        some (onCreate (editPassword createAccepts password u), []) := rfl
    exact (ih _).head hstep

theorem run_typing_onJoin (us : List UInt32) (password : List Byte) :
    machine.Run (onJoin password) (typing us) []
      (onJoin (us.foldl (editPassword joinAccepts) password)) := by
  induction us generalizing password with
  | nil => exact .nil
  | cons u us ih =>
    have hstep : machine.step (onJoin password) (.event (.textEntered u) (0, 0)) =
        some (onJoin (editPassword joinAccepts password u), []) := rfl
    exact (ih _).head hstep

/-- A Hangul syllable that is cast to the byte. -/
def syllable (b : Byte) : UInt32 :=
  44032 + b.toUInt32

theorem toNat_syllable (b : Byte) : (syllable b).toNat = 44032 + b.toNat := by
  have hlt : b.toNat < 256 := b.toNat_lt
  rw [syllable, UInt32.toNat_add, UInt8.toNat_toUInt32]
  exact Nat.mod_eq_of_lt (by simp; omega)

theorem toUInt8_syllable (b : Byte) : (syllable b).toUInt8 = b := by
  have hlt : b.toNat < 256 := b.toNat_lt
  refine UInt8.toNat_inj.1 ?_
  rw [UInt32.toNat_toUInt8, toNat_syllable]
  omega

theorem createAccepts_syllable (b : Byte) :
    syllable b ≠ 8 ∧ createAccepts (syllable b) = true := by
  have hlt : b.toNat < 256 := b.toNat_lt
  have hnat := toNat_syllable b
  refine ⟨fun heq => ?_, ?_⟩
  · rw [heq] at hnat
    simp at hnat
    omega
  · simp only [createAccepts, Bool.or_eq_true, Bool.and_eq_true, decide_eq_true_eq,
      UInt32.le_iff_toNat_le, hnat]
    exact Or.inr ⟨by simp, by simp; omega⟩

/-- Any bytes can be typed on the create screen. -/
theorem foldl_syllable (p password : List Byte) :
    (p.map syllable).foldl (editPassword createAccepts) password = password ++ p := by
  have hcast : UInt32.toUInt8 ∘ syllable = id := funext toUInt8_syllable
  rw [foldl_editPassword_of_accepts, List.map_map, hcast, List.map_id]
  intro u hu
  obtain ⟨b, -, rfl⟩ := List.mem_map.1 hu
  exact createAccepts_syllable b

/-- Backspaces empty the field. -/
theorem foldl_backspace (password : List Byte) :
    (List.replicate password.length 8).foldl (editPassword joinAccepts) password = [] := by
  induction password using List.reverseRecOn with
  | nil => rfl
  | append_singleton password b ih =>
    rw [List.length_append, List.length_singleton, List.replicate_succ, List.foldl_cons]
    have hone : editPassword joinAccepts (password ++ [b]) 8 = password := by
      simp [editPassword]
    rw [hone, ih]

/-- Characters are entered by window events. -/
theorem isEvent_typing {us : List UInt32} (h : l ∈ typing us) : l.IsEvent := by
  obtain ⟨u, -, rfl⟩ := List.mem_map.1 h
  exact ⟨_, _, rfl⟩

/-- The join button sends the password. -/
theorem step_join {p : List Byte} (hp : p ≠ []) :
    machine.step (onJoin p) (.event .leftPressed (550, 520)) =
      some ({ onJoin p with joining := true }, [joinRequest p]) := by
  cases p with
  | nil => exact (hp rfl).elim
  | cons b p => rfl

/-- The create button sends the password. -/
theorem step_create {p : List Byte} (hp : p ≠ []) :
    machine.step (onCreate p) (.event .leftPressed (550, 520)) =
      some ({ flags := { isTitleScreen := false, isWaitingScreen := true }, createPassword := p },
        [createRequest p]) := by
  cases p with
  | nil => exact (hp rfl).elim
  | cons b p => rfl

/-- One `JOIN`, which is refused. -/
theorem exists_run_join {p : List Byte} (hp : Alnum p) (password : List Byte) :
    ∃ ls, machine.Run (onJoin password) ls [joinRequest p] (onJoin p) := by
  have herase := run_typing_onJoin (List.replicate password.length 8) password
  rw [foldl_backspace] at herase
  have htype := run_typing_onJoin (p.map UInt8.toUInt32) []
  rw [foldl_alnum hp.2, List.nil_append] at htype
  have hrefused : machine.step { onJoin p with joining := true } (.joinReply (ascii "FULL\n")) =
      some (onJoin p, []) := rfl
  exact ⟨_, ((herase.trans htype).snoc (step_join hp.1)).snoc hrefused⟩

theorem exists_run_joins {ps : List (List Byte)} (hps : ∀ p ∈ ps, Alnum p)
    (password : List Byte) :
    ∃ ls cl, machine.Run (onJoin password) ls (ps.map joinRequest) cl := by
  induction ps generalizing password with
  | nil => exact ⟨[], _, .nil⟩
  | cons p ps ih =>
    obtain ⟨ls₁, hrun₁⟩ := exists_run_join (hps p List.mem_cons_self) password
    obtain ⟨ls₂, cl, hrun₂⟩ := ih (fun p' hp' => hps p' (List.mem_cons_of_mem p hp')) p
    exact ⟨_, cl, hrun₁.trans hrun₂⟩

/-- From the start to the join screen. -/
theorem run_toJoin : machine.Run {}
    [.event .leftPressed (550, 420), .event .leftPressed (700, 420)] [] (onJoin []) :=
  Machine.run_of_exec rfl

/-- A client can ask to create a room with window events alone. -/
theorem exists_run_asked_create {p : List Byte} (hp : p ≠ []) :
    ∃ ls cl, (∀ l ∈ ls, l.IsEvent) ∧ machine.Run {} ls [createRequest p] cl := by
  have hscreen : machine.Run {} [.event .leftPressed (550, 420), .event .leftPressed (450, 420)]
      [] (onCreate []) := Machine.run_of_exec rfl
  have htype := run_typing_onCreate (p.map syllable) []
  rw [foldl_syllable, List.nil_append] at htype
  refine ⟨_, _, fun l hl => ?_, (hscreen.trans htype).snoc (step_create hp)⟩
  simp only [List.mem_append, List.mem_cons, List.not_mem_nil, or_false] at hl
  rcases hl with ((rfl | rfl) | hl) | rfl
  exacts [⟨_, _, rfl⟩, ⟨_, _, rfl⟩, isEvent_typing hl, ⟨_, _, rfl⟩]

/-- What the client can have sent, whatever is typed, clicked and received : any number of `JOIN`s,
each with a password of letters and digits, or one `CREATE`, with any password. No password is
empty. -/
theorem asks_iff (os : List (List Byte)) : (∃ ls cl, machine.Run {} ls os cl) ↔ Asks os := by
  constructor
  · rintro ⟨ls, cl, hrun⟩
    exact asks_of_run hrun
  · rintro (⟨ps, hps⟩ | ⟨p, hp⟩)
    · obtain ⟨ls, cl, hrun⟩ := exists_run_joins hps []
      exact ⟨_, cl, run_toJoin.trans hrun⟩
    · obtain ⟨ls, cl, -, hrun⟩ := exists_run_asked_create hp
      exact ⟨ls, cl, hrun⟩

end

end Client

end DesperateStruggle
