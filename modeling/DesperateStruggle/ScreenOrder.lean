import DesperateStruggle.Screens

/-!
# The way through the screens

The flags of `main` stand for one screen : one of the first four flags is set, or none is and the
client waits (`Inv.screen`). So each frame draws one of the screens title, choice, create or join,
and waiting (`OneScreen.drawn`), and a step leaves the screen or leads to a later one
(`Inv.onward`), since the messages that the listener takes never touch the first four flags.
-/

open CString

namespace DesperateStruggle

namespace Client

/-- How far a screen is on the way to the game. -/
def Screen.rank : Screen → Nat
  | title => 0
  | choiceRoom => 1
  | createRoom => 2
  | joinRoom => 2
  | waiting => 3
  | countdown => 4
  | game => 5

/-- The same screen, or a later one. -/
def Screen.Onward (sc sc' : Screen) : Prop :=
  sc = sc' ∨ sc.rank < sc'.rank

/-- The screens up to the waiting screen. -/
def lobby : List Screen :=
  [.title, .choiceRoom, .createRoom, .joinRoom, .waiting]

/-- The flags stand for a screen up to the waiting screen. -/
inductive On (f : Flags) : Screen → Prop
  | title (flags : front f = [true, false, false, false]) : On f .title
  | choiceRoom (flags : front f = [false, true, false, false]) : On f .choiceRoom
  | createRoom (flags : front f = [false, false, true, false]) : On f .createRoom
  | joinRoom (flags : front f = [false, false, false, true]) : On f .joinRoom
  | waiting (flags : front f = [false, false, false, false]) (waiting : f.isWaitingScreen = true) :
      On f .waiting

section

variable {cl cl' : Client} {l : Label} {ls : List Label} {os o : List (List Byte)} {f f' : Flags}
  {joining joining' : Bool} {sc sc' sc'' : Screen}

theorem Screen.Onward.trans (h : sc.Onward sc') (h' : sc'.Onward sc'') : sc.Onward sc'' := by
  rcases h with rfl | h
  · exact h'
  · rcases h' with rfl | h'
    · exact Or.inr h
    · exact Or.inr (h.trans h')

/-- One flag of the four, or none and the waiting screen. -/
theorem OneScreen.exists_on (h : OneScreen f) : ∃ sc, On f sc := by
  obtain ⟨title, choice, create, join, waiting⟩ := f
  rcases h with hone | ⟨hnone, hwaiting⟩
  · cases title <;> cases choice <;> cases create <;> cases join <;> simp [front] at hone
    exacts [⟨_, .joinRoom rfl⟩, ⟨_, .createRoom rfl⟩, ⟨_, .choiceRoom rfl⟩, ⟨_, .title rfl⟩]
  · cases title <;> cases choice <;> cases create <;> cases join <;> simp [front] at hnone
    exact ⟨_, .waiting rfl hwaiting⟩

/-- The screen that the flags stand for is drawn. -/
theorem On.screen_eq (h : On f sc) : screen f = some sc := by
  cases h <;> simp_all [front, screen]

theorem On.mem_lobby (h : On f sc) : sc ∈ lobby := by
  cases h <;> decide

/-- Only the flags of the screens matter, and a `WAIT` read on an earlier screen does not. -/
theorem On.congr (h : On f sc) (hfront : front f' = front f)
    (hwaiting : f.isWaitingScreen = true → f'.isWaitingScreen = true) : On f' sc := by
  cases h with
  | title hflags => exact .title (hfront.trans hflags)
  | choiceRoom hflags => exact .choiceRoom (hfront.trans hflags)
  | createRoom hflags => exact .createRoom (hfront.trans hflags)
  | joinRoom hflags => exact .joinRoom (hfront.trans hflags)
  | waiting hflags hwait => exact .waiting (hfront.trans hflags) (hwaiting hwait)

/-- A click leads on, or nowhere. -/
theorem On.navigates (h : On f sc) (hmove : Navigates f joining f' joining' o) :
    ∃ sc', On f' sc' ∧ sc.Onward sc' := by
  cases hmove with
  | stay => exact ⟨sc, h, Or.inl rfl⟩
  | join => exact ⟨sc, h, Or.inl rfl⟩
  | start htitle =>
    cases h with
    | title hflags => exact ⟨_, .choiceRoom (by simp_all [front]), Or.inr (by decide)⟩
    | _ hflags => simp [front, htitle] at hflags
  | chooseCreate hchoice =>
    cases h with
    | choiceRoom hflags => exact ⟨_, .createRoom (by simp_all [front]), Or.inr (by decide)⟩
    | _ hflags => simp [front, hchoice] at hflags
  | chooseJoin hchoice =>
    cases h with
    | choiceRoom hflags => exact ⟨_, .joinRoom (by simp_all [front]), Or.inr (by decide)⟩
    | _ hflags => simp [front, hchoice] at hflags
  | create hcreate =>
    cases h with
    | createRoom hflags => exact ⟨_, .waiting (by simp_all [front]) rfl, Or.inr (by decide)⟩
    | _ hflags => simp [front, hcreate] at hflags

/-- Every step leads on, or nowhere. -/
theorem On.step (h : On cl.flags sc) (hinv : Inv cl os)
    (hstep : Client.step cl l = some (cl', o)) : ∃ sc', On cl'.flags sc' ∧ sc.Onward sc' := by
  cases step_cases hstep with
  | event _ navigates => exact h.navigates navigates
  | @joinReply message joining =>
    rw [(joinReply_flags cl message).1]
    split_ifs
    · have hjoin := hinv.joining joining
      cases h with
      | joinRoom hflags => exact ⟨_, .waiting (by simp_all [front]) rfl, Or.inr (by decide)⟩
      | _ hflags => simp [front, hjoin] at hflags
    · exact ⟨sc, h, Or.inl rfl⟩
  | joinClosed => exact ⟨sc, h, Or.inl rfl⟩
  | @listen message =>
    obtain ⟨hfront, hwaiting, -⟩ := onMessage_flags cl.flags message
    exact ⟨sc, h.congr hfront fun hwait => hwaiting.2 (Or.inl hwait), Or.inl rfl⟩
  | listenClosed => exact ⟨sc, h, Or.inl rfl⟩

/-- A run leads on, or nowhere. -/
theorem On.run (h : On cl.flags sc) (hinv : Inv cl os) {os' : List (List Byte)}
    (hrun : machine.Run cl ls os' cl') : ∃ sc', On cl'.flags sc' ∧ sc.Onward sc' := by
  have hboth : Inv cl' (os ++ os') ∧ ∃ sc', On cl'.flags sc' ∧ sc.Onward sc' := by
    refine hrun.invariant (P := fun cl' os' => Inv cl' (os ++ os') ∧
      ∃ sc', On cl'.flags sc' ∧ sc.Onward sc') ⟨by simpa using hinv, sc, h, Or.inl rfl⟩ ?_
    rintro t os₁ l t' o ⟨hinv₁, sc₁, hon, honward⟩ hstep
    obtain ⟨sc₂, hon', honward'⟩ := hon.step hinv₁ hstep
    exact ⟨by simpa using hinv₁.step hstep, sc₂, hon', honward.trans honward'⟩
  exact hboth.2

/-- In every state that a client reaches its flags stand for one screen up to the waiting screen,
which is the one it draws, and from there it only moves on to later screens. -/
theorem screen_of_run (h : machine.Run {} ls os cl) :
    OneScreen cl.flags ∧ ∃ sc ∈ lobby, screen cl.flags = some sc ∧
      ∀ ls' os' cl', machine.Run cl ls' os' cl' →
        ∃ sc' ∈ lobby, screen cl'.flags = some sc' ∧ sc.Onward sc' := by
  have hinv := Inv.run h
  obtain ⟨sc, hon⟩ := hinv.screen.exists_on
  refine ⟨hinv.screen, sc, hon.mem_lobby, hon.screen_eq, fun ls' os' cl' hrun => ?_⟩
  obtain ⟨sc', hon', honward⟩ := hon.run hinv hrun
  exact ⟨sc', hon'.mem_lobby, hon'.screen_eq, honward⟩

/-- A client that has asked to join a room draws the join screen. -/
theorem screen_of_run_asking : OneScreen asker.flags ∧ ∃ sc ∈ lobby,
    screen asker.flags = some sc ∧ ∀ ls' os' cl', machine.Run asker ls' os' cl' →
      ∃ sc' ∈ lobby, screen cl'.flags = some sc' ∧ sc.Onward sc' :=
  screen_of_run (Machine.run_final isSome_asking)

end

end Client

end DesperateStruggle
