import DesperateStruggle.Game

/-!
# Health and the end of a game

`handleEvents` does not ask whether a player has died. `HealthHeld` is what a check for it would
give : the health of both players stays between 0 and 8, and it does not change once one of them
has none left. It holds in a run exactly if the shots of a game that is over happen to change
nothing (`healthHeld_iff`). The upper bound is that of `addHealth`.
-/

open CString

namespace DesperateStruggle

/-- When a shot and an item together leave the health. -/
theorem Player.afterItem_afterBullet_eq_iff {health : Int32} (h : health ≤ 8) (bullet : Bullet)
    (item : Option Item) : afterItem (afterBullet health bullet) item = health ↔
      (bullet = .LIVE ↔ item = some .HEAL) ∨ (item = some .HEAL ∧ health = 8) := by
  by_cases hheal : item = some .HEAL
  · have hmin : ∀ a : Int32, min a 8 = if a ≤ 8 then a else 8 := fun _ => rfl
    cases bullet <;> simp only [afterItem, afterBullet, hheal, hmin] <;> simp <;> grind
  · have hlost : health - 1 ≠ health := by grind
    cases bullet <;> simp [afterItem, afterBullet, hheal, hlost]

namespace Game

/-- A player has no health left. -/
def GameOver (g : Game) : Prop :=
  ∃ p, (g.player p).health = 0

/-- Both players have between 0 and 8. -/
def Bounded (g : Game) : Prop :=
  ∀ p, 0 ≤ (g.player p).health ∧ (g.player p).health ≤ 8

/-- Both players have what they had. -/
def SameHealth (g g' : Game) : Prop :=
  ∀ p, (g'.player p).health = (g.player p).health

/-- Along the labels, the health of both players stays in its bounds, and it does not change once
a player has none left. -/
def HealthHeld (g : Game) (ls : List Label) : Prop :=
  (∀ ls₁ acts₁ g₁, ls₁ <+: ls → machine.Run g ls₁ acts₁ g₁ → Bounded g₁) ∧
    ∀ ls₁ ls₂ acts₁ acts₂ g₁ g₂, ls₁ ++ ls₂ <+: ls → machine.Run g ls₁ acts₁ g₁ →
      machine.Run g₁ ls₂ acts₂ g₂ → GameOver g₁ → SameHealth g₁ g₂

/-- If a player has no health left and the event is a shot, then the bullet takes as much from
the shooter as its item gives. -/
def Spared (g : Game) (l : Label) : Prop :=
  ∀ e p bullet, l = .event e → Fires g e p → g.bullets[(g.player p).turn]? = some bullet →
    GameOver g → (bullet = .LIVE ↔ (g.player p).items.getLast? = some .HEAL) ∨
      ((g.player p).items.getLast? = some .HEAL ∧ (g.player p).health = 8)

section

variable {g g' t : Game} {e : Event} {l : Label} {ls ls' : List Label} {p : PlayerId}
  {bullet : Bullet} {acts : List (PlayerId × Act)}

/-- Only a shot changes the health. -/
theorem sameHealth_or_tookShot (h : machine.step g l = some (g', acts)) :
    (∃ e p bullet, l = .event e ∧ Fires g e p ∧ TookShot g p bullet g' acts) ∨
      SameHealth g g' := by
  cases l with
  | event e =>
    have hevent : g.handleEvent e = some (g', acts) := h
    rcases handleEvent_cases hevent with ⟨p, bullet, hfires, hshot⟩ | ⟨-, hidle, -⟩
    · exact Or.inl ⟨e, p, bullet, rfl, hfires, hshot⟩
    · exact Or.inr fun p => by rw [player_of_idle hidle]
  | setTurnForPlayer p turnStatus =>
    cases h
    exact Or.inr ((PlayerId.forall_iff p).2 (by simp [setTurnForPlayer]))
  | skipOpponentTurn =>
    cases h
    exact Or.inr fun p => by rw [skipOpponentTurn, player_setSkipTurn]

/-- A shot changes the health of its shooter only. -/
theorem TookShot.sameHealth_iff (h : TookShot g p bullet g' acts) : SameHealth g g' ↔
    Player.afterItem (Player.afterBullet (g.player p).health bullet)
      (g.player p).items.getLast? = (g.player p).health := by
  rw [SameHealth, PlayerId.forall_iff p, h.shooter, h.opponent]
  simp [Player.toggleTurn]

theorem Bounded.of_sameHealth (h : Bounded g) (hsame : SameHealth g g') : Bounded g' :=
  fun p => by rw [hsame p]; exact h p

theorem GameOver.of_sameHealth (h : GameOver g) (hsame : SameHealth g g') : GameOver g' := by
  obtain ⟨p, hp⟩ := h
  exact ⟨p, (hsame p).trans hp⟩

/-- While both players live, a shot keeps the bounds. -/
theorem Bounded.tookShot (h : Bounded g) (hover : ¬GameOver g)
    (hshot : TookShot g p bullet g' acts) : Bounded g' := by
  refine (PlayerId.forall_iff p).2 ⟨?_, ?_⟩
  · have hpos : (g.player p).health ≠ 0 := fun hzero => hover ⟨p, hzero⟩
    have hbounds := h p
    have hbullet : 0 ≤ Player.afterBullet (g.player p).health bullet ∧
        Player.afterBullet (g.player p).health bullet ≤ 8 := by
      unfold Player.afterBullet
      split_ifs <;> grind
    rw [hshot.shooter]
    exact ⟨Player.zero_le_afterItem hbullet.1 hbullet.2 _, Player.afterItem_le hbullet.2 _⟩
  · rw [hshot.opponent]
    exact h p.other

/-- A step that spares the players keeps the bounds, and the health once the game is over. -/
theorem Spared.step (hspared : Spared g l) (h : Bounded g)
    (hstep : machine.step g l = some (g', acts)) :
    Bounded g' ∧ (GameOver g → SameHealth g g') := by
  rcases sameHealth_or_tookShot hstep with ⟨e, p, bullet, rfl, hfires, hshot⟩ | hsame
  · have hkept : GameOver g → SameHealth g g' := fun hover =>
      hshot.sameHealth_iff.2 ((Player.afterItem_afterBullet_eq_iff (h p).2 _ _).2
        (hspared e p bullet rfl hfires hshot.tested hover))
    by_cases hover : GameOver g
    · exact ⟨h.of_sameHealth (hkept hover), hkept⟩
    · exact ⟨h.tookShot hover hshot, hkept⟩
  · exact ⟨h.of_sameHealth hsame, fun _ => hsame⟩

/-- The runs whose steps spare the players keep the bounds. -/
theorem Bounded.of_run (h : Bounded g) (hmeets : machine.StepsMeet Spared g ls)
    (hrun : machine.Run g ls acts g') : Bounded g' :=
  hrun.invariant_of_meets (P := fun t _ => Bounded t) hmeets h
    fun _ _ _ _ _ ht hspared hstep => (hspared.step ht hstep).1

/-- They keep the health once the game is over. -/
theorem SameHealth.of_run (h : Bounded g) (hover : GameOver g)
    (hmeets : machine.StepsMeet Spared g ls) (hrun : machine.Run g ls acts g') :
    SameHealth g g' := by
  refine (hrun.invariant_of_meets (P := fun t _ => Bounded t ∧ SameHealth g t) hmeets
    ⟨h, fun _ => rfl⟩ ?_).2
  intro t os l t' o ht hspared hstep
  obtain ⟨hbounded, hkept⟩ := hspared.step ht.1 hstep
  exact ⟨hbounded, fun p => (hkept (hover.of_sameHealth ht.2) p).trans (ht.2 p)⟩

/-- From players with health 5, whatever happens, the health of both is held exactly if every
shot of a game that is over takes as much from the shooter as its item gives. -/
theorem healthHeld_iff (hfive : ∀ p, (g.player p).health = 5) (ls : List Label) :
    HealthHeld g ls ↔ machine.StepsMeet Spared g ls := by
  have hbounded : Bounded g := fun p => by rw [hfive p]; decide
  constructor
  · rintro ⟨hbounds, hkept⟩
    refine Machine.stepsMeet_of_prefixes fun ls₁ l os t hstart hrun => ?_
    rintro e p bullet rfl hfires htested hover
    obtain ⟨t', o, hshot, htook⟩ := takeShot_of_tested htested
    have hstep : machine.step t (.event e) = some (t', o) :=
      (handleEvent_of_fires hfires).trans hshot
    have hsame := hkept _ _ _ _ _ _ hstart hrun (.single hstep) hover
    have hle := (hbounds _ _ _ ((List.prefix_append _ _).trans hstart) hrun p).2
    exact (Player.afterItem_afterBullet_eq_iff hle _ _).1 (htook.sameHealth_iff.1 hsame)
  · intro hmeets
    refine ⟨fun ls₁ acts₁ g₁ hstart hrun => ?_,
      fun ls₁ ls₂ acts₁ acts₂ g₁ g₂ hstart hrun₁ hrun₂ hover => ?_⟩
    · obtain ⟨rest, rfl⟩ := hstart
      exact hbounded.of_run (hrun.stepsMeet_append.1 hmeets).1 hrun
    · obtain ⟨rest, rfl⟩ := hstart
      rw [(hrun₁.trans hrun₂).stepsMeet_append, hrun₁.stepsMeet_append] at hmeets
      exact SameHealth.of_run (hbounded.of_run hmeets.1.1 hrun₁) hover hmeets.1.2 hrun₂

/-- One bullet, which is `LIVE`, and player 1 is on turn. -/
def lethal : Game :=
  { player1 := { name := ascii "You", isTurn := true }, bullets := [.LIVE] }

theorem health_lethal (p : PlayerId) : (lethal.player p).health = 5 := by
  cases p <;> rfl

/-- Both players shoot once. -/
theorem healthHeld_iff_lethal :
    HealthHeld lethal [.event (.keyPressed .Up), .event (.keyPressed .Down)] ↔
      machine.StepsMeet Spared lethal
        [.event (.keyPressed .Up), .event (.keyPressed .Down)] :=
  healthHeld_iff health_lethal _

/-- Both players shoot in turn, player 1 six times. -/
def duelToDeath : List Label :=
  ((List.iterate PlayerId.other .player1 11).map PlayerId.key).map
    fun code => .event (.keyPressed code)

theorem isSome_duelToDeath : (machine.exec lethal duelToDeath).isSome := by
  decide

/-- It is not so that the health is always held. -/
theorem not_forall_healthHeld : ¬∀ (g : Game) (codes : List KeyCode),
    (∀ p, (g.player p).health = 5) → (∃ p, ∀ q, (g.player q).isTurn = true ↔ q = p) →
    g.bullets ≠ [] → (∀ p, .COIN ∉ (g.player p).items) →
    HealthHeld g (codes.map fun code => .event (.keyPressed code)) := by
  intro hall
  have hheld : HealthHeld lethal duelToDeath :=
    hall lethal _ health_lethal ⟨.player1, fun q => by cases q <;> decide⟩ (by decide)
      fun p => by cases p <;> decide
  have hbounds := hheld.1 _ _ _ (List.prefix_refl _) (Machine.run_final isSome_duelToDeath)
    .player1
  exact absurd hbounds.1 (by decide)

end

end Game

end DesperateStruggle
