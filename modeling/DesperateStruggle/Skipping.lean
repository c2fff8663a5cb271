import DesperateStruggle.Turns

/-!
# Skipped turns

Two features of the game do not work. `skipTurn` is reset only in the handlers that it blocks,
so once it is set the game ignores all keys (`responds_iff`). And both handlers pass the turn
whatever item is used, so a `BAN` or a `COIN` does not keep it
(`nextShooter_intendedNext_iff`).
-/

open CString

namespace DesperateStruggle

namespace Game

variable {g g' : Game} {e : Event} {p q : PlayerId} {acts : List (PlayerId × Act)}

/-! ## The skipped turn -/

/-- The press of a key fires a shot or clears `skipTurn`. A shot out of range, which has no
outcome, is one that is fired. -/
def Responds (g : Game) (code : KeyCode) : Prop :=
  match g.handleEvent (.keyPressed code) with
  | none => True
  | some (g', acts) => shots acts ≠ [] ∨ (g.skipTurn = true ∧ g'.skipTurn = false)

/-- A press that is no shot changes nothing, so it does not clear `skipTurn`. -/
theorem responds_iff_fires {code : KeyCode} :
    Responds g code ↔ ∃ p, Fires g (.keyPressed code) p := by
  constructor
  · intro hresponds
    by_contra hnone
    rw [Responds, handleEvent_of_not_fires (not_exists.1 hnone)] at hresponds
    simp at hresponds
  · rintro ⟨p, hfires⟩
    rw [Responds, handleEvent_of_fires hfires]
    rcases hshot : g.takeShot p with - | ⟨g', acts⟩
    · trivial
    · obtain ⟨bullet, htook⟩ := takeShot_eq_some hshot
      exact Or.inl (by simp [htook.shots])

/-- What happens to a game whose turns are only skipped : someone is on turn, and `skipTurn` is
set once a turn was skipped. -/
theorem onTurn_of_run {ls : List Label} (hturn : OnTurn g p) (hskip : g.skipTurn = false)
    (hls : ∀ l ∈ ls, (∃ code, l = .event (.keyPressed code)) ∨ l = .skipOpponentTurn)
    (h : machine.Run g ls acts g') :
    (∃ q, OnTurn g' q) ∧ (g'.skipTurn = true ↔ .skipOpponentTurn ∈ ls) := by
  induction h with
  | nil => exact ⟨⟨p, hturn⟩, by simp [hskip]⟩
  | @snoc ls acts g₁ l o g' hrun hstep ih =>
    obtain ⟨⟨q, hq⟩, hskipped⟩ := ih fun l' hl' => hls l' (by simp [hl'])
    rcases hls l (by simp) with ⟨code, rfl⟩ | rfl
    · have hevent : g₁.handleEvent (.keyPressed code) = some (g', o) := hstep
      rcases handleEvent_cases hevent with ⟨r, bullet, hfires, hshot⟩ | ⟨-, hidle, -⟩
      · obtain rfl := hq.of_fires hfires
        have hfree : g₁.skipTurn = false := hfires.2.2
        refine ⟨⟨_, hq.tookShot hshot⟩, ?_⟩
        rw [hfree] at hskipped
        simpa [hshot.skipTurn] using hskipped
      · refine ⟨⟨q, hq.idle hidle⟩, ?_⟩
        rw [skipTurn_of_idle hidle]
        simpa using hskipped
    · cases hstep
      exact ⟨⟨q, fun r => by rw [skipOpponentTurn, player_setSkipTurn]; exact hq r⟩,
        by simp [skipOpponentTurn, setSkipTurn]⟩

/-- A game in which exactly one player is on turn responds to one of the two keys as long as no
turn is skipped, and to none once one was. -/
theorem responds_iff {ls : List Label} (hturn : OnTurn g p) (hskip : g.skipTurn = false)
    (hls : ∀ l ∈ ls, (∃ code, l = .event (.keyPressed code)) ∨ l = .skipOpponentTurn)
    (h : machine.Run g ls acts g') :
    (Responds g' .Up ∨ Responds g' .Down) ↔ .skipOpponentTurn ∉ ls := by
  obtain ⟨⟨q, hq⟩, hskipped⟩ := onTurn_of_run hturn hskip hls h
  rw [← hskipped, Bool.not_eq_true, responds_iff_fires, responds_iff_fires]
  constructor
  · rintro (⟨r, hfires⟩ | ⟨r, hfires⟩) <;> exact hfires.2.2
  · intro hfree
    have hfires := hq.fires hfree
    cases q with
    | player1 => exact Or.inl ⟨_, hfires⟩
    | player2 => exact Or.inr ⟨_, hfires⟩

theorem run_skipped : machine.Run armed [.skipOpponentTurn] [] armed.skipOpponentTurn :=
  Machine.Run.single rfl

/-- A turn is skipped at once, and no key works. -/
theorem responds_iff_skipped : (Responds armed.skipOpponentTurn .Up ∨
    Responds armed.skipOpponentTurn .Down) ↔ .skipOpponentTurn ∉ [Label.skipOpponentTurn] :=
  responds_iff ready_armed.onTurn rfl (by simp) run_skipped

/-- It is not so that one of the keys always works. -/
theorem not_forall_responds : ¬∀ (g g' : Game) (p : PlayerId) (ls : List Label)
    (acts : List (PlayerId × Act)), OnTurn g p → g.skipTurn = false →
    (∀ l ∈ ls, (∃ code, l = .event (.keyPressed code)) ∨ l = .skipOpponentTurn) →
    machine.Run g ls acts g' → Responds g' .Up ∨ Responds g' .Down := by
  intro hall
  have hresponds := hall _ _ _ _ _ ready_armed.onTurn rfl (by simp) run_skipped
  rw [responds_iff_fires, responds_iff_fires] at hresponds
  rcases hresponds with ⟨r, hfires⟩ | ⟨r, hfires⟩ <;>
    · have hfree : armed.skipOpponentTurn.skipTurn = false := hfires.2.2
      cases hfree

/-! ## The turn after an item -/

/-- Whichever events come, the next press that is a shot is one of `q`. -/
def NextShooter (g : Game) (q : PlayerId) : Prop :=
  ∀ (es : List Event) acts g', machine.Run g (es.map .event) acts g' → shots acts = [] →
    ∀ e r, Fires g' e r → r = q

/-- The player that is to shoot after a shot of `p` and its item. -/
def intendedNext (p : PlayerId) (item : Option Item) : PlayerId :=
  if item = some .BAN ∨ item = some .COIN then p else p.other

/-- Up to the next shot the turn stays. -/
theorem OnTurn.of_run {es : List Event} (h : OnTurn g p)
    (hrun : machine.Run g (es.map .event) acts g') (hnone : shots acts = []) : OnTurn g' p := by
  refine run_events (P := fun t os => shots os = [] → OnTurn t p) hrun (fun _ => h) ?_ hnone
  intro t os e t' o ih hevent hnil
  rw [shots_append, List.append_eq_nil_iff] at hnil
  rcases handleEvent_cases hevent with ⟨q, bullet, -, hshot⟩ | ⟨-, hidle, -⟩
  · simp [hshot.shots] at hnil
  · exact (ih hnil.1).idle hidle

/-- Whoever is on turn shoots next. -/
theorem OnTurn.nextShooter_iff (h : OnTurn g p) (hskip : g.skipTurn = false) :
    NextShooter g q ↔ q = p := by
  constructor
  · intro hnext
    exact (hnext [] [] g .nil rfl _ p (h.fires hskip)).symm
  · rintro rfl es acts g' hrun hnone e r hfires
    exact (h.of_run hrun hnone).of_fires hfires

/-- After a shot of the player on turn and its item the next shot is of the player that it
should be exactly if the item is neither a `BAN` nor a `COIN`. -/
theorem nextShooter_intendedNext_iff (hturn : OnTurn g p) (hfires : Fires g e p)
    (hevent : g.handleEvent e = some (g', acts)) :
    NextShooter g' (intendedNext p (g.player p).items.getLast?) ↔
      (g.player p).items.getLast? ≠ some .BAN ∧ (g.player p).items.getLast? ≠ some .COIN := by
  rw [handleEvent_of_fires hfires] at hevent
  obtain ⟨bullet, hshot⟩ := takeShot_eq_some hevent
  rw [(hturn.tookShot hshot).nextShooter_iff hshot.skipTurn, intendedNext, ← not_or]
  split_ifs with hitem <;> simp [hitem]

/-- Player 1 is on turn and has a `BAN`. -/
def banning : Game :=
  { player1 := { name := ascii "You", isTurn := true, items := [.BAN] }
    bullets := [.EMPTY, .LIVE] }

/-- After its shot. -/
def banned : Game :=
  { player1 := { name := ascii "You", turn := 1 }
    player2 := { name := ascii "Opponent", isTurn := true }
    bullets := [.EMPTY, .LIVE] }

theorem handleEvent_banning : banning.handleEvent (.keyPressed .Up) =
    some (banned, [(.player1, .shot 0 .EMPTY), (.player1, .ban)]) := by
  decide

theorem onTurn_banning : OnTurn banning .player1 := by
  intro q
  cases q <;> decide

theorem onTurn_banned : OnTurn banned .player2 := by
  intro q
  cases q <;> decide

/-- The `BAN` of player 1. -/
theorem nextShooter_intendedNext_iff_banning : NextShooter banned .player1 ↔
    (banning.player .player1).items.getLast? ≠ some .BAN ∧
      (banning.player .player1).items.getLast? ≠ some .COIN :=
  nextShooter_intendedNext_iff onTurn_banning (onTurn_banning.fires rfl) handleEvent_banning

/-- It is not so that the item always decides who shoots next. -/
theorem not_forall_nextShooter : ¬∀ (g g' : Game) (p : PlayerId) (e : Event)
    (acts : List (PlayerId × Act)), OnTurn g p → Fires g e p → g.bullets ≠ [] →
    g.handleEvent e = some (g', acts) →
    NextShooter g' (intendedNext p (g.player p).items.getLast?) := by
  intro hall
  have hnext : NextShooter banned .player1 :=
    hall _ _ _ _ _ onTurn_banning (onTurn_banning.fires rfl) (by decide) handleEvent_banning
  have hplayer : PlayerId.player1 = .player2 := (onTurn_banned.nextShooter_iff rfl).1 hnext
  cases hplayer

end Game

end DesperateStruggle
