import DesperateStruggle.Alternation
import DesperateStruggle.Game

/-!
# Whose turn it is in a game

In the games without a `COIN` in which exactly one player is on turn and `skipTurn` is not set,
the key of that player is a shot, which passes the turn to its opponent, and every other event
changes nothing that matters (`Ready.event`). So the players shoot in turn
(`exists_run_alternating`).
-/

open CString

namespace DesperateStruggle

namespace Game

/-- `p` is on turn and its opponent is not. -/
def OnTurn (g : Game) (p : PlayerId) : Prop :=
  ∀ q, (g.player q).isTurn = true ↔ q = p

/-- The players in the order of their shots. -/
def shooters (acts : List (PlayerId × Act)) : List PlayerId :=
  (shots acts).map (·.player)

section

variable {g g' : Game} {e : Event} {p q r : PlayerId} {bullet : Bullet}
  {acts : List (PlayerId × Act)}

theorem OnTurn.of_fires (h : OnTurn g p) (hfires : Fires g e q) : q = p :=
  (h q).1 hfires.2.1

/-- The key of the player on turn is a shot, if `skipTurn` is not set. -/
theorem OnTurn.fires (h : OnTurn g p) (hskip : g.skipTurn = false) :
    Fires g (.keyPressed p.key) p :=
  ⟨rfl, (h p).2 rfl, hskip⟩

/-- A shot passes the turn. -/
theorem OnTurn.tookShot (h : OnTurn g p) (hshot : TookShot g p bullet g' acts) :
    OnTurn g' p.other := by
  have hself : (g.player p).isTurn = true := (h p).2 rfl
  have hother : (g.player p.other).isTurn = false :=
    Bool.eq_false_iff.2 fun htrue => PlayerId.other_ne p ((h p.other).1 htrue)
  refine (PlayerId.forall_iff p).2 ⟨?_, ?_⟩
  · rw [hshot.shooter]
    simp [hself]
  · rw [hshot.opponent]
    simp [Player.toggleTurn, hother]

/-- An event that is no shot keeps the turn. -/
theorem OnTurn.idle (h : OnTurn g p) (hidle : g' = g ∨ g' = g.closeWindow) : OnTurn g' p := by
  intro q
  rw [player_of_idle hidle]
  exact h q

/-- A run of window events, step by step. -/
theorem run_events {P : Game → List (PlayerId × Act) → Prop} {es : List Event}
    (h : machine.Run g (es.map .event) acts g') (hinit : P g [])
    (hstep : ∀ t os e t' o, P t os → t.handleEvent e = some (t', o) → P t' (os ++ o)) :
    P g' acts := by
  have hevents : machine.StepsMeet (fun _ l => ∃ e, l = .event e) g (es.map .event) :=
    Machine.stepsMeet_of_forall fun l hl _ => by
      obtain ⟨e, -, rfl⟩ := List.mem_map.1 hl
      exact ⟨e, rfl⟩
  refine h.invariant_of_meets hevents hinit fun t os l t' o hP hl hevent => ?_
  obtain ⟨e, rfl⟩ := hl
  exact hstep t os e t' o hP hevent

/-! ## Taking turns -/

/-- Exactly `p` is on turn, `skipTurn` is not set, both players are in range, and no one has a
`COIN`. -/
structure Ready (g : Game) (p : PlayerId) : Prop where
  onTurn : OnTurn g p
  skipTurn : g.skipTurn = false
  inRange : ∀ q, (g.player q).turn < g.bullets.length
  noCoin : ∀ q, .COIN ∉ (g.player q).items

/-- Without a `COIN` a shot leaves the bullets. -/
theorem Ready.bullets (h : Ready g p) (hshot : TookShot g q bullet g' acts) :
    g'.bullets = g.bullets := by
  rw [hshot.bullets, if_neg fun hlast => h.noCoin q (List.mem_of_getLast? hlast)]

/-- A shot passes the turn. -/
theorem Ready.tookShot (h : Ready g p) (hshot : TookShot g p bullet g' acts) :
    Ready g' p.other where
  onTurn := h.onTurn.tookShot hshot
  skipTurn := hshot.skipTurn
  inRange := by
    rw [h.bullets hshot]
    refine (PlayerId.forall_iff p).2 ⟨?_, ?_⟩
    · rw [hshot.shooter]
      exact Nat.mod_lt _ (Nat.zero_lt_of_lt (h.inRange p))
    · rw [hshot.opponent]
      exact h.inRange p.other
  noCoin := by
    refine (PlayerId.forall_iff p).2 ⟨?_, ?_⟩
    · rw [hshot.shooter]
      exact fun hmem => h.noCoin p (List.dropLast_subset _ hmem)
    · rw [hshot.opponent]
      exact h.noCoin p.other

/-- An event that is no shot leaves it ready. -/
theorem Ready.idle (h : Ready g p) (hidle : g' = g ∨ g' = g.closeWindow) : Ready g' p where
  onTurn := h.onTurn.idle hidle
  skipTurn := (skipTurn_of_idle hidle).trans h.skipTurn
  inRange q := by
    rw [player_of_idle hidle, bullets_of_idle hidle]
    exact h.inRange q
  noCoin q := by
    rw [player_of_idle hidle]
    exact h.noCoin q

/-- The key of the player on turn is a shot, and any other event is none. -/
theorem Ready.event (h : Ready g p) (e : Event) : ∃ g' acts, g.handleEvent e = some (g', acts) ∧
    ((e = .keyPressed p.key ∧ (∃ bullet, TookShot g p bullet g' acts) ∧ Ready g' p.other) ∨
      (e ≠ .keyPressed p.key ∧ (g' = g ∨ g' = g.closeWindow) ∧ acts = [] ∧ Ready g' p)) := by
  obtain ⟨g', acts, hevent⟩ := exists_handleEvent fun q (_ : Fires g e q) => h.inRange q
  refine ⟨g', acts, hevent, ?_⟩
  rcases handleEvent_cases hevent with ⟨q, bullet, hfires, hshot⟩ | ⟨hnone, hidle, rfl⟩
  · obtain rfl := h.onTurn.of_fires hfires
    exact Or.inl ⟨hfires.1, ⟨bullet, hshot⟩, h.tookShot hshot⟩
  · refine Or.inr ⟨fun heq => ?_, hidle, rfl, h.idle hidle⟩
    exact hnone p (heq ▸ h.onTurn.fires h.skipTurn)

theorem involutive_other : Function.Involutive PlayerId.other :=
  PlayerId.other_other

/-- The run of any events from a ready game, up to which the players took turns. -/
theorem Ready.exists_run (h : Ready g p) (es : List Event) :
    ∃ acts g', machine.Run g (es.map .event) acts g' ∧
      (Ready g' (PlayerId.other^[(shots acts).length] p) ∧
        shooters acts = List.iterate PlayerId.other p (shots acts).length) := by
  refine Machine.exists_run
    (P := fun g' acts => Ready g' (PlayerId.other^[(shots acts).length] p) ∧
      shooters acts = List.iterate PlayerId.other p (shots acts).length)
    ⟨h, rfl⟩ _ fun t os l hl ⟨hready, hshooters⟩ => ?_
  obtain ⟨e, -, rfl⟩ := List.mem_map.1 hl
  obtain ⟨t', o, hevent, ⟨-, ⟨bullet, hshot⟩, hready'⟩ | ⟨-, -, rfl, hready'⟩⟩ := hready.event e
  · refine ⟨t', o, hevent, ?_, ?_⟩
    · rw [shots_append, hshot.shots, List.length_append, List.length_singleton,
        Function.iterate_succ_apply']
      exact hready'
    · rw [shooters, shots_append, hshot.shots, List.map_append, List.length_append,
        List.length_singleton, Alternation.iterate_succ]
      exact congrArg (· ++ _) hshooters
  · exact ⟨t', [], hevent, by simpa using hready', by simpa using hshooters⟩

/-- From a ready game any events have an outcome. Then exactly one player is on turn and
`skipTurn` is not set, an event other than the key of that player changes neither the players
nor the bullets, and the players have taken turns with their shots, starting with the one that
was on turn first. -/
theorem exists_run_alternating (h : Ready g p) (es : List Event) :
    ∃ acts g', machine.Run g (es.map .event) acts g' ∧
      (∃ q, OnTurn g' q ∧ ∀ e, e ≠ .keyPressed q.key → ∃ g'', g'.handleEvent e = some (g'', []) ∧
        (∀ r, g''.player r = g'.player r) ∧ g''.bullets = g'.bullets) ∧
      g'.skipTurn = false ∧
      shooters acts = List.iterate PlayerId.other p (shots acts).length ∧
      ∀ q r, (shooters acts).count q ≤ (shooters acts).count r + 1 := by
  obtain ⟨acts, g', hrun, hready, hshooters⟩ := h.exists_run es
  refine ⟨acts, g', hrun, ⟨_, hready.onTurn, fun e he => ?_⟩, hready.skipTurn, hshooters,
    fun q r => ?_⟩
  · obtain ⟨g'', acts', hevent, ⟨hkey, -⟩ | ⟨-, hidle, rfl, -⟩⟩ := hready.event e
    · exact absurd hkey he
    · exact ⟨g'', hevent, player_of_idle hidle, bullets_of_idle hidle⟩
  · rw [hshooters]
    exact Alternation.count_iterate_le involutive_other (PlayerId.other_ne p) _
      (PlayerId.eq_or_eq_other p q) (PlayerId.eq_or_eq_other p r)

/-- A game in which player 1 is on turn and both players have items. -/
def armed : Game :=
  { player1 := { name := ascii "You", isTurn := true, items := [.HEAL, .MAGNIFY] }
    player2 := { name := ascii "Opponent", items := [.BAN] }
    bullets := [.LIVE, .EMPTY] }

theorem ready_armed : Ready armed .player1 where
  onTurn q := by cases q <;> decide
  skipTurn := rfl
  inRange q := by cases q <;> decide
  noCoin q := by cases q <;> decide

/-- Both players press their keys, player 2 first. -/
theorem exists_run_alternating_armed : ∃ acts g', machine.Run armed
      ([Event.keyPressed .Down, .keyPressed .Up, .keyPressed .Down].map .event) acts g' ∧
      (∃ q, OnTurn g' q ∧ ∀ e, e ≠ .keyPressed q.key → ∃ g'', g'.handleEvent e = some (g'', []) ∧
        (∀ r, g''.player r = g'.player r) ∧ g''.bullets = g'.bullets) ∧
      g'.skipTurn = false ∧
      shooters acts = List.iterate PlayerId.other .player1 (shots acts).length ∧
      ∀ q r, (shooters acts).count q ≤ (shooters acts).count r + 1 :=
  exists_run_alternating ready_armed _

end

end Game

end DesperateStruggle
