import DesperateStruggle.Turns

/-!
# The shared bullets

Each player has an index of its own into the bullets, and without items only its own shots
move it. So when both start at 0 and take turns, the `k`-th shot of the game tests the bullet
at `k / 2` modulo their number `n`, and in the first `2 n` shots each bullet is fired twice, once
by each player (`exists_run_cylinder`). A single shared index would have tested the bullet at
`k` modulo `n` (`not_forall_index_mod`).
-/

open CString

namespace DesperateStruggle

namespace Game

/-- The shots of a player. -/
def shotsOf (q : PlayerId) (acts : List (PlayerId × Act)) : List Shot :=
  (shots acts).filter (·.player = q)

section

variable {g g' t t' : Game} {e : Event} {p q r : PlayerId} {bullet : Bullet}
  {acts o : List (PlayerId × Act)}

theorem length_shotsOf (q : PlayerId) (acts : List (PlayerId × Act)) :
    (shotsOf q acts).length = (shooters acts).count q := by
  rw [shotsOf, shooters, List.count_eq_countP, List.countP_map, List.countP_eq_length_filter]
  rfl

theorem shotsOf_append (q : PlayerId) (acts o : List (PlayerId × Act)) :
    shotsOf q (acts ++ o) = shotsOf q acts ++ shotsOf q o := by
  simp [shotsOf]

theorem shooters_append (acts o : List (PlayerId × Act)) :
    shooters (acts ++ o) = shooters acts ++ shooters o := by
  simp [shooters]

theorem TookShot.shooters (h : TookShot g p bullet g' o) : Game.shooters o = [p] := by
  simp [Game.shooters, h.shots]

theorem TookShot.shotsOf_self (h : TookShot g p bullet g' o) :
    shotsOf p o = [⟨p, (g.player p).turn, bullet⟩] := by
  simp [shotsOf, h.shots]

theorem TookShot.shotsOf_other (h : TookShot g p bullet g' o) : shotsOf p.other o = [] := by
  simp [shotsOf, h.shots]

/-- Player `p` is on turn, `skipTurn` is not set, both players are at index 0 and have no items,
and there is a bullet. -/
structure Opening (g : Game) (p : PlayerId) : Prop where
  onTurn : OnTurn g p
  skipTurn : g.skipTurn = false
  turn : ∀ q, (g.player q).turn = 0
  items : ∀ q, (g.player q).items = []
  bullets : g.bullets ≠ []

theorem Opening.ready (h : Opening g p) : Ready g p where
  onTurn := h.onTurn
  skipTurn := h.skipTurn
  inRange q := by
    rw [h.turn q]
    exact List.length_pos_iff.2 h.bullets
  noCoin q := by simp [h.items q]

/-- How far player `q` has got with the bullets of `g` : it has shot as many of them as it had
turns, in order and around. -/
structure Fired (g t : Game) (acts : List (PlayerId × Act)) (q : PlayerId) : Prop where
  turn : (t.player q).turn = (shotsOf q acts).length % g.bullets.length
  indices : (shotsOf q acts).map (·.index) =
    (List.range (shotsOf q acts).length).map (· % g.bullets.length)
  health : (t.player q).health =
    Player.lose (g.player q).health ((shotsOf q acts).countP (·.bullet = .LIVE))

/-- A shot of a player without items. -/
theorem Fired.shooter (h : Fired g t acts p) (hbullets : t.bullets = g.bullets)
    (hitems : (t.player p).items = []) (hshot : TookShot t p bullet t' o) :
    Fired g t' (acts ++ o) p where
  turn := by
    rw [hshot.shooter, shotsOf_append, hshot.shotsOf_self, List.length_append, h.turn, hbullets,
      Nat.mod_add_mod]
    rfl
  indices := by
    rw [shotsOf_append, hshot.shotsOf_self, List.length_append, List.length_singleton,
      List.range_succ, List.map_append, List.map_append, h.indices, h.turn]
    rfl
  health := by
    rw [hshot.shooter, shotsOf_append, hshot.shotsOf_self, hitems, List.countP_append, h.health,
      Player.afterBullet_lose, List.countP_singleton]
    simp [Player.afterItem]

/-- A shot of its opponent does not concern a player. -/
theorem Fired.opponent (h : Fired g t acts p.other) (hshot : TookShot t p bullet t' o) :
    Fired g t' (acts ++ o) p.other := by
  have hshots : shotsOf p.other (acts ++ o) = shotsOf p.other acts := by
    rw [shotsOf_append, hshot.shotsOf_other, List.append_nil]
  have hplayer := hshot.opponent
  constructor
  · rw [hplayer, hshots]
    exact h.turn
  · rw [hshots]
    exact h.indices
  · rw [hplayer, hshots]
    exact h.health

/-- How far both have got, taking turns from `p` on. -/
structure Cycled (g : Game) (p : PlayerId) (t : Game) (acts : List (PlayerId × Act)) : Prop where
  ready : Ready t (PlayerId.other^[(shots acts).length] p)
  shooters : shooters acts = List.iterate PlayerId.other p (shots acts).length
  items : ∀ q, (t.player q).items = []
  bullets : t.bullets = g.bullets
  tested : ∀ s ∈ shots acts, g.bullets[s.index]? = some s.bullet
  indices : (shots acts).map (·.index) =
    (List.range (shots acts).length).map (· / 2 % g.bullets.length)
  fired : ∀ q, Fired g t acts q

theorem Opening.cycled (h : Opening g p) : Cycled g p g [] where
  ready := h.ready
  shooters := rfl
  items := h.items
  bullets := rfl
  tested := by simp
  indices := rfl
  fired q := ⟨by rw [h.turn q]; exact (Nat.zero_mod _).symm, rfl, by simp [shotsOf]⟩

/-- Whoever is next has had half of the shots. -/
theorem Cycled.next_turn (h : Cycled g p t acts) :
    (t.player (PlayerId.other^[(shots acts).length] p)).turn =
      (shots acts).length / 2 % g.bullets.length := by
  rw [(h.fired _).turn, length_shotsOf, h.shooters,
    Alternation.count_iterate_next involutive_other (PlayerId.other_ne p)]

/-- A shot goes on around. -/
theorem Cycled.tookShot (h : Cycled g p t acts)
    (hshot : TookShot t (PlayerId.other^[(shots acts).length] p) bullet t' o)
    (hready : Ready t' (PlayerId.other^[(shots acts).length] p).other) :
    Cycled g p t' (acts ++ o) := by
  have hnext := h.next_turn
  set r := PlayerId.other^[(shots acts).length] p with hr
  have hlen : (shots (acts ++ o)).length = (shots acts).length + 1 := by
    rw [shots_append, hshot.shots, List.length_append, List.length_singleton]
  constructor
  · rw [hlen, Function.iterate_succ_apply']
    exact hready
  · rw [hlen, Alternation.iterate_succ, shooters_append, h.shooters, hshot.shooters, ← hr]
  · refine (PlayerId.forall_iff r).2 ⟨?_, ?_⟩
    · rw [hshot.shooter, h.items r]
      rfl
    · rw [hshot.opponent]
      exact h.items r.other
  · rw [h.ready.bullets hshot, h.bullets]
  · intro s hs
    rw [shots_append, hshot.shots, List.mem_append, List.mem_singleton] at hs
    rcases hs with hs | rfl
    · exact h.tested s hs
    · rw [← h.bullets]
      exact hshot.tested
  · rw [hlen, List.range_succ, List.map_append, ← h.indices, shots_append, hshot.shots,
      List.map_append, hnext]
    rfl
  · exact (PlayerId.forall_iff r).2
      ⟨(h.fired r).shooter h.bullets (h.items r) hshot, (h.fired r.other).opponent hshot⟩

/-- An event that is no shot changes nothing. -/
theorem Cycled.idle (h : Cycled g p t acts) (hidle : t' = t ∨ t' = t.closeWindow) :
    Cycled g p t' acts where
  ready := h.ready.idle hidle
  shooters := h.shooters
  items q := by
    rw [player_of_idle hidle]
    exact h.items q
  bullets := (bullets_of_idle hidle).trans h.bullets
  tested := h.tested
  indices := h.indices
  fired q := by
    obtain ⟨hturn, hindices, hhealth⟩ := h.fired q
    rw [← player_of_idle hidle] at hturn hhealth
    exact ⟨hturn, hindices, hhealth⟩

/-- Any events go around. -/
theorem Opening.exists_run (h : Opening g p) (es : List Event) :
    ∃ acts g', machine.Run g (es.map .event) acts g' ∧ Cycled g p g' acts := by
  refine Machine.exists_run (P := fun t acts => Cycled g p t acts) h.cycled _
    fun t os l hl hcycled => ?_
  obtain ⟨e, -, rfl⟩ := List.mem_map.1 hl
  obtain ⟨t', o, hevent, ⟨-, ⟨bullet, hshot⟩, hready⟩ | ⟨-, hidle, rfl, -⟩⟩ :=
    hcycled.ready.event e
  · exact ⟨t', o, hevent, hcycled.tookShot hshot hready⟩
  · exact ⟨t', [], hevent, by simpa using hcycled.idle hidle⟩

/-- Once around, a player has tested every bullet. -/
theorem Cycled.bullets_shotsOf (h : Cycled g p t acts)
    (hround : (shotsOf q acts).length = g.bullets.length) :
    (shotsOf q acts).map (·.index) = List.range g.bullets.length ∧
      (shotsOf q acts).map (·.bullet) = g.bullets := by
  have hindices : (shotsOf q acts).map (·.index) = List.range g.bullets.length := by
    rw [(h.fired q).indices, hround]
    refine (List.map_congr_left fun i hi => ?_).trans (List.map_id _)
    exact Nat.mod_eq_of_lt (List.mem_range.1 hi)
  refine ⟨hindices, List.map_injective_iff.2 (Option.some_injective _) ?_⟩
  calc ((shotsOf q acts).map (·.bullet)).map some
      = (shotsOf q acts).map fun s => g.bullets[s.index]? := by
        rw [List.map_map]
        exact List.map_congr_left fun s hs => (h.tested s (List.mem_of_mem_filter hs)).symm
    _ = (List.range g.bullets.length).map (g.bullets[·]?) := by
        rw [← hindices, List.map_map]
        rfl
    _ = g.bullets.map some := List.ext_getElem (by simp) (by simp)

/-- The keys of both players in turn. -/
def presses (p : PlayerId) (m : Nat) : List Event :=
  (List.iterate PlayerId.other p m).map fun q => .keyPressed q.key

/-- Each of them is a shot. -/
theorem Opening.length_shots_presses (h : Opening g p) {m : Nat}
    (hrun : machine.Run g ((presses p m).map .event) acts g') : (shots acts).length = m := by
  induction m generalizing acts g' with
  | zero =>
    obtain ⟨rfl, -⟩ := hrun.eq_of_nil
    rfl
  | succ m ih =>
    rw [presses, Alternation.iterate_succ, List.map_append, List.map_append] at hrun
    obtain ⟨acts₁, t, o, hrun₁, hstep, rfl⟩ := hrun.exists_last
    have hlen : (shots acts₁).length = m := ih hrun₁
    obtain ⟨acts₂, t₂, hrun₂, hcycled⟩ := h.exists_run (presses p m)
    obtain ⟨rfl, rfl⟩ := hrun₁.det hrun₂
    have hready := hcycled.ready
    rw [hlen] at hready
    obtain ⟨t', o', hevent, ⟨-, ⟨bullet, hshot⟩, -⟩ | ⟨hne, -⟩⟩ :=
      hready.event (.keyPressed (PlayerId.other^[m] p).key)
    · cases hevent.symm.trans hstep
      rw [shots_append, hshot.shots, List.length_append, hlen, List.length_singleton]
    · exact absurd rfl hne

/-- In any run of a game that opens at index 0 and without items, the `k`-th shot, which the
players take in turn, tests the bullet at `k / 2` modulo the number `n` of bullets. After `2 n`
shots each player has tested every bullet once, in order, and has lost as much health as bullets
are `LIVE`, as long as an `int` can hold what is left. Where the players press their keys in turn,
each press is a shot. -/
theorem exists_run_cylinder (h : Opening g p) (es : List Event) :
    ∃ acts g', machine.Run g (es.map .event) acts g' ∧
      (∀ k s, (shots acts)[k]? = some s → s.player = PlayerId.other^[k] p ∧
        s.index = k / 2 % g.bullets.length ∧ g.bullets[s.index]? = some s.bullet) ∧
      ((shots acts).length = 2 * g.bullets.length → ∀ q,
        (shotsOf q acts).map (·.index) = List.range g.bullets.length ∧
          Player.Lost (g.player q).health (g.bullets.count .LIVE) (g'.player q).health) ∧
      ∀ m, es = presses p m → (shots acts).length = m := by
  obtain ⟨acts, g', hrun, hcycled⟩ := h.exists_run es
  refine ⟨acts, g', hrun, fun k s hs => ⟨?_, ?_, ?_⟩, fun hrounds q => ?_,
    fun m hm => h.length_shots_presses (hm ▸ hrun)⟩
  · have hshooter : (shooters acts)[k]? = some s.player := by simp [shooters, hs]
    have hlt := (List.getElem?_eq_some_iff.1 hs).1
    rw [hcycled.shooters, List.getElem?_iterate _ _ _ _ hlt] at hshooter
    exact (Option.some.inj hshooter).symm
  · have hindex : ((shots acts).map (·.index))[k]? = some s.index := by simp [hs]
    have hlt := (List.getElem?_eq_some_iff.1 hs).1
    rw [hcycled.indices, List.getElem?_map, List.getElem?_range hlt] at hindex
    exact (Option.some.inj hindex).symm
  · exact hcycled.tested s (List.mem_of_getElem? hs)
  · have hround : (shotsOf q acts).length = g.bullets.length := by
      obtain ⟨hself, hother⟩ := Alternation.count_iterate involutive_other
        (PlayerId.other_ne p) (2 * g.bullets.length)
      rw [length_shotsOf, hcycled.shooters, hrounds]
      rcases PlayerId.eq_or_eq_other p q with rfl | rfl <;> omega
    obtain ⟨hindices, hbullets⟩ := hcycled.bullets_shotsOf hround
    refine ⟨hindices, ?_⟩
    have hlive : (shotsOf q acts).countP (·.bullet = .LIVE) = g.bullets.count .LIVE := by
      conv_rhs => rw [← hbullets, List.count_eq_countP, List.countP_map]
      rfl
    rw [(hcycled.fired q).health, hlive]
    exact Player.lost_lose _ _

/-- Two bullets, and player 1 is on turn. -/
def revolver : Game :=
  { player1 := { name := ascii "You", isTurn := true }, bullets := [.LIVE, .EMPTY] }

theorem opening_revolver : Opening revolver .player1 where
  onTurn q := by cases q <;> decide
  skipTurn := rfl
  turn q := by cases q <;> rfl
  items q := by cases q <;> rfl
  bullets := by decide

/-- Both players shoot twice. -/
theorem exists_run_cylinder_revolver : ∃ acts g', machine.Run revolver
      ((presses .player1 4).map .event) acts g' ∧
      (∀ k s, (shots acts)[k]? = some s → s.player = PlayerId.other^[k] .player1 ∧
        s.index = k / 2 % revolver.bullets.length ∧
        revolver.bullets[s.index]? = some s.bullet) ∧
      ((shots acts).length = 2 * revolver.bullets.length → ∀ q,
        (shotsOf q acts).map (·.index) = List.range revolver.bullets.length ∧
          Player.Lost (revolver.player q).health (revolver.bullets.count .LIVE)
            (g'.player q).health) ∧
      ∀ m, presses .player1 4 = presses .player1 m → (shots acts).length = m :=
  exists_run_cylinder opening_revolver _

theorem isSome_revolver : (machine.exec revolver ((presses .player1 2).map .event)).isSome := by
  decide

/-- It is not so that the `k`-th shot tests the bullet at `k` modulo `n` : the first shot of
player 2 tests the bullet that player 1 has just fired. -/
theorem not_forall_index_mod : ¬∀ (g g' : Game) (p : PlayerId) (m : Nat)
    (acts : List (PlayerId × Act)), Opening g p →
    machine.Run g ((presses p m).map .event) acts g' →
    ∀ k s, (shots acts)[k]? = some s → s.index = k % g.bullets.length := by
  intro hall
  have hindex := hall _ _ _ _ _ opening_revolver (Machine.run_final isSome_revolver) 1
    ⟨.player2, 0, .LIVE⟩ (by decide)
  exact absurd hindex (by decide)

end

end Game

end DesperateStruggle
