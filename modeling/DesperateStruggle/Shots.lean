import DesperateStruggle.Coins
import DesperateStruggle.Cyclic

/-!
# Shots without items

Two players shoot around the bullets they share, in any order and without items. Each has an
index of its own that only its own shots move, so where a player stands depends only on how many
shots it has fired : `afterShots` is a player after `k` shots, and every interleaving leads each
player there (`exists_run_shots`). It has lost a life for each `LIVE` it tested, as long as an
`int` can hold what is left : the least one has no predecessor (`not_forall_health_shots`).
-/

open CString

namespace DesperateStruggle

namespace Player

/-- A player after `k` shots around the bullets. -/
def afterShots (p : Player) (bullets : List Bullet) (k : Nat) : Player :=
  { p with
    health := lose p.health (Cyclic.readings bullets .LIVE p.turn k)
    turn := (p.turn + k) % bullets.length }

section

variable {p : Player} {bullets : List Bullet}

theorem afterShots_zero (h : p.turn < bullets.length) : p.afterShots bullets 0 = p := by
  simp [afterShots, Nat.mod_eq_of_lt h]

/-- One shot more. -/
theorem shootBullet_afterShots (h : p.turn < bullets.length) (k : Nat) :
    ∃ acts, (p.afterShots bullets k).shootBullet bullets =
      some (p.afterShots bullets (k + 1), acts) := by
  obtain ⟨bullet, hbullet⟩ : ∃ bullet, bullets[(p.turn + k) % bullets.length]? = some bullet :=
    ⟨_, List.getElem?_eq_getElem (Nat.mod_lt _ (Nat.zero_lt_of_lt h))⟩
  have htested : bullets[(p.afterShots bullets k).turn]? = some bullet := hbullet
  obtain ⟨lines, hshot, -⟩ := shootBullet_spec htested
  refine ⟨_, hshot.trans (congrArg some (Prod.ext ?_ rfl))⟩
  have hturn : ((p.turn + k) % bullets.length + 1) % bullets.length =
      (p.turn + (k + 1)) % bullets.length := by
    rw [Nat.mod_add_mod, Nat.add_assoc]
  have hhealth : afterBullet (lose p.health (Cyclic.readings bullets .LIVE p.turn k)) bullet =
      lose p.health (Cyclic.readings bullets .LIVE p.turn (k + 1)) := by
    rw [afterBullet_lose, Cyclic.readings_succ, hbullet]
    simp only [Option.some_inj]
  simp only [afterShots, hturn, hhealth]

end

end Player

namespace Game

/-- What a game is after the shots `ps` : nothing but the two players has changed, and each
depends on its own number of shots only. -/
structure AfterShots (g : Game) (ps : List PlayerId) (g' : Game) : Prop where
  bullets : g'.bullets = g.bullets
  player : ∀ p, g'.player p = (g.player p).afterShots g.bullets (ps.count p)

/-- Player `p` of `g` has become that of `g'` by `k` shots around the bullets : it has lost a life
for every `LIVE` among the bullets it has tested, which in a full round are all of them. -/
structure Around (g : Game) (p : PlayerId) (k : Nat) (g' : Game) : Prop where
  turn : (g'.player p).turn = ((g.player p).turn + k) % g.bullets.length
  health : Player.Lost (g.player p).health ((List.range k).countP fun i =>
    g.bullets[((g.player p).turn + i) % g.bullets.length]? = some .LIVE) (g'.player p).health
  rounds : ∀ q, k = q * g.bullets.length →
    Player.Lost (g.player p).health (q * g.bullets.count .LIVE) (g'.player p).health

section

variable {g g' : Game} {ps : List PlayerId}

theorem AfterShots.nil (hturn : ∀ p, (g.player p).turn < g.bullets.length) :
    AfterShots g [] g :=
  ⟨rfl, fun p => (Player.afterShots_zero (hturn p)).symm⟩

/-- One shot more, of either player. -/
theorem AfterShots.snoc (hturn : ∀ p, (g.player p).turn < g.bullets.length)
    (h : AfterShots g ps g') (p : PlayerId) :
    ∃ g'' acts, g'.shootBullet p = some (g'', acts) ∧ AfterShots g (ps ++ [p]) g'' := by
  obtain ⟨acts, hshot⟩ := Player.shootBullet_afterShots (hturn p) (ps.count p)
  simp only [shootBullet, h.player p, h.bullets, hshot]
  refine ⟨_, _, rfl, by simpa using h.bullets, (PlayerId.forall_iff p).2 ⟨?_, ?_⟩⟩
  · simp
  · simp [h.player p.other, List.count_append]

theorem AfterShots.around (h : AfterShots g ps g') (p : PlayerId) :
    Around g p (ps.count p) g' := by
  have hplayer := h.player p
  rw [Player.afterShots] at hplayer
  refine ⟨by rw [hplayer], ?_, fun q hq => ?_⟩
  · rw [hplayer]
    exact Player.lost_lose _ _
  · rw [hplayer, hq, Cyclic.readings_rounds]
    exact Player.lost_lose _ _

/-- The shots of a sequence all have an outcome. -/
theorem exists_run_afterShots (hturn : ∀ p, (g.player p).turn < g.bullets.length)
    (ps : List PlayerId) :
    ∃ acts g', calls.Run g (ps.map .shootBullet) acts g' ∧ AfterShots g ps g' := by
  induction ps using List.reverseRecOn with
  | nil => exact ⟨[], g, .nil, .nil hturn⟩
  | append_singleton ps p ih =>
    obtain ⟨acts, g', hrun, hafter⟩ := ih
    obtain ⟨g'', o, hshot, hafter'⟩ := hafter.snoc hturn p
    have hstep : calls.step g' (.shootBullet p) = some (g'', o) := hshot
    exact ⟨_, _, by simpa using hrun.snoc hstep, hafter'⟩

/-- However two players interleave their shots, each ends where its own number of shots takes it
around the bullets, with a life less for every `LIVE` as long as an `int` can hold that. -/
theorem exists_run_shots (hturn : ∀ p, (g.player p).turn < g.bullets.length)
    (ps : List PlayerId) :
    ∃ acts g', calls.Run g (ps.map .shootBullet) acts g' ∧ g'.bullets = g.bullets ∧
      (∀ p, Around g p (ps.count p) g') ∧
      ∀ (ps' : List PlayerId) acts' g'', calls.Run g (ps'.map .shootBullet) acts' g'' →
        ∀ p, ps'.count p = ps.count p → g''.player p = g'.player p := by
  obtain ⟨acts, g', hrun, hafter⟩ := exists_run_afterShots hturn ps
  refine ⟨acts, g', hrun, hafter.bullets, hafter.around, fun ps' acts' g'' hrun' p hcount => ?_⟩
  obtain ⟨acts₁, g₁, hrun₁, hafter₁⟩ := exists_run_afterShots hturn ps'
  obtain rfl := (hrun'.det hrun₁).2
  rw [hafter₁.player p, hafter.player p, hcount]

/-- Two bullets, of which one is live. -/
def halfLoaded : Game :=
  { bullets := [.EMPTY, .LIVE] }

theorem halfLoaded_turn (p : PlayerId) :
    (halfLoaded.player p).turn < halfLoaded.bullets.length := by
  cases p <;> decide

/-- Player 1 shoots twice around a shot of player 2. -/
theorem exists_run_shots_halfLoaded : ∃ acts g', calls.Run halfLoaded
    ([.player1, .player2, .player1].map .shootBullet) acts g' ∧ g'.bullets = halfLoaded.bullets ∧
      (∀ p, Around halfLoaded p ([.player1, .player2, .player1].count p) g') ∧
      ∀ (ps' : List PlayerId) acts' g'', calls.Run halfLoaded (ps'.map .shootBullet) acts' g'' →
        ∀ p, ps'.count p = [.player1, .player2, .player1].count p →
          g''.player p = g'.player p :=
  exists_run_shots halfLoaded_turn _

/-- Player 1 has the least health that there is, and the bullet is `LIVE`. -/
def exhausted : Game :=
  { player1 := { name := ascii "You", health := Int32.minValue }, bullets := [.LIVE] }

theorem exhausted_turn (p : PlayerId) :
    (exhausted.player p).turn < exhausted.bullets.length := by
  cases p <;> decide

theorem isSome_exhausted : (calls.exec exhausted [.shootBullet .player1]).isSome := by
  decide

/-- It is not so that a player always loses a life for every `LIVE`. -/
theorem not_forall_health_shots : ¬∀ (g g' : Game) (ps : List PlayerId)
    (acts : List (PlayerId × Act)), (∀ p, (g.player p).turn < g.bullets.length) →
    calls.Run g (ps.map .shootBullet) acts g' → ∀ p,
    (g'.player p).health.toInt = (g.player p).health.toInt - (List.range (ps.count p)).countP
      fun i => g.bullets[((g.player p).turn + i) % g.bullets.length]? = some .LIVE := by
  intro hall
  have hhealth := hall _ _ [.player1] _ exhausted_turn (Machine.run_final isSome_exhausted) .player1
  exact absurd hhealth (by decide)

end

end Game

end DesperateStruggle
