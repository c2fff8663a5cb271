import DesperateStruggle.Game

/-!
# The loading of a game

`createBullets` loads 4 to 8 bullets, one of them `EMPTY` and the others `LIVE`, whatever
`rand()` returns : its loop loads a second `LIVE` before a second `EMPTY`, so the first repair
step has nothing to do, and the second cannot take away the last `LIVE`
(`loaded_createBullets`).

`createItems` fills the items of the game, not those of the players, so no player ever has a
`COIN`, and the bullets stay as they are loaded. `exists_run_create` is the invariant of the
games that follow : whatever happens, each shot is in range.
-/

namespace DesperateStruggle

/-- A bullet is one or the other. -/
theorem Bullet.count_add_count (bullets : List Bullet) :
    bullets.count .EMPTY + bullets.count .LIVE = bullets.length := by
  induction bullets with
  | nil => rfl
  | cons b bullets ih =>
    cases b <;> simp only [List.count_cons, List.length_cons] <;> simp <;> omega

namespace Game

/-! ## The bullets -/

namespace Loader

variable {l : Loader}

/-- The flags say what is loaded, and at most one `EMPTY` is. -/
structure Inv (l : Loader) : Prop where
  live : l.hasLive = true ↔ .LIVE ∈ l.bullets
  empty : l.bullets.count .EMPTY = l.hasEmpty.toNat

theorem Inv.init (rand : Rand) : Inv { rand := rand } where
  live := by simp
  empty := rfl

/-- A round loads a bullet and keeps the flags right. -/
theorem Inv.load (h : l.Inv) : l.load.Inv := by
  obtain ⟨hlive, hempty⟩ := h
  by_cases hdraw : l.rand 0 % 2 = 0 ∧ l.hasEmpty = false
  · rw [hdraw.2] at hempty
    constructor <;> simp [Loader.load, hdraw, hlive, hempty]
  · constructor <;> simp [Loader.load, hdraw, hempty]

theorem Inv.loadAll : ∀ {n : Nat} {l : Loader}, l.Inv → (loadAll n l).Inv
  | 0, _, h => h
  | n + 1, _, h => Inv.loadAll (n := n) (Inv.load h)

theorem length_load (l : Loader) : l.load.bullets.length = l.bullets.length + 1 := by
  simp [load]

theorem length_loadAll (n : Nat) (l : Loader) :
    (loadAll n l).bullets.length = l.bullets.length + n := by
  induction n generalizing l with
  | zero => rfl
  | succ n ih => rw [loadAll, ih, length_load]; omega

/-- Of two bullets one is `LIVE`. -/
theorem Inv.hasLive (h : l.Inv) (hlen : 2 ≤ l.bullets.length) : l.hasLive = true := by
  have hcount := Bullet.count_add_count l.bullets
  have hle : l.hasEmpty.toNat ≤ 1 := Bool.toNat_le _
  rw [h.empty] at hcount
  exact h.live.2 (List.count_pos_iff.1 (by omega))

end Loader

/-- What `createBullets` loads. -/
structure Loaded (bullets : List Bullet) : Prop where
  four_le : 4 ≤ bullets.length
  le_eight : bullets.length ≤ 8
  live : .LIVE ∈ bullets
  empty : bullets.count .EMPTY = 1

/-- The first repair step has nothing to do, and the second leaves a `LIVE`. -/
theorem loaded_repair {l : Loader} (h : l.Inv) (hfour : 4 ≤ l.bullets.length)
    (height : l.bullets.length ≤ 8) : Loaded (l.repair l.bullets.length).bullets := by
  have hlive : l.hasLive = true := h.hasLive (by omega)
  have hempty := h.empty
  unfold Loader.repair
  cases hflag : l.hasEmpty with
  | true =>
    rw [hflag] at hempty
    simpa [hlive, hflag] using Loaded.mk hfour height (h.live.1 hlive) hempty
  | false =>
    rw [hflag] at hempty
    have hlt : l.rand 0 % l.bullets.length < l.bullets.length := Nat.mod_lt _ (by omega)
    have hnone : .EMPTY ∉ l.bullets := List.count_eq_zero.1 hempty
    have hone : (l.bullets.set (l.rand 0 % l.bullets.length) .EMPTY).count .EMPTY = 1 := by
      have hne : l.bullets[l.rand 0 % l.bullets.length] ≠ .EMPTY :=
        fun heq => hnone (heq ▸ List.getElem_mem hlt)
      simp [List.count_set hlt, hempty, hne]
    have hcount := Bullet.count_add_count
      (l.bullets.set (l.rand 0 % l.bullets.length) .EMPTY)
    rw [hone, List.length_set] at hcount
    simp only [hlive, Bool.true_eq_false, if_false, hflag, if_true, Loader.replace]
    exact ⟨by simpa using hfour, by simpa using height,
      List.count_pos_iff.1 (by omega), hone⟩

/-- The bullets of a new game. -/
theorem loaded_createBullets (rand : Rand) : Loaded (createBullets rand).1 := by
  have hlen : (Loader.loadAll (rand 0 % 5 + 4) { rand := rand.rest }).bullets.length =
      rand 0 % 5 + 4 := by
    rw [Loader.length_loadAll, List.length_nil, Nat.zero_add]
  have hloaded := loaded_repair (Loader.Inv.init rand.rest).loadAll
    (show 4 ≤ (Loader.loadAll (rand 0 % 5 + 4) { rand := rand.rest }).bullets.length by omega)
    (by omega)
  rwa [hlen] at hloaded

/-! ## The games that follow -/

/-- The bullets are as they were loaded, each player is in range and has no items. -/
structure Fresh (g : Game) : Prop where
  loaded : Loaded g.bullets
  inRange : ∀ p, (g.player p).turn < g.bullets.length
  items : ∀ p, (g.player p).items = []

theorem Fresh.create (rand : Rand) : Fresh (create rand) where
  loaded := loaded_createBullets rand
  inRange p := by
    have hfour := (loaded_createBullets rand).four_le
    have hpos : 0 < (createBullets rand).1.length := by omega
    cases p <;> exact hpos
  items p := by
    cases p <;> rfl

/-- A player of a fresh game. -/
theorem Fresh.of_players {g g' : Game} (h : Fresh g) (hbullets : g'.bullets = g.bullets)
    (hplayers : ∀ p, (g'.player p).turn < g.bullets.length ∧ (g'.player p).items = []) :
    Fresh g' where
  loaded := hbullets ▸ h.loaded
  inRange p := hbullets ▸ (hplayers p).1
  items p := (hplayers p).2

/-- A shot leaves the game fresh. -/
theorem Fresh.tookShot {g g' : Game} {p : PlayerId} {bullet : Bullet}
    {acts : List (PlayerId × Act)} (h : Fresh g) (hshot : TookShot g p bullet g' acts) :
    Fresh g' := by
  refine h.of_players (by simp [hshot.bullets, h.items p]) ((PlayerId.forall_iff p).2 ⟨?_, ?_⟩)
  · rw [hshot.shooter, h.items p]
    have hpos : 0 < g.bullets.length := Nat.zero_lt_of_lt (h.inRange p)
    exact ⟨Nat.mod_lt _ hpos, rfl⟩
  · rw [hshot.opponent]
    exact ⟨h.inRange p.other, h.items p.other⟩

/-- Whatever comes next has an outcome, and leaves the game fresh. -/
theorem Fresh.step {g : Game} (h : Fresh g) (l : Label) :
    ∃ g' acts, machine.step g l = some (g', acts) ∧ Fresh g' := by
  cases l with
  | event e =>
    obtain ⟨g', acts, hevent⟩ := exists_handleEvent fun p (_ : Fires g e p) => h.inRange p
    refine ⟨g', acts, hevent, ?_⟩
    rcases handleEvent_cases hevent with ⟨p, bullet, -, hshot⟩ | ⟨-, hidle, -⟩
    · exact h.tookShot hshot
    · refine h.of_players (bullets_of_idle hidle) fun p => ?_
      rw [player_of_idle hidle]
      exact ⟨h.inRange p, h.items p⟩
  | setTurnForPlayer p turnStatus =>
    refine ⟨_, _, rfl, h.of_players (bullets_setPlayer _ _ _) ?_⟩
    refine (PlayerId.forall_iff p).2 ⟨?_, ?_⟩
    · simpa [setTurnForPlayer] using ⟨h.inRange p, h.items p⟩
    · simpa [setTurnForPlayer] using ⟨h.inRange p.other, h.items p.other⟩
  | skipOpponentTurn =>
    exact ⟨_, _, rfl, h.of_players rfl fun p => by
      simpa [skipOpponentTurn] using ⟨h.inRange p, h.items p⟩⟩

/-- Whatever `rand()` returns and whatever happens to the game that it makes, each shot has an
outcome, the bullets are 4 to 8, exactly one is `EMPTY`, one is `LIVE`, and the next shot of
each player is in range. -/
theorem exists_run_create (rand : Rand) (ls : List Label) :
    ∃ acts g, machine.Run (create rand) ls acts g ∧ Loaded g.bullets ∧
      ∀ p, (g.player p).turn < g.bullets.length := by
  obtain ⟨acts, g, hrun, hfresh⟩ := Machine.exists_run (M := machine)
    (P := fun g _ => Fresh g) (Fresh.create rand) ls fun g _ l _ h => by
      obtain ⟨g', o, hstep, hfresh⟩ := h.step l
      exact ⟨g', o, hstep, hfresh⟩
  exact ⟨acts, g, hrun, hfresh.loaded, hfresh.inRange⟩

end Game

end DesperateStruggle
