import DesperateStruggle.Game

/-!
# Coins and the range of a shot

Two players call `shootBullet` and `useItem` on the bullets they share, in any order and with
any items. A `COIN` takes the last bullet away, and a player whose `turn` pointed at it is out
of range from then on : only its own shot would move it. So the shots of a sequence of calls
are all in range exactly if no `COIN` takes a bullet that a player is still to shoot
(`shotsInRange_iff`).
-/

open CString

namespace DesperateStruggle

namespace Game

/-- A call of a player. -/
inductive Call
  | shootBullet (p : PlayerId)
  | useItem (p : PlayerId)
deriving DecidableEq, Repr

/-- The players under calls in any order. -/
def calls : Machine Game Call (PlayerId × Act) where
  step
    | g, .shootBullet p => g.shootBullet p
    | g, .useItem p => some (g.useItem p)

/-- Every shot of the sequence finds its `turn` below the number of bullets. -/
def ShotsInRange (g : Game) (cs : List Call) : Prop :=
  calls.StepsMeet (fun g c => ∀ p, c = .shootBullet p → (g.player p).turn < g.bullets.length) g cs

/-- The call takes a bullet away. -/
def SpendsBullet (g : Game) (c : Call) : Prop :=
  ∃ p, c = .useItem p ∧ (g.player p).items.getLast? = some .COIN ∧ g.bullets ≠ []

/-- Whenever a bullet is taken away, no player who is still to shoot points at it. -/
def CoinsSpare (g : Game) : List Call → Prop
  | [] => True
  | c :: cs =>
    (SpendsBullet g c → ∀ q, .shootBullet q ∈ cs → (g.player q).turn + 1 < g.bullets.length) ∧
      ∀ g' o, calls.step g c = some (g', o) → CoinsSpare g' cs

section

variable {g g' : Game} {p q : PlayerId} {acts : List (PlayerId × Act)} {cs : List Call}

/-- Who is still to shoot is in range. -/
def InRange (g : Game) (cs : List Call) : Prop :=
  ∀ q, .shootBullet q ∈ cs → (g.player q).turn < g.bullets.length

/-- A shot in range moves the index of its player, and nothing else that matters here. -/
theorem shootBullet_of_lt (h : (g.player p).turn < g.bullets.length) :
    ∃ g' acts, g.shootBullet p = some (g', acts) ∧ g'.bullets = g.bullets ∧
      (g'.player p).turn = ((g.player p).turn + 1) % g.bullets.length ∧
      g'.player p.other = g.player p.other := by
  obtain ⟨lines, hshot, -⟩ := Player.shootBullet_spec (List.getElem?_eq_getElem h)
  simp only [shootBullet, hshot]
  exact ⟨_, _, rfl, by simp, by simp, by simp⟩

/-- An item leaves the indices, and takes at most the last bullet. -/
theorem useItem_turn (g : Game) (p : PlayerId) :
    (∀ q, ((g.useItem p).1.player q).turn = (g.player q).turn) ∧ (g.useItem p).1.bullets =
      if (g.player p).items.getLast? = some .COIN then g.bullets.dropLast else g.bullets := by
  obtain ⟨acts, huse, -⟩ := Player.useItem_spec (g.player p) g.bullets
  simp only [useItem, huse]
  refine ⟨(PlayerId.forall_iff p).2 ⟨?_, ?_⟩, rfl⟩ <;> simp

/-- A shot keeps its player in range, and so its opponent. -/
theorem inRange_shootBullet (h : (g.player p).turn < g.bullets.length)
    (hbullets : g'.bullets = g.bullets)
    (hself : (g'.player p).turn = ((g.player p).turn + 1) % g.bullets.length)
    (hother : g'.player p.other = g.player p.other) :
    InRange g' cs ↔ InRange g (.shootBullet p :: cs) := by
  have hlt : (g'.player p).turn < g'.bullets.length := by
    rw [hself, hbullets]
    exact Nat.mod_lt _ (Nat.zero_lt_of_lt h)
  unfold InRange
  rw [PlayerId.forall_iff p, PlayerId.forall_iff p, hother, hbullets]
  simp [h, hbullets ▸ hlt]

theorem spendsBullet_iff : SpendsBullet g (.useItem p) ↔
    (g.player p).items.getLast? = some .COIN ∧ g.bullets ≠ [] := by
  simp [SpendsBullet]

/-- An item keeps everyone in range, unless it takes the bullet that someone points at. -/
theorem inRange_useItem (g : Game) (p : PlayerId) (cs : List Call) :
    InRange (g.useItem p).1 cs ↔ InRange g cs ∧ (SpendsBullet g (.useItem p) →
      ∀ q, .shootBullet q ∈ cs → (g.player q).turn + 1 < g.bullets.length) := by
  obtain ⟨hturn, hbullets⟩ := useItem_turn g p
  rw [spendsBullet_iff]
  by_cases hspends : (g.player p).items.getLast? = some .COIN ∧ g.bullets ≠ []
  · rw [if_pos hspends.1] at hbullets
    have hlen : (g.useItem p).1.bullets.length + 1 = g.bullets.length := by
      have hpos := List.length_pos_iff.2 hspends.2
      rw [hbullets, List.length_dropLast]
      omega
    simp only [InRange, hturn, ← hlen, Nat.add_lt_add_iff_right, hspends, ne_eq,
      not_false_eq_true, and_self, forall_const]
    exact ⟨fun h => ⟨fun q hq => Nat.lt_succ_of_lt (h q hq), h⟩, fun h => h.2⟩
  · have hsame : (g.useItem p).1.bullets = g.bullets := by
      rw [hbullets]
      split_ifs with hcoin
      · have hnil : g.bullets = [] := not_not.1 fun hne => hspends ⟨hcoin, hne⟩
        rw [hnil, List.dropLast_nil]
      · rfl
    simp only [InRange, hturn, hsame, hspends, false_imp_iff, and_true]

/-- The shots of a sequence are in range exactly if those to come are now, and the coins leave
them so. -/
theorem shotsInRange_iff_inRange (g : Game) (cs : List Call) :
    ShotsInRange g cs ↔ InRange g cs ∧ CoinsSpare g cs := by
  induction cs generalizing g with
  | nil => simp [ShotsInRange, Machine.StepsMeet, InRange, CoinsSpare]
  | cons c cs ih =>
    simp only [ShotsInRange, Machine.StepsMeet, CoinsSpare] at ih ⊢
    cases c with
    | shootBullet p =>
      have hspends : ¬SpendsBullet g (.shootBullet p) := by simp [SpendsBullet]
      by_cases hlt : (g.player p).turn < g.bullets.length
      · obtain ⟨g', o, hshot, hbullets, hself, hother⟩ := shootBullet_of_lt hlt
        have hstep : calls.step g (.shootBullet p) = some (g', o) := hshot
        rw [Machine.forall_step_iff hstep, Machine.forall_step_iff hstep, ih,
          inRange_shootBullet hlt hbullets hself hother]
        simp [hspends, hlt]
      · refine iff_of_false (fun h => hlt (h.1 p rfl)) fun h => hlt (h.1 p (by simp))
    | useItem p =>
      have hstep : calls.step g (.useItem p) = some ((g.useItem p).1, (g.useItem p).2) := rfl
      have htail : InRange g (.useItem p :: cs) ↔ InRange g cs := by simp [InRange]
      rw [Machine.forall_step_iff hstep, Machine.forall_step_iff hstep, ih, inRange_useItem, htail]
      simp [and_assoc]

/-- From players in range, the shots of a sequence of calls are all in range exactly if no coin
takes a bullet that a player still to shoot points at. -/
theorem shotsInRange_iff (hturn : ∀ p, (g.player p).turn < g.bullets.length) (cs : List Call) :
    ShotsInRange g cs ↔ CoinsSpare g cs := by
  rw [shotsInRange_iff_inRange]
  exact and_iff_right fun q _ => hturn q

/-- Player 1 has a `COIN`, and there is one bullet. -/
def lastBullet : Game :=
  { player1 := { name := ascii "You", items := [.COIN] }, bullets := [.LIVE] }

theorem lastBullet_turn (p : PlayerId) :
    (lastBullet.player p).turn < lastBullet.bullets.length := by
  cases p <;> decide

/-- Player 2 shoots the last bullet before player 1 takes it away. -/
theorem shotsInRange_iff_lastBullet :
    ShotsInRange lastBullet [.shootBullet .player2, .useItem .player1] ↔
      CoinsSpare lastBullet [.shootBullet .player2, .useItem .player1] :=
  shotsInRange_iff lastBullet_turn _

/-- It is not so that the shots of any calls are in range. -/
theorem not_forall_shotsInRange : ¬∀ (g : Game) (cs : List Call), g.bullets ≠ [] →
    (∀ p, (g.player p).turn < g.bullets.length) → ShotsInRange g cs := by
  intro hall
  have hrange := hall lastBullet [.useItem .player1, .shootBullet .player1] (by decide)
    lastBullet_turn
  have hlt := (hrange.2 _ _ rfl).1 .player1 rfl
  exact absurd hlt (by decide)

end

end Game

end DesperateStruggle
