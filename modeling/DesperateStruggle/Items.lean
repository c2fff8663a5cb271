import DesperateStruggle.Player
import Mathlib.Data.List.DropRight

/-!
# A player's items

A player uses its items from the last to the first (`getLast?_useItems`), each once. A `HEAL` gives
a life up to 8 and a `COIN` takes the last bullet, and both commute with themselves and with
everything else an item does. So what `k` calls of `useItem` leave is a closed form of the last
`k` items (`useItems_eq`), in which only their numbers of `HEAL` and `COIN` count.
-/

open CString

namespace DesperateStruggle

namespace Player

/-- `k` calls of `useItem`. -/
def useItems : Nat → Player → List Bullet → Player × List Bullet × List Act
  | 0, p, bullets => (p, bullets, [])
  | k + 1, p, bullets =>
    let (p, bullets, acts) := p.useItem bullets
    let (p, bullets, acts') := useItems k p bullets
    (p, bullets, acts ++ acts')

/-- A player after it has used its last `k` items. -/
def afterItems (p : Player) (k : Nat) : Player :=
  { p with
    health := .ofInt (min (p.health.toInt + (p.items.rtake k).count .HEAL) 8)
    items := p.items.rdrop k }

/-- The bullets after a player has used its last `k` items. -/
def bulletsAfterItems (p : Player) (k : Nat) (bullets : List Bullet) : List Bullet :=
  bullets.rdrop ((p.items.rtake k).count .COIN)

section

variable {p : Player} {items : List Item} {item : Item}

/-- A player without items. -/
theorem useItem_of_nil (h : p.items = []) (bullets : List Bullet) :
    p.useItem bullets = (p, bullets, []) := by
  simp [useItem, h]

/-- The last item. -/
theorem useItem_of_concat (h : p.items = items ++ [item]) (bullets : List Bullet) :
    ∃ acts, p.useItem bullets =
      ({ p with health := afterItem p.health (some item), items := items },
        if item = .COIN then bullets.dropLast else bullets, acts) := by
  obtain ⟨acts, huse, -⟩ := useItem_spec p bullets
  rw [h, List.getLast?_concat, List.dropLast_concat] at huse
  exact ⟨acts, by simpa using huse⟩

/-- No item is used. -/
theorem ofInt_min_health {health : Int32} (h : health ≤ 8) :
    Int32.ofInt (min health.toInt 8) = health := by
  have hle : health.toInt ≤ 8 := Int32.le_iff_toInt_le.1 h
  rw [Int.min_eq_left hle, Int32.ofInt_toInt]

theorem afterItems_of_nil (h : p.items = []) (hhealth : p.health ≤ 8) (k : Nat) :
    p.afterItems k = p := by
  obtain ⟨name, health, isTurn, turn, items⟩ := p
  obtain rfl : items = [] := h
  simp [afterItems, ofInt_min_health hhealth]

theorem afterItems_zero (hhealth : p.health ≤ 8) : p.afterItems 0 = p := by
  simp [afterItems, ofInt_min_health hhealth]

/-- The health after any items is in range. -/
theorem toInt_health_afterItems (p : Player) (k : Nat) :
    (p.afterItems k).health.toInt = min (p.health.toInt + (p.items.rtake k).count .HEAL) 8 := by
  have hge := p.health.le_toInt
  exact Int32.toInt_ofInt_of_le (by omega) (by omega)

/-- A `HEAL` more, or not. -/
theorem afterItems_concat (h : p.items = items ++ [item]) (hhealth : p.health ≤ 8) (k : Nat) :
    afterItems { p with health := afterItem p.health (some item), items := items } k =
      p.afterItems (k + 1) := by
  have hhealth' :
      min ((afterItem p.health (some item)).toInt + (items.rtake k).count .HEAL) 8 =
        min (p.health.toInt + (items.rtake k ++ [item]).count .HEAL) 8 := by
    have hle : p.health.toInt ≤ 8 := Int32.le_iff_toInt_le.1 hhealth
    rw [List.count_append, toInt_afterItem hhealth]
    cases item <;> simp <;> omega
  simp only [afterItems, h, List.rtake_concat_succ, List.rdrop_concat_succ, hhealth']

theorem bulletsAfterItems_of_nil (h : p.items = []) (k : Nat) (bullets : List Bullet) :
    p.bulletsAfterItems k bullets = bullets := by
  simp [bulletsAfterItems, h]

/-- A bullet less, or not. -/
theorem bulletsAfterItems_concat (h : p.items = items ++ [item]) (k : Nat) (health : Int32)
    (bullets : List Bullet) :
    bulletsAfterItems { p with health := health, items := items } k
      (if item = .COIN then bullets.dropLast else bullets) =
      p.bulletsAfterItems (k + 1) bullets := by
  have hdrop : ∀ n, bullets.dropLast.rdrop n = bullets.rdrop (n + 1) := by
    intro n
    rcases List.eq_nil_or_concat' bullets with rfl | ⟨init, last, rfl⟩
    · simp
    · rw [List.dropLast_concat, List.rdrop_concat_succ]
  simp only [bulletsAfterItems, h, List.rtake_concat_succ, List.count_append]
  cases item <;> simp [hdrop]

/-- What `k` calls leave. -/
theorem useItems_spec (hhealth : p.health ≤ 8) (k : Nat) (bullets : List Bullet) :
    ∃ acts, useItems k p bullets = (p.afterItems k, p.bulletsAfterItems k bullets, acts) := by
  induction k generalizing p bullets with
  | zero => exact ⟨[], by simp [useItems, afterItems_zero hhealth, bulletsAfterItems]⟩
  | succ k ih =>
    rcases List.eq_nil_or_concat' p.items with hnil | ⟨items, item, hitems⟩
    · obtain ⟨acts, huse⟩ := ih hhealth bullets
      refine ⟨acts, ?_⟩
      simp [useItems, useItem_of_nil hnil, huse, afterItems_of_nil hnil hhealth,
        bulletsAfterItems_of_nil hnil]
    · obtain ⟨acts, huse⟩ := useItem_of_concat hitems bullets
      obtain ⟨acts', huse'⟩ := ih (p := { p with health := afterItem p.health (some item),
                                                 items := items }) (afterItem_le hhealth _)
        (if item = .COIN then bullets.dropLast else bullets)
      refine ⟨acts ++ acts', ?_⟩
      simp only [useItems, huse, huse', afterItems_concat hitems hhealth,
        bulletsAfterItems_concat hitems]

/-- The item of each call. -/
theorem getLast?_useItems (hhealth : p.health ≤ 8) (k : Nat) (bullets : List Bullet) :
    (useItems k p bullets).1.items.getLast? = p.items.reverse[k]? := by
  obtain ⟨acts, huse⟩ := useItems_spec hhealth k bullets
  rw [huse, afterItems, List.rdrop_eq_reverse_drop_reverse, List.getLast?_reverse,
    List.head?_drop]

/-- A player uses its items from the last to the first, each once, and what `k` calls leave is
fixed by the last `k` items, in any order. -/
theorem useItems_eq (hhealth : p.health ≤ 8) (k : Nat) (bullets : List Bullet) :
    (∃ health acts, useItems k p bullets =
        ({ p with health := health, items := p.items.rdrop k },
          bullets.rdrop ((p.items.rtake k).count .COIN), acts) ∧
      health.toInt = min 8 (p.health.toInt + (p.items.rtake k).count .HEAL)) ∧
      (∀ i, (useItems i p bullets).1.items.getLast? = p.items.reverse[i]?) ∧
      ∀ items', (items'.rtake k).Perm (p.items.rtake k) →
        (useItems k { p with items := items' } bullets).1.health =
            (useItems k p bullets).1.health ∧
          (useItems k { p with items := items' } bullets).2.1 = (useItems k p bullets).2.1 := by
  obtain ⟨acts, huse⟩ := useItems_spec hhealth k bullets
  refine ⟨⟨_, acts, huse, ?_⟩, fun i => getLast?_useItems hhealth i bullets,
    fun items' hperm => ?_⟩
  · rw [Int.min_comm 8]
    exact toInt_health_afterItems p k
  · obtain ⟨acts', huse'⟩ := useItems_spec (p := { p with items := items' }) hhealth k bullets
    simp only [huse, huse', afterItems, bulletsAfterItems, hperm.count_eq, and_self]

/-- A player with 7 lives. -/
def wounded : Player :=
  { name := ascii "You", health := 7, items := [.MAGNIFY, .HEAL, .COIN, .HEAL] }

/-- It uses three of its items. -/
theorem useItems_eq_wounded : (∃ health acts, useItems 3 wounded [.LIVE] =
      ({ wounded with health := health, items := wounded.items.rdrop 3 },
        [Bullet.LIVE].rdrop ((wounded.items.rtake 3).count .COIN), acts) ∧
    health.toInt = min 8 (wounded.health.toInt + (wounded.items.rtake 3).count .HEAL)) ∧
    (∀ i, (useItems i wounded [.LIVE]).1.items.getLast? = wounded.items.reverse[i]?) ∧
    ∀ items', (items'.rtake 3).Perm (wounded.items.rtake 3) →
      (useItems 3 { wounded with items := items' } [.LIVE]).1.health =
          (useItems 3 wounded [.LIVE]).1.health ∧
        (useItems 3 { wounded with items := items' } [.LIVE]).2.1 =
          (useItems 3 wounded [.LIVE]).2.1 :=
  useItems_eq (by decide) 3 [.LIVE]

end

end Player

end DesperateStruggle
