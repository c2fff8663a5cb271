import DesperateStruggle.CString
import Mathlib.Data.List.Basic

/-!
# Bullets, items and players

The classes `Bullet`, `Item` and `Player` of `game.cpp`. A player owns its items and an index
into the bullets, which it shares with its opponent. `shootBullet` has no outcome where the
source would index `bullets` out of range or divide by their number 0. The index is a number here,
as there are no more bullets than an `int` counts. The health is an `int`, so there is a least
one : a life less than that, which the language leaves undefined, wraps here, and what is proved
of a health that falls holds as long as it is in range (`Lost`).

`Act` is what a player does that can be seen : the bullet it tests, and the lines it prints.
-/

open CString

namespace DesperateStruggle

/-- A bullet, which is its `Bullet::Type`. -/
inductive Bullet
  | EMPTY
  | LIVE
deriving DecidableEq, Repr

/-- An item, which is its `Item::Type`. -/
inductive Item
  | HEAL
  | MAGNIFY
  | COIN
  | BAN
deriving DecidableEq, Repr

/-- What a player does. -/
inductive Act
  /-- It tests a bullet. -/
  | shot (index : Nat) (bullet : Bullet)
  /-- `" got hit! Health: "`. -/
  | hit (health : Int32)
  /-- `" healed! Health: "`. -/
  | healed (health : Int32)
  /-- `"Bullets - Empty: "`, `" Live: "`. -/
  | revealed (emptyCount liveCount : Nat)
  /-- `" used a coin and shot a bullet!"`. -/
  | coin
  /-- `" used a BAN item! Opponent skips next turn!"`. -/
  | ban
deriving DecidableEq, Repr

/-- `class Player`. The lines a player prints start with its name, which `Act` leaves out. -/
structure Player where
  name : List Byte := []
  health : Int32 := 5
  isTurn : Bool := false
  turn : Nat := 0
  items : List Item := []
deriving DecidableEq, Repr

namespace Player

/-- `addHealth`. -/
def addHealth (p : Player) (h : Int32) : Player :=
  { p with health := min (p.health + h) 8 }

/-- `revealBullets`. -/
def revealBullets (bullets : List Bullet) : Act :=
  .revealed (bullets.count .EMPTY) (bullets.count .LIVE)

/-- `useItem`, with the bullets it leaves. -/
def useItem (p : Player) (bullets : List Bullet) : Player × List Bullet × List Act :=
  match p.items.getLast? with
  | none => (p, bullets, [])
  | some item =>
    let p := { p with items := p.items.dropLast }
    match item with
    | .HEAL => (p.addHealth 1, bullets, [.healed (p.addHealth 1).health])
    | .MAGNIFY => (p, bullets, [revealBullets bullets])
    | .COIN => if bullets ≠ [] then (p, bullets.dropLast, [.coin]) else (p, bullets, [])
    | .BAN => (p, bullets, [.ban])

/-- `isTurnActive`. -/
def isTurnActive (p : Player) : Bool :=
  p.isTurn

/-- `toggleTurn`. -/
def toggleTurn (p : Player) : Player :=
  { p with isTurn := !p.isTurn }

/-- `shootBullet`. -/
def shootBullet (p : Player) (bullets : List Bullet) : Option (Player × List Act) :=
  match bullets[p.turn]? with
  | none => none
  | some bullet =>
    let shooter := if bullet = .LIVE then { p with health := p.health - 1 } else p
    let lines := if bullet = .LIVE then [.hit shooter.health] else []
    some ({ shooter with turn := (p.turn + 1) % bullets.length }, .shot p.turn bullet :: lines)

/-! ## What they change -/

/-- The health after a bullet. -/
def afterBullet (health : Int32) (bullet : Bullet) : Int32 :=
  if bullet = .LIVE then health - 1 else health

/-- The health after an item. -/
def afterItem (health : Int32) (item : Option Item) : Int32 :=
  if item = some .HEAL then min (health + 1) 8 else health

/-- The health after the loss of `n` lives. -/
def lose (health : Int32) (n : Nat) : Int32 :=
  .ofInt (health.toInt - n)

/-- `health'` is `health` less `n` lives, if that is in range. -/
def Lost (health : Int32) (n : Nat) (health' : Int32) : Prop :=
  Int32.minValue.toInt ≤ health.toInt - n → health'.toInt = health.toInt - n

section

variable {health : Int32} {n : Nat}

@[simp] theorem lose_zero (health : Int32) : lose health 0 = health := by
  simp [lose]

theorem lose_succ (health : Int32) (n : Nat) : lose health (n + 1) = lose health n - 1 := by
  rw [lose, lose, Int.natCast_succ, ← Int.sub_sub, Int32.ofInt_sub]
  rfl

/-- A bullet takes a life, or none. -/
theorem afterBullet_lose (health : Int32) (n : Nat) (bullet : Bullet) :
    afterBullet (lose health n) bullet = lose health (n + if bullet = .LIVE then 1 else 0) := by
  cases bullet
  · rfl
  · exact (lose_succ health n).symm

theorem lost_lose (health : Int32) (n : Nat) : Lost health n (lose health n) := by
  intro hrange
  have hlt := health.toInt_lt
  exact Int32.toInt_ofInt_of_le hrange (by omega)

theorem toInt_min (a b : Int32) : (min a b).toInt = min a.toInt b.toInt := by
  have hmin : min a b = if a ≤ b then a else b := rfl
  rw [hmin, Int.min_def, apply_ite Int32.toInt]
  simp only [Int32.le_iff_toInt_le]

/-- A health of at most 8 is far from the greatest, and an item may give it a life. -/
theorem toInt_afterItem (h : health ≤ 8) (item : Option Item) :
    (afterItem health item).toInt =
      min (health.toInt + if item = some .HEAL then 1 else 0) 8 := by
  have hle : health.toInt ≤ 8 := Int32.le_iff_toInt_le.1 h
  have hge := health.le_toInt
  unfold afterItem
  split_ifs
  · have hsucc : (health + 1).toInt = health.toInt + 1 := by
      rw [Int32.toInt_add]
      exact Int.bmod_eq_of_le (by simp; omega) (by simp; omega)
    rw [toInt_min, hsucc]
    rfl
  · omega

theorem afterItem_le (h : health ≤ 8) (item : Option Item) : afterItem health item ≤ 8 := by
  rw [Int32.le_iff_toInt_le, toInt_afterItem h]
  exact Int.min_le_right _ _

theorem zero_le_afterItem (h : 0 ≤ health) (h8 : health ≤ 8) (item : Option Item) :
    0 ≤ afterItem health item := by
  have hnonneg : 0 ≤ health.toInt := Int32.le_iff_toInt_le.1 h
  rw [Int32.le_iff_toInt_le, toInt_afterItem h8, Int32.toInt_zero]
  split_ifs <;> omega

end

section

variable {p q : Player} {bullets : List Bullet} {acts : List Act}

/-- A shot is in range, or it has no outcome. -/
theorem shootBullet_eq_none_iff : p.shootBullet bullets = none ↔ bullets.length ≤ p.turn := by
  unfold shootBullet
  split
  · next h => simpa using h
  · next bullet h =>
    have hlt := (List.getElem?_eq_some_iff.1 h).1
    simpa using hlt

/-- What a shot changes. -/
theorem shootBullet_spec {bullet : Bullet} (h : bullets[p.turn]? = some bullet) :
    ∃ lines, p.shootBullet bullets = some
      ({ p with health := afterBullet p.health bullet, turn := (p.turn + 1) % bullets.length },
        .shot p.turn bullet :: lines) ∧ ∀ i b, .shot i b ∉ lines := by
  refine ⟨if bullet = .LIVE then [.hit (p.health - 1)] else [], ?_, fun i b => ?_⟩
  · cases bullet <;> simp [shootBullet, afterBullet, h]
  · split_ifs <;> simp

/-- What an item changes. -/
theorem useItem_spec (p : Player) (bullets : List Bullet) : ∃ acts, p.useItem bullets =
    ({ p with health := afterItem p.health p.items.getLast?, items := p.items.dropLast },
      if p.items.getLast? = some .COIN then bullets.dropLast else bullets, acts) ∧
    ∀ i b, .shot i b ∉ acts := by
  unfold useItem afterItem
  rcases hitem : p.items.getLast? with - | item
  · have hnil : p.items = [] := List.getLast?_eq_none_iff.1 hitem
    refine ⟨[], ?_, by simp⟩
    obtain ⟨name, health, isTurn, turn, items⟩ := p
    obtain rfl : items = [] := hnil
    rfl
  · cases item with
    | HEAL => exact ⟨_, rfl, by simp⟩
    | MAGNIFY => exact ⟨_, rfl, by simp [revealBullets]⟩
    | COIN =>
      by_cases hb : bullets = []
      · subst hb
        exact ⟨_, rfl, by simp⟩
      · exact ⟨[.coin], by simp [hb], by simp⟩
    | BAN => exact ⟨_, rfl, by simp⟩

end

end Player

end DesperateStruggle
