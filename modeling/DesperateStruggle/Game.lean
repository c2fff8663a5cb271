import DesperateStruggle.Machine
import DesperateStruggle.Player

/-!
# The game

The class `Game` of `game.cpp` : its constructor, which loads the bullets and draws the items
from `rand()`, `handleEvents`, `setTurnForPlayer` and `skipOpponentTurn`. `Frames` has the texts
of `update` and the loop of `run`.

A key press is a shot of a player (`Fires`) or changes nothing. `TookShot` is what a shot
changes, and `handleEvent_cases` says that nothing else happens. `machine` takes window
events and calls in any order. Its outputs are what the players do, `shots` the bullets
tested.
-/

open CString

namespace DesperateStruggle

/-- The two players of a game. -/
inductive PlayerId
  | player1
  | player2
deriving DecidableEq, Repr

namespace PlayerId

/-- The opponent. -/
def other : PlayerId → PlayerId
  | player1 => player2
  | player2 => player1

@[simp] theorem other_other (p : PlayerId) : p.other.other = p := by
  cases p <;> rfl

@[simp] theorem other_ne (p : PlayerId) : p.other ≠ p := by
  cases p <;> simp [other]

@[simp] theorem ne_other (p : PlayerId) : p ≠ p.other :=
  (other_ne p).symm

theorem eq_or_eq_other (p q : PlayerId) : q = p ∨ q = p.other := by
  cases p <;> cases q <;> simp [other]

/-- What holds of a player and of its opponent holds of both. -/
theorem forall_iff {P : PlayerId → Prop} (p : PlayerId) : (∀ q, P q) ↔ P p ∧ P p.other := by
  refine ⟨fun h => ⟨h p, h p.other⟩, fun h q => ?_⟩
  rcases eq_or_eq_other p q with rfl | rfl
  exacts [h.1, h.2]

end PlayerId

/-- `Keyboard::Key`. -/
inductive KeyCode
  | Up
  | Down
  | other (code : Int)
deriving DecidableEq, Repr

/-- The key that `handleEvents` gives a player. -/
def PlayerId.key : PlayerId → KeyCode
  | player1 => .Up
  | player2 => .Down

theorem PlayerId.key_inj {p q : PlayerId} : p.key = q.key ↔ p = q := by
  cases p <;> cases q <;> simp [key]

/-- The results of `rand()` still to come. -/
abbrev Rand := Nat → Nat

/-- The results after the next one, which is `rand 0`. -/
def Rand.rest (rand : Rand) : Rand :=
  fun i => rand (i + 1)

/-- `static_cast<Item::Type>`. -/
def Item.ofType : Nat → Item
  | 0 => .HEAL
  | 1 => .MAGNIFY
  | 2 => .COIN
  | _ => .BAN

/-- `class Game`. `windowOpen` is `window.isOpen()`, and no code reads `items`. -/
structure Game where
  player1 : Player := { name := ascii "You" }
  player2 : Player := { name := ascii "Opponent" }
  bullets : List Bullet := []
  items : List Item := []
  skipTurn : Bool := false
  windowOpen : Bool := true
deriving DecidableEq, Repr

namespace Game

/-! ## The constructor -/

/-- The variables of the loop in `createBullets`. -/
structure Loader where
  rand : Rand
  bullets : List Bullet := []
  hasLive : Bool := false
  hasEmpty : Bool := false

/-- One round of the loop. -/
def Loader.load (l : Loader) : Loader :=
  let type := if l.rand 0 % 2 = 0 ∧ l.hasEmpty = false then Bullet.EMPTY else Bullet.LIVE
  { rand := l.rand.rest
    bullets := l.bullets ++ [type]
    hasLive := if type = .LIVE then true else l.hasLive
    hasEmpty := if type = .LIVE then l.hasEmpty else true }

/-- The loop of `createBullets`. -/
def Loader.loadAll : Nat → Loader → Loader
  | 0, l => l
  | n + 1, l => loadAll n l.load

/-- `bullets[rand() % bulletCount] = Bullet(type)`. -/
def Loader.replace (l : Loader) (bulletCount : Nat) (type : Bullet) : Loader :=
  { l with rand := l.rand.rest, bullets := l.bullets.set (l.rand 0 % bulletCount) type }

/-- The two steps after the loop, for at least one bullet of each type. -/
def Loader.repair (l : Loader) (bulletCount : Nat) : Loader :=
  let l := if l.hasLive = false then l.replace bulletCount .LIVE else l
  if l.hasEmpty = false then l.replace bulletCount .EMPTY else l

/-- `createBullets`, with the results of `rand()` it leaves. -/
def createBullets (rand : Rand) : List Bullet × Rand :=
  let bulletCount := rand 0 % 5 + 4
  let l := (Loader.loadAll bulletCount { rand := rand.rest }).repair bulletCount
  (l.bullets, l.rand)

/-- `createItems`. -/
def createItems (rand : Rand) : List Item :=
  (List.range 3).map fun i => Item.ofType (rand i % 4)

/-- The constructor, with the font loaded. -/
def create (rand : Rand) : Game :=
  { bullets := (createBullets rand).1, items := createItems (createBullets rand).2 }

/-! ## Events and calls -/

/-- A player. -/
def player (g : Game) : PlayerId → Player
  | .player1 => g.player1
  | .player2 => g.player2

/-- The game with another player in a player's place. -/
def setPlayer (g : Game) : PlayerId → Player → Game
  | .player1, player => { g with player1 := player }
  | .player2, player => { g with player2 := player }

/-- The game with other bullets. -/
def setBullets (g : Game) (bullets : List Bullet) : Game :=
  { g with bullets := bullets }

/-- The game with another `skipTurn`. -/
def setSkipTurn (g : Game) (skipTurn : Bool) : Game :=
  { g with skipTurn := skipTurn }

/-- The game with its window closed. -/
def closeWindow (g : Game) : Game :=
  { g with windowOpen := false }

/-- `setTurnForPlayer`. -/
def setTurnForPlayer (g : Game) (p : PlayerId) (turnStatus : Bool) : Game :=
  g.setPlayer p { g.player p with isTurn := turnStatus }

/-- `skipOpponentTurn`. -/
def skipOpponentTurn (g : Game) : Game :=
  g.setSkipTurn true

/-- `shootBullet(bullets)` of a player. -/
def shootBullet (g : Game) (p : PlayerId) : Option (Game × List (PlayerId × Act)) :=
  match (g.player p).shootBullet g.bullets with
  | none => none
  | some (player, acts) => some (g.setPlayer p player, acts.map (p, ·))

/-- `useItem(bullets)` of a player. -/
def useItem (g : Game) (p : PlayerId) : Game × List (PlayerId × Act) :=
  let (player, bullets, acts) := (g.player p).useItem g.bullets
  ((g.setPlayer p player).setBullets bullets, acts.map (p, ·))

/-- `toggleTurn()` of a player. -/
def toggleTurn (g : Game) (p : PlayerId) : Game :=
  g.setPlayer p (g.player p).toggleTurn

/-- The body of the key handler of a player. -/
def takeShot (g : Game) (p : PlayerId) : Option (Game × List (PlayerId × Act)) :=
  match g.shootBullet p with
  | none => none
  | some (g, shot) =>
    let (g, used) := g.useItem p
    some (((g.toggleTurn p).toggleTurn p.other).setSkipTurn false, shot ++ used)

/-- The key handler of a player. -/
def onKey (g : Game) (code : KeyCode) (p : PlayerId) : Option (Game × List (PlayerId × Act)) :=
  if code = p.key ∧ (g.player p).isTurnActive = true ∧ g.skipTurn = false then g.takeShot p
  else some (g, [])

/-- A window event, as far as `handleEvents` tells them apart. -/
inductive Event
  | closed
  | keyPressed (code : KeyCode)
  | other
deriving DecidableEq, Repr

/-- One round of the loop in `handleEvents`. -/
def handleEvent (g : Game) : Event → Option (Game × List (PlayerId × Act))
  | .closed => some (g.closeWindow, [])
  | .keyPressed code =>
    match g.onKey code .player1 with
    | none => none
    | some (g, acts) =>
      match g.onKey code .player2 with
      | none => none
      | some (g, acts') => some (g, acts ++ acts')
  | .other => some (g, [])

/-- What happens to a game. -/
inductive Label
  | event (e : Event)
  | setTurnForPlayer (p : PlayerId) (turnStatus : Bool)
  | skipOpponentTurn
deriving DecidableEq, Repr

/-- One event or call. -/
def step (g : Game) : Label → Option (Game × List (PlayerId × Act))
  | .event e => g.handleEvent e
  | .setTurnForPlayer p turnStatus => some (g.setTurnForPlayer p turnStatus, [])
  | .skipOpponentTurn => some (g.skipOpponentTurn, [])

/-- The game under events and calls in any order. -/
def machine : Machine Game Label (PlayerId × Act) where
  step := step

/-! ## What a press changes -/

section

variable {g g' : Game} {e : Event} {p q : PlayerId} {bullet : Bullet}
  {acts acts' : List (PlayerId × Act)}

/-- A bullet tested. -/
structure Shot where
  player : PlayerId
  index : Nat
  bullet : Bullet
deriving DecidableEq, Repr

/-- The bullets tested. -/
def shots (acts : List (PlayerId × Act)) : List Shot :=
  acts.filterMap fun
    | (p, .shot index bullet) => some ⟨p, index, bullet⟩
    | _ => none

@[simp] theorem shots_nil : shots [] = [] :=
  rfl

@[simp] theorem shots_append : shots (acts ++ acts') = shots acts ++ shots acts' :=
  List.filterMap_append

theorem shots_cons_shot (p : PlayerId) (index : Nat) (bullet : Bullet) :
    shots ((p, .shot index bullet) :: acts) = ⟨p, index, bullet⟩ :: shots acts :=
  rfl

/-- Lines that test no bullet. -/
theorem shots_map_eq_nil {lines : List Act} (h : ∀ i b, .shot i b ∉ lines) :
    shots (lines.map (p, ·)) = [] := by
  induction lines with
  | nil => rfl
  | cons line lines ih =>
    have htail : shots (lines.map (p, ·)) = [] := ih fun i b hmem => h i b (by simp [hmem])
    cases line with
    | shot i b => exact absurd (by simp) (h i b)
    | _ => simpa [shots] using htail

@[simp] theorem player_setPlayer (g : Game) (p : PlayerId) (player : Player) :
    (g.setPlayer p player).player p = player := by
  cases p <;> rfl

theorem player_setPlayer_of_ne (g : Game) (h : q ≠ p) (player : Player) :
    (g.setPlayer p player).player q = g.player q := by
  cases p <;> cases q <;> first | rfl | exact absurd rfl h

@[simp] theorem player_setPlayer_other (g : Game) (p : PlayerId) (player : Player) :
    (g.setPlayer p player).player p.other = g.player p.other :=
  player_setPlayer_of_ne g (PlayerId.other_ne p) player

@[simp] theorem player_other_setPlayer (g : Game) (p : PlayerId) (player : Player) :
    (g.setPlayer p.other player).player p = g.player p :=
  player_setPlayer_of_ne g (PlayerId.ne_other p) player

@[simp] theorem bullets_setPlayer (g : Game) (p : PlayerId) (player : Player) :
    (g.setPlayer p player).bullets = g.bullets := by
  cases p <;> rfl

@[simp] theorem player_setBullets (g : Game) (bullets : List Bullet) (p : PlayerId) :
    (g.setBullets bullets).player p = g.player p := by
  cases p <;> rfl

@[simp] theorem player_setSkipTurn (g : Game) (b : Bool) (p : PlayerId) :
    (g.setSkipTurn b).player p = g.player p := by
  cases p <;> rfl

@[simp] theorem player_closeWindow (g : Game) (p : PlayerId) :
    g.closeWindow.player p = g.player p := by
  cases p <;> rfl

@[simp] theorem bullets_closeWindow (g : Game) : g.closeWindow.bullets = g.bullets :=
  rfl

@[simp] theorem bullets_setBullets (g : Game) (bullets : List Bullet) :
    (g.setBullets bullets).bullets = bullets :=
  rfl

@[simp] theorem bullets_setSkipTurn (g : Game) (b : Bool) : (g.setSkipTurn b).bullets = g.bullets :=
  rfl

/-- The event is the press of a player's key, and its handler runs. -/
def Fires (g : Game) (e : Event) (p : PlayerId) : Prop :=
  e = .keyPressed p.key ∧ (g.player p).isTurn = true ∧ g.skipTurn = false

/-- What the shot of a player changes, when it tests `bullet`. -/
structure TookShot (g : Game) (p : PlayerId) (bullet : Bullet) (g' : Game)
    (acts : List (PlayerId × Act)) : Prop where
  tested : g.bullets[(g.player p).turn]? = some bullet
  shooter : g'.player p =
    { name := (g.player p).name
      health := Player.afterItem (Player.afterBullet (g.player p).health bullet)
        (g.player p).items.getLast?
      isTurn := !(g.player p).isTurn
      turn := ((g.player p).turn + 1) % g.bullets.length
      items := (g.player p).items.dropLast }
  opponent : g'.player p.other = (g.player p.other).toggleTurn
  bullets : g'.bullets =
    if (g.player p).items.getLast? = some .COIN then g.bullets.dropLast else g.bullets
  skipTurn : g'.skipTurn = false
  shots : shots acts = [⟨p, (g.player p).turn, bullet⟩]

/-- A shot in range has an outcome. -/
theorem takeShot_of_tested (h : g.bullets[(g.player p).turn]? = some bullet) :
    ∃ g' acts, g.takeShot p = some (g', acts) ∧ TookShot g p bullet g' acts := by
  obtain ⟨lines, hshot, hlines⟩ := Player.shootBullet_spec h
  obtain ⟨used, huse, hused⟩ := Player.useItem_spec
    { g.player p with
      health := Player.afterBullet (g.player p).health bullet
      turn := ((g.player p).turn + 1) % g.bullets.length } g.bullets
  simp only [takeShot, shootBullet, hshot, useItem, player_setPlayer, bullets_setPlayer, huse]
  refine ⟨_, _, rfl, ?_⟩
  constructor
  · exact h
  · simp [toggleTurn, Player.toggleTurn]
  · simp [toggleTurn]
  · simp [toggleTurn]
  · rfl
  · rw [List.map_cons, List.cons_append, shots_cons_shot, shots_append, shots_map_eq_nil hlines,
      shots_map_eq_nil hused]
    rfl

/-- A shot has no outcome exactly if it is out of range. -/
theorem takeShot_eq_none_iff : g.takeShot p = none ↔ g.bullets.length ≤ (g.player p).turn := by
  rw [← List.getElem?_eq_none_iff]
  rcases htested : g.bullets[(g.player p).turn]? with - | bullet
  · have hnone : (g.player p).shootBullet g.bullets = none :=
      Player.shootBullet_eq_none_iff.2 (List.getElem?_eq_none_iff.1 htested)
    simp [takeShot, shootBullet, hnone]
  · obtain ⟨g', acts, hshot, -⟩ := takeShot_of_tested htested
    simp [hshot]

theorem takeShot_eq_some (h : g.takeShot p = some (g', acts)) :
    ∃ bullet, TookShot g p bullet g' acts := by
  have hne : ¬g.bullets.length ≤ (g.player p).turn := fun hle => by
    rw [takeShot_eq_none_iff.2 hle] at h
    cases h
  obtain ⟨g₁, acts₁, hshot, htook⟩ :=
    takeShot_of_tested (List.getElem?_eq_getElem (Nat.not_le.1 hne))
  rw [hshot] at h
  cases h
  exact ⟨_, htook⟩

/-- The handlers of a press that is a shot. -/
theorem handleEvent_of_fires (h : Fires g e p) : g.handleEvent e = g.takeShot p := by
  obtain ⟨rfl, hturn, hskip⟩ := h
  cases p with
  | player1 =>
    have hfirst : g.onKey PlayerId.player1.key .player1 = g.takeShot .player1 :=
      if_pos ⟨rfl, hturn, hskip⟩
    have hsecond : ∀ g₁ : Game, g₁.onKey PlayerId.player1.key .player2 = some (g₁, []) :=
      fun _ => if_neg fun hand => by simpa using PlayerId.key_inj.1 hand.1
    rcases hshot : g.takeShot .player1 with - | ⟨g₁, acts⟩ <;>
      simp [handleEvent, hfirst, hsecond, hshot]
  | player2 =>
    have hfirst : g.onKey PlayerId.player2.key .player1 = some (g, []) :=
      if_neg fun hand => by simpa using PlayerId.key_inj.1 hand.1
    have hsecond : g.onKey PlayerId.player2.key .player2 = g.takeShot .player2 :=
      if_pos ⟨rfl, hturn, hskip⟩
    rcases hshot : g.takeShot .player2 with - | ⟨g₁, acts⟩ <;>
      simp [handleEvent, hfirst, hsecond, hshot]

/-- Any other event changes at most whether the window is open. -/
theorem handleEvent_of_not_fires (h : ∀ p, ¬Fires g e p) :
    g.handleEvent e = some (if e = .closed then g.closeWindow else g, []) := by
  cases e with
  | closed => rfl
  | other => rfl
  | keyPressed code =>
    have hkey : ∀ p, g.onKey code p = some (g, []) := fun p =>
      if_neg fun hand => h p ⟨congrArg _ hand.1, hand.2⟩
    simp [handleEvent, hkey]

/-- Closing the window changes no player. -/
theorem player_of_idle (h : g' = g ∨ g' = g.closeWindow) (p : PlayerId) :
    g'.player p = g.player p := by
  rcases h with rfl | rfl
  · rfl
  · exact player_closeWindow g p

theorem bullets_of_idle (h : g' = g ∨ g' = g.closeWindow) : g'.bullets = g.bullets := by
  rcases h with rfl | rfl <;> rfl

theorem skipTurn_of_idle (h : g' = g ∨ g' = g.closeWindow) : g'.skipTurn = g.skipTurn := by
  rcases h with rfl | rfl <;> rfl

/-- What an event does. -/
theorem handleEvent_cases (h : g.handleEvent e = some (g', acts)) :
    (∃ p bullet, Fires g e p ∧ TookShot g p bullet g' acts) ∨
      ((∀ p, ¬Fires g e p) ∧ (g' = g ∨ g' = g.closeWindow) ∧ acts = []) := by
  by_cases hfires : ∃ p, Fires g e p
  · obtain ⟨p, hp⟩ := hfires
    rw [handleEvent_of_fires hp] at h
    obtain ⟨bullet, htook⟩ := takeShot_eq_some h
    exact Or.inl ⟨p, bullet, hp, htook⟩
  · have hnone := not_exists.1 hfires
    rw [handleEvent_of_not_fires hnone] at h
    refine Or.inr ⟨hnone, ?_, by cases h; rfl⟩
    split_ifs at h with he <;> cases h
    exacts [Or.inr rfl, Or.inl rfl]

/-- An event has no outcome only where it is a shot out of range. -/
theorem exists_handleEvent (h : ∀ p, Fires g e p → (g.player p).turn < g.bullets.length) :
    ∃ g' acts, g.handleEvent e = some (g', acts) := by
  by_cases hfires : ∃ p, Fires g e p
  · obtain ⟨p, hp⟩ := hfires
    obtain ⟨g', acts, hshot, -⟩ := takeShot_of_tested (List.getElem?_eq_getElem (h p hp))
    exact ⟨g', acts, (handleEvent_of_fires hp).trans hshot⟩
  · exact ⟨_, _, handleEvent_of_not_fires (not_exists.1 hfires)⟩

end

end Game

end DesperateStruggle
