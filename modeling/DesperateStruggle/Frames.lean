import DesperateStruggle.Decimal
import DesperateStruggle.Loading
import DesperateStruggle.Turns
import Mathlib.Data.List.DropRight

/-!
# What the window of the game shows

The rest of the class `Game` : `update`, which sets the texts that `render` draws, and the loop
of `run`, a round of which is `handleEvents` on the events that are waiting and then a `Frame`.
The rounds are a machine, `display`. It emits what the players do and the frames, in order
(`Seen`), and its runs are runs of the game (`Shown`).

A frame is no less than the healths, the numbers of bullets of both types and the name of the
player on turn (`update_eq_iff`). The healths and the bullets of a frame are the ones that follow
from the lines printed before it (`frame_eq_told`). Where exactly one player is on turn, the
player that the frame names is the one that shoots next (`shooter_eq_named`). But the constructor
sets no player on turn and nothing calls `setTurnForPlayer` : a game that is only made and run
draws one frame, over and over (`frames_of_create`).
-/

open CString

namespace DesperateStruggle

namespace Game

/-! ## Frames -/

/-- The texts that `render` draws. -/
structure Frame where
  turnText : List Byte
  healthText1 : List Byte
  healthText2 : List Byte
  bulletInfoText : List Byte
deriving DecidableEq, Repr

/-- `healthText`, for a health and the other. -/
def healthText (health other : Int32) : List Byte :=
  ascii "Health: " ++ (Decimal.text health.toInt ++ (ascii " / " ++ Decimal.text other.toInt))

/-- `bulletInfo`. -/
def bulletInfo (bullets : List Bullet) : List Byte :=
  ascii "Bullets: " ++ (ascii "Empty: " ++ (Decimal.text (bullets.count .EMPTY) ++
    (ascii " Live: " ++ Decimal.text (bullets.count .LIVE))))

/-- The string of `turnText`, for a name. -/
def turnString (name : List Byte) : List Byte :=
  ascii "Turn: " ++ name

/-- The player that `turnText` names. -/
def shownTurn (g : Game) : PlayerId :=
  if g.player1.isTurnActive = true then .player1 else .player2

/-- The texts that `update` sets. -/
def update (g : Game) : Frame where
  turnText := turnString (g.player g.shownTurn).name
  healthText1 := healthText g.player1.health g.player2.health
  healthText2 := healthText g.player2.health g.player1.health
  bulletInfoText := bulletInfo g.bullets

section

variable {g g' : Game} {p q : PlayerId}

theorem healthText_inj {a b c d : Int32} : healthText a b = healthText c d ↔ a = c ∧ b = d := by
  rw [healthText, healthText, List.append_cancel_left_eq, Decimal.text_append_inj rfl,
    Decimal.text_injective.eq_iff, Int32.toInt_inj, Int32.toInt_inj]

theorem bulletInfo_inj {bullets bullets' : List Bullet} :
    bulletInfo bullets = bulletInfo bullets' ↔ ∀ b, bullets.count b = bullets'.count b := by
  rw [bulletInfo, bulletInfo, List.append_cancel_left_eq, List.append_cancel_left_eq,
    Decimal.text_append_inj rfl, Decimal.text_injective.eq_iff, Int.natCast_inj, Int.natCast_inj]
  refine ⟨fun ⟨hempty, hlive⟩ b => ?_, fun h => ⟨h .EMPTY, h .LIVE⟩⟩
  cases b
  exacts [hempty, hlive]

/-- Two games look the same exactly if both players have the same health in both, there are as
many bullets of each type, and the player shown on turn has the same name. -/
theorem update_eq_iff : g.update = g'.update ↔
    (∀ p, (g.player p).health = (g'.player p).health) ∧
      (∀ b, g.bullets.count b = g'.bullets.count b) ∧
      (g.player g.shownTurn).name = (g'.player g'.shownTurn).name := by
  rw [update, update, Frame.mk.injEq, healthText_inj, healthText_inj, bulletInfo_inj, turnString,
    turnString, List.append_cancel_left_eq, PlayerId.forall_iff .player1]
  constructor
  · rintro ⟨hname, ⟨hfirst, hsecond⟩, -, hbullets⟩
    exact ⟨⟨hfirst, hsecond⟩, hbullets, hname⟩
  · rintro ⟨⟨hfirst, hsecond⟩, hbullets, hname⟩
    exact ⟨hname, ⟨hfirst, hsecond⟩, ⟨hsecond, hfirst⟩, hbullets⟩

/-- Where exactly one player is on turn, it is shown. -/
theorem OnTurn.shownTurn (h : OnTurn g p) : g.shownTurn = p := by
  have hfirst : g.player1.isTurnActive = true ↔ PlayerId.player1 = p := h .player1
  rw [Game.shownTurn]
  cases p with
  | player1 => exact if_pos (hfirst.2 rfl)
  | player2 => exact if_neg fun hturn => by simpa using hfirst.1 hturn

end

/-! ## Rounds -/

/-- `handleEvents`, on the events that `pollEvent` returns. -/
def handleEvents (g : Game) : List Event → Option (Game × List (PlayerId × Act))
  | [] => some (g, [])
  | e :: es =>
    match g.handleEvent e with
    | none => none
    | some (g, acts) =>
      match g.handleEvents es with
      | none => none
      | some (g, acts') => some (g, acts ++ acts')

/-- What can be seen of a game. -/
inductive Seen
  /-- A player does something. -/
  | act (act : PlayerId × Act)
  /-- `render` draws a frame. -/
  | frame (frame : Frame)
deriving DecidableEq, Repr

/-- What the players do. -/
def acts (seen : List Seen) : List (PlayerId × Act) :=
  seen.filterMap fun
    | .act a => some a
    | .frame _ => none

/-- The game under the rounds of `run`, each with its events. -/
def display : Machine Game (List Event) Seen where
  step g es :=
    if g.windowOpen = true then
      match g.handleEvents es with
      | none => none
      | some (g, acts) => some (g, acts.map .act ++ [.frame g.update])
    else none

section

variable {g g' t : Game} {p q : PlayerId} {es : List Event} {rounds : List (List Event)}
  {o seen before after : List Seen} {done done' : List (PlayerId × Act)} {f : Frame}

@[simp] theorem acts_append : acts (before ++ after) = acts before ++ acts after :=
  List.filterMap_append

@[simp] theorem acts_map (done : List (PlayerId × Act)) : acts (done.map .act) = done := by
  induction done with
  | nil => rfl
  | cons a done ih =>
    rw [List.map_cons, acts, List.filterMap_cons]
    exact congrArg (a :: ·) ih

@[simp] theorem acts_frame (f : Frame) : acts [.frame f] = [] :=
  rfl

/-- The events of a round are a run of the game. -/
theorem run_of_handleEvents (h : g.handleEvents es = some (g', done)) :
    machine.Run g (es.map .event) done g' := by
  induction es generalizing g done with
  | nil =>
    cases h
    exact .nil
  | cons e es ih =>
    rw [handleEvents] at h
    split at h
    · cases h
    · next g₁ first hevent =>
      split at h
      · cases h
      · next g₂ rest hrest =>
        cases h
        exact (ih hrest).head hevent

/-- What a round is. -/
theorem display_cases (h : display.step g es = some (g', o)) :
    g.windowOpen = true ∧ ∃ done, machine.Run g (es.map .event) done g' ∧
      o = done.map .act ++ [.frame g'.update] := by
  have hround := h
  simp only [display] at hround
  split at hround
  · next hopen =>
    split at hround
    · cases hround
    · next g₁ done hevents =>
      cases hround
      exact ⟨hopen, done, run_of_handleEvents hevents, rfl⟩
  · cases hround

/-- The rounds are a run of the game, which does what is seen of it. -/
theorem run_of_rounds (h : display.Run g rounds seen g') :
    machine.Run g (rounds.flatten.map .event) (acts seen) g' := by
  induction h with
  | nil => exact .nil
  | snoc _ hstep ih =>
    obtain ⟨-, done, hrun, rfl⟩ := display_cases hstep
    simpa using ih.trans hrun

/-- A frame is none of the things that the players do. -/
theorem exists_of_frame_append_acts
    (h : before ++ .frame f :: after = seen ++ done.map .act) :
    ∃ after', seen = before ++ .frame f :: after' ∧ after = after' ++ done.map .act := by
  have hnot : .frame f ∉ done.map Seen.act := by simp
  rcases List.append_eq_append_iff.1 h with ⟨middle, hseen, hrest⟩ | ⟨middle, -, hacts⟩
  · cases middle with
    | nil =>
      have hacts : done.map .act = .frame f :: after := hrest.symm
      exact (hnot (hacts ▸ List.mem_cons_self)).elim
    | cons s after' =>
      obtain ⟨rfl, rfl⟩ := List.cons.inj hrest
      exact ⟨after', hseen, rfl⟩
  · exact (hnot (by simp [hacts])).elim

/-- A frame is drawn after some rounds, before the others. -/
theorem exists_rounds_of_frame (h : display.Run g rounds (before ++ .frame f :: after) g') :
    ∃ rounds₁ rounds₂ g₁, display.Run g rounds₁ (before ++ [.frame f]) g₁ ∧
      display.Run g₁ rounds₂ after g' ∧ f = g₁.update := by
  generalize hseen : before ++ .frame f :: after = seen at h
  induction h generalizing after with
  | nil => simp at hseen
  | @snoc rounds seen t es o g' hrun hstep ih =>
    obtain ⟨-, done, -, rfl⟩ := display_cases hstep
    rcases after.eq_nil_or_concat with rfl | ⟨after, last, rfl⟩
    · -- It is the frame of the last round.
      have hlast : before ++ [.frame f] = (seen ++ done.map .act) ++ [.frame g'.update] := by
        simpa using hseen
      obtain ⟨rfl, hframe⟩ := List.append_inj' hlast rfl
      obtain rfl : f = g'.update := by simpa using hframe
      exact ⟨_, [], g', by simpa using hrun.snoc hstep, .nil, rfl⟩
    · -- It is one of the rounds before.
      have hinit : (before ++ .frame f :: after) ++ [last] =
          (seen ++ done.map .act) ++ [.frame g'.update] := by simpa using hseen
      obtain ⟨hmiddle, hframe⟩ := List.append_inj' hinit rfl
      obtain rfl : last = .frame g'.update := by simpa using hframe
      obtain ⟨after', rfl, rfl⟩ := exists_of_frame_append_acts hmiddle
      obtain ⟨rounds₁, rounds₂, g₁, hrun₁, hrun₂, hf⟩ := ih rfl
      refine ⟨rounds₁, rounds₂ ++ [es], g₁, hrun₁, ?_, hf⟩
      simpa using hrun₂.snoc hstep

end

/-! ## What the lines tell -/

/-- The health that a line tells. -/
def told : Act → Option Int32
  | .hit health => some health
  | .healed health => some health
  | _ => none

/-- The health of a player after some of the lines of both, from the health before them. -/
def toldHealth (health : Int32) (p : PlayerId) (done : List (PlayerId × Act)) : Int32 :=
  ((done.filterMap fun a => if a.1 = p then told a.2 else none).getLast?).getD health

/-- How many coins the lines tell of. -/
def toldCoins (done : List (PlayerId × Act)) : Nat :=
  done.countP fun a => a.2 = .coin

/-- The healths and the bullets after what the players did follow from the lines it printed, and
the names are what they were. -/
structure Told (g : Game) (done : List (PlayerId × Act)) (g' : Game) : Prop where
  health : ∀ p, (g'.player p).health = toldHealth (g.player p).health p done
  bullets : g'.bullets = g.bullets.rdrop (toldCoins done)
  name : ∀ p, (g'.player p).name = (g.player p).name

section

variable {g g' g'' : Game} {p q : PlayerId} {e : Event} {l : Label} {ls : List Label}
  {done done' : List (PlayerId × Act)} {lines : List Act} {player : Player}

theorem toldHealth_append (health : Int32) (p : PlayerId) (done done' : List (PlayerId × Act)) :
    toldHealth health p (done ++ done') = toldHealth (toldHealth health p done) p done' := by
  simp [toldHealth, List.filterMap_append, List.getLast?_append, Option.getD_or]

theorem toldHealth_map_self (health : Int32) (p : PlayerId) (lines : List Act) :
    toldHealth health p (lines.map (p, ·)) = ((lines.filterMap told).getLast?).getD health := by
  simp [toldHealth, List.filterMap_map]

theorem toldHealth_map_of_ne (h : q ≠ p) (health : Int32) (lines : List Act) :
    toldHealth health q (lines.map (p, ·)) = health := by
  simp [toldHealth, List.filterMap_map, h.symm]

theorem toldCoins_append (done done' : List (PlayerId × Act)) :
    toldCoins (done ++ done') = toldCoins done + toldCoins done' :=
  List.countP_append

theorem toldCoins_map (p : PlayerId) (lines : List Act) :
    toldCoins (lines.map (p, ·)) = lines.count .coin := by
  rw [toldCoins, List.countP_map, List.count]
  exact List.countP_congr fun act _ => by simp

/-- Two ways of taking bullets from the end. -/
theorem rdrop_rdrop {α : Type*} (l : List α) (m n : Nat) :
    (l.rdrop m).rdrop n = l.rdrop (m + n) := by
  simp [List.rdrop_eq_reverse_drop_reverse]

/-- Nothing was done. -/
theorem Told.of_same (hplayers : ∀ p, (g'.player p).health = (g.player p).health ∧
    (g'.player p).name = (g.player p).name) (hbullets : g'.bullets = g.bullets) : Told g [] g' where
  health p := (hplayers p).1
  bullets := by rw [hbullets, toldCoins, List.countP_nil, List.rdrop_zero]
  name p := (hplayers p).2

theorem Told.trans (h : Told g done g') (h' : Told g' done' g'') : Told g (done ++ done') g'' where
  health p := by rw [toldHealth_append, ← h.health p, h'.health p]
  bullets := by rw [toldCoins_append, ← rdrop_rdrop, ← h.bullets, h'.bullets]
  name p := (h'.name p).trans (h.name p)

/-- What one player did. -/
theorem Told.of_player
    (hhealth : (g'.player p).health = ((lines.filterMap told).getLast?).getD (g.player p).health)
    (hname : (g'.player p).name = (g.player p).name)
    (hother : g'.player p.other = g.player p.other)
    (hbullets : g'.bullets = g.bullets.rdrop (lines.count .coin)) :
    Told g (lines.map (p, ·)) g' where
  health := by
    refine (PlayerId.forall_iff p).2 ⟨?_, ?_⟩
    · rw [toldHealth_map_self, hhealth]
    · rw [toldHealth_map_of_ne (PlayerId.other_ne p), hother]
  bullets := by rw [toldCoins_map, hbullets]
  name := (PlayerId.forall_iff p).2 ⟨hname, by rw [hother]⟩

/-- A shot tells the health that a `LIVE` leaves. -/
theorem Told.shootBullet (h : g.shootBullet p = some (g', done)) : Told g done g' := by
  rw [Game.shootBullet, Player.shootBullet] at h
  rcases htested : g.bullets[(g.player p).turn]? with - | bullet
  · simp [htested] at h
  · simp only [htested, Option.some.injEq, Prod.mk.injEq] at h
    obtain ⟨rfl, rfl⟩ := h
    refine .of_player ?_ ?_ (player_setPlayer_other _ _ _) ?_
    · cases bullet <;> simp [told, List.findSome?_cons]
    · cases bullet <;> simp
    · cases bullet <;> simp

/-- An item tells the health that a `HEAL` leaves, and of a `COIN` that takes a bullet. -/
theorem Told.useItem (g : Game) (p : PlayerId) : Told g (g.useItem p).2 (g.useItem p).1 := by
  refine .of_player ?_ ?_ ?_ ?_
  all_goals
    simp only [Game.useItem, Player.useItem]
    rcases hitem : (g.player p).items.getLast? with - | item
    · simp
    cases item with
    | HEAL => simp [told, Player.addHealth]
    | MAGNIFY => simp [told, Player.revealBullets]
    | COIN =>
      by_cases hnil : g.bullets = [] <;> simp [told, hnil, List.rdrop, List.dropLast_eq_take]
    | BAN => simp [told]

/-- The turn and `skipTurn` are not told. -/
theorem Told.pass (g : Game) (p : PlayerId) :
    Told g [] (((g.toggleTurn p).toggleTurn p.other).setSkipTurn false) := by
  refine .of_same ((PlayerId.forall_iff p).2 ⟨?_, ?_⟩) ?_ <;> simp [toggleTurn, Player.toggleTurn]

theorem Told.takeShot (h : g.takeShot p = some (g', done)) : Told g done g' := by
  rw [Game.takeShot] at h
  split at h
  · cases h
  · next g₁ shot hshot =>
    cases h
    have hall := (Told.shootBullet hshot).trans ((Told.useItem g₁ p).trans (.pass _ p))
    rwa [List.append_nil] at hall

/-- Everything that happens to a game is told. -/
theorem Told.step (h : machine.step g l = some (g', done)) : Told g done g' := by
  cases l with
  | event e =>
    have hevent : g.handleEvent e = some (g', done) := h
    by_cases hfires : ∃ p, Fires g e p
    · obtain ⟨p, hp⟩ := hfires
      rw [handleEvent_of_fires hp] at hevent
      exact .takeShot hevent
    · rcases handleEvent_cases hevent with ⟨p, -, hp, -⟩ | ⟨-, hidle, rfl⟩
      · exact (hfires ⟨p, hp⟩).elim
      · exact .of_same (fun p => by simp [player_of_idle hidle]) (bullets_of_idle hidle)
  | setTurnForPlayer p turnStatus =>
    cases h
    exact .of_same ((PlayerId.forall_iff p).2 (by simp [setTurnForPlayer]))
      (bullets_setPlayer _ _ _)
  | skipOpponentTurn =>
    cases h
    exact .of_same (fun p => by simp [skipOpponentTurn]) rfl

/-- So is everything that happens in a run. -/
theorem Told.run (h : machine.Run g ls done g') : Told g done g' := by
  refine h.invariant (P := fun t os => Told g os t) (.of_same (fun _ => ⟨rfl, rfl⟩) rfl) ?_
  intro t os l t' o htold hstep
  exact htold.trans (.step hstep)

end

/-! ## What the frames show -/

section

variable {g g' : Game} {p : PlayerId} {rounds : List (List Event)} {seen before after : List Seen}
  {f : Frame}

/-- The healths of a frame are the last ones that the lines before it tell, those of the start
where they tell none, and its bullets are those of the start less one for each coin that the
lines tell of. -/
theorem frame_eq_told (h : display.Run g rounds (before ++ .frame f :: after) g') :
    (∃ health : PlayerId → Int32,
      (∀ p, health p = toldHealth (g.player p).health p (acts before)) ∧
      f.healthText1 = healthText (health .player1) (health .player2) ∧
      f.healthText2 = healthText (health .player2) (health .player1)) ∧
    f.bulletInfoText = bulletInfo (g.bullets.rdrop (toldCoins (acts before))) := by
  obtain ⟨rounds₁, -, g₁, hrun, -, rfl⟩ := exists_rounds_of_frame h
  have htold := Told.run (run_of_rounds hrun)
  rw [acts_append, acts_frame, List.append_nil] at htold
  refine ⟨⟨fun p => (g₁.player p).health, htold.health, rfl, rfl⟩, ?_⟩
  rw [← htold.bullets]
  rfl

/-- From a game in which exactly one player is on turn, a frame names the player that shoots next,
which is the opponent of the one that shot last before it. -/
theorem shooter_eq_named (hready : Ready g p)
    (h : display.Run g rounds (before ++ .frame f :: after) g') :
    ∃ q, f.turnText = turnString (g.player q).name ∧
      q = PlayerId.other^[(shots (acts before)).length] p ∧
      ∀ r ∈ (shooters (acts after)).head?, r = q := by
  obtain ⟨rounds₁, rounds₂, g₁, hrun, hrest, rfl⟩ := exists_rounds_of_frame h
  have hgame := run_of_rounds hrun
  obtain ⟨done, g₂, hrun₂, hready₁, -⟩ := hready.exists_run rounds₁.flatten
  obtain ⟨rfl, rfl⟩ := hgame.det hrun₂
  obtain ⟨done', g₃, hrun₃, -, hshooters⟩ := hready₁.exists_run rounds₂.flatten
  obtain ⟨rfl, -⟩ := (run_of_rounds hrest).det hrun₃
  rw [acts_append, acts_frame, List.append_nil] at hready₁ hshooters
  refine ⟨_, ?_, rfl, fun r hr => ?_⟩
  · rw [← (Told.run hgame).name, ← hready₁.onTurn.shownTurn]
    rfl
  · rw [hshooters] at hr
    cases hcount : (shots (acts after)).length with
    | zero => simp [hcount] at hr
    | succ n =>
      rw [hcount] at hr
      exact (Option.some.inj hr).symm

/-- What is seen of the first shot of the armed game. -/
def firstShot : List Seen :=
  [.act (.player1, .shot 0 .LIVE), .act (.player1, .hit 4), .act (.player1, .revealed 1 1)]

/-- The frame after it. -/
def firstFrame : Frame where
  turnText := ascii "Turn: Opponent"
  healthText1 := ascii "Health: 4 / 5"
  healthText2 := ascii "Health: 5 / 4"
  bulletInfoText := ascii "Bullets: Empty: 1 Live: 1"

/-- Both players press their keys in the second round too, and it is the turn of player 2. -/
theorem display_armed : ∃ after g', display.Run armed
    [[.keyPressed .Up], [.keyPressed .Up, .keyPressed .Down]]
    (firstShot ++ .frame firstFrame :: (.act (.player2, .shot 0 .LIVE) :: after)) g' :=
  ⟨_, _, Machine.run_of_exec rfl⟩

theorem frame_eq_told_armed :
    (∃ health : PlayerId → Int32,
      (∀ p, health p = toldHealth (armed.player p).health p (acts firstShot)) ∧
      firstFrame.healthText1 = healthText (health .player1) (health .player2) ∧
      firstFrame.healthText2 = healthText (health .player2) (health .player1)) ∧
    firstFrame.bulletInfoText = bulletInfo (armed.bullets.rdrop (toldCoins (acts firstShot))) := by
  obtain ⟨after, g', hrun⟩ := display_armed
  exact frame_eq_told hrun

theorem shooter_eq_named_armed : ∃ after, ∃ q,
    firstFrame.turnText = turnString (armed.player q).name ∧
      q = PlayerId.other^[(shots (acts firstShot)).length] .player1 ∧
      ∀ r ∈ (shooters (acts (.act (.player2, .shot 0 .LIVE) :: after))).head?, r = q := by
  obtain ⟨after, g', hrun⟩ := display_armed
  exact ⟨after, shooter_eq_named ready_armed hrun⟩

/-! ## A game that is made and run -/

theorem length_createBullets (rand : Rand) :
    (createBullets rand).1.length = rand 0 % 5 + 4 := by
  have hrepair : ∀ (l : Loader) (n : Nat), (l.repair n).bullets.length = l.bullets.length := by
    intro l n
    simp only [Loader.repair]
    split_ifs <;> simp [Loader.replace]
  rw [createBullets, hrepair, Loader.length_loadAll, List.length_nil, Nat.zero_add]

/-- The first frame of a game. -/
theorem update_create (rand : Rand) : (create rand).update =
    { turnText := ascii "Turn: Opponent"
      healthText1 := ascii "Health: 5 / 5"
      healthText2 := ascii "Health: 5 / 5"
      bulletInfoText :=
        ascii "Bullets: Empty: 1 Live: " ++ Decimal.digits (rand 0 % 5 + 3) } := by
  have hempty := (loaded_createBullets rand).empty
  have hlive : (createBullets rand).1.count .LIVE = rand 0 % 5 + 3 := by
    have hcount := Bullet.count_add_count (createBullets rand).1
    rw [length_createBullets] at hcount
    omega
  have hinfo : bulletInfo (create rand).bullets =
      ascii "Bullets: Empty: 1 Live: " ++ Decimal.digits (rand 0 % 5 + 3) := by
    rw [bulletInfo, create, hempty, hlive]
    rfl
  have hhealth : healthText 5 5 = ascii "Health: 5 / 5" := by decide
  rw [update, hinfo, ← hhealth]
  rfl

/-- Where no player is on turn, events that do not close the window do nothing. -/
theorem handleEvents_of_no_turn (hturn : ∀ p, (g.player p).isTurn = false) {es : List Event}
    (hopen : .closed ∉ es) : g.handleEvents es = some (g, []) := by
  induction es with
  | nil => rfl
  | cons e es ih =>
    have hnone : ∀ p, ¬Fires g e p := fun p ⟨_, htrue, _⟩ => by simp [hturn p] at htrue
    have hne : e ≠ .closed := fun heq => hopen (by simp [heq])
    have hrest := ih fun hmem => hopen (by simp [hmem])
    simp [handleEvents, handleEvent_of_not_fires hnone, hne, hrest]

/-- As long as its window is not closed, a game that is only made and run stays as it was made,
whatever keys are pressed, and each frame is the same : its opponent is on turn. -/
theorem frames_of_create (rand : Rand) (hopen : ∀ es ∈ rounds, .closed ∉ es) :
    display.Run (create rand) rounds
      (List.replicate rounds.length (.frame
        { turnText := ascii "Turn: Opponent"
          healthText1 := ascii "Health: 5 / 5"
          healthText2 := ascii "Health: 5 / 5"
          bulletInfoText :=
            ascii "Bullets: Empty: 1 Live: " ++ Decimal.digits (rand 0 % 5 + 3) }))
      (create rand) := by
  have hturn : ∀ p, ((create rand).player p).isTurn = false := fun p => by cases p <;> rfl
  rw [← update_create]
  induction rounds using List.reverseRecOn with
  | nil => exact .nil
  | append_singleton rounds es ih =>
    have hround : display.step (create rand) es =
        some (create rand, [.frame (create rand).update]) := by
      have hevents := handleEvents_of_no_turn hturn (hopen es (by simp))
      have hwindow : (create rand).windowOpen = true := rfl
      simp [display, hwindow, hevents]
    have hrun := (ih fun es' hes' => hopen es' (by simp [hes'])).snoc hround
    rwa [List.length_append, List.length_singleton, List.replicate_succ']

/-- Both keys are pressed, and nothing happens. -/
theorem frames_of_create_pressed : display.Run (create id)
    [[.keyPressed .Up, .keyPressed .Down], [.other], []]
    (List.replicate 3 (.frame
      { turnText := ascii "Turn: Opponent"
        healthText1 := ascii "Health: 5 / 5"
        healthText2 := ascii "Health: 5 / 5"
        bulletInfoText := ascii "Bullets: Empty: 1 Live: " ++ Decimal.digits (0 % 5 + 3) }))
    (create id) :=
  frames_of_create id (by decide)

end

end Game

end DesperateStruggle
