import DesperateStruggle.CString
import Mathlib.Data.Fintype.Defs
import Mathlib.Data.Finset.Insert

/-!
# What the two programs say to each other

A client asks with `CREATE <password>\n` or `JOIN <password>\n` (`main.cpp:456`, `464`).
`ServerMessage` is the server's side : each literal that `handleClient` sends, cut at the
byte count it passes to `send` (`ServerMessage.bytes`). The count of `COUNTDOWN\n` is one
too high, so the terminating NUL goes out with it, and the result is sent without a
newline.
-/

open CString

namespace DesperateStruggle

/-! ## Requests -/

/-- The literal `"CREATE"` that `handleClient` looks for. -/
def CREATE : List Byte :=
  ascii "CREATE"

/-- The literal `"JOIN"` that `handleClient` looks for. -/
def JOIN : List Byte :=
  ascii "JOIN"

/-- `"CREATE " + password + "\n"`. -/
def createRequest (password : List Byte) : List Byte :=
  ascii "CREATE " ++ password ++ ascii "\n"

/-- `"JOIN " + password + "\n"`. -/
def joinRequest (password : List Byte) : List Byte :=
  ascii "JOIN " ++ password ++ ascii "\n"

/-! ## Answers -/

/-- A message of the server. -/
inductive ServerMessage
  | WAIT
  | EXIST
  | FULL
  | COUNTDOWN
  | START
  | YOUR_TURN
  | OPPONENT_TURN
  | player1Wins
  | player2Wins
deriving DecidableEq, Repr

instance : Fintype ServerMessage where
  elems := {.WAIT, .EXIST, .FULL, .COUNTDOWN, .START, .YOUR_TURN, .OPPONENT_TURN, .player1Wins,
    .player2Wins}
  complete m := by cases m <;> decide

namespace ServerMessage

/-- The literal behind a message. -/
def literal : ServerMessage → String
  | WAIT => "WAIT\n"
  | EXIST => "EXIST\n"
  | FULL => "FULL\n"
  | COUNTDOWN => "COUNTDOWN\n"
  | START => "START\n"
  | YOUR_TURN => "YOUR_TURN\n"
  | OPPONENT_TURN => "OPPONENT_TURN\n"
  | player1Wins => "Player 1 wins!"
  | player2Wins => "Player 2 wins!"

/-- The byte count passed to `send`. The results pass `result.length()`. -/
def count : ServerMessage → Nat
  | WAIT => 5
  | EXIST => 6
  | FULL => 5
  | COUNTDOWN => 11
  | START => 6
  | YOUR_TURN => 10
  | OPPONENT_TURN => 14
  | player1Wins => (ascii player1Wins.literal).length
  | player2Wins => (ascii player2Wins.literal).length

/-- What goes over the wire : the first `count` bytes of the literal and its NUL. -/
def bytes (m : ServerMessage) : List Byte :=
  (ascii m.literal ++ [0]).take m.count

example : COUNTDOWN.bytes = ascii "COUNTDOWN\n" ++ [0] := by decide

/-- The wire form of a message tells it from every other. -/
theorem bytes_injective : Function.Injective bytes := by
  unfold Function.Injective
  decide

/-- Every message fits a receive buffer with room to spare. -/
theorem length_bytes_lt (m : ServerMessage) : m.bytes.length < 1024 := by
  revert m
  decide

end ServerMessage

end DesperateStruggle
