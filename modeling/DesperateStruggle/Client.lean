import DesperateStruggle.Protocol

/-!
# The client

`Flags` are the flags of `main` (`main.cpp:371-381`), which the window loop and the
`listenServer` thread share. `onMessage` is the body of `listenServer` on one received
message, `listenServer` the thread on the chunks it receives. `Client.handleEvent` is the
body of `main`'s event loop on one window event (`main.cpp:413-490`). The click on the join
button sends the request and then waits in a `recv` of its own, whose return is
`Client.joinReply`.

The listener reads into a zeroed buffer, the join click into one that still holds whatever
was on the stack.
-/

open CString

namespace DesperateStruggle

namespace Client

/-! ## The screens -/

/-- `WINDOW_WIDTH`. -/
def windowWidth : Int := 1200

/-- `WINDOW_HEIGHT`. -/
def windowHeight : Int := 800

/-- The rectangle of a `Button`. -/
structure Button where
  x : Int
  y : Int
  width : Int
  height : Int
deriving DecidableEq, Repr

/-- `Button::isClicked`. -/
def Button.isClicked (b : Button) (mousePos : Int × Int) : Bool :=
  b.x ≤ mousePos.1 && mousePos.1 < b.x + b.width && b.y ≤ mousePos.2 &&
    mousePos.2 < b.y + b.height

/-- The start button of `TitleScreen`. -/
def startButton : Button :=
  ⟨windowWidth / 2 - 100, windowHeight / 2, 200, 50⟩

/-- The create button of `ChoiceRoomScreen`. -/
def chooseCreateButton : Button :=
  ⟨windowWidth / 2 - 200, windowHeight / 2, 150, 50⟩

/-- The join button of `ChoiceRoomScreen`. -/
def chooseJoinButton : Button :=
  ⟨windowWidth / 2 + 50, windowHeight / 2, 150, 50⟩

/-- The button of `CreateRoomScreen`. -/
def createButton : Button :=
  ⟨windowWidth / 2 - 100, windowHeight / 2 + 100, 200, 50⟩

/-- The button of `JoinRoomScreen`. -/
def joinButton : Button :=
  ⟨windowWidth / 2 - 100, windowHeight / 2 + 100, 200, 50⟩

/-- A text field : a backspace on a non-empty password removes its last character, any other
character is appended if the screen accepts it, cast to `char`. -/
def editPassword (accepts : UInt32 → Bool) (password : List Byte) (unicode : UInt32) :
    List Byte :=
  if unicode = 8 ∧ password ≠ [] then password.dropLast
  else if accepts unicode then password ++ [unicode.toUInt8]
  else password

/-- The filter of `CreateRoomScreen` : ASCII and Hangul syllables. -/
def createAccepts (unicode : UInt32) : Bool :=
  unicode < 128 || 44032 ≤ unicode && unicode ≤ 55203

/-- `isalnum` of an ASCII code. -/
def isalnum (c : UInt32) : Bool :=
  48 ≤ c && c ≤ 57 || 65 ≤ c && c ≤ 90 || 97 ≤ c && c ≤ 122

/-- The filter of `JoinRoomScreen`. -/
def joinAccepts (unicode : UInt32) : Bool :=
  unicode < 128 && isalnum unicode

/-! ## The flags -/

/-- The flags of `main`, as it initialises them. -/
structure Flags where
  isTitleScreen : Bool := true
  isChoiceRoom : Bool := false
  isCreateRoom : Bool := false
  isJoinRoom : Bool := false
  isWaitingScreen : Bool := false
  isCountdown : Bool := false
  isGameStart : Bool := false
  isPlayerTurn : Bool := true
  bulletData : List Byte := ascii "Empty: 3, Live: 2"
  countdownTime : Int := 0
deriving DecidableEq, Repr

/-- The body of `listenServer` on a message, with whether the loop goes on. -/
def onMessage (f : Flags) (message : List Byte) : Flags × Bool :=
  if message = ascii "WAIT\n" then ({ f with isWaitingScreen := true }, true)
  else if message = ascii "START\n" then ({ f with isGameStart := true }, false)
  else if startsWith message (ascii "BULLETS\n") then
    ({ f with bulletData := message.drop 8 }, true)
  else if message = ascii "TURN:YOU\n" then ({ f with isPlayerTurn := true }, true)
  else if message = ascii "TURN:RIVER\n" then ({ f with isPlayerTurn := false }, true)
  else (f, true)

/-- `listenServer` on the chunks it receives, up to its return. -/
def listenServer (beyond : List Byte) (f : Flags) : List (List Byte) → Flags
  | [] => f
  | chunk :: chunks =>
    match onMessage f (bufferString (zeros 1024) beyond chunk) with
    | (f, true) => listenServer beyond f chunks
    | (f, false) => f

/-! ## The program -/

/-- A window event, as far as `main` looks at it. -/
inductive Event
  | closed
  | textEntered (unicode : UInt32)
  | leftPressed
  | other
deriving DecidableEq, Repr

end Client

/-- A running client : the flags, the two password fields, whether the window is open, whether
`main` waits for the answer to a `JOIN`, and whether `listenServer` still runs. -/
structure Client where
  flags : Client.Flags := {}
  createPassword : List Byte := []
  joinPassword : List Byte := []
  windowOpen : Bool := true
  joining : Bool := false
  listening : Bool := true
deriving DecidableEq, Repr

namespace Client

/-- The keyboard part of the event loop. -/
def handleInput (cl : Client) (e : Event) : Client :=
  match e with
  | .textEntered unicode =>
    if cl.flags.isCreateRoom then
      { cl with createPassword := editPassword createAccepts cl.createPassword unicode }
    else if cl.flags.isJoinRoom then
      { cl with joinPassword := editPassword joinAccepts cl.joinPassword unicode }
    else cl
  | _ => cl

/-- A left click, with the request it sends. -/
def click (cl : Client) (mousePos : Int × Int) : Client × List (List Byte) :=
  if cl.flags.isTitleScreen && startButton.isClicked mousePos then
    ({ cl with
        flags := { cl.flags with isTitleScreen := false, isChoiceRoom := true }
        createPassword := []
        joinPassword := [] }, [])
  else if cl.flags.isChoiceRoom then
    if chooseCreateButton.isClicked mousePos then
      ({ cl with
          flags := { cl.flags with isChoiceRoom := false, isCreateRoom := true }
          createPassword := [] }, [])
    else if chooseJoinButton.isClicked mousePos then
      ({ cl with
          flags := { cl.flags with isChoiceRoom := false, isJoinRoom := true }
          joinPassword := [] }, [])
    else (cl, [])
  else if cl.flags.isCreateRoom then
    if createButton.isClicked mousePos && !cl.createPassword.isEmpty then
      ({ cl with flags := { cl.flags with isCreateRoom := false, isWaitingScreen := true } },
        [createRequest cl.createPassword])
    else (cl, [])
  else if cl.flags.isJoinRoom then
    if joinButton.isClicked mousePos && !cl.joinPassword.isEmpty then
      ({ cl with joining := true }, [joinRequest cl.joinPassword])
    else (cl, [])
  else (cl, [])

/-- The body of the event loop, with the request it sends. -/
def handleEvent (cl : Client) (e : Event) (mousePos : Int × Int) : Client × List (List Byte) :=
  let cl := if e = .closed then { cl with windowOpen := false } else cl
  let cl := cl.handleInput e
  if e = .leftPressed then cl.click mousePos else (cl, [])

/-- The rest of the join click, on the answer it read. -/
def joinReply (cl : Client) (serverMessage : List Byte) : Client :=
  if serverMessage = ascii "WAIT\n" then
    { cl with
      flags := { cl.flags with isJoinRoom := false, isWaitingScreen := true }
      joining := false }
  else { cl with joining := false }

/-- The listener takes a message. -/
def listen (cl : Client) (message : List Byte) : Client :=
  { cl with
    flags := (onMessage cl.flags message).1
    listening := (onMessage cl.flags message).2 }

/-! ## What a message of the server does -/

/-- What the listener makes of the server's messages : it knows `WAIT` and `START`, and no
message of the server is one of those it knows besides. -/
theorem onMessage_bytes (f : Flags) (m : ServerMessage) (beyond : List Byte) :
    onMessage f (bufferString (zeros 1024) beyond m.bytes) =
      if m = .WAIT then ({ f with isWaitingScreen := true }, true)
      else if m = .START then ({ f with isGameStart := true }, false)
      else (f, true) := by
  rw [bufferString_zeros m.length_bytes_lt]
  have hwait : ∀ m : ServerMessage, cstr m.bytes = ascii "WAIT\n" ↔ m = .WAIT := by decide
  have hstart : ∀ m : ServerMessage, cstr m.bytes = ascii "START\n" ↔ m = .START := by decide
  have hbullets : ∀ m : ServerMessage, startsWith (cstr m.bytes) (ascii "BULLETS\n") = false := by
    decide
  have hyou : ∀ m : ServerMessage, cstr m.bytes ≠ ascii "TURN:YOU\n" := by decide
  have hriver : ∀ m : ServerMessage, cstr m.bytes ≠ ascii "TURN:RIVER\n" := by decide
  simp only [onMessage, hwait, hstart, hbullets, hyou, hriver, if_false, Bool.false_eq_true]

/-- The join click takes `WAIT` for an acceptance only if it is one. -/
theorem eq_wait_of_bufferString {m : ServerMessage} {buffer beyond : List Byte}
    (h : bufferString buffer beyond m.bytes = ascii "WAIT\n") : m = .WAIT := by
  have hstart : cstr m.bytes <+: ascii "WAIT\n" := by
    rw [← h]
    exact cstr_prefix_bufferString buffer beyond m.bytes
  have honly : ∀ m : ServerMessage, cstr m.bytes <+: ascii "WAIT\n" → m = .WAIT := by decide
  exact honly m hstart

end Client

end DesperateStruggle
