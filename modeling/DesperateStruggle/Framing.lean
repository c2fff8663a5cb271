import DesperateStruggle.Client
import DesperateStruggle.GameLoop
import DesperateStruggle.Stream

/-!
# The server's messages as a stream

`listenServer` takes whatever a `recv` returns for one message. The messages end in a
newline, but nobody looks for it, and `COUNTDOWN` and the results do not end in it.

A chunk of the server's stream means `WAIT` or `START` to the listener only if it is that
message and nothing else (`onMessage_chunk`) : the NUL that could end the C string early
follows a `COUNTDOWN` only. So the listener reaches the flags that it would reach with a
chunk for each message exactly if the chunks are `Framed` (`listenServer_chunks_iff`).
-/

open CString Stream

namespace DesperateStruggle

namespace Client

/-- The flags that the listener sets are the same. -/
def SameFlags (f g : Flags) : Prop :=
  f.isWaitingScreen = g.isWaitingScreen ∧ f.isGameStart = g.isGameStart ∧
    f.isPlayerTurn = g.isPlayerTurn ∧ f.bulletData = g.bulletData

/-- `START`, if it is sent, comes in a chunk of its own, and before the first such chunk there
is one for `WAIT` exactly if a `WAIT` was sent before the first `START`. What the flags say
already need not come. -/
def Framed (f : Flags) (messages : List ServerMessage) (chunks : List (List Byte)) : Prop :=
  (f.isGameStart = true ∨ (.START ∈ messages → ServerMessage.START.bytes ∈ chunks)) ∧
  (f.isWaitingScreen = true ∨
    (.WAIT ∈ messages.takeWhile (· ≠ .START) ↔
      ServerMessage.WAIT.bytes ∈ chunks.takeWhile (· ≠ ServerMessage.START.bytes)))

instance (f g : Flags) : Decidable (SameFlags f g) :=
  inferInstanceAs (Decidable (_ ∧ _))

instance (f : Flags) (messages : List ServerMessage) (chunks : List (List Byte)) :
    Decidable (Framed f messages chunks) :=
  inferInstanceAs (Decidable (_ ∧ _))

/-- What the server has sent to the socket `c`, in order. -/
def sentTo (c : Socket) (os : List Server.Event) : List ServerMessage :=
  (os.filter fun e => e.2.player = c).map fun e => e.2.message

/-! ## Patterns in the stream -/

/-- A pattern in the stream that no message completes lies within one message. -/
theorem exists_message_of_infix {messages : List ServerMessage} {pattern : List Byte}
    (hne : pattern ≠ []) (huncut : ∀ m : ServerMessage, Uncut pattern m.bytes)
    (h : pattern <:+: messages.flatMap ServerMessage.bytes) :
    ∃ m ∈ messages, pattern <:+: m.bytes := by
  rw [List.flatMap_def] at h
  obtain ⟨bytes, hmem, hin⟩ := infix_of_infix_flatten hne (by simpa using fun m _ => huncut m) h
  obtain ⟨m, hm, rfl⟩ := List.mem_map.1 hmem
  exact ⟨m, hm, hin⟩

/-- No NUL follows `T\n`, the end of `WAIT` and `START`. -/
theorem not_infix_nul (messages : List ServerMessage) :
    ¬[84, 10, 0] <:+: messages.flatMap ServerMessage.bytes := by
  intro h
  obtain ⟨m, -, hin⟩ := exists_message_of_infix (by decide) (by decide) h
  have hnot : ∀ m : ServerMessage, ¬[84, 10, 0] <:+: m.bytes := by decide
  exact hnot m hin

/-- `START` is in the stream only if it was sent. -/
theorem start_mem_of_infix {messages : List ServerMessage}
    (h : ServerMessage.START.bytes <:+: messages.flatMap ServerMessage.bytes) :
    .START ∈ messages := by
  obtain ⟨m, hm, hin⟩ := exists_message_of_infix (by decide) (by decide) h
  have honly : ∀ m : ServerMessage, ServerMessage.START.bytes <:+: m.bytes → m = .START := by
    decide
  exact honly m hin ▸ hm

/-- The letter `B` and the colon are in no message. -/
theorem notMem_stream (messages : List ServerMessage) :
    66 ∉ messages.flatMap ServerMessage.bytes ∧ 58 ∉ messages.flatMap ServerMessage.bytes := by
  have hnot : ∀ m : ServerMessage, 66 ∉ m.bytes ∧ 58 ∉ m.bytes := by decide
  constructor <;> intro h <;> obtain ⟨m, -, hm⟩ := List.mem_flatMap.1 h
  · exact (hnot m).1 hm
  · exact (hnot m).2 hm

/-! ## What the listener makes of a chunk -/

section

variable {messages : List ServerMessage} {chunk : List Byte}

/-- A chunk that reads as `T\n` at its end is no longer than it reads. -/
theorem eq_of_cstr_eq (h : chunk <:+: messages.flatMap ServerMessage.bytes) {p : List Byte}
    (hp : cstr chunk = p ++ [84, 10]) : chunk = p ++ [84, 10] := by
  rcases eq_cstr_or chunk with heq | ⟨rest, heq⟩
  · rw [heq, hp]
  · have hin : [84, 10, 0] <:+: chunk := ⟨p, rest, by rw [heq, hp]; simp⟩
    exact (not_infix_nul messages (hin.trans h)).elim

/-- The listener knows a chunk of the stream only if it is `WAIT` or `START`. -/
theorem onMessage_chunk (h : chunk <:+: messages.flatMap ServerMessage.bytes)
    (hlen : chunk.length < 1024) (f : Flags) (beyond : List Byte) :
    onMessage f (bufferString (zeros 1024) beyond chunk) =
      if chunk = ServerMessage.WAIT.bytes then ({ f with isWaitingScreen := true }, true)
      else if chunk = ServerMessage.START.bytes then ({ f with isGameStart := true }, false)
      else (f, true) := by
  rw [bufferString_zeros hlen]
  have hwait : cstr chunk = ascii "WAIT\n" ↔ chunk = ServerMessage.WAIT.bytes :=
    ⟨fun hc => eq_of_cstr_eq h (p := [87, 65, 73]) hc, fun hc => by rw [hc]; decide⟩
  have hstart : cstr chunk = ascii "START\n" ↔ chunk = ServerMessage.START.bytes :=
    ⟨fun hc => eq_of_cstr_eq h (p := [83, 84, 65, 82]) hc, fun hc => by rw [hc]; decide⟩
  have hletter : ∀ b ∈ cstr chunk, b ≠ 66 ∧ b ≠ 58 := by
    intro b hb
    have hstream := h.subset ((isPrefix_cstr chunk).subset hb)
    exact ⟨fun heq => (notMem_stream messages).1 (heq ▸ hstream),
      fun heq => (notMem_stream messages).2 (heq ▸ hstream)⟩
  have hbullets : startsWith (cstr chunk) (ascii "BULLETS\n") = false := by
    rw [Bool.eq_false_iff, ne_eq, startsWith_iff]
    intro hp
    exact (hletter 66 (hp.subset (by decide))).1 rfl
  have hyou : cstr chunk ≠ ascii "TURN:YOU\n" := by
    intro hc
    exact (hletter 58 (by rw [hc]; decide)).2 rfl
  have hriver : cstr chunk ≠ ascii "TURN:RIVER\n" := by
    intro hc
    exact (hletter 58 (by rw [hc]; decide)).2 rfl
  simp only [onMessage, hwait, hstart, hbullets, hyou, hriver, if_false, Bool.false_eq_true]

/-- The flags the listener reaches : it reads up to the first chunk that is `START`. -/
theorem listenServer_chunks (beyond : List Byte) {chunks : List (List Byte)}
    (h : ∀ chunk ∈ chunks, chunk <:+: messages.flatMap ServerMessage.bytes ∧ chunk.length < 1024)
    (f : Flags) : listenServer beyond f chunks =
      { f with
        isWaitingScreen := f.isWaitingScreen ||
          decide (ServerMessage.WAIT.bytes ∈ chunks.takeWhile (· ≠ ServerMessage.START.bytes))
        isGameStart := f.isGameStart || decide (ServerMessage.START.bytes ∈ chunks) } := by
  induction chunks generalizing f with
  | nil => simp [listenServer]
  | cons chunk chunks ih =>
    obtain ⟨hin, hlen⟩ := h chunk (by simp)
    have ih := ih fun chunk' hmem => h chunk' (by simp [hmem])
    have hne : ServerMessage.START.bytes ≠ ServerMessage.WAIT.bytes := by decide
    rw [listenServer, onMessage_chunk hin hlen]
    by_cases hwait : chunk = ServerMessage.WAIT.bytes
    · subst hwait
      simp [ih, hne, hne.symm]
    · by_cases hstart : chunk = ServerMessage.START.bytes
      · subst hstart
        simp [hne]
      · simp [ih, hwait, hstart, Ne.symm hwait, Ne.symm hstart]

end

/-! ## Chunks and messages -/

/-- The flags the listener reaches with a chunk for each message. -/
theorem listenServer_messages (beyond : List Byte) (messages : List ServerMessage) (f : Flags) :
    listenServer beyond f (messages.map ServerMessage.bytes) =
      { f with
        isWaitingScreen := f.isWaitingScreen || decide (.WAIT ∈ messages.takeWhile (· ≠ .START))
        isGameStart := f.isGameStart || decide (.START ∈ messages) } := by
  have hchunk : ∀ chunk ∈ messages.map ServerMessage.bytes,
      chunk <:+: messages.flatMap ServerMessage.bytes ∧ chunk.length < 1024 := by
    intro chunk hmem
    refine ⟨?_, ?_⟩
    · rw [List.flatMap_def]
      exact List.infix_of_mem_flatten hmem
    · obtain ⟨m, -, rfl⟩ := List.mem_map.1 hmem
      exact m.length_bytes_lt
  have hinj := ServerMessage.bytes_injective
  have hne : (fun b => decide (b ≠ ServerMessage.START.bytes)) ∘ ServerMessage.bytes =
      fun m => decide (m ≠ .START) := by
    funext m
    simp only [Function.comp_apply, ne_eq, hinj.eq_iff]
  rw [listenServer_chunks beyond hchunk, List.takeWhile_map, hne]
  simp only [List.mem_map_of_injective hinj]

/-- However the server's messages arrive, in chunks of 1 to 1023 bytes, the listener reaches the
flags it reaches with a chunk for each message exactly if the chunks are framed. -/
theorem listenServer_chunks_iff {messages : List ServerMessage} {chunks : List (List Byte)}
    (h : Chunking 1023 (messages.flatMap ServerMessage.bytes) chunks) (f : Flags)
    (beyond beyond' : List Byte) :
    SameFlags (listenServer beyond f chunks)
        (listenServer beyond' f (messages.map ServerMessage.bytes)) ↔
      Framed f messages chunks := by
  have hchunk : ∀ chunk ∈ chunks,
      chunk <:+: messages.flatMap ServerMessage.bytes ∧ chunk.length < 1024 := by
    intro chunk hmem
    have hsize := (h.size chunk hmem).2
    exact ⟨h.isInfix hmem, by omega⟩
  have hstart : ServerMessage.START.bytes ∈ chunks → .START ∈ messages := fun hmem =>
    start_mem_of_infix (h.isInfix hmem)
  have hor : ∀ (b : Bool) (p q : Prop) [Decidable p] [Decidable q],
      (b || decide p) = (b || decide q) ↔ b = true ∨ (q ↔ p) := by
    intro b p q _ _
    cases b with
    | true => simp
    | false => simpa using iff_comm
  have hgame : (f.isGameStart = true ∨
        (.START ∈ messages ↔ ServerMessage.START.bytes ∈ chunks)) ↔
      (f.isGameStart = true ∨ (.START ∈ messages → ServerMessage.START.bytes ∈ chunks)) :=
    or_congr_right ⟨fun hiff => hiff.1, fun himp => ⟨himp, hstart⟩⟩
  rw [listenServer_chunks beyond hchunk, listenServer_messages, SameFlags, Framed]
  simp only [hor, and_true]
  rw [hgame, and_comm]

/-- `COUNTDOWN` may be cut and its NUL may come late. -/
theorem listenServer_chunks_cut : SameFlags
    (listenServer [] {} [ascii "WAIT\n", ascii "COUNT", ascii "DOWN\n", [0], ascii "START\n"])
    (listenServer [] {} ([.WAIT, .COUNTDOWN, .START].map ServerMessage.bytes)) :=
  (listenServer_chunks_iff ⟨by decide, by decide⟩ {} [] []).2 (by decide)

/-- The joiner's `WAIT` and `COUNTDOWN` are sent back to back. If they arrive in one chunk, the
listener does not see the `WAIT`. -/
theorem not_sameFlags_joined : ¬∀ ls os s c chunks f beyond,
    Server.machine.Run Server.State.init ls os s →
    Chunking 1023 ((sentTo c os).flatMap ServerMessage.bytes) chunks →
    SameFlags (listenServer beyond f chunks)
      (listenServer beyond f ((sentTo c os).map ServerMessage.bytes)) := by
  intro hall
  have hsent : sentTo 4 (Server.machine.outputs Server.State.init Server.joined
      Server.isSome_joined) = [.WAIT, .COUNTDOWN] := by
    decide +kernel
  have hsame := hall _ _ _ 4 [ServerMessage.WAIT.bytes ++ ServerMessage.COUNTDOWN.bytes] {} []
    (Machine.run_final Server.isSome_joined)
  rw [hsent] at hsame
  have hwaiting := (hsame ⟨by decide, by decide⟩).1
  revert hwaiting
  decide +kernel

end Client

end DesperateStruggle
