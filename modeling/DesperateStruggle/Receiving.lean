import DesperateStruggle.Protocol

/-!
# The three receive buffers

`handleClient`, `listenServer` and the join click of `main` each `recv` into a buffer of 1024 bytes
and build a string from it. The first two clear the buffer before. None of them puts a NUL
behind what it received, so a chunk that fills the buffer without a NUL is read on into the
memory behind it, and the join click reads every chunk without a NUL on into what the buffer held
(`determined_iff`). Of the messages of the server that is each but `COUNTDOWN`
(`determined_joinReply_iff`).
-/

open CString

namespace DesperateStruggle

/-- A place that receives. -/
inductive ReceiveSite
  | handleClient
  | listenServer
  | joinReply
deriving DecidableEq, Repr

namespace ReceiveSite

/-- `memset(buffer, 0, sizeof(buffer))`. -/
def memset (buffer : List Byte) : List Byte :=
  zeros buffer.length

/-- The buffer that is passed to `recv`, from what it held before. -/
def prepare : ReceiveSite → List Byte → List Byte
  | handleClient, buffer => memset buffer
  | listenServer, buffer => memset buffer
  | joinReply, buffer => buffer

/-- The string built after a `recv` of `chunk`. -/
def string (site : ReceiveSite) (buffer beyond chunk : List Byte) : List Byte :=
  bufferString (site.prepare buffer) beyond chunk

/-- Whatever the buffer held and whatever is behind it, the string is what was received, up to
its first NUL. -/
def Determined (site : ReceiveSite) (chunk : List Byte) : Prop :=
  ∀ buffer buffer' beyond beyond' : List Byte, buffer.length = 1024 → buffer'.length = 1024 →
    site.string buffer beyond chunk = site.string buffer' beyond' chunk ∧
      site.string buffer beyond chunk = cstr chunk

section

variable {site : ReceiveSite} {chunk buffer : List Byte}

theorem determined_of_nul_mem (h : 0 ∈ chunk) : site.Determined chunk := by
  have heq : ∀ buffer beyond, site.string buffer beyond chunk = cstr chunk := by
    intro buffer beyond
    rw [string, bufferString, fill, List.append_assoc, cstr_append_of_nul_mem h]
  intro buffer buffer' beyond beyond' _ _
  exact ⟨(heq buffer beyond).trans (heq buffer' beyond').symm, heq buffer beyond⟩

theorem prepare_of_ne (hsite : site ≠ .joinReply) (hlen : buffer.length = 1024) :
    site.prepare buffer = zeros 1024 := by
  cases site with
  | handleClient => rw [prepare, memset, hlen]
  | listenServer => rw [prepare, memset, hlen]
  | joinReply => exact absurd rfl hsite

/-- A cleared buffer is how `Server.step` and `Client.listenServer` read. -/
theorem string_of_ne (hsite : site ≠ .joinReply) (hlen : buffer.length = 1024)
    (beyond chunk : List Byte) :
    site.string buffer beyond chunk = bufferString (zeros 1024) beyond chunk := by
  rw [string, prepare_of_ne hsite hlen]

theorem determined_of_lt (hsite : site ≠ .joinReply) (h : chunk.length < 1024) :
    site.Determined chunk := by
  intro buffer buffer' beyond beyond' hlen hlen'
  rw [string_of_ne hsite hlen, string_of_ne hsite hlen', bufferString_zeros h,
    bufferString_zeros h]
  exact ⟨rfl, rfl⟩

/-- Without a NUL the string runs on into the rest of the buffer and the memory behind it. -/
theorem Determined.cstr_rest (h : site.Determined chunk) (hnul : 0 ∉ chunk)
    (buffer beyond : List Byte) (hlen : buffer.length = 1024) :
    cstr ((site.prepare buffer).drop chunk.length ++ beyond) = [] := by
  have hstring := (h buffer buffer beyond beyond hlen hlen).2
  rw [string, bufferString, fill, List.append_assoc, cstr_append hnul, cstr_eq_self hnul] at hstring
  exact List.append_right_eq_self.1 hstring

/-- A buffer and a memory full of ones. -/
theorem Determined.lt (h : site.Determined chunk) (hnul : 0 ∉ chunk) :
    site ≠ .joinReply ∧ chunk.length < 1024 := by
  have hones : ∀ n, cstr (List.replicate n 1 ++ [1]) ≠ [] := by
    intro n
    have hone : (0 : Byte) ∉ List.replicate n 1 ++ [1] := by simp [List.mem_replicate]
    rw [cstr_eq_self hone]
    simp
  have hrest := h.cstr_rest hnul (List.replicate 1024 1) [1] List.length_replicate
  have hsite : site ≠ .joinReply := by
    rintro rfl
    rw [prepare, List.drop_replicate] at hrest
    exact hones _ hrest
  refine ⟨hsite, Nat.lt_of_not_le fun hle => ?_⟩
  rw [prepare_of_ne hsite List.length_replicate, zeros, List.drop_replicate,
    Nat.sub_eq_zero_of_le hle] at hrest
  exact hones 0 hrest

/-- A chunk is read as what was received exactly if it has a NUL, or the buffer was cleared and is
not full. -/
theorem determined_iff (site : ReceiveSite) (chunk : List Byte) :
    site.Determined chunk ↔ 0 ∈ chunk ∨ site ≠ .joinReply ∧ chunk.length < 1024 := by
  constructor
  · intro h
    by_cases hnul : 0 ∈ chunk
    · exact Or.inl hnul
    · exact Or.inr (h.lt hnul)
  · rintro (hnul | ⟨hsite, hlt⟩)
    · exact determined_of_nul_mem hnul
    · exact determined_of_lt hsite hlt

/-- It is not so that every chunk is read as what was received : the join click runs on behind a
`WAIT`. -/
theorem not_forall_determined : ¬∀ (site : ReceiveSite) (chunk : List Byte),
    1 ≤ chunk.length → chunk.length ≤ 1024 → site.Determined chunk := by
  intro hall
  have hwait := hall .joinReply (ascii "WAIT\n") (by decide) (by decide)
  exact (hwait.lt (by decide)).1 rfl

/-- Of the messages of the server the join click reads one as it was sent, the one that is sent
with its NUL. -/
theorem determined_joinReply_iff (m : ServerMessage) :
    joinReply.Determined m.bytes ↔ m = .COUNTDOWN := by
  have hnul : ∀ m : ServerMessage, 0 ∈ m.bytes ↔ m = .COUNTDOWN := by decide
  rw [← hnul]
  exact ⟨fun h => by_contra fun hnone => (h.lt hnone).1 rfl, determined_of_nul_mem⟩

/-- The other two read every message as it was sent. -/
theorem determined_bytes (hsite : site ≠ .joinReply) (m : ServerMessage) :
    site.Determined m.bytes :=
  determined_of_lt hsite m.length_bytes_lt

end

end ReceiveSite

end DesperateStruggle
