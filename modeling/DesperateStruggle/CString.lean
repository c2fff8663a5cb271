import Mathlib.Data.List.TakeWhile

/-!
# Byte strings and receive buffers

What a C++ program that reads a socket into a `char` array relies on : `string(buffer)`
stops at the first NUL (`cstr`), `s.rfind(p, 0) == 0` is a prefix test (`startsWith`),
`s.substr(pos, n)` throws past the end of `s` (`substr`), and `recv` overwrites the start
of its buffer (`fill`).

`bufferString` is the string built from a buffer after a `recv`, the memory behind the
buffer included. A chunk shorter than a zeroed buffer reads as its own C string
(`bufferString_zeros`).
-/

namespace CString

/-- A `char`. -/
abbrev Byte := UInt8

/-- The bytes of a literal. -/
def ascii (s : String) : List Byte :=
  s.toList.map fun c => c.toNat.toUInt8

/-! ## C strings -/

/-- The C string at the start of a memory : the bytes before the first NUL. -/
def cstr (m : List Byte) : List Byte :=
  m.takeWhile (· ≠ 0)

@[simp] theorem cstr_nil : cstr [] = [] :=
  rfl

/-- A NUL ends the string. -/
theorem cstr_append_nul (a m : List Byte) : cstr (a ++ 0 :: m) = cstr a := by
  induction a with
  | nil => simp [cstr]
  | cons b a ih =>
    simp only [cstr, List.cons_append, List.takeWhile_cons] at ih ⊢
    rw [ih]

/-- Bytes without a NUL are the start of the string. -/
theorem cstr_append {a : List Byte} (ha : 0 ∉ a) (m : List Byte) :
    cstr (a ++ m) = a ++ cstr m :=
  List.takeWhile_append_of_pos fun b hb => by
    simpa using ne_of_mem_of_not_mem hb ha

/-- Bytes with a NUL hide what follows. -/
theorem cstr_append_of_nul_mem {a : List Byte} (ha : 0 ∈ a) (m : List Byte) :
    cstr (a ++ m) = cstr a := by
  obtain ⟨b, c, rfl⟩ := List.append_of_mem ha
  rw [List.append_assoc, List.cons_append, cstr_append_nul, cstr_append_nul]

theorem cstr_eq_self {a : List Byte} (ha : 0 ∉ a) : cstr a = a := by
  simpa using cstr_append ha []

theorem nul_notMem_cstr (m : List Byte) : 0 ∉ cstr m := fun h => by
  simpa using List.mem_takeWhile_imp h

theorem isPrefix_cstr (m : List Byte) : cstr m <+: m :=
  List.takeWhile_prefix _

/-- A C string is the whole memory or is followed by a NUL. -/
theorem eq_cstr_or (m : List Byte) : m = cstr m ∨ ∃ rest, m = cstr m ++ 0 :: rest := by
  induction m with
  | nil => simp
  | cons b m ih =>
    by_cases hb : b = 0
    · subst hb
      exact Or.inr ⟨m, by simp [cstr]⟩
    · have hcons : cstr (b :: m) = b :: cstr m := by simp [cstr, hb]
      rw [hcons]
      rcases ih with h | ⟨rest, h⟩
      · exact Or.inl (by rw [← h])
      · exact Or.inr ⟨rest, by rw [List.cons_append, ← h]⟩

/-- A longer memory has a longer string. -/
theorem cstr_mono {a b : List Byte} (h : a <+: b) : cstr a <+: cstr b := by
  obtain ⟨m, rfl⟩ := h
  rcases eq_cstr_or a with ha | ⟨rest, ha⟩
  · have h0 : 0 ∉ a := ha ▸ nul_notMem_cstr a
    rw [cstr_append h0, cstr_eq_self h0]
    exact List.prefix_append _ _
  · have hcstr : cstr (a ++ m) = cstr a := by
      rw [ha, List.append_assoc, List.cons_append, cstr_append_nul, cstr_append_nul]
    exact hcstr ▸ List.prefix_refl _

/-! ## Prefixes and substrings -/

/-- `s.rfind(p, 0) == 0`. -/
def startsWith (s p : List Byte) : Bool :=
  p.isPrefixOf s

theorem startsWith_iff {s p : List Byte} : startsWith s p = true ↔ p <+: s :=
  List.isPrefixOf_iff_prefix

/-- `std::out_of_range`, thrown by `substr`. -/
structure OutOfRange where
deriving DecidableEq, Repr

/-- `s.substr(pos, n)`. -/
def substr (s : List Byte) (pos n : Nat) : Except OutOfRange (List Byte) :=
  if s.length < pos then .error ⟨⟩ else .ok ((s.drop pos).take n)

theorem substr_eq_ok_iff {s k : List Byte} {pos n : Nat} :
    substr s pos n = .ok k ↔ pos ≤ s.length ∧ (s.drop pos).take n = k := by
  unfold substr
  split_ifs with h
  · simp [Nat.not_le.2 h]
  · simp [Nat.not_lt.1 h]

theorem substr_eq_error_iff {s : List Byte} {pos n : Nat} {e : OutOfRange} :
    substr s pos n = .error e ↔ s.length < pos := by
  unfold substr
  split_ifs with h <;> simp [h]

/-- A substring is no longer than asked for. -/
theorem length_le_of_substr {s k : List Byte} {pos n : Nat} (h : substr s pos n = .ok k) :
    k.length ≤ n := by
  obtain ⟨-, rfl⟩ := substr_eq_ok_iff.1 h
  exact List.length_take_le n _

/-! ## Receive buffers -/

/-- The buffer after `recv` has written a chunk to it. -/
def fill (buffer chunk : List Byte) : List Byte :=
  chunk ++ buffer.drop chunk.length

/-- `string(buffer)` after a `recv` of `chunk`. Without a NUL in the buffer the string runs
on into the memory behind it. -/
def bufferString (buffer beyond chunk : List Byte) : List Byte :=
  cstr (fill buffer chunk ++ beyond)

/-- A buffer after `memset(buffer, 0, size)`. -/
def zeros (size : Nat) : List Byte :=
  List.replicate size 0

/-- A chunk that leaves a byte of a zeroed buffer free is read back as its C string. -/
theorem bufferString_zeros {size : Nat} {chunk : List Byte} (h : chunk.length < size)
    (beyond : List Byte) : bufferString (zeros size) beyond chunk = cstr chunk := by
  obtain ⟨n, hn⟩ : ∃ n, size - chunk.length = n + 1 := ⟨size - chunk.length - 1, by omega⟩
  have hdrop : (zeros size).drop chunk.length = 0 :: List.replicate n 0 := by
    rw [zeros, List.drop_replicate, hn, List.replicate_succ]
  rw [bufferString, fill, hdrop, List.append_assoc, List.cons_append, cstr_append_nul]

/-- Whatever the buffer held, the C string of the chunk starts the string. -/
theorem cstr_prefix_bufferString (buffer beyond chunk : List Byte) :
    cstr chunk <+: bufferString buffer beyond chunk := by
  rw [bufferString, fill, List.append_assoc]
  exact cstr_mono (List.prefix_append _ _)

end CString
