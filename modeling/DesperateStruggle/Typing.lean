import DesperateStruggle.Client
import DesperateStruggle.EditBuffer

/-!
# The password fields

`CreateRoomScreen::handleInput` and `JoinRoomScreen::handleInput` edit a password in the same way
but for the characters they accept (`PasswordScreen.accepts`). A backspace on an empty password is
left to the filter, and the filter of `CreateRoomScreen` accepts it : it is typed, and the next
such backspace removes it again (`password_eq`). The other filter does not, so there the
password is an edit buffer (`edits_iff`). That filter takes letters and digits, which are typed as
they are (`foldl_alnum`), and nothing else (`isalnum_foldl`).
-/

open CString

namespace DesperateStruggle

namespace Client

/-- The cast to `char` keeps an ASCII character. -/
theorem toUInt32_toUInt8_of_lt {c : UInt32} (h : c < 128) : c.toUInt8.toUInt32 = c := by
  have hlt : c.toNat < 128 := h
  refine UInt32.toNat_inj.1 ?_
  rw [UInt8.toNat_toUInt32, UInt32.toNat_toUInt8]
  omega

section

variable {accepts : UInt32 → Bool} {us : List UInt32} {password p : List Byte} {b : Byte}

/-- Accepted characters other than the backspace are appended, cast to `char`. -/
theorem foldl_editPassword_of_accepts (h : ∀ u ∈ us, u ≠ 8 ∧ accepts u = true)
    (password : List Byte) :
    us.foldl (editPassword accepts) password = password ++ us.map UInt32.toUInt8 := by
  induction us generalizing password with
  | nil => simp
  | cons u us ih =>
    obtain ⟨hne, haccepts⟩ := h u List.mem_cons_self
    have hone : editPassword accepts password u = password ++ [u.toUInt8] := by
      simp [editPassword, hne, haccepts]
    rw [List.foldl_cons, hone, ih fun u' hu' => h u' (List.mem_cons_of_mem u hu'),
      List.append_assoc, List.map_cons, List.singleton_append]

theorem joinAccepts_toUInt32 (h : isalnum b.toUInt32 = true) :
    b.toUInt32 ≠ 8 ∧ joinAccepts b.toUInt32 = true := by
  refine ⟨fun heq => ?_, ?_⟩
  · rw [heq] at h
    exact absurd h (by decide)
  · have hlt : b.toUInt32 < 128 := by
      simp only [isalnum, Bool.or_eq_true, Bool.and_eq_true, decide_eq_true_eq,
        UInt32.le_iff_toNat_le, UInt32.lt_iff_toNat_lt] at h ⊢
      simp at h ⊢
      omega
    rw [joinAccepts, h, Bool.and_true, decide_eq_true_eq]
    exact hlt

/-- Letters and digits can be typed on `JoinRoomScreen`. -/
theorem foldl_alnum (hp : ∀ b ∈ p, isalnum b.toUInt32 = true) (password : List Byte) :
    (p.map UInt8.toUInt32).foldl (editPassword joinAccepts) password = password ++ p := by
  have hcast : UInt32.toUInt8 ∘ UInt8.toUInt32 = id := funext UInt8.toUInt8_toUInt32
  rw [foldl_editPassword_of_accepts, List.map_map, hcast, List.map_id]
  intro u hu
  obtain ⟨b, hb, rfl⟩ := List.mem_map.1 hu
  exact joinAccepts_toUInt32 (hp b hb)

/-- Nothing else can. -/
theorem isalnum_editPassword {unicode : UInt32} (h : ∀ b ∈ password, isalnum b.toUInt32 = true) :
    ∀ b ∈ editPassword joinAccepts password unicode, isalnum b.toUInt32 = true := by
  intro b hb
  unfold editPassword at hb
  split_ifs at hb with hback haccepts
  · exact h b (List.mem_of_mem_dropLast hb)
  · rcases List.mem_append.1 hb with hb | hb
    · exact h b hb
    · obtain rfl := List.mem_singleton.1 hb
      obtain ⟨hlt, halnum⟩ := Bool.and_eq_true_iff.1 haccepts
      rwa [toUInt32_toUInt8_of_lt (of_decide_eq_true hlt)]
  · exact h b hb

theorem isalnum_foldl (h : ∀ b ∈ password, isalnum b.toUInt32 = true) :
    ∀ b ∈ us.foldl (editPassword joinAccepts) password, isalnum b.toUInt32 = true := by
  induction us generalizing password with
  | nil => exact h
  | cons u us ih => exact ih (isalnum_editPassword h)

end

/-- The two screens with a password field. -/
inductive PasswordScreen
  | createRoom
  | joinRoom
deriving DecidableEq, Repr

namespace PasswordScreen

/-- The filter of a screen. -/
def accepts : PasswordScreen → UInt32 → Bool
  | createRoom => createAccepts
  | joinRoom => joinAccepts

/-- The password after the characters `us`, entered since `resetInput`. -/
def password (s : PasswordScreen) (us : List UInt32) : List Byte :=
  us.foldl (editPassword s.accepts) []

/-- What a character entered is to an edit buffer. -/
def key (s : PasswordScreen) (unicode : UInt32) : Option (EditBuffer.Key UInt32) :=
  if unicode = 8 then some .erase else if s.accepts unicode then some (.char unicode) else none

/-- The keys of an edit buffer. -/
def keys (s : PasswordScreen) (us : List UInt32) : List (EditBuffer.Key UInt32) :=
  us.filterMap s.key

/-- The characters that an edit buffer holds after `us`. -/
def buffer (s : PasswordScreen) (us : List UInt32) : List UInt32 :=
  EditBuffer.edit [] (s.keys us)

/-- The password is that of an edit buffer. -/
structure Edits (s : PasswordScreen) (us : List UInt32) : Prop where
  /-- Each character of the buffer is one entry, cast to `char`. -/
  password : s.password us = (s.buffer us).map UInt32.toUInt8
  noBackspace : 8 ∉ s.password us
  length : (s.password us).length + EditBuffer.erased [] (s.keys us) =
    (s.keys us).countP EditBuffer.Key.isChar

/-- What `n` backspaces on an empty buffer leave in front of it. -/
def stray (s : PasswordScreen) (n : Nat) : List Byte :=
  if s.accepts 8 = true ∧ n % 2 = 1 then [8] else []

section

variable {s : PasswordScreen} {u : UInt32} {us : List UInt32}

theorem keys_cons (s : PasswordScreen) (u : UInt32) (us : List UInt32) :
    s.keys (u :: us) = (s.key u).toList ++ s.keys us := by
  unfold keys
  cases h : s.key u <;> simp [h]

/-- A backspace on an empty buffer is typed in front of it, or removed again. -/
theorem editPassword_stray (s : PasswordScreen) (n : Nat) :
    editPassword s.accepts (s.stray n) 8 = s.stray (n + 1) := by
  by_cases haccepts : s.accepts 8 = true
  · rcases Nat.mod_two_eq_zero_or_one n with hn | hn
    · have hsucc : (n + 1) % 2 = 1 := by omega
      simp [editPassword, stray, haccepts, hn, hsucc]
    · have hsucc : (n + 1) % 2 = 0 := by omega
      simp [editPassword, stray, haccepts, hn, hsucc]
  · simp [editPassword, stray, haccepts]

/-- A character on a buffer behind what the backspaces on an empty one have left. -/
theorem editPassword_append (s : PasswordScreen) (n : Nat) (buffer : List UInt32) (u : UInt32) :
    editPassword s.accepts (s.stray n ++ buffer.map UInt32.toUInt8) u =
      s.stray (n + EditBuffer.idle buffer (s.key u).toList) ++
        (EditBuffer.edit buffer (s.key u).toList).map UInt32.toUInt8 := by
  by_cases hu : u = 8
  · subst hu
    have hkey : (s.key 8).toList = [.erase] := rfl
    rw [hkey]
    rcases List.eq_nil_or_concat' buffer with rfl | ⟨init, last, rfl⟩
    · simpa [EditBuffer.idle, EditBuffer.press] using editPassword_stray s n
    · rw [EditBuffer.idle_erase_of_ne_nil (by simp)]
      simp [editPassword, EditBuffer.idle, EditBuffer.press, ← List.append_assoc]
  · by_cases haccepts : s.accepts u = true
    · simp [editPassword, key, hu, haccepts, EditBuffer.idle, EditBuffer.press]
    · simp [editPassword, key, hu, haccepts, EditBuffer.idle]

/-- The password after some characters : what the backspaces on an empty buffer have left, and
the buffer. -/
theorem foldl_editPassword (s : PasswordScreen) (us : List UInt32) (n : Nat)
    (buffer : List UInt32) :
    us.foldl (editPassword s.accepts) (s.stray n ++ buffer.map UInt32.toUInt8) =
      s.stray (n + EditBuffer.idle buffer (s.keys us)) ++
        (EditBuffer.edit buffer (s.keys us)).map UInt32.toUInt8 := by
  induction us generalizing n buffer with
  | nil => rfl
  | cons u us ih =>
    rw [List.foldl_cons, editPassword_append, ih, keys_cons, EditBuffer.idle_append,
      EditBuffer.edit_append, Nat.add_assoc]

theorem password_eq (s : PasswordScreen) (us : List UInt32) :
    s.password us = s.stray (EditBuffer.idle [] (s.keys us)) ++
      (s.buffer us).map UInt32.toUInt8 := by
  have hzero : s.stray 0 = [] := by simp [stray]
  have hfold := foldl_editPassword s us 0 []
  rw [hzero, Nat.zero_add] at hfold
  exact hfold

theorem stray_joinRoom (n : Nat) : joinRoom.stray n = [] :=
  if_neg fun h => absurd h.1 (by decide)

theorem stray_createRoom_eq_nil_iff {n : Nat} : createRoom.stray n = [] ↔ n % 2 = 0 := by
  have haccepts : createRoom.accepts 8 = true := by decide
  rcases Nat.mod_two_eq_zero_or_one n with hn | hn <;> simp [stray, haccepts, hn]

/-- The characters of the buffer were entered and accepted. -/
theorem accepts_of_mem_keys {c : UInt32} (h : .char c ∈ s.keys us) : s.accepts c = true := by
  obtain ⟨u, -, hu⟩ := List.mem_filterMap.1 h
  unfold key at hu
  split_ifs at hu with herase haccepts
  · cases hu
  · cases hu
    exact haccepts

theorem mem_keys_of_mem_buffer {c : UInt32} (h : c ∈ s.buffer us) : .char c ∈ s.keys us :=
  (EditBuffer.mem_edit h).resolve_left List.not_mem_nil

/-- `isalnum` leaves out the backspace. -/
theorem toUInt8_ne_of_joinAccepts {c : UInt32} (h : joinAccepts c = true) : c.toUInt8 ≠ 8 := by
  obtain ⟨hlt, halnum⟩ := Bool.and_eq_true_iff.1 h
  intro hcast
  rw [← toUInt32_toUInt8_of_lt (of_decide_eq_true hlt), hcast] at halnum
  exact absurd halnum (by decide)

/-- The password is that of an edit buffer exactly if no backspace is left in front of the buffer,
and no character of it is cast to one. -/
theorem edits_iff_stray (s : PasswordScreen) (us : List UInt32) :
    s.Edits us ↔ s.stray (EditBuffer.idle [] (s.keys us)) = [] ∧
      ∀ c ∈ s.buffer us, c.toUInt8 ≠ 8 := by
  have heq := password_eq s us
  constructor
  · rintro ⟨hpassword, hnone, -⟩
    rw [hpassword] at heq hnone
    refine ⟨List.self_eq_append_left.1 heq, fun c hc hcast => hnone ?_⟩
    exact List.mem_map.2 ⟨c, hc, hcast⟩
  · rintro ⟨hstray, hcasts⟩
    rw [hstray, List.nil_append] at heq
    refine ⟨heq, fun hmem => ?_, ?_⟩
    · rw [heq] at hmem
      obtain ⟨c, hc, hcast⟩ := List.mem_map.1 hmem
      exact hcasts c hc hcast
    · rw [heq, List.length_map, buffer, EditBuffer.length_edit, List.length_nil, Nat.zero_add]

theorem edits_joinRoom (us : List UInt32) : joinRoom.Edits us := by
  refine (edits_iff_stray joinRoom us).2 ⟨stray_joinRoom _, fun c hc => ?_⟩
  exact toUInt8_ne_of_joinAccepts (accepts_of_mem_keys (mem_keys_of_mem_buffer hc))

theorem edits_createRoom_iff (us : List UInt32) :
    createRoom.Edits us ↔ EditBuffer.idle [] (createRoom.keys us) % 2 = 0 ∧
      ∀ c ∈ createRoom.buffer us, c.toUInt8 ≠ 8 := by
  rw [edits_iff_stray, stray_createRoom_eq_nil_iff]

theorem keys_append (s : PasswordScreen) (us us' : List UInt32) :
    s.keys (us ++ us') = s.keys us ++ s.keys us' :=
  List.filterMap_append

/-- One key is idle at most once. -/
theorem idle_key_le (s : PasswordScreen) (buffer : List UInt32) (u : UInt32) :
    EditBuffer.idle buffer (s.key u).toList ≤ 1 := by
  rcases s.key u with - | - | -
  · exact Nat.zero_le 1
  · exact Nat.zero_le 1
  · cases buffer with
    | nil => exact Nat.le_refl 1
    | cons b buffer => exact Nat.zero_le 1

/-- If the password is that of an edit buffer throughout, no backspace finds it empty and no
character is cast to one. -/
theorem idle_eq_zero_of_edits (h : ∀ us', us' <+: us → createRoom.Edits us') :
    EditBuffer.idle [] (createRoom.keys us) = 0 ∧
      ∀ c, .char c ∈ createRoom.keys us → c.toUInt8 ≠ 8 := by
  induction us using List.reverseRecOn with
  | nil => exact ⟨rfl, by simp [keys]⟩
  | append_singleton us u ih =>
    obtain ⟨hidle, hcasts⟩ := ih fun us' hstart => h us' (hstart.trans (List.prefix_append _ _))
    obtain ⟨heven, hcasts'⟩ := (edits_createRoom_iff _).1 (h _ (List.prefix_refl _))
    have hkeys : createRoom.keys (us ++ [u]) =
        createRoom.keys us ++ (createRoom.key u).toList := by
      rw [keys_append, keys_cons]
      simp [keys]
    rw [hkeys, EditBuffer.idle_append, hidle, Nat.zero_add] at heven ⊢
    have hle := idle_key_le createRoom (EditBuffer.edit [] (createRoom.keys us)) u
    refine ⟨by omega, fun c hc => ?_⟩
    rcases List.mem_append.1 hc with hc | hc
    · exact hcasts c hc
    · refine hcasts' c ?_
      have hkey : createRoom.key u = some (.char c) := by simpa using hc
      rw [buffer, hkeys, EditBuffer.edit_append, hkey]
      simp [EditBuffer.press]

theorem edits_of_idle_eq_zero (hidle : EditBuffer.idle [] (createRoom.keys us) = 0)
    (hcasts : ∀ c, .char c ∈ createRoom.keys us → c.toUInt8 ≠ 8) :
    ∀ us', us' <+: us → createRoom.Edits us' := by
  rintro us' ⟨rest, rfl⟩
  rw [keys_append] at hidle hcasts
  rw [EditBuffer.idle_append] at hidle
  refine (edits_createRoom_iff us').2 ⟨by omega, fun c hc => hcasts c ?_⟩
  exact List.mem_append_left _ (mem_keys_of_mem_buffer hc)

/-- The password is that of an edit buffer on `JoinRoomScreen`, and on `CreateRoomScreen` exactly
if a backspace finds the buffer empty an even number of times and the buffer has no character
that is cast to a backspace. On `CreateRoomScreen` it is that of an edit buffer throughout
exactly if no backspace finds the buffer empty and no such character is entered. -/
theorem edits_iff (s : PasswordScreen) (us : List UInt32) :
    (s.Edits us ↔ s = .joinRoom ∨ EditBuffer.idle [] (s.keys us) % 2 = 0 ∧
        ∀ c ∈ s.buffer us, c.toUInt8 ≠ 8) ∧
      ((∀ us', us' <+: us → s.Edits us') ↔ s = .joinRoom ∨
        EditBuffer.idle [] (s.keys us) = 0 ∧ ∀ c, .char c ∈ s.keys us → c.toUInt8 ≠ 8) := by
  cases s with
  | joinRoom =>
    exact ⟨iff_of_true (edits_joinRoom us) (Or.inl rfl),
      iff_of_true (fun us' _ => edits_joinRoom us') (Or.inl rfl)⟩
  | createRoom =>
    have hne : createRoom ≠ joinRoom := by decide
    rw [or_iff_right hne, or_iff_right hne]
    exact ⟨edits_createRoom_iff us, idle_eq_zero_of_edits,
      fun h => edits_of_idle_eq_zero h.1 h.2⟩

/-- It is not so that the password is always that of an edit buffer : a backspace is typed. -/
theorem not_forall_edits : ¬∀ (s : PasswordScreen) (us : List UInt32), s.Edits us :=
  fun hall => absurd (hall .createRoom [8]).noBackspace (by decide)

end

end PasswordScreen

end Client

end DesperateStruggle
