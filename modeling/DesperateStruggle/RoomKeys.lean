import DesperateStruggle.Handler

/-!
# The key of a password

`handleClient` takes the four bytes behind `CREATE ` or `JOIN ` for the key of a room. In a request
of the client these are the first bytes of the password and its newline, up to a NUL
(`requestKey`), and for a request that is received whole they do not depend on anything else
(`creates_iff`, `joins_iff`). So the same password leads to the same room.
-/

open CString

namespace DesperateStruggle

/-- The first four bytes of a password and the newline behind it, up to the first NUL. -/
def requestKey (password : List Byte) : Key :=
  (cstr (password ++ ascii "\n")).take 4

/-- What follows a keyword in the string of a request. -/
theorem drop_bufferString {w : List Byte} (hw : 0 ∉ w) (rest beyond : List Byte) :
    ∃ more, bufferString (zeros 1024) beyond (w ++ rest) = w ++ cstr (rest ++ more) ∧
      ((w ++ rest).length < 1024 → cstr (rest ++ more) = cstr rest) := by
  refine ⟨(zeros 1024).drop (w ++ rest).length ++ beyond, ?_, fun hlt => ?_⟩
  · rw [bufferString, fill, List.append_assoc, List.append_assoc, cstr_append hw]
  · have hstring := bufferString_zeros hlt beyond
    rw [bufferString, fill, List.append_assoc, List.append_assoc, cstr_append hw,
      cstr_append hw] at hstring
    exact List.append_cancel_left hstring

theorem take_cstr (m : List Byte) (n : Nat) : (cstr m).take n = cstr (m.take n) :=
  List.take_takeWhile

/-- The server reads a message by its keyword and the four bytes behind it, where the message ends
before the buffer does or has as many. -/
theorem request_iff {keyword w : List Byte} (hkeyword : keyword <+: w) (hw : 0 ∉ w)
    {rest beyond : List Byte} {k : Key} (hrest : (w ++ rest).length < 1024 ∨ 4 ≤ rest.length) :
    startsWith (bufferString (zeros 1024) beyond (w ++ rest)) keyword = true ∧
      substr (bufferString (zeros 1024) beyond (w ++ rest)) w.length 4 = .ok k ↔
        k = (cstr rest).take 4 := by
  obtain ⟨more, hstring, hshort⟩ := drop_bufferString hw rest beyond
  have hkey : (cstr (rest ++ more)).take 4 = (cstr rest).take 4 := by
    rcases hrest with hlt | hfour
    · rw [hshort hlt]
    · rw [take_cstr, take_cstr, List.take_append_of_le_length hfour]
  have hstart : keyword <+: w ++ cstr (rest ++ more) := hkeyword.trans (List.prefix_append _ _)
  have hle : w.length ≤ (w ++ cstr (rest ++ more)).length := (List.prefix_append _ _).length_le
  rw [hstring, startsWith_iff, substr_eq_ok_iff, and_iff_right hstart, and_iff_right hle,
    List.drop_left, hkey, eq_comm]

/-- A request, whose password may be too long for the buffer. -/
theorem fits_or_four_le {w : List Byte} (hlen : w.length < 1000) (password : List Byte) :
    (w ++ (password ++ ascii "\n")).length < 1024 ∨ 4 ≤ (password ++ ascii "\n").length := by
  rw [List.length_append]
  omega

section

variable {p beyond : List Byte} {k : Key}

/-- The server reads a `CREATE` of the client as one of the room of its password. -/
theorem creates_iff : Creates (bufferString (zeros 1024) beyond (createRequest p)) k ↔
    k = requestKey p := by
  rw [createRequest, List.append_assoc]
  exact request_iff (by decide) (by decide) (fits_or_four_le (by decide) p)

/-- The server reads a `JOIN` of the client as one of the room of its password. -/
theorem joins_iff : Joins (bufferString (zeros 1024) beyond (joinRequest p)) k ↔
    k = requestKey p := by
  rw [joinRequest, List.append_assoc]
  exact request_iff (by decide) (by decide) (fits_or_four_le (by decide) p)

theorem creates_requestKey (p beyond : List Byte) :
    Creates (bufferString (zeros 1024) beyond (createRequest p)) (requestKey p) :=
  creates_iff.2 rfl

theorem joins_requestKey (p beyond : List Byte) :
    Joins (bufferString (zeros 1024) beyond (joinRequest p)) (requestKey p) :=
  joins_iff.2 rfl

/-- So does the start of one that does not fit the buffer. -/
theorem creates_take (p beyond : List Byte) :
    Creates (bufferString (zeros 1024) beyond ((createRequest p).take 1024)) (requestKey p) := by
  rcases Nat.le_total (createRequest p).length 1024 with hle | hge
  · rw [List.take_of_length_le hle]
    exact creates_requestKey p beyond
  · have hseven : (ascii "CREATE ").length = 7 := by decide
    have hlong : 1017 ≤ (p ++ ascii "\n").length := by
      rw [createRequest, List.append_assoc, List.length_append, hseven] at hge
      omega
    have htake : (createRequest p).take 1024 =
        ascii "CREATE " ++ (p ++ ascii "\n").take 1017 := by
      rw [createRequest, List.append_assoc, List.take_append, hseven,
        List.take_of_length_le (by rw [hseven]; decide)]
    rw [htake]
    refine (request_iff (by decide) (by decide) (Or.inr ?_)).2 ?_
    · rw [List.length_take]
      omega
    · rw [requestKey, take_cstr, take_cstr, List.take_take]
      rfl

end

end DesperateStruggle
