import DesperateStruggle.Requests
import DesperateStruggle.RoomKeys
import DesperateStruggle.Typing

/-!
# Meeting by password

Two players meet in a room if the `CREATE` of the one and the `JOIN` of the other have the same
key. The same password leads to the same room (`sameRoom`), and passwords that differ in the bytes
the server looks at lead to different rooms (`not_joins_of_take_ne`) : those behind the fourth do
not count (`not_forall_not_joins`).

What can be typed on `JoinRoomScreen` are the passwords of letters and digits
(`exists_password_joinRoom_iff`). `CreateRoomScreen` lets more through, so there are rooms that no
one can join : a room can be joined exactly if its key consists of letters and digits, but for the
newline at the end of a short password (`exists_joins_iff`).
-/

open CString

namespace DesperateStruggle

/-! ## The same password -/

namespace Server

section

variable {s : State} {t : Nat} {c q : Socket} {m p beyond beyond' : List Byte} {k : Key}

theorem handleMessage_of_creates (rooms : Rooms) (c : Socket) (h : Creates m k) :
    handleMessage rooms c m = .ok (answer rooms c (.create k)) := by
  simp [handleMessage, h.1, h.2, Except.map, answer]

theorem handleMessage_of_joins (rooms : Rooms) (c : Socket) (h : Joins m k) :
    handleMessage rooms c m = .ok (answer rooms c (.join k)) := by
  simp [handleMessage, h.not_startsWith_create, h.1, h.2, Except.map, answer]

/-- A handler that waits for it takes a request of the client. -/
theorem step_request (here : s.handlers[t]? = some ⟨c, .recv⟩) {r : Request}
    (hlen : 1 ≤ m.length ∧ m.length ≤ 1024)
    (hm : handleMessage s.rooms c (bufferString (zeros 1024) beyond m) =
      .ok (answer s.rooms c r)) :
    step s (.recv t m beyond) = some (s.resume t (answer s.rooms c r)) := by
  simp only [step, here, if_pos hlen, hm]

theorem length_createRequest (p : List Byte) : (createRequest p).length = p.length + 8 := by
  simp [createRequest, ascii]

theorem length_joinRequest (p : List Byte) : (joinRequest p).length = p.length + 6 := by
  simp [joinRequest, ascii]

/-- A `CREATE` of a room that does not exist creates it. -/
theorem step_createRequest (here : s.handlers[t]? = some ⟨c, .recv⟩) (hp : p.length ≤ 1000)
    (beyond : List Byte) (habsent : s.rooms (requestKey p) = none) : ∃ s',
      step s (.recv t (createRequest p) beyond) =
        some (s', [(t, .reply (requestKey p) c .WAIT)]) ∧
      s'.rooms (requestKey p) = some { password := requestKey p, players := [c] } := by
  have hlen : 1 ≤ (createRequest p).length ∧ (createRequest p).length ≤ 1024 := by
    rw [length_createRequest]
    omega
  have hm := handleMessage_of_creates s.rooms c (creates_requestKey p beyond)
  have hstep := step_request here hlen hm
  rw [answer_create_of_none habsent] at hstep
  exact ⟨_, hstep, by simp⟩

/-- A `JOIN` of a room with one player is seated in it. -/
theorem step_joinRequest (here : s.handlers[t]? = some ⟨c, .recv⟩) (hp : p.length ≤ 1000)
    (beyond : List Byte) {room : Room} (hroom : s.rooms (requestKey p) = some room)
    (hplayers : room.players = [q]) : ∃ s' o room',
      step s (.recv t (joinRequest p) beyond) = some (s', o) ∧
      (t, .reply (requestKey p) c .WAIT) ∈ o ∧
      s'.rooms (requestKey p) = some room' ∧ room'.players = [q, c] := by
  have hlen : 1 ≤ (joinRequest p).length ∧ (joinRequest p).length ≤ 1024 := by
    rw [length_joinRequest]
    omega
  have hm := handleMessage_of_joins s.rooms c (joins_requestKey p beyond)
  have hstep := step_request here hlen hm
  rw [answer_join_of_one hroom hplayers] at hstep
  exact ⟨_, _, room.pushBack c, hstep, List.mem_cons_self, by simp, by simp [hplayers]⟩

/-- The requests with the password `p` mean the same room to the server. -/
structure SameRoom (p beyond beyond' : List Byte) : Prop where
  create : ∀ k, Creates (bufferString (zeros 1024) beyond (createRequest p)) k ↔ k = requestKey p
  join : ∀ k, Joins (bufferString (zeros 1024) beyond' (joinRequest p)) k ↔ k = requestKey p
  noException : ∀ rooms c e,
    handleMessage rooms c (bufferString (zeros 1024) beyond (createRequest p)) ≠ .error e ∧
      handleMessage rooms c (bufferString (zeros 1024) beyond' (joinRequest p)) ≠ .error e
  /-- The one creates the room. -/
  created : ∀ s t c, s.handlers[t]? = some ⟨c, .recv⟩ → s.rooms (requestKey p) = none → ∃ s',
    step s (.recv t (createRequest p) beyond) = some (s', [(t, .reply (requestKey p) c .WAIT)]) ∧
      s'.rooms (requestKey p) = some { password := requestKey p, players := [c] }
  /-- The other is seated in it, as long as it has one player. -/
  seated : ∀ s t c room q, s.handlers[t]? = some ⟨c, .recv⟩ →
    s.rooms (requestKey p) = some room → room.players = [q] → ∃ s' o room',
      step s (.recv t (joinRequest p) beyond') = some (s', o) ∧
        (t, .reply (requestKey p) c .WAIT) ∈ o ∧
        s'.rooms (requestKey p) = some room' ∧ room'.players = [q, c]

/-- The same password leads to the same room, whatever its bytes. -/
theorem sameRoom (hp : p.length ≤ 1000) (beyond beyond' : List Byte) :
    SameRoom p beyond beyond' where
  create _ := creates_iff
  join _ := joins_iff
  noException rooms c e := by
    have hcreate := handleMessage_of_creates rooms c (creates_requestKey p beyond)
    have hjoin := handleMessage_of_joins rooms c (joins_requestKey p beyond')
    exact ⟨by simp [hcreate], by simp [hjoin]⟩
  created _ _ _ here habsent := step_createRequest here hp beyond habsent
  seated _ _ _ _ _ here hroom hplayers := step_joinRequest here hp beyond' hroom hplayers

/-- A password of a letter, a NUL and a newline. -/
theorem sameRoom_nul : SameRoom [97, 0, 10] [] [] :=
  sameRoom (by decide) [] []

end

end Server

/-! ## Different passwords -/

theorem requestKey_of_nul_notMem {p : List Byte} (h : 0 ∉ p.take 4) :
    requestKey p = (p ++ ascii "\n").take 4 := by
  rw [requestKey, take_cstr]
  refine cstr_eq_self fun hmem => ?_
  rw [List.take_append, List.mem_append] at hmem
  rcases hmem with hmem | hmem
  · exact h hmem
  · exact absurd (List.mem_of_mem_take hmem) (by decide)

namespace Client

namespace PasswordScreen

/-- The characters of a text are accepted one by one, from an empty password. -/
def Typed (s : PasswordScreen) (t : List UInt32) : Prop :=
  s.password t = t.map UInt32.toUInt8

instance (s : PasswordScreen) (t : List UInt32) : Decidable (s.Typed t) :=
  inferInstanceAs (Decidable (_ = _))

section

variable {t u us : List UInt32} {p a : List Byte} {b : Byte} {k : Key}

/-- The bytes of `JoinRoomScreen` are letters and digits. -/
theorem isalnum_of_mem_password (h : b ∈ joinRoom.password us) : isalnum b.toUInt32 = true :=
  isalnum_foldl (fun _ hmem => absurd hmem List.not_mem_nil) b h

theorem ne_nul_of_isalnum (h : isalnum b.toUInt32 = true) : b ≠ 0 := by
  rintro rfl
  exact absurd h (by decide)

theorem ne_newline_of_isalnum (h : isalnum b.toUInt32 = true) : b ≠ 10 := by
  rintro rfl
  exact absurd h (by decide)

theorem requestKey_joinRoom (us : List UInt32) :
    requestKey (joinRoom.password us) = (joinRoom.password us ++ ascii "\n").take 4 := by
  refine requestKey_of_nul_notMem fun hmem => ?_
  exact ne_nul_of_isalnum (isalnum_of_mem_password (List.mem_of_mem_take hmem)) rfl

/-- Passwords that differ in the first four bytes sent, the newline included, belong to different
rooms. Of the password of the room the bytes up to a NUL count. -/
theorem not_joins_of_take_ne (ht : createRoom.Typed t) (hu : joinRoom.Typed u)
    (hne : (cstr (t.map UInt32.toUInt8 ++ ascii "\n")).take 4 ≠
      (u.map UInt32.toUInt8 ++ ascii "\n").take 4) (beyond beyond' : List Byte)
    (hk : Creates (bufferString (zeros 1024) beyond (createRequest (createRoom.password t))) k) :
    ¬Joins (bufferString (zeros 1024) beyond' (joinRequest (joinRoom.password u))) k := by
  intro hjoins
  have hcreate := creates_iff.1 hk
  have hjoin := joins_iff.1 hjoins
  rw [ht, requestKey] at hcreate
  rw [requestKey_joinRoom, hu] at hjoin
  exact hne (hcreate.symm.trans hjoin)

/-- Two passwords that differ in their fourth character. -/
theorem not_joins_of_take_ne_fourth : ¬Joins
    (bufferString (zeros 1024) [] (joinRequest (joinRoom.password [97, 98, 99, 101])))
    (requestKey (createRoom.password [97, 98, 99, 100])) :=
  not_joins_of_take_ne (t := [97, 98, 99, 100]) (u := [97, 98, 99, 101]) (by decide) (by decide)
    (by decide) [] [] (creates_requestKey _ _)

/-- It is not so that different passwords belong to different rooms : the fifth character does
not count. -/
theorem not_forall_not_joins : ¬∀ (t u : List UInt32) (beyond beyond' : List Byte) (k : Key),
    createRoom.Typed t → joinRoom.Typed u → t ≠ u →
    Creates (bufferString (zeros 1024) beyond (createRequest (createRoom.password t))) k →
    ¬Joins (bufferString (zeros 1024) beyond' (joinRequest (joinRoom.password u))) k := by
  intro hall
  have hsame : requestKey (createRoom.password [97, 98, 99, 100, 101]) =
      requestKey (joinRoom.password [97, 98, 99, 100, 102]) := by decide
  refine hall [97, 98, 99, 100, 101] [97, 98, 99, 100, 102] [] [] _ (by decide) (by decide)
    (by decide) (creates_requestKey _ _) ?_
  rw [hsame]
  exact joins_requestKey _ _

/-! ## Rooms that can be joined -/

/-- What can be typed on `JoinRoomScreen`. -/
theorem exists_password_joinRoom_iff :
    (∃ us, joinRoom.password us = p) ↔ ∀ b ∈ p, isalnum b.toUInt32 = true := by
  constructor
  · rintro ⟨us, rfl⟩ b hb
    exact isalnum_of_mem_password hb
  · intro h
    exact ⟨p.map UInt8.toUInt32, foldl_alnum h []⟩

/-- A password begins with four letters or digits, or with fewer and the newline that ends the
key. -/
def Joinable (p : List Byte) : Prop :=
  ∃ a rest, p = a ++ rest ∧ a ≠ [] ∧ (∀ b ∈ a, isalnum b.toUInt32 = true) ∧
    (a.length = 4 ∨ a.length < 4 ∧ rest = [] ∨ a.length = 3 ∧ [10] <+: rest ∨
      a.length < 3 ∧ [10, 0] <+: rest)

/-- A joinable password has the key of its letters and digits. -/
theorem Joinable.requestKey_eq (h : Joinable p) : ∃ a, a ≠ [] ∧
    (∀ b ∈ a, isalnum b.toUInt32 = true) ∧ requestKey p = requestKey a := by
  obtain ⟨a, rest, rfl, hne, halnum, hrest⟩ := h
  refine ⟨a, hne, halnum, ?_⟩
  have h0 : 0 ∉ a := fun hmem => ne_nul_of_isalnum (halnum 0 hmem) rfl
  rcases hrest with hlen | ⟨-, rfl⟩ | ⟨hlen, more, rfl⟩ | ⟨-, more, rfl⟩
  · rw [requestKey, requestKey, take_cstr, take_cstr, List.append_assoc,
      List.take_append_of_le_length hlen.ge, List.take_append_of_le_length hlen.ge]
  · rw [List.append_nil]
  · have hfour : 4 ≤ (a ++ ascii "\n").length := by
      rw [List.length_append, hlen]
      decide
    have hsplit : a ++ ([10] ++ more) ++ ascii "\n" = a ++ ascii "\n" ++ (more ++ ascii "\n") := by
      simp [ascii]
    rw [requestKey, requestKey, take_cstr, take_cstr, hsplit, List.take_append_of_le_length hfour]
  · have hsplit : a ++ ([10, 0] ++ more) ++ ascii "\n" =
        (a ++ ascii "\n") ++ 0 :: (more ++ ascii "\n") := by
      simp [ascii]
    rw [requestKey, requestKey, hsplit, cstr_append_nul]

/-- A key that ends with the newline of one or two letters ends with a NUL behind it. -/
theorem exists_nul_of_take_eq {rest : List Byte} (hlen : a.length < 3) (h0 : 0 ∉ a)
    (hkey : (cstr (a ++ ascii "\n" ++ rest ++ ascii "\n")).take 4 = a ++ ascii "\n") :
    ∃ more, rest = 0 :: more := by
  have hline : (a ++ ascii "\n").length = a.length + 1 := List.length_append
  have h0' : 0 ∉ a ++ ascii "\n" := fun hmem =>
    (List.mem_append.1 hmem).elim h0 fun hmem => absurd hmem (by decide)
  rw [List.append_assoc _ rest, cstr_append h0', List.take_append,
    List.take_of_length_le (by omega), List.append_right_eq_self,
    List.take_eq_nil_iff] at hkey
  have hnil : cstr (rest ++ ascii "\n") = [] := hkey.resolve_left (by omega)
  cases rest with
  | nil => exact absurd hnil (by decide)
  | cons b more =>
    by_cases hb : b = 0
    · exact ⟨more, by rw [hb]⟩
    · simp [cstr, hb] at hnil

/-- Only a joinable password has the key of letters and digits. -/
theorem joinable_of_requestKey_eq (hne : a ≠ []) (halnum : ∀ b ∈ a, isalnum b.toUInt32 = true)
    (hkey : requestKey p = requestKey a) : Joinable p := by
  have h0 : 0 ∉ a := fun hmem => ne_nul_of_isalnum (halnum 0 hmem) rfl
  rw [requestKey_of_nul_notMem fun hmem => h0 (List.mem_of_mem_take hmem)] at hkey
  have hstart : (a ++ ascii "\n").take 4 <+: p ++ ascii "\n" := by
    rw [← hkey]
    exact (List.take_prefix 4 _).trans (isPrefix_cstr _)
  rcases Nat.lt_or_ge a.length 4 with hlt | hge
  · have hall : (a ++ ascii "\n").take 4 = a ++ ascii "\n" :=
      List.take_of_length_le (by rw [List.length_append]; exact hlt)
    rw [hall] at hstart hkey
    rcases List.prefix_concat_iff.1 hstart with heq | ⟨rest, rfl⟩
    · obtain rfl := List.append_cancel_right heq
      exact ⟨a, [], by simp, hne, halnum, Or.inr (Or.inl ⟨hlt, rfl⟩)⟩
    · refine ⟨a, ascii "\n" ++ rest, List.append_assoc _ _ _, hne, halnum, Or.inr (Or.inr ?_)⟩
      rcases Nat.eq_or_lt_of_le (Nat.le_of_lt_succ hlt) with hthree | hshort
      · exact Or.inl ⟨hthree, rest, rfl⟩
      · obtain ⟨more, rfl⟩ := exists_nul_of_take_eq hshort h0 hkey
        exact Or.inr ⟨hshort, more, rfl⟩
  · have hfour : (a ++ ascii "\n").take 4 = a.take 4 := List.take_append_of_le_length hge
    rw [hfour] at hstart
    rcases List.prefix_concat_iff.1 hstart with heq | ⟨rest, rfl⟩
    · have hmem : (10 : Byte) ∈ a.take 4 := heq ▸ List.mem_append_right _ (by decide)
      exact absurd rfl (ne_newline_of_isalnum (halnum 10 (List.mem_of_mem_take hmem)))
    · have hlen : (a.take 4).length = 4 := List.length_take_of_le hge
      have hpos : a.take 4 ≠ [] := fun hnil => by simp [hnil] at hlen
      exact ⟨a.take 4, rest, rfl, hpos, fun b hb => halnum b (List.mem_of_mem_take hb),
        Or.inl hlen⟩

/-- A room can be joined exactly if its password is joinable. -/
theorem exists_joins_iff (us : List UInt32) (beyond beyond' : List Byte) :
    (∃ us' k, joinRoom.password us' ≠ [] ∧
        Creates (bufferString (zeros 1024) beyond (createRequest (createRoom.password us))) k ∧
        Joins (bufferString (zeros 1024) beyond' (joinRequest (joinRoom.password us'))) k) ↔
      Joinable (createRoom.password us) := by
  constructor
  · rintro ⟨us', k, hne', hcreates, hjoins⟩
    exact joinable_of_requestKey_eq hne' (fun b hb => isalnum_of_mem_password hb)
      ((creates_iff.1 hcreates).symm.trans (joins_iff.1 hjoins))
  · intro h
    obtain ⟨a, ha, halnum, hkey⟩ := h.requestKey_eq
    obtain ⟨us', rfl⟩ := exists_password_joinRoom_iff.2 halnum
    exact ⟨us', _, ha, creates_requestKey _ _, hkey ▸ joins_requestKey _ _⟩

/-- It is not so that every room can be joined : `JoinRoomScreen` takes no Hangul. -/
theorem not_forall_exists_joins : ¬∀ us : List UInt32, createRoom.password us ≠ [] →
    ∃ us' k, joinRoom.password us' ≠ [] ∧
      Creates (bufferString (zeros 1024) [] (createRequest (createRoom.password us))) k ∧
      Joins (bufferString (zeros 1024) [] (joinRequest (joinRoom.password us'))) k := by
  intro hall
  obtain ⟨us', k, hne, hcreates, hjoins⟩ := hall [44033] (by decide)
  obtain ⟨a, rest, hsplit, hne', halnum, -⟩ := joinable_of_requestKey_eq hne
    (fun b hb => isalnum_of_mem_password hb)
    ((creates_iff.1 hcreates).symm.trans (joins_iff.1 hjoins))
  have hfirst : createRoom.password [44033] = [1] := by decide
  rw [hfirst] at hsplit
  cases a with
  | nil => exact hne' rfl
  | cons b a =>
    obtain ⟨rfl, -⟩ := List.cons.inj hsplit
    exact absurd (halnum 1 List.mem_cons_self) (by decide)

end

end PasswordScreen

end Client

end DesperateStruggle
