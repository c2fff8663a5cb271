import Mathlib.Data.List.TakeWhile

/-!
# Numbers in a text

`text` is the decimal text of an integer, as bytes. It determines the integer, and so it does in a
longer text in which a separator follows it that starts with no digit and no minus
(`text_append_inj`).
-/

namespace Decimal

/-- The bytes that a number is made of : the digits and the minus. -/
def IsPart (b : UInt8) : Bool :=
  (48 ≤ b && b ≤ 57) || b == 45

/-- The digits of a number. -/
def digits (n : Nat) : List UInt8 :=
  (Nat.toDigits 10 n).map fun c => c.toNat.toUInt8

/-- The text of an integer. -/
def text : Int → List UInt8
  | .ofNat n => digits n
  | .negSucc n => 45 :: digits (n + 1)

/-- Two texts with the same parts in front of bytes that are none. -/
theorem append_inj_of_all {α : Type*} {p : α → Bool} {u u' v v' : List α}
    (hu : ∀ a ∈ u, p a = true) (hu' : ∀ a ∈ u', p a = true) (hv : ∀ a ∈ v.head?, p a = false)
    (hv' : ∀ a ∈ v'.head?, p a = false) (h : u ++ v = u' ++ v') : u = u' ∧ v = v' := by
  have hstop : ∀ {v : List α}, (∀ a ∈ v.head?, p a = false) → v.takeWhile p = [] := by
    intro v hv
    cases v with
    | nil => rfl
    | cons a v => simp [hv a rfl]
  have htake := congrArg (List.takeWhile p) h
  rw [List.takeWhile_append_of_pos hu, List.takeWhile_append_of_pos hu', hstop hv, hstop hv',
    List.append_nil, List.append_nil] at htake
  subst htake
  exact ⟨rfl, List.append_cancel_left h⟩

/-- The byte of a digit. -/
theorem toNat_of_mem {n : Nat} {c : Char} (h : c ∈ Nat.toDigits 10 n) :
    c.toNat.toUInt8.toNat = c.toNat ∧ 48 ≤ c.toNat ∧ c.toNat ≤ 57 := by
  have hdigit := Nat.isDigit_of_mem_toDigits (by decide) (by decide) h
  have hrange : 48 ≤ c.toNat ∧ c.toNat ≤ 57 := by
    simp only [Char.isDigit, Bool.and_eq_true, decide_eq_true_eq, ge_iff_le] at hdigit
    exact hdigit
  refine ⟨?_, hrange⟩
  simp only [Nat.toUInt8_eq, UInt8.toNat_ofNat']
  omega

theorem isPart_of_mem_digits {n : Nat} {b : UInt8} (h : b ∈ digits n) :
    IsPart b = true ∧ b ≠ 45 := by
  obtain ⟨c, hc, rfl⟩ := List.mem_map.1 h
  obtain ⟨hnat, hle, hge⟩ := toNat_of_mem hc
  constructor
  · simp only [IsPart, Bool.or_eq_true, Bool.and_eq_true, decide_eq_true_eq, UInt8.le_iff_toNat_le,
      hnat]
    exact Or.inl ⟨hle, hge⟩
  · rintro heq
    rw [heq] at hnat
    have h45 : (45 : UInt8).toNat = 45 := rfl
    omega

theorem digits_injective : Function.Injective digits := by
  have hback : ∀ n, (digits n).map (fun b => Char.ofNat b.toNat) = Nat.toDigits 10 n := by
    intro n
    rw [digits, List.map_map]
    refine (List.map_congr_left fun c hc => ?_).trans (List.map_id _)
    simp only [Function.comp_apply, (toNat_of_mem hc).1, Char.ofNat_toNat, id]
  intro m n h
  have hdigits : Nat.toDigits 10 m = Nat.toDigits 10 n := by rw [← hback m, ← hback n, h]
  rw [← Nat.ofDigitChars_ten_toDigits (n := m), hdigits, Nat.ofDigitChars_ten_toDigits]

theorem isPart_of_mem_text {a : Int} {b : UInt8} (h : b ∈ text a) : IsPart b = true := by
  cases a with
  | ofNat n => exact (isPart_of_mem_digits h).1
  | negSucc n =>
    rcases List.mem_cons.1 h with rfl | h
    · rfl
    · exact (isPart_of_mem_digits h).1

theorem text_injective : Function.Injective text := by
  have hnot : ∀ (m n : Nat), digits m ≠ 45 :: digits (n + 1) := fun m n heq =>
    (isPart_of_mem_digits (n := m) (by rw [heq]; exact List.mem_cons_self)).2 rfl
  intro a b h
  cases a with
  | ofNat m =>
    cases b with
    | ofNat n => rw [digits_injective h]
    | negSucc n => exact (hnot m n h).elim
  | negSucc m =>
    cases b with
    | ofNat n => exact (hnot n m h.symm).elim
    | negSucc n =>
      have hsucc := digits_injective (List.cons.inj h).2
      rw [Nat.succ.inj hsucc]

/-- A number and what follows a separator are read from a text, if the separator does not start
with a part of a number. -/
theorem text_append_inj {a b : Int} {sep v v' : List UInt8}
    (hsep : sep.head?.map IsPart = some false) :
    text a ++ (sep ++ v) = text b ++ (sep ++ v') ↔ a = b ∧ v = v' := by
  have hhead : ∀ v : List UInt8, ∀ c ∈ (sep ++ v).head?, IsPart c = false := by
    intro v
    cases sep with
    | nil => cases hsep
    | cons s sep => exact fun c hc => Option.some.inj hc ▸ Option.some.inj hsep
  refine ⟨fun h => ?_, fun ⟨ha, hv⟩ => by rw [ha, hv]⟩
  obtain ⟨htext, hrest⟩ := append_inj_of_all (fun _ => isPart_of_mem_text)
    (fun _ => isPart_of_mem_text) (hhead v) (hhead v') h
  exact ⟨text_injective htext, List.append_cancel_left hrest⟩

end Decimal
