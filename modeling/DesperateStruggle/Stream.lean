import Mathlib.Data.List.Infix

/-!
# Messages in a byte stream

A stream socket keeps the order of the bytes and nothing else : what was sent as a list of
messages arrives as a `Chunking` of their concatenation.

`infix_of_infix_flatten` finds the message behind a pattern. A pattern that occurs in the
stream and that no message can complete at its start (`Uncut`) occurs within one message.
Whether a pattern is `Uncut` by a given list of messages is decidable.
-/

universe u

namespace Stream

variable {α : Type u}

/-- The chunks are a way to receive the stream, each of 1 to `max` bytes. -/
structure Chunking (max : Nat) (stream : List α) (chunks : List (List α)) : Prop where
  flatten : chunks.flatten = stream
  size : ∀ chunk ∈ chunks, 1 ≤ chunk.length ∧ chunk.length ≤ max

/-- A chunk is a part of the stream. -/
theorem Chunking.isInfix {max : Nat} {stream chunk : List α} {chunks : List (List α)}
    (h : Chunking max stream chunks) (hmem : chunk ∈ chunks) : chunk <:+: stream := by
  rw [← h.flatten]
  exact List.infix_of_mem_flatten hmem

/-- No message starts with what is left of the pattern after a cut. -/
def Uncut (pattern message : List α) : Prop :=
  pattern.length ≤ message.length + 1 ∧
    ∀ rest ∈ pattern.tails, rest ≠ [] → rest ≠ pattern → ¬rest <+: message

instance [DecidableEq α] (pattern message : List α) : Decidable (Uncut pattern message) :=
  inferInstanceAs (Decidable (_ ∧ _))

/-- What is left of the pattern after a cut does not start the messages that follow. -/
theorem not_prefix_flatten {pattern rest : List α} {messages : List (List α)}
    (huncut : ∀ m ∈ messages, Uncut pattern m) (hrest : rest <:+ pattern) (hne : rest ≠ [])
    (hproper : rest ≠ pattern) : ¬rest <+: messages.flatten := by
  intro hbegin
  cases messages with
  | nil => exact hne (List.prefix_nil.1 hbegin)
  | cons m ms =>
    obtain ⟨hlen, hcut⟩ := huncut m (by simp)
    have hlt : rest.length < pattern.length := by
      refine Nat.lt_of_le_of_ne hrest.length_le fun heq => ?_
      exact hproper (hrest.eq_of_length heq)
    have hstart : rest <+: m := by
      rw [List.flatten_cons] at hbegin
      exact List.prefix_of_prefix_length_le hbegin (List.prefix_append _ _) (by omega)
    exact hcut rest ((List.mem_tails _ _).2 hrest) hne hproper hstart

/-- A pattern that no message completes lies within one message. -/
theorem infix_of_infix_flatten {pattern : List α} {messages : List (List α)}
    (hne : pattern ≠ []) (huncut : ∀ m ∈ messages, Uncut pattern m)
    (h : pattern <:+: messages.flatten) : ∃ m ∈ messages, pattern <:+: m := by
  induction messages with
  | nil => exact (hne (List.infix_nil.1 h)).elim
  | cons m ms ih =>
    have hms : ∀ m' ∈ ms, Uncut pattern m' := fun m' hm' => huncut m' (by simp [hm'])
    rw [List.flatten_cons, List.infix_append_iff] at h
    rcases h with h | h | ⟨start, rest, rfl, hstart, hrest⟩
    · exact ⟨m, by simp, h⟩
    · obtain ⟨m', hm', hin⟩ := ih hms h
      exact ⟨m', by simp [hm'], hin⟩
    · by_cases hrest0 : rest = []
      · subst hrest0
        refine ⟨m, by simp, ?_⟩
        rw [List.append_nil]
        exact hstart.isInfix
      · by_cases hstart0 : start = []
        · subst hstart0
          obtain ⟨m', hm', hin⟩ := ih hms hrest.isInfix
          exact ⟨m', by simp [hm'], hin⟩
        · have hproper : rest ≠ start ++ rest := fun heq => hstart0 (List.self_eq_append_left.1 heq)
          exact (not_prefix_flatten hms (List.suffix_append _ _) hrest0 hproper hrest).elim

end Stream
