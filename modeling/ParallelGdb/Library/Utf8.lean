import Mathlib.Data.List.Basic

/-!
# UTF-8 texts as lists of bytes

What is valid, and how cutting and joining a valid text keeps it so: a text is
valid behind a valid one exactly if they are together.
-/

namespace Library.Utf8

/-- The encoding of a text. -/
def bytes (text : String) : List UInt8 := text.toByteArray.data.toList

def Valid (data : List UInt8) : Prop := ∃ text : String, bytes text = data

theorem valid_iff (data : List UInt8) :
    Valid data ↔ (ByteArray.mk data.toArray).IsValidUTF8 := by
  constructor
  · rintro ⟨text, rfl⟩
    exact text.isValidUTF8
  · intro h
    exact ⟨⟨_, h⟩, rfl⟩

instance (data : List UInt8) : Decidable (Valid data) := decidable_of_iff _ (valid_iff data).symm

theorem bytes_append (s t : String) : bytes (s ++ t) = bytes s ++ bytes t := by
  simp [bytes]

theorem valid_nil : Valid [] := ⟨"", rfl⟩

section Joining

variable {a b : List UInt8}

theorem Valid.append (ha : Valid a) (hb : Valid b) : Valid (a ++ b) := by
  obtain ⟨s, rfl⟩ := ha
  obtain ⟨t, rfl⟩ := hb
  exact ⟨s ++ t, bytes_append s t⟩

theorem valid_chars_append_iff (cs : List Char) :
    Valid (bytes (String.ofList cs) ++ b) ↔ Valid b := by
  induction cs with
  | nil => rfl
  | cons c cs ih =>
      have hchar : ∀ d : List UInt8, Valid (bytes (String.ofList [c]) ++ d) ↔ Valid d := by
        intro d
        have hjoin : ByteArray.mk (bytes (String.ofList [c]) ++ d).toArray =
            [c].utf8Encode ++ ByteArray.mk d.toArray := by
          simp [bytes, ByteArray.ext_iff]
        rw [valid_iff, valid_iff, hjoin]
        exact ByteArray.isValidUTF8_utf8Encode_singleton_append_iff
      have hsplit : bytes (String.ofList (c :: cs)) =
          bytes (String.ofList [c]) ++ bytes (String.ofList cs) := by
        rw [← bytes_append, ← String.ofList_append, List.singleton_append]
      rw [hsplit, List.append_assoc, hchar, ih]

theorem Valid.append_iff (ha : Valid a) : Valid (a ++ b) ↔ Valid b := by
  obtain ⟨s, rfl⟩ := ha
  rw [← String.ofList_toList (s := s), valid_chars_append_iff]

end Joining

theorem valid_flatten {pieces : List (List UInt8)} (h : ∀ piece ∈ pieces, Valid piece) :
    Valid pieces.flatten := by
  induction pieces with
  | nil => exact valid_nil
  | cons piece rest ih =>
      rw [List.flatten_cons]
      exact (h piece (by simp)).append (ih fun p hp => h p (by simp [hp]))

/-- All pieces are valid exactly if no cut falls inside a character. -/
theorem forall_valid_iff (pieces : List (List UInt8)) :
    (∀ piece ∈ pieces, Valid piece) ↔ ∀ k, Valid (pieces.take k).flatten := by
  constructor
  · intro h k
    exact valid_flatten fun piece hp => h piece (List.mem_of_mem_take hp)
  · intro h piece hp
    obtain ⟨k, hk⟩ := List.mem_iff_getElem?.mp hp
    have hnext := h (k + 1)
    rw [List.take_add_one, hk, List.flatten_append] at hnext
    simpa using (h k).append_iff.mp hnext

end Library.Utf8
