import Mathlib

/-!
# Elements in the order of their first occurrence

Going through a list and keeping every element that is new gives the distinct
elements in the order in which they first occur. The place of an element does
not depend on what follows its first occurrence.
-/

namespace Library.FirstOccurrence

variable {α : Type*} [DecidableEq α]

/-- Keep an element if it is new. -/
def note (seen : List α) (a : α) : List α := if a ∈ seen then seen else seen ++ [a]

/-- The distinct elements of a list, first occurrences first. -/
def firsts (l : List α) : List α := l.foldl note []

@[simp] theorem firsts_nil : firsts ([] : List α) = [] := rfl

theorem firsts_concat (l : List α) (a : α) : firsts (l ++ [a]) = note (firsts l) a := by
  rw [firsts, List.foldl_append]
  rfl

@[simp] theorem mem_note (seen : List α) (a b : α) : b ∈ note seen a ↔ b ∈ seen ∨ b = a := by
  unfold note
  split
  · rename_i ha
    refine ⟨Or.inl, ?_⟩
    rintro (hb | rfl)
    · exact hb
    · exact ha
  · simp

@[simp] theorem mem_firsts (l : List α) (a : α) : a ∈ firsts l ↔ a ∈ l := by
  induction l using List.reverseRecOn with
  | nil => simp
  | append_singleton l b ih => rw [firsts_concat, mem_note, ih, List.mem_append, List.mem_singleton]

theorem prefix_note (seen : List α) (a : α) : seen <+: note seen a := by
  unfold note
  split
  · exact List.prefix_refl seen
  · exact List.prefix_append seen [a]

theorem prefix_firsts (l l' : List α) : firsts l <+: firsts (l ++ l') := by
  induction l' using List.reverseRecOn with
  | nil => rw [List.append_nil]
  | append_singleton l' a ih =>
      rw [← List.append_assoc, firsts_concat]
      exact ih.trans (prefix_note _ a)

/-- What follows the first occurrence of an element does not move it. -/
theorem idxOf_firsts_append {l : List α} {a : α} (h : a ∈ l) (l' : List α) :
    (firsts (l ++ l')).idxOf a = (firsts l).idxOf a := by
  obtain ⟨more, hmore⟩ := prefix_firsts l l'
  rw [← hmore, List.idxOf_append_of_mem ((mem_firsts l a).mpr h)]

end Library.FirstOccurrence
