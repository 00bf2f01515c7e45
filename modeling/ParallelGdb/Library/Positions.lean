import Mathlib

/-!
# Erasing the positions of the elements to be dropped

Erasing elements by position, from the last position to the first, leaves the
elements at the other positions in their order.
-/

namespace Library.Positions

variable {α : Type*}

/-- The positions of the elements with a property, in ascending order. -/
def positions (p : α → Bool) (l : List α) : List Nat :=
  (l.zipIdx.filter fun x => p x.1).map Prod.snd

/-- Erase positions one after the other. -/
def eraseEach (l : List α) (ks : List Nat) : List α := ks.foldl List.eraseIdx l

theorem positions_sorted (p : α → Bool) (l : List α) : (positions p l).Pairwise (· < ·) := by
  have hsub : (positions p l).Sublist (l.zipIdx.map Prod.snd) := List.filter_sublist.map _
  rw [List.zipIdx_map_snd] at hsub
  exact List.Pairwise.sublist hsub (List.pairwise_lt_range' ..)

theorem lt_length_of_mem_positions {p : α → Bool} {l : List α} {k : Nat}
    (h : k ∈ positions p l) : k < l.length := by
  obtain ⟨x, hx, rfl⟩ := List.mem_map.mp h
  exact List.snd_lt_of_mem_zipIdx (List.mem_of_mem_filter hx)

theorem positions_cons (p : α → Bool) (x : α) (l : List α) :
    positions p (x :: l) =
      (if p x then [0] else []) ++ (positions p l).map (· + 1) := by
  have hshift : l.zipIdx 1 = l.zipIdx.map fun x => (x.1, x.2 + 1) := by
    simp [List.zipIdx_succ]
  unfold positions
  rw [List.zipIdx_cons, hshift, List.filter_cons]
  split <;> simp [List.filter_map, Function.comp_def]

theorem eraseEach_cons_succ (x : α) (l : List α) (ks : List Nat) :
    eraseEach (x :: l) (ks.map (· + 1)) = x :: eraseEach l ks := by
  induction ks generalizing l with
  | nil => rfl
  | cons k rest ih => exact ih (l.eraseIdx k)

theorem eraseEach_append (l : List α) (ks js : List Nat) :
    eraseEach l (ks ++ js) = eraseEach (eraseEach l ks) js := List.foldl_append

/-- Erasing the positions of the elements with a property filters them out. -/
theorem eraseEach_positions (p : α → Bool) (l : List α) :
    eraseEach l (positions p l).reverse = l.filter fun x => !p x := by
  induction l with
  | nil => rfl
  | cons x l ih =>
      rw [positions_cons, List.reverse_append, eraseEach_append, ← List.map_reverse,
        eraseEach_cons_succ, ih]
      cases hx : p x <;> simp [hx, eraseEach]

end Library.Positions
