import Mathlib.Data.List.Basic

/-!
# Writing an array from its front

An array that is written slot by slot is the list of what was written; a write
behind the last slot is `none`.
-/

namespace Library.Slots

variable {α β : Type*} {size : Nat}

/-- `slots[idx++] = value`. -/
def store (size : Nat) (slots : List α) (value : α) : Option (List α) :=
  if slots.length < size then some (slots ++ [value]) else none

theorem store_eq_some {slots : List α} (h : slots.length < size) (value : α) :
    store size slots value = some (slots ++ [value]) := if_pos h

/-- A loop of stores stays in the array if there are slots for all of them. -/
theorem foldlM_store (values slots : List α) (h : slots.length + values.length ≤ size) :
    values.foldlM (store size) slots = some (slots ++ values) := by
  induction values generalizing slots with
  | nil =>
      rw [List.append_nil]
      rfl
  | cons value values ih =>
      rw [List.length_cons] at h
      rw [List.foldlM_cons, store_eq_some (by omega)]
      refine (ih (slots ++ [value]) ?_).trans ?_
      · simp only [List.length_append, List.length_singleton]
        omega
      · rw [List.append_assoc, List.singleton_append]

/-- The same where the values are read from position `k` of another array on. -/
theorem foldlM_range_store (wrap : β → α) (values : List β) {k i : Nat}
    (hi : k + i ≤ values.length) (slots : List α) (h : slots.length + i ≤ size) :
    (List.range i).foldlM (fun slots j => values[k + j]?.bind fun v => store size slots (wrap v))
      slots = some (slots ++ ((values.drop k).take i).map wrap) := by
  induction i with
  | zero => simp
  | succ i ih =>
      have hget : values[k + i]? = some values[k + i] := List.getElem?_eq_getElem (by omega)
      have htake : (values.drop k).take (i + 1) = (values.drop k).take i ++ [values[k + i]] := by
        rw [List.take_add_one, List.getElem?_drop, hget]
        rfl
      have hlength : (slots ++ ((values.drop k).take i).map wrap).length < size := by
        simp only [List.length_append, List.length_map, List.length_take, List.length_drop]
        omega
      rw [List.range_succ, List.foldlM_append, ih (by omega) (by omega), Option.bind_eq_bind,
        Option.bind_some, List.foldlM_cons, hget, Option.bind_some, store_eq_some hlength, htake,
        List.map_append, List.append_assoc]
      rfl

end Library.Slots
