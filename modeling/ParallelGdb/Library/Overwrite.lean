import Mathlib

/-!
# Optional assignments

An assignment that may be skipped is an `Option`: `put u a` is what a variable
holding `a` holds afterwards. Running assignments one after another is running
the last one that is not skipped.
-/

namespace Library.Overwrite

variable {α β : Type*}

/-- Assign, or keep the old value. -/
def put (u : Option α) (a : α) : α := u.getD a

@[simp] theorem put_none (a : α) : put none a = a := rfl

@[simp] theorem put_some (b a : α) : put (some b) a = b := rfl

/-- Of two assignments in a row the second one wins where it is not skipped. -/
theorem put_or (u v : Option α) (a : α) : put (v.or u) a = put v (put u a) := by
  cases v <;> rfl

/-- Two assignments that agree on every variable are the same assignment. -/
theorem put_ext [Nontrivial α] {u v : Option α} (h : ∀ a, put u a = put v a) : u = v := by
  cases u with
  | none =>
      cases v with
      | none => rfl
      | some b =>
          obtain ⟨a, hab⟩ := exists_ne b
          exact absurd (h a) hab
  | some b =>
      cases v with
      | none =>
          obtain ⟨a, hab⟩ := exists_ne b
          exact absurd (h a).symm hab
      | some c => exact congrArg some (h b)

/-- The last assignment of a list that is not skipped. -/
def lastSome (f : β → Option α) (l : List β) : Option α := (l.filterMap f).getLast?

@[simp] theorem lastSome_nil (f : β → Option α) : lastSome f [] = none := rfl

theorem lastSome_cons (f : β → Option α) (b : β) (l : List β) :
    lastSome f (b :: l) = (lastSome f l).or (f b) := by
  unfold lastSome
  cases hb : f b with
  | none => simp [hb]
  | some a =>
      rw [List.filterMap_cons_some hb, List.getLast?_cons]
      cases (l.filterMap f).getLast? <;> rfl

theorem lastSome_concat (f : β → Option α) (l : List β) (b : β) :
    lastSome f (l ++ [b]) = (f b).or (lastSome f l) := by
  unfold lastSome
  cases hb : f b with
  | none => simp [hb]
  | some a => simp [hb]

theorem lastSome_eq_none {f : β → Option α} {l : List β} :
    lastSome f l = none ↔ ∀ b ∈ l, f b = none := by
  rw [lastSome, List.getLast?_eq_none_iff, List.filterMap_eq_nil_iff]

theorem exists_of_lastSome {f : β → Option α} {l : List β} {a : α} (h : lastSome f l = some a) :
    ∃ b ∈ l, f b = some a := by
  obtain ⟨b, hb, hba⟩ := List.mem_filterMap.mp (List.mem_of_getLast? h)
  exact ⟨b, hb, hba⟩

end Library.Overwrite
