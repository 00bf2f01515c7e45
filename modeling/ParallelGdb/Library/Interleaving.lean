import ParallelGdb.Library.Transition

/-!
# Interleaved sources

The steps of a run carry items of many sources in one order. A queue between the
sources and their reader keeps that order. What a reader keeps of each source
apart depends on the items of that source only, in whatever order they arrive
between the others.
-/

namespace Library.Interleaving

open Library.Transition

variable {ι α C S A : Type*}

section Project

variable [DecidableEq ι]

/-- The items of one source, in their order. -/
def project (i : ι) (l : List (ι × α)) : List α := (l.filter fun p => p.1 = i).map Prod.snd

@[simp] theorem project_nil (i : ι) : project i ([] : List (ι × α)) = [] := rfl

@[simp] theorem project_append (i : ι) (l l' : List (ι × α)) :
    project i (l ++ l') = project i l ++ project i l' := by
  simp [project]

@[simp] theorem project_singleton_self (i : ι) (x : α) : project i [(i, x)] = [x] := by
  simp [project]

theorem project_singleton_of_ne {i j : ι} (h : j ≠ i) (x : α) : project i [(j, x)] = [] := by
  simp [project, h]

end Project

/-- What the steps of a history carry. -/
def carried {β : Type*} (item : S → A → Option β) (tr : List (S × A)) : List β :=
  tr.filterMap fun p => item p.1 p.2

theorem carried_snoc {β : Type*} (item : S → A → Option β) (tr : List (S × A)) (s : S) (a : A) :
    carried item (tr ++ [(s, a)]) = carried item tr ++ (item s a).toList := by
  rw [carried, List.filterMap_append]
  cases h : item s a <;> simp [h, carried]

variable {M : System S A} {tr : List (S × A)} {s : S}

/-- What was written to a queue is what was taken from it and what it still holds. -/
theorem fifo {β : Type*} (queue : S → List β) {write take : S → A → Option β}
    (hinit : ∀ s, M.init s → queue s = [])
    (hstep : ∀ s a t, M.step s a t →
      queue s ++ (write s a).toList = (take s a).toList ++ queue t)
    (run : Run M tr s) : carried write tr = carried take tr ++ queue s := by
  induction run with
  | start h => simp [carried, hinit _ h]
  | @next tr s a t run h ih =>
      rw [carried_snoc, carried_snoc, ih, List.append_assoc, hstep s a t h, List.append_assoc]

/-- What is seen of a source is what its own items make of it. -/
theorem seen [DecidableEq ι] {item : S → A → Option (ι × α)} (view : S → ι → C)
    (P : ι → List α → C → Prop) (hinit : ∀ s, M.init s → ∀ i, P i [] (view s i))
    (hquiet : ∀ s a t, Reachable M s → M.step s a t → item s a = none → view t = view s)
    (hitem : ∀ s a t i x, Reachable M s → M.step s a t → item s a = some (i, x) →
      (∀ j, j ≠ i → view t j = view s j) ∧ ∀ xs, P i xs (view s i) → P i (xs ++ [x]) (view t i))
    (run : Run M tr s) (i : ι) : P i (project i (carried item tr)) (view s i) := by
  induction run with
  | start h => exact hinit _ h i
  | @next tr s a t run h ih =>
      rw [carried_snoc, project_append]
      cases hi : item s a with
      | none =>
          rw [hquiet s a t ⟨tr, run⟩ h hi]
          simpa using ih
      | some p =>
          obtain ⟨j, x⟩ := p
          obtain ⟨hothers, hown⟩ := hitem s a t j x ⟨tr, run⟩ h hi
          by_cases hj : j = i
          · subst hj
            simpa using hown _ ih
          · rw [hothers i (Ne.symm hj)]
            simpa [project_singleton_of_ne hj] using ih

end Library.Interleaving
