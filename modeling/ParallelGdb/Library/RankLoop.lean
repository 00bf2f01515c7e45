import Mathlib

/-!
# Loops over ranks that touch one rank at a time

A loop `for rank in 0..n` whose body reads and writes only what belongs to its
own rank has at each rank the effect of one body. What belongs to the ranks is
given by how a state is built from one entry per rank.
-/

namespace Library.RankLoop

variable {ι S C : Type*}

/-- The loop body run on every index of the list in order. -/
def forEach (body : S → ι → S) (items : List ι) (s : S) : S := items.foldl body s

@[simp] theorem forEach_nil (body : S → ι → S) (s : S) : forEach body [] s = s := rfl

@[simp] theorem forEach_cons (body : S → ι → S) (i : ι) (rest : List ι) (s : S) :
    forEach body (i :: rest) s = forEach body rest (body s i) := rfl

/-- What every body preserves, the loop preserves. -/
theorem forEach_preserves {P : S → Prop} {body : S → ι → S}
    (h : ∀ s i, P s → P (body s i)) (items : List ι) {s : S} (hs : P s) :
    P (forEach body items s) := by
  induction items generalizing s with
  | nil => exact hs
  | cons i rest ih => exact ih (h s i hs)

/-- A state built from one entry per index, where the body at an index works on
its own entry: a loop over distinct indices works on the entry of each. -/
theorem forEach_build [DecidableEq ι] {build : (ι → C) → S} {body : S → ι → S}
    {g : ι → C → C}
    (hbody : ∀ entries i,
      body (build entries) i = build (Function.update entries i (g i (entries i))))
    (items : List ι) (hnodup : items.Nodup) (entries : ι → C) :
    forEach body items (build entries) =
      build fun i => if i ∈ items then g i (entries i) else entries i := by
  induction items generalizing entries with
  | nil => simp
  | cons i rest ih =>
      obtain ⟨hi, hrest⟩ := List.nodup_cons.mp hnodup
      rw [forEach_cons, hbody, ih hrest]
      congr 1
      funext j
      by_cases hj : j = i
      · subst hj
        simp [hi]
      · simp [hj]

/-- The loop over all ranks. -/
theorem forEach_finRange {n : Nat} {build : (Fin n → C) → S} {body : S → Fin n → S}
    {g : Fin n → C → C}
    (hbody : ∀ entries i,
      body (build entries) i = build (Function.update entries i (g i (entries i))))
    (entries : Fin n → C) :
    forEach body (List.finRange n) (build entries) = build fun i => g i (entries i) := by
  rw [forEach_build hbody (List.finRange n) (List.nodup_finRange n)]
  simp

/-- A loop that may fail succeeds if every body does where the loop can take it. -/
theorem foldlM_ok {ε : Type*} {P : S → Prop} {body : S → ι → Except ε S} (items : List ι)
    (h : ∀ s, ∀ i ∈ items, P s → ∃ t, body s i = .ok t ∧ P t) {s : S} (hs : P s) :
    ∃ t, items.foldlM body s = .ok t ∧ P t := by
  induction items generalizing s with
  | nil => exact ⟨s, rfl, hs⟩
  | cons i rest ih =>
      obtain ⟨u, hu, hPu⟩ := h s i List.mem_cons_self hs
      obtain ⟨t, ht, hPt⟩ := ih (fun s j hj => h s j (List.mem_cons_of_mem i hj)) hPu
      refine ⟨t, ?_, hPt⟩
      rw [List.foldlM_cons, hu]
      exact ht

end Library.RankLoop
