import Mathlib.Data.List.TakeWhile

/-!
# Reading a stream up to delimiters

`getline` takes what stands before the next delimiter, or before the end, and
fails on a stream that has nothing left.
-/

namespace Library.Getline

variable {α : Type*} [DecidableEq α]

/-- What is read, and what is left behind the delimiter. -/
def getline (d : α) (s : List α) : Option (List α × List α) :=
  if s = [] then none
  else some (s.takeWhile (· ≠ d), (s.dropWhile (· ≠ d)).drop 1)

/-- All a loop of `getline` reads; the first argument is the line under way. -/
def linesFrom (d : α) : List α → List α → List (List α)
  | line, [] => if line = [] then [] else [line]
  | line, c :: rest =>
      if c = d then line :: linesFrom d [] rest else linesFrom d (line ++ [c]) rest

def lines (d : α) (s : List α) : List (List α) := linesFrom d [] s

section Lemmas

variable {d : α} {s : List α}

theorem getline_append (h : d ∉ s) (rest : List α) :
    getline d (s ++ d :: rest) = some (s, rest) := by
  have hs : ∀ c ∈ s, decide (c ≠ d) = true := fun c hc => by
    simpa using fun heq : c = d => h (heq ▸ hc)
  rw [getline, if_neg (by simp), List.takeWhile_append_of_pos hs, List.dropWhile_append_of_pos hs]
  simp

/-- A last line need not be ended. -/
theorem getline_last (h : d ∉ s) (hne : s ≠ []) : getline d s = some (s, []) := by
  have hs : ∀ c ∈ s, decide (c ≠ d) = true := fun c hc => by
    simpa using fun heq : c = d => h (heq ▸ hc)
  rw [getline, if_neg hne, List.takeWhile_eq_self_iff.mpr hs, List.dropWhile_eq_nil_iff.mpr hs]
  rfl

theorem linesFrom_append (h : d ∉ s) (line rest : List α) :
    linesFrom d line (s ++ rest) = linesFrom d (line ++ s) rest := by
  induction s generalizing line with
  | nil => simp
  | cons c s ih =>
      rw [List.mem_cons, not_or] at h
      rw [List.cons_append, linesFrom, if_neg (Ne.symm h.1), ih h.2, List.append_assoc,
        List.singleton_append]

/-- The loop reads what `getline` reads, and goes on. -/
theorem lines_eq (d : α) (s : List α) :
    lines d s = match getline d s with
      | none => []
      | some (line, rest) => line :: lines d rest := by
  by_cases hd : d ∈ s
  · obtain ⟨before, rest, rfl, hbefore⟩ := List.eq_append_cons_of_mem hd
    rw [getline_append hbefore, lines, linesFrom_append hbefore]
    simp [linesFrom, lines]
  · by_cases hs : s = []
    · subst hs
      rfl
    · rw [getline_last hd hs]
      have hline := linesFrom_append hd [] []
      rw [List.append_nil, List.nil_append] at hline
      rw [lines, hline, linesFrom, if_neg hs]
      rfl

theorem lines_append (h : d ∉ s) (rest : List α) :
    lines d (s ++ d :: rest) = s :: lines d rest := by
  rw [lines_eq, getline_append h]

/-- Lines that are written one after the other are read one after the other. -/
theorem lines_flatMap {ls : List (List α)} (h : ∀ line ∈ ls, d ∉ line) :
    lines d (ls.flatMap fun line => line ++ [d]) = ls := by
  induction ls with
  | nil => rfl
  | cons line ls ih =>
      rw [List.flatMap_cons, List.append_assoc, List.singleton_append,
        lines_append (h line (by simp)), ih fun l hl => h l (by simp [hl])]

theorem length_linesFrom (d : α) (line s : List α) :
    (linesFrom d line s).length =
      s.count d + if line ++ s = [] ∨ s.getLast? = some d then 0 else 1 := by
  induction s generalizing line with
  | nil =>
      rw [linesFrom, List.append_nil, List.count_nil, List.getLast?_nil]
      split <;> simp_all
  | cons c s ih =>
      rw [linesFrom]
      by_cases hc : c = d
      · subst hc
        rw [if_pos rfl, List.length_cons, ih, List.count_cons_self, List.getLast?_cons]
        cases h : s.getLast? with
        | none => simp [List.getLast?_eq_none_iff.mp h]
        | some a =>
            have hs : s ≠ [] := by
              rintro rfl
              cases h
            simp only [List.nil_append, hs, false_or, Option.getD_some, List.append_eq_nil_iff,
              List.cons_ne_nil, and_false]
            omega
      · rw [if_neg hc, ih, List.count_cons_of_ne hc, List.getLast?_cons]
        cases h : s.getLast? with
        | none => simp [List.getLast?_eq_none_iff.mp h, hc]
        | some a => simp

/-- There is a line for each delimiter, and one for what stands behind the last. -/
theorem length_lines (d : α) (s : List α) :
    (lines d s).length = s.count d + if s = [] ∨ s.getLast? = some d then 0 else 1 :=
  length_linesFrom d [] s

/-- Each delimiter ends a line. -/
theorem linesFrom_append_cons (d : α) (line a b : List α) :
    ∃ front, linesFrom d line (a ++ d :: b) = front ++ lines d b := by
  induction a generalizing line with
  | nil => exact ⟨[line], by simp [linesFrom, lines]⟩
  | cons c a ih =>
      rw [List.cons_append, linesFrom]
      split
      · obtain ⟨front, hfront⟩ := ih []
        exact ⟨line :: front, by rw [hfront, List.cons_append]⟩
      · exact ih _

/-- What is not a delimiter stands in a line. -/
theorem mem_linesFrom {c : α} (hc : c ≠ d) (line s : List α) (h : c ∈ line ∨ c ∈ s) :
    ∃ l ∈ linesFrom d line s, c ∈ l := by
  induction s generalizing line with
  | nil =>
      have hline : c ∈ line := by simpa using h
      rw [linesFrom, if_neg (List.ne_nil_of_mem hline)]
      exact ⟨line, List.mem_singleton_self line, hline⟩
  | cons x s ih =>
      rw [linesFrom]
      split
      · rename_i hx
        rcases h with h | h
        · exact ⟨line, List.mem_cons_self .., h⟩
        · have hs : c ∈ s := by
            rcases List.mem_cons.mp h with rfl | h
            · exact absurd hx hc
            · exact h
          obtain ⟨l, hl, hcl⟩ := ih [] (Or.inr hs)
          exact ⟨l, List.mem_cons_of_mem line hl, hcl⟩
      · apply ih
        rcases h with h | h
        · exact Or.inl (by simp [h])
        · rcases List.mem_cons.mp h with rfl | h
          · exact Or.inl (by simp)
          · exact Or.inr h

theorem not_mem_of_mem_linesFrom {line : List α} (hline : d ∉ line) :
    ∀ l ∈ linesFrom d line s, d ∉ l := by
  induction s generalizing line with
  | nil =>
      intro l hl
      rw [linesFrom] at hl
      split at hl
      · cases hl
      · rwa [List.mem_singleton.mp hl]
  | cons c s ih =>
      intro l hl
      rw [linesFrom] at hl
      split_ifs at hl with hc
      · rcases List.mem_cons.mp hl with rfl | hl
        · exact hline
        · exact ih List.not_mem_nil l hl
      · refine ih (fun h => ?_) l hl
        rcases List.mem_append.mp h with h | h
        · exact hline h
        · exact hc (List.mem_singleton.mp h).symm

theorem not_mem_of_mem_lines {l : List α} (h : l ∈ lines d s) : d ∉ l :=
  not_mem_of_mem_linesFrom List.not_mem_nil l h

end Lemmas

end Library.Getline
