import Mathlib.Data.List.DropRight
import ParallelGdb.Library.Getline

/-!
# Words between separators

The words of a text are its maximal runs without a separator. They are what is
read up to a delimiter once every run of separators is one delimiter and none
stands at an end.
-/

namespace Library.Words

open Library.Getline

variable {α : Type*}

/-- The words of a text; the first argument is the word under way. -/
def wordsFrom (sep : α → Bool) : List α → List α → List (List α)
  | word, [] => if word = [] then [] else [word]
  | word, c :: rest =>
      if sep c then
        if word = [] then wordsFrom sep [] rest else word :: wordsFrom sep [] rest
      else wordsFrom sep (word ++ [c]) rest

def words (sep : α → Bool) (s : List α) : List (List α) := wordsFrom sep [] s

/-- Every run of separators becomes one `d`; the flag is whether the text before
ends with one. -/
def squeezeFrom (sep : α → Bool) (d : α) : Bool → List α → List α
  | _, [] => []
  | inRun, c :: rest =>
      if sep c then
        if inRun then squeezeFrom sep d true rest else d :: squeezeFrom sep d true rest
      else c :: squeezeFrom sep d false rest

def squeeze (sep : α → Bool) (d : α) (s : List α) : List α := squeezeFrom sep d false s

section Lemmas

variable {sep : α → Bool} {c d : α} {s : List α}

theorem wordsFrom_append_cons (h : sep c = true) (word a b : List α) :
    wordsFrom sep word (a ++ c :: b) = wordsFrom sep word a ++ words sep b := by
  induction a generalizing word with
  | nil =>
      rw [List.nil_append, wordsFrom.eq_2, if_pos h, wordsFrom, words]
      split <;> rfl
  | cons x a ih =>
      rw [List.cons_append, wordsFrom, wordsFrom, ih, ih]
      split_ifs <;> rfl

theorem words_append_cons (h : sep c = true) (a b : List α) :
    words sep (a ++ c :: b) = words sep a ++ words sep b :=
  wordsFrom_append_cons h [] a b

theorem wordsFrom_append (h : ∀ c ∈ s, sep c = false) (word rest : List α) :
    wordsFrom sep word (s ++ rest) = wordsFrom sep (word ++ s) rest := by
  induction s generalizing word with
  | nil => simp
  | cons c s ih =>
      rw [List.forall_mem_cons] at h
      rw [List.cons_append, wordsFrom, if_neg (by simp [h.1]), ih h.2, List.append_assoc,
        List.singleton_append]

/-- A text without separators is one word. -/
theorem words_of_forall (h : ∀ c ∈ s, sep c = false) (hne : s ≠ []) : words sep s = [s] := by
  have hword := wordsFrom_append h [] []
  rw [List.append_nil, List.nil_append] at hword
  rw [words, hword, wordsFrom, if_neg hne]

theorem mem_wordsFrom {word : List α} (hword : ∀ c ∈ word, sep c = false) :
    ∀ w ∈ wordsFrom sep word s, w ≠ [] ∧ (∀ c ∈ w, sep c = false) ∧ ∀ c ∈ w, c ∈ word ∨ c ∈ s := by
  induction s generalizing word with
  | nil =>
      intro w hw
      rw [wordsFrom] at hw
      split at hw
      · cases hw
      · rename_i hne
        rw [List.mem_singleton.mp hw]
        exact ⟨hne, hword, fun c hc => Or.inl hc⟩
  | cons x s ih =>
      intro w hw
      rw [wordsFrom] at hw
      split_ifs at hw with hx hnil
      · obtain ⟨hne, hsep, hmem⟩ := ih (by simp) w hw
        exact ⟨hne, hsep, fun c hc => Or.inr (List.mem_cons_of_mem x (by simpa using hmem c hc))⟩
      · rcases List.mem_cons.mp hw with rfl | hw
        · exact ⟨hnil, hword, fun c hc => Or.inl hc⟩
        · obtain ⟨hne, hsep, hmem⟩ := ih (by simp) w hw
          exact ⟨hne, hsep, fun c hc => Or.inr (List.mem_cons_of_mem x (by simpa using hmem c hc))⟩
      · have hword' : ∀ c ∈ word ++ [x], sep c = false := by
          intro c hc
          rcases List.mem_append.mp hc with hc | hc
          · exact hword c hc
          · rw [List.mem_singleton.mp hc]
            exact Bool.eq_false_iff.mpr hx
        obtain ⟨hne, hsep, hmem⟩ := ih hword' w hw
        refine ⟨hne, hsep, fun c hc => ?_⟩
        rcases hmem c hc with hc | hc
        · rcases List.mem_append.mp hc with hc | hc
          · exact Or.inl hc
          · rw [List.mem_singleton.mp hc]
            exact Or.inr (List.mem_cons_self ..)
        · exact Or.inr (List.mem_cons_of_mem x hc)

/-- A word is not empty, has no separator, and stands in the text. -/
theorem mem_words {w : List α} (h : w ∈ words sep s) :
    w ≠ [] ∧ (∀ c ∈ w, sep c = false) ∧ ∀ c ∈ w, c ∈ s := by
  obtain ⟨hne, hsep, hmem⟩ := mem_wordsFrom (by simp) w h
  exact ⟨hne, hsep, fun c hc => by simpa using hmem c hc⟩

/-- What is no separator stands in a word. -/
theorem exists_mem_wordsFrom (hc : sep c = false) (word s : List α) (h : c ∈ word ∨ c ∈ s) :
    ∃ w ∈ wordsFrom sep word s, c ∈ w := by
  induction s generalizing word with
  | nil =>
      have hword : c ∈ word := by simpa using h
      rw [wordsFrom, if_neg (List.ne_nil_of_mem hword)]
      exact ⟨word, List.mem_singleton_self word, hword⟩
  | cons x s ih =>
      rw [wordsFrom]
      split_ifs with hx hnil
      · rcases h with h | h
        · rw [hnil] at h
          cases h
        · rcases List.mem_cons.mp h with rfl | h
          · rw [hc] at hx
            cases hx
          · exact ih [] (Or.inr h)
      · rcases h with h | h
        · exact ⟨word, List.mem_cons_self .., h⟩
        · rcases List.mem_cons.mp h with rfl | h
          · rw [hc] at hx
            cases hx
          · obtain ⟨w, hw, hcw⟩ := ih [] (Or.inr h)
            exact ⟨w, List.mem_cons_of_mem word hw, hcw⟩
      · apply ih
        rcases h with h | h
        · exact Or.inl (by simp [h])
        · rcases List.mem_cons.mp h with rfl | h
          · exact Or.inl (by simp)
          · exact Or.inr h

theorem words_dropWhile (s : List α) : words sep (s.dropWhile sep) = words sep s := by
  induction s with
  | nil => rfl
  | cons c s ih =>
      cases hc : sep c with
      | false => rw [List.dropWhile_cons_of_neg (by simp [hc])]
      | true =>
          rw [List.dropWhile_cons_of_pos hc, ih, words, words, wordsFrom, if_pos hc, if_pos rfl]

theorem words_rdropWhile (s : List α) : words sep (s.rdropWhile sep) = words sep s := by
  induction s using List.reverseRecOn with
  | nil => rfl
  | append_singleton s c ih =>
      cases hc : sep c with
      | false => rw [List.rdropWhile_concat_neg sep s c (by simp [hc])]
      | true =>
          rw [List.rdropWhile_concat_pos sep s c hc, ih, words_append_cons hc, words, words,
            wordsFrom, if_pos rfl, List.append_nil]

/-- Squeezing keeps a last character that is no separator. -/
theorem getLast?_squeezeFrom (hs : s ≠ []) (hlast : sep (s.getLast hs) = false) (inRun : Bool) :
    (squeezeFrom sep d inRun s).getLast? = s.getLast? := by
  induction s generalizing inRun with
  | nil => exact absurd rfl hs
  | cons c s ih =>
      by_cases hnil : s = []
      · subst hnil
        have hc : sep c = false := hlast
        simp [squeezeFrom, hc]
      · have ih := ih hnil (by rw [← hlast, List.getLast_cons hnil])
        have hcons : ∀ x, (x :: s).getLast? = s.getLast? := by
          intro x
          rw [List.getLast?_cons_of_ne_nil hnil]
        have hne : ∀ inRun, squeezeFrom sep d inRun s ≠ [] := by
          intro inRun h
          have hnone := ih inRun
          rw [h, List.getLast?_nil, eq_comm, List.getLast?_eq_none_iff] at hnone
          exact hnil hnone
        rw [squeezeFrom, hcons]
        split_ifs
        · exact ih true
        · rw [List.getLast?_cons_of_ne_nil (hne true), ih true]
        · rw [List.getLast?_cons_of_ne_nil (hne false), ih false]

theorem getLast?_squeeze_rdropWhile (hd : sep d = true) (s : List α) :
    (squeeze sep d (s.rdropWhile sep)).getLast? ≠ some d := by
  by_cases hs : s.rdropWhile sep = []
  · rw [hs]
    exact nofun
  · have hlast := List.rdropWhile_last_not sep s hs
    rw [squeeze, getLast?_squeezeFrom hs (Bool.eq_false_iff.mpr hlast), ne_eq,
      List.getLast?_eq_some_getLast hs, Option.some_inj]
    rintro rfl
    exact hlast hd

variable [DecidableEq α]

/-- Up to a last word, what is read of the squeezed text are the words; behind a
separator that is written the line under way is empty. -/
theorem linesFrom_squeezeFrom (hd : sep d = true)
    (hlast : ∀ hs : s ≠ [], sep (s.getLast hs) = false) :
    (∀ line, line ≠ [] → linesFrom d line (squeezeFrom sep d false s) = wordsFrom sep line s) ∧
      (s ≠ [] → linesFrom d [] (squeezeFrom sep d true s) = wordsFrom sep [] s) := by
  induction s with
  | nil => exact ⟨fun line _ => rfl, fun hs => absurd rfl hs⟩
  | cons c s ih =>
      have htail : ∀ hs : s ≠ [], sep (s.getLast hs) = false := by
        intro hs
        rw [← hlast (List.cons_ne_nil c s), List.getLast_cons hs]
      obtain ⟨hfalse, htrue⟩ := ih htail
      cases hc : sep c with
      | true =>
          have hs : s ≠ [] := by
            rintro rfl
            exact absurd (hlast (List.cons_ne_nil c [])) (by simp [hc])
          refine ⟨fun line hline => ?_, fun _ => ?_⟩
          · simp only [squeezeFrom, wordsFrom, linesFrom, hc, if_true, if_neg hline,
              Bool.false_eq_true, if_false, htrue hs]
          · simp only [squeezeFrom, wordsFrom, hc, if_true, htrue hs]
      | false =>
          have hcd : c ≠ d := by
            rintro rfl
            exact absurd hc (by simp [hd])
          refine ⟨fun line _ => ?_, fun _ => ?_⟩
          · simp only [squeezeFrom, wordsFrom, linesFrom, hc, Bool.false_eq_true, if_false,
              if_neg hcd, hfalse (line ++ [c]) (by simp)]
          · simp only [squeezeFrom, wordsFrom, linesFrom, hc, Bool.false_eq_true, if_false,
              if_neg hcd, List.nil_append, hfalse [c] (by simp)]

/-- What is read of a text that is stripped of separators at both ends and
squeezed are its words. -/
theorem lines_squeeze (hd : sep d = true) (s : List α) :
    lines d (squeeze sep d ((s.dropWhile sep).rdropWhile sep)) = words sep s := by
  have hwords : words sep ((s.dropWhile sep).rdropWhile sep) = words sep s := by
    rw [words_rdropWhile, words_dropWhile]
  rw [← hwords]
  have hfirst : ∀ c rest, (s.dropWhile sep).rdropWhile sep = c :: rest → sep c = false := by
    intro c rest hcons
    obtain ⟨more, hmore⟩ := List.rdropWhile_prefix sep (s.dropWhile sep)
    rw [hcons, List.cons_append] at hmore
    have hne : s.dropWhile sep ≠ [] := by simp [← hmore]
    have hhead := List.head_dropWhile_not sep hne
    simpa [← hmore] using hhead
  have hlast : ∀ hne : (s.dropWhile sep).rdropWhile sep ≠ [],
      sep (((s.dropWhile sep).rdropWhile sep).getLast hne) = false := by
    intro hne
    exact Bool.eq_false_iff.mpr (List.rdropWhile_last_not sep _ hne)
  generalize (s.dropWhile sep).rdropWhile sep = t at hfirst hlast ⊢
  cases t with
  | nil => rfl
  | cons c rest =>
      have hc := hfirst c rest rfl
      have hcd : c ≠ d := by
        rintro rfl
        exact absurd hc (by simp [hd])
      have htail : ∀ hs : rest ≠ [], sep (rest.getLast hs) = false := by
        intro hs
        rw [← hlast (List.cons_ne_nil c rest), List.getLast_cons hs]
      simp only [words, wordsFrom, lines, squeeze, squeezeFrom, linesFrom, hc, Bool.false_eq_true,
        if_false, if_neg hcd, List.nil_append,
        (linesFrom_squeezeFrom hd htail).1 [c] (List.cons_ne_nil c [])]

/-- Texts in which no separator but `d` stands, none in front and no two together. -/
structure SingleSpaced (sep : α → Bool) (d : α) (s : List α) : Prop where
  only : ∀ c ∈ s, sep c = true → c = d
  front : s.head? ≠ some d
  apart : ¬ [d, d] <:+: s

theorem linesFrom_singleSpaced (hd : sep d = true) (line : List α)
    (honly : ∀ c ∈ s, sep c = true → c = d) (hfront : line = [] → s.head? ≠ some d)
    (hapart : ¬ [d, d] <:+: s) : linesFrom d line s = wordsFrom sep line s := by
  induction s generalizing line with
  | nil => rfl
  | cons c s ih =>
      have honly' : ∀ c ∈ s, sep c = true → c = d :=
        fun c hc => honly c (List.mem_cons_of_mem _ hc)
      have hapart' : ¬ [d, d] <:+: s := fun h => hapart (h.trans (List.suffix_cons c s).isInfix)
      by_cases hc : c = d
      · subst hc
        have hline : line ≠ [] := fun h => hfront h rfl
        have hhead : s.head? ≠ some c := by
          intro h
          obtain ⟨rest, rfl⟩ := List.head?_eq_some_iff.mp h
          exact hapart ⟨[], rest, rfl⟩
        rw [linesFrom, if_pos rfl, wordsFrom, if_pos hd, if_neg hline,
          ih [] honly' (fun _ => hhead) hapart']
      · have hsep : ¬ sep c = true := fun h => hc (honly c (List.mem_cons_self ..) h)
        rw [linesFrom, if_neg hc, wordsFrom, if_neg hsep]
        exact ih _ honly' (fun h => absurd h (by simp)) hapart'

/-- When a text is split into its words without being squeezed. -/
theorem lines_eq_words_iff (hd : sep d = true) (s : List α) :
    lines d s = words sep s ↔ SingleSpaced sep d s := by
  constructor
  · intro h
    refine ⟨fun c hc hsep => ?_, fun hfront => ?_, fun hapart => ?_⟩
    · by_contra hcd
      obtain ⟨l, hl, hcl⟩ := mem_linesFrom hcd [] s (Or.inr hc)
      change l ∈ lines d s at hl
      rw [h] at hl
      rw [(mem_words hl).2.1 c hcl] at hsep
      cases hsep
    · obtain ⟨rest, rfl⟩ := List.head?_eq_some_iff.mp hfront
      have hmem : [] ∈ words sep (d :: rest) := by
        rw [← h, lines, linesFrom, if_pos rfl]
        exact List.mem_cons_self ..
      exact (mem_words hmem).1 rfl
    · obtain ⟨a, b, rfl⟩ := hapart
      obtain ⟨front, hlines⟩ := linesFrom_append_cons d [] a (d :: b)
      have hmem : [] ∈ words sep (a ++ [d, d] ++ b) := by
        rw [← h, lines, List.append_assoc]
        refine hlines ▸ List.mem_append_right front ?_
        rw [lines, linesFrom, if_pos rfl]
        exact List.mem_cons_self ..
      exact (mem_words hmem).1 rfl
  · intro h
    exact linesFrom_singleSpaced hd [] h.only (fun _ => h.front) h.apart

end Lemmas

end Library.Words
