import ParallelGdb.Library.CString

/-!
# How GDB reads a command

The arguments of a command are separated by white space. An argument in double
quotes is a C string; any other one is taken as it is.
-/

namespace ParallelGdb.Mi

open Library.CString

/-- How an escape of a C string is read, from behind the backslash: the character it
stands for, and what is left. -/
structure Escapes where
  read : Bytes → Option (UInt8 × Bytes)
  shorter : ∀ {s c rest}, read s = some (c, rest) → rest.length ≤ s.length

/-- A C string behind its opening quote: the text, and what is behind the closing
quote. -/
def unquote (e : Escapes) : Nat → Bytes → Option (Bytes × Bytes)
  | 0, _ => none
  | _ + 1, [] => none
  | fuel + 1, c :: s =>
      if c = code '"' then some ([], s)
      else if c = code '\\' then
        match e.read s with
        | none => none
        | some (d, rest) => (unquote e fuel rest).map fun p => (d :: p.1, p.2)
      else (unquote e fuel s).map fun p => (c :: p.1, p.2)

/-- The arguments of a command. White space or the end has to follow a quoted one. -/
def arguments (e : Escapes) : Nat → Bytes → Option (List Bytes)
  | 0, _ => none
  | fuel + 1, s =>
      match s.dropWhile isSpace with
      | [] => some []
      | c :: rest =>
          if c = code '"' then
            match unquote e (rest.length + 1) rest with
            | none => none
            | some (text, rest) =>
                if rest.head?.all isSpace then (arguments e fuel rest).map (text :: ·) else none
          else
            (arguments e fuel ((c :: rest).dropWhile (!isSpace ·))).map
              ((c :: rest).takeWhile (!isSpace ·) :: ·)

/-- The operation and the arguments of a command line. -/
def readCommand (e : Escapes) (line : Bytes) : Option (Bytes × List Bytes) :=
  let line := line.dropWhile isDigit
  if line.head? = some (code '-') then
    (arguments e (line.length + 1) (line.dropWhile (!isSpace ·))).map
      (line.takeWhile (!isSpace ·), ·)
  else none

section Lemmas

variable {e : Escapes}

/-- Quotes are no part of the text. -/
theorem length_unquote {fuel : Nat} {s text rest : Bytes}
    (h : unquote e fuel s = some (text, rest)) : text.length + rest.length < s.length := by
  induction fuel generalizing s text rest with
  | zero => cases h
  | succ fuel ih =>
      rcases s with _ | ⟨c, s⟩
      · cases h
      · rw [unquote] at h
        split_ifs at h
        · obtain ⟨rfl, rfl⟩ := Prod.mk.inj (Option.some.inj h)
          simp
        · cases hread : e.read s with
          | none =>
              rw [hread] at h
              cases h
          | some p =>
              obtain ⟨d, more⟩ := p
              rw [hread] at h
              obtain ⟨⟨text', rest'⟩, hmore, heq⟩ := Option.map_eq_some_iff.mp h
              obtain ⟨rfl, rfl⟩ := Prod.mk.inj heq
              have hshorter := e.shorter hread
              have hlength := ih hmore
              simp only [List.length_cons]
              omega
        · obtain ⟨⟨text', rest'⟩, hmore, heq⟩ := Option.map_eq_some_iff.mp h
          obtain ⟨rfl, rfl⟩ := Prod.mk.inj heq
          have hlength := ih hmore
          simp only [List.length_cons]
          omega

/-- A text is read as one argument that equals it if it has no white space and does
not begin with a quote. -/
theorem arguments_eq_single_iff {fuel : Nat} {text : Bytes} (hne : text ≠ []) :
    arguments e (fuel + 2) (code ' ' :: text) = some [text] ↔
      (∀ c ∈ text, isSpace c = false) ∧ text.head? ≠ some (code '"') := by
  have hspace : (code ' ' :: text).dropWhile isSpace = text.dropWhile isSpace :=
    List.dropWhile_cons_of_pos rfl
  rw [arguments, hspace]
  constructor
  · intro h
    obtain ⟨c, rest, hcons⟩ : ∃ c rest, text.dropWhile isSpace = c :: rest := by
      rcases hdrop : text.dropWhile isSpace with _ | ⟨c, rest⟩
      · rw [hdrop] at h
        cases h
      · exact ⟨c, rest, rfl⟩
    have hlength : (c :: rest).length ≤ text.length :=
      hcons ▸ (List.dropWhile_suffix isSpace).length_le
    rw [hcons] at h
    simp only at h
    split at h
    · -- A quoted argument is shorter than what is written.
      exfalso
      split at h
      · cases h
      · rename_i inner more hquoted
        split at h
        · obtain ⟨_, _, heq⟩ := Option.map_eq_some_iff.mp h
          obtain ⟨rfl, -⟩ := List.cons.inj heq
          have hshorter := length_unquote hquoted
          rw [List.length_cons] at hlength
          omega
        · cases h
    · rename_i hquote
      obtain ⟨_, _, heq⟩ := Option.map_eq_some_iff.mp h
      obtain ⟨htake, -⟩ := List.cons.inj heq
      have hall : c :: rest = text := by
        have hstart : (c :: rest).takeWhile (!isSpace ·) <+: c :: rest := List.takeWhile_prefix _
        rw [htake] at hstart
        exact (hstart.eq_of_length_le hlength).symm
      rw [hall] at htake
      refine ⟨fun d hd => ?_, ?_⟩
      · rw [← htake] at hd
        simpa using List.mem_takeWhile_imp hd
      · rw [← hall]
        simpa using hquote
  · rintro ⟨hclean, hquote⟩
    obtain ⟨c, rest, rfl⟩ := List.exists_cons_of_ne_nil hne
    have hc : isSpace c = false := hclean c (List.mem_cons_self ..)
    have hquote' : c ≠ code '"' := by simpa using hquote
    have htake : (c :: rest).takeWhile (!isSpace ·) = c :: rest :=
      List.takeWhile_eq_self_iff.mpr fun d hd => by simp [hclean d hd]
    have hdrop : (c :: rest).dropWhile (!isSpace ·) = [] :=
      List.dropWhile_eq_nil_iff.mpr fun d hd => by simp [hclean d hd]
    rw [List.dropWhile_cons_of_neg (by simp [hc])]
    simp only [if_neg hquote', htake, hdrop]
    rfl

end Lemmas

end ParallelGdb.Mi
