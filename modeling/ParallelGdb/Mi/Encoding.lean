import ParallelGdb.Mi.Grammar

/-!
# Texts in c-string form

GDB writes a text as a c-string: quotes and backslashes are escaped, the common
control characters have letters, and what is not printable ASCII becomes an
octal escape. The parser knows the letters `n` and `t` and reads any other
escape as the character behind the backslash.
-/

namespace ParallelGdb.Mi

open Library.CString

/-- The letter of a control character. -/
def letterEscape (c : UInt8) : Option UInt8 :=
  if c = 10 then some (code 'n')
  else if c = 9 then some (code 't')
  else if c = 13 then some (code 'r')
  else if c = 8 then some (code 'b')
  else if c = 12 then some (code 'f')
  else if c = 7 then some (code 'a')
  else if c = 27 then some (code 'e')
  else none

/-- Three octal digits. -/
def octal (c : UInt8) : Bytes :=
  [code (c.toNat / 64).digitChar, code (c.toNat / 8 % 8).digitChar, code (c.toNat % 8).digitChar]

/-- How GDB writes a character in a c-string. -/
def encodeChar (c : UInt8) : Bytes :=
  if c = code '"' ∨ c = code '\\' then
    [code '\\', c]
  else
    match letterEscape c with
    | some letter => [code '\\', letter]
    | none => if 32 ≤ c ∧ c < 127 then [c] else code '\\' :: octal c

def encode (text : Bytes) : Bytes := text.flatMap encodeChar

/-- What the parser reads where GDB has written a character. -/
def readChar (c : UInt8) : Bytes :=
  if c = code '"' ∨ c = code '\\' then
    [c]
  else
    match letterEscape c with
    | some letter => [unescape letter]
    | none => if 32 ≤ c ∧ c < 127 then [c] else octal c

def readBack (text : Bytes) : Bytes := text.flatMap readChar

/-- Printable ASCII, newline or tab. -/
def Kept (c : UInt8) : Prop := (32 ≤ c ∧ c < 127) ∨ c = code '\n' ∨ c = code '\t'

instance (c : UInt8) : Decidable (Kept c) := by
  unfold Kept
  infer_instance

section Quoting

theorem isDigit_octal (c : UInt8) : ∀ d ∈ octal c, isDigit d = true := by
  have hc := c.toNat_lt
  simp only [octal, List.forall_mem_cons]
  refine ⟨isDigit_code_digitChar (by omega), isDigit_code_digitChar (by omega),
    isDigit_code_digitChar (by omega), by simp⟩

theorem plain_of_isDigit {d : UInt8} (h : isDigit d = true) :
    d ≠ 0 ∧ d ≠ code '\n' ∧ d ≠ code '"' ∧ d ≠ code '\\' := by
  refine ⟨?_, ?_, ?_, ?_⟩ <;>
  · rintro rfl
    exact absurd h (by decide)

/-- A text of plain characters. -/
theorem exists_plain {text : Bytes}
    (h : ∀ c ∈ text, c ≠ 0 ∧ c ≠ code '\n' ∧ c ≠ code '"' ∧ c ≠ code '\\') :
    ∃ s : Quoted, s.written = text ∧ s.read = text := by
  induction text with
  | nil => exact ⟨[], rfl, rfl⟩
  | cons c text ih =>
      obtain ⟨s, hwritten, hread⟩ := ih fun b hb => h b (by simp [hb])
      refine ⟨.plain c (h c (by simp)) :: s, ?_, ?_⟩
      · exact congrArg (c :: ·) hwritten
      · exact congrArg (c :: ·) hread

theorem exists_encodedChar {c : UInt8} (hc : c ≠ 0) :
    ∃ s : Quoted, s.written = encodeChar c ∧ s.read = readChar c := by
  unfold encodeChar readChar
  by_cases hquote : c = code '"' ∨ c = code '\\'
  · have hvalid : c ≠ 0 ∧ c ≠ code '\n' := by
      rcases hquote with rfl | rfl <;> decide
    rw [if_pos hquote, if_pos hquote]
    refine ⟨[.escaped c hvalid], rfl, ?_⟩
    rcases hquote with rfl | rfl <;> rfl
  · rw [if_neg hquote, if_neg hquote]
    rw [not_or] at hquote
    cases hletter : letterEscape c with
    | some letter =>
        have hvalid : letter ≠ 0 ∧ letter ≠ code '\n' := by
          unfold letterEscape at hletter
          split_ifs at hletter <;> obtain rfl := Option.some.inj hletter <;> decide
        exact ⟨[.escaped letter hvalid], rfl, rfl⟩
    | none =>
        by_cases hprint : 32 ≤ c ∧ c < 127
        · have hnewline : c ≠ code '\n' := by
            rintro rfl
            exact absurd hprint (by decide)
          simp only [if_pos hprint]
          exact ⟨[.plain c ⟨hc, hnewline, hquote⟩], rfl, rfl⟩
        · simp only [if_neg hprint]
          -- An octal escape is an escaped digit with two plain ones behind it.
          obtain ⟨s, hwritten, hread⟩ :
              ∃ s : Quoted, s.written = (octal c).tail ∧ s.read = (octal c).tail :=
            exists_plain fun d hd => plain_of_isDigit (isDigit_octal c d (List.mem_of_mem_tail hd))
          have hfirst : isDigit (code (c.toNat / 64).digitChar) = true :=
            isDigit_octal c _ (by simp [octal])
          have hvalid := plain_of_isDigit hfirst
          have hkept : unescape (code (c.toNat / 64).digitChar) =
              code (c.toNat / 64).digitChar := by
            generalize code (c.toNat / 64).digitChar = d at hfirst
            have hn : d ≠ code 'n' := by
              rintro rfl
              exact absurd hfirst (by decide)
            have ht : d ≠ code 't' := by
              rintro rfl
              exact absurd hfirst (by decide)
            rw [unescape, if_neg hn, if_neg ht]
          refine ⟨.escaped _ ⟨hvalid.1, hvalid.2.1⟩ :: s, ?_, ?_⟩
          · have hcons : Quoted.written (.escaped _ ⟨hvalid.1, hvalid.2.1⟩ :: s) =
                [code '\\', code (c.toNat / 64).digitChar] ++ Quoted.written s := rfl
            rw [hcons, hwritten]
            rfl
          · have hcons : Quoted.read (.escaped _ ⟨hvalid.1, hvalid.2.1⟩ :: s) =
                unescape (code (c.toNat / 64).digitChar) :: Quoted.read s := rfl
            rw [hcons, hkept, hread]
            rfl

/-- An encoded text is a quoted one, which is read back character by character. -/
theorem exists_encoded {text : Bytes} (h : ∀ c ∈ text, c ≠ 0) :
    ∃ s : Quoted, s.written = encode text ∧ s.read = readBack text := by
  induction text with
  | nil => exact ⟨[], rfl, rfl⟩
  | cons c text ih =>
      obtain ⟨s, hwritten, hread⟩ := exists_encodedChar (h c (by simp))
      obtain ⟨s', hwritten', hread'⟩ := ih fun b hb => h b (by simp [hb])
      refine ⟨s ++ s', ?_, ?_⟩
      · rw [encode, List.flatMap_cons, ← hwritten]
        exact (List.flatMap_append ..).trans (congrArg _ hwritten')
      · rw [readBack, List.flatMap_cons, ← hread]
        exact List.map_append.trans (congrArg _ hread')

/-- What is read is determined by what is written. -/
theorem read_congr {s s' : Quoted} (h : s.written = s'.written) : s.read = s'.read := by
  induction s generalizing s' with
  | nil =>
      cases s' with
      | nil => rfl
      | cons q s' => cases q <;> simp [Quoted.written, QuotedChar.written] at h
  | cons q s ih =>
      cases s' with
      | nil => cases q <;> simp [Quoted.written, QuotedChar.written] at h
      | cons q' s' =>
          have hcons : ∀ (q : QuotedChar) (s : Quoted),
              Quoted.written (q :: s) = q.written ++ Quoted.written s := fun q s => rfl
          have hread : ∀ (q : QuotedChar) (s : Quoted),
              Quoted.read (q :: s) = q.read :: Quoted.read s := fun q s => rfl
          rw [hcons, hcons] at h
          rw [hread, hread]
          cases q with
          | plain c valid =>
              cases q' with
              | plain c' valid' =>
                  simp only [QuotedChar.written, List.singleton_append, List.cons.injEq] at h
                  rw [ih h.2]
                  exact congrArg (· :: _) h.1
              | escaped c' valid' =>
                  simp only [QuotedChar.written, List.cons_append, List.cons.injEq] at h
                  exact absurd h.1 valid.2.2.2
          | escaped c valid =>
              cases q' with
              | plain c' valid' =>
                  simp only [QuotedChar.written, List.cons_append, List.cons.injEq] at h
                  exact absurd h.1.symm valid'.2.2.2
              | escaped c' valid' =>
                  simp only [QuotedChar.written, List.cons_append, List.nil_append,
                    List.cons.injEq, true_and] at h
                  rw [ih h.2]
                  exact congrArg (unescape · :: _) h.1

theorem read_of_encoded {s : Quoted} {text : Bytes} (hs : s.written = encode text)
    (h : ∀ c ∈ text, c ≠ 0) : s.read = readBack text := by
  obtain ⟨s', hwritten, hread⟩ := exists_encoded h
  rw [← hread]
  exact read_congr (hs.trans hwritten.symm)

/-- Plain characters are read as they are. -/
theorem read_of_plain {s : Quoted} {text : Bytes} (hs : s.written = text)
    (h : ∀ c ∈ text, c ≠ 0 ∧ c ≠ code '\n' ∧ c ≠ code '"' ∧ c ≠ code '\\') : s.read = text := by
  obtain ⟨s', hwritten, hread⟩ := exists_plain h
  rw [← hread]
  exact read_congr (hs.trans hwritten.symm)

theorem read_of_digits {s : Quoted} {k : Nat} (hs : s.written = natDigits k) :
    s.read = natDigits k :=
  read_of_plain hs fun c hc => plain_of_isDigit (isDigit_of_mem_natDigits k c hc)

end Quoting

section Reading

theorem readChar_kept {c : UInt8} (h : Kept c) : readChar c = [c] := by
  rcases h with hprint | rfl | rfl
  · unfold readChar
    split
    · rfl
    · have hnone : letterEscape c = none := by
        unfold letterEscape
        split_ifs <;> first | rfl | (subst_vars; exact absurd hprint (by decide))
      simp only [hnone]
  · rfl
  · rfl

/-- Any other character is read as something that begins differently. -/
theorem readChar_lost {c : UInt8} (h : ¬ Kept c) :
    ∃ d rest, readChar c = d :: rest ∧ d ≠ c := by
  have hquote : ¬ (c = code '"' ∨ c = code '\\') := by
    rintro (rfl | rfl) <;> exact h (by decide)
  have hprint : ¬ (32 ≤ c ∧ c < 127) := fun hprint => h (Or.inl hprint)
  unfold readChar
  rw [if_neg hquote]
  cases hletter : letterEscape c with
  | some letter =>
      refine ⟨unescape letter, [], rfl, ?_⟩
      unfold letterEscape at hletter
      split_ifs at hletter with h1 h2 h3 h4 h5 h6 h7 <;> obtain rfl := Option.some.inj hletter <;>
        subst_vars <;> first | decide | exact absurd h (by decide)
  | none =>
      refine ⟨_, _, if_neg hprint, ?_⟩
      intro hfirst
      -- A digit is printable.
      have hdigit : isDigit c = true := by
        rw [← hfirst]
        exact isDigit_octal c _ (by simp [octal])
      simp only [isDigit, Bool.and_eq_true, decide_eq_true_eq] at hdigit
      have hzero : (32 : UInt8) ≤ code '0' := by decide
      have hnine : code '9' < (127 : UInt8) := by decide
      exact hprint ⟨UInt8.le_trans hzero hdigit.1, UInt8.lt_of_le_of_lt hdigit.2 hnine⟩

/-- A text is read back unchanged exactly if all its characters are. -/
theorem readBack_eq_iff (text : Bytes) : readBack text = text ↔ ∀ c ∈ text, Kept c := by
  induction text with
  | nil => simp [readBack]
  | cons c text ih =>
      rw [readBack, List.flatMap_cons, List.forall_mem_cons, ← ih]
      by_cases hc : Kept c
      · rw [readChar_kept hc]
        simp [hc, readBack]
      · obtain ⟨d, rest, hread, hne⟩ := readChar_lost hc
        rw [hread]
        simp [hc, hne]

end Reading

end ParallelGdb.Mi
