import Mathlib

/-!
# Byte strings and the C library functions on them

A text is a list of bytes. A C string ends at its first NUL byte, so what a
`char *` denotes is the part of the list before that byte.
-/

namespace Library.CString

abbrev Bytes := List UInt8

instance : LawfulBEq Bytes := inferInstance

/-- The code of a character of the source text. -/
def code (c : Char) : UInt8 := c.toNat.toUInt8

/-- The bytes of a string literal. -/
def ascii (s : String) : Bytes := s.toList.map code

/-- The C string that starts at the head of the memory. -/
def cstr (mem : Bytes) : Bytes := mem.takeWhile (· ≠ 0)

/-- Without a NUL in it, a text is its own string. -/
theorem cstr_of_forall {text : Bytes} (h : ∀ c ∈ text, c ≠ 0) : cstr text = text :=
  List.takeWhile_eq_self_iff.mpr fun c hc => by simpa using h c hc

def isDigit (c : UInt8) : Bool := code '0' ≤ c && c ≤ code '9'

/-- `isalnum` in the C locale. -/
def isAlnum (c : UInt8) : Bool :=
  isDigit c || (code 'a' ≤ c && c ≤ code 'z') || (code 'A' ≤ c && c ≤ code 'Z')

/-- `isspace` in the C locale: blank, and tab to carriage return. -/
def isSpace (c : UInt8) : Bool := c = code ' ' || (9 ≤ c && c ≤ 13)

def natDigits (k : Nat) : Bytes := (Nat.toDigits 10 k).map code

/-- `std::to_string` of an integer. -/
def decimal : Int → Bytes
  | .ofNat k => natDigits k
  | .negSucc k => code '-' :: natDigits (k + 1)

/-- The number a run of digits denotes, most significant first. -/
def digitsValue (s : Bytes) : Nat := s.foldl (fun v c => 10 * v + (c.toNat - 48)) 0

/-- Bring a mathematical integer into the range of a C `int` by wrapping. -/
def toInt32 (z : Int) : Int := z.bmod (2 ^ 32)

/-- Saturation of `strtol` at the limits of a 64-bit `long`. -/
def clampLong (z : Int) : Int := max (-(2 ^ 63)) (min z (2 ^ 63 - 1))

/-- Sign and digits of a number text after its leading white space. -/
def signedPrefix (s : Bytes) : Int :=
  match s with
  | [] => 0
  | c :: rest =>
      if c = code '-' then -(digitsValue (rest.takeWhile isDigit) : Int)
      else if c = code '+' then (digitsValue (rest.takeWhile isDigit) : Int)
      else (digitsValue (s.takeWhile isDigit) : Int)

/-- `atoi`: `strtol` in base ten, converted to `int`. -/
def atoi (s : Bytes) : Int := toInt32 (clampLong (signedPrefix (s.dropWhile isSpace)))

/-- The digits of a number text, and how far the text is read. -/
def scanInt (s : Bytes) : Option (Int × Nat) :=
  let rest := s.dropWhile isSpace
  let blanks := s.length - rest.length
  let digits (rest : Bytes) := rest.takeWhile isDigit
  let scan (sign : Int) (read : Nat) (rest : Bytes) :=
    if digits rest = [] then none
    else some (sign * digitsValue (digits rest), read + (digits rest).length)
  match rest with
  | [] => none
  | c :: tail =>
      if c = code '-' then scan (-1) (blanks + 1) tail
      else if c = code '+' then scan 1 (blanks + 1) tail
      else scan 1 blanks rest

/-- `std::stoi` in base ten, with the number of characters it read; `none`
where it throws. -/
def stoi (s : Bytes) : Option (Int × Nat) :=
  (scanInt s).filter fun p => -(2 ^ 31) ≤ p.1 && p.1 < 2 ^ 31

section Digits

theorem digitsValue_append (s : Bytes) (c : UInt8) :
    digitsValue (s ++ [c]) = 10 * digitsValue s + (c.toNat - 48) := by
  simp [digitsValue]

theorem code_digitChar {d : Nat} (h : d < 10) : (code d.digitChar).toNat = 48 + d := by
  interval_cases d <;> rfl

theorem isDigit_code_digitChar {d : Nat} (h : d < 10) : isDigit (code d.digitChar) = true := by
  interval_cases d <;> rfl

/-- The digits of a number in a base of at most ten. -/
def digitsIn (b k : Nat) : Bytes := (Nat.toDigits b k).map code

theorem natDigits_eq (k : Nat) : natDigits k = digitsIn 10 k := rfl

variable {b k : Nat}

theorem digitsIn_of_lt (h : k < b) : digitsIn b k = [code k.digitChar] := by
  simp [digitsIn, Nat.toDigits_of_lt_base h]

theorem digitsIn_of_le (hb : 1 < b) (h : b ≤ k) :
    digitsIn b k = digitsIn b (k / b) ++ [code (k % b).digitChar] := by
  simp [digitsIn, Nat.toDigits_of_base_le hb h]

theorem isDigit_of_mem_digitsIn (hb : 1 < b) (hten : b ≤ 10) (k : Nat) :
    ∀ c ∈ digitsIn b k, isDigit c = true := by
  induction k using Nat.strong_induction_on with
  | _ k ih =>
      rcases Nat.lt_or_ge k b with h | h
      · rw [digitsIn_of_lt h]
        exact List.forall_mem_singleton.mpr (isDigit_code_digitChar (by omega))
      · rw [digitsIn_of_le hb h, List.forall_mem_append, List.forall_mem_singleton]
        have hlast : k % b < b := Nat.mod_lt k (by omega)
        exact ⟨ih (k / b) (Nat.div_lt_self (by omega) hb), isDigit_code_digitChar (by omega)⟩

/-- The decimal reading of digits in another base, digit by digit. -/
theorem digitsValue_digitsIn (hb : 1 < b) (hten : b ≤ 10) (k : Nat) :
    digitsValue (digitsIn b k) = 10 * digitsValue (digitsIn b (k / b)) + k % b := by
  have hlast : k % b < b := Nat.mod_lt k (by omega)
  rcases Nat.lt_or_ge k b with h | h
  · have hzero : digitsValue (digitsIn b 0) = 0 := by
      rw [digitsIn_of_lt (by omega)]
      rfl
    rw [Nat.div_eq_of_lt h, hzero, Nat.mod_eq_of_lt h, digitsIn_of_lt h]
    simp [digitsValue, code_digitChar (show k < 10 by omega)]
  · rw [digitsIn_of_le hb h, digitsValue_append, code_digitChar (by omega)]
    omega

theorem digitsValue_natDigits (k : Nat) : digitsValue (natDigits k) = k := by
  induction k using Nat.strong_induction_on with
  | _ k ih =>
      rcases Nat.eq_zero_or_pos k with rfl | hk
      · decide
      · rw [natDigits_eq, digitsValue_digitsIn (by decide) (by decide), ← natDigits_eq,
          ih (k / 10) (by omega)]
        omega

theorem isDigit_of_mem_natDigits (k : Nat) : ∀ c ∈ natDigits k, isDigit c = true :=
  isDigit_of_mem_digitsIn (by decide) (by decide) k

theorem natDigits_ne_nil (k : Nat) : natDigits k ≠ [] := by
  rw [natDigits_eq]
  rcases Nat.lt_or_ge k 10 with h | h
  · simp [digitsIn_of_lt h]
  · simp [digitsIn_of_le (by decide) h]

theorem decimal_ne_nil (z : Int) : decimal z ≠ [] := by
  cases z with
  | ofNat k => exact natDigits_ne_nil k
  | negSucc k => exact List.cons_ne_nil _ _

theorem toInt32_of_bounds {z : Int} (hlo : -(2 ^ 31) ≤ z) (hhi : z < 2 ^ 31) :
    toInt32 z = z := by
  unfold toInt32
  rw [Int.bmod_eq_of_le] <;> omega

theorem isDigit_facts {c : UInt8} (h : isDigit c = true) :
    isSpace c = false ∧ c ≠ code '-' ∧ c ≠ code '+' := by
  simp only [isDigit, Bool.and_eq_true, decide_eq_true_eq] at h
  obtain ⟨hlo, hhi⟩ := h
  have h48 : (48 : Nat) ≤ c.toNat := hlo
  have h57 : c.toNat ≤ (57 : Nat) := hhi
  refine ⟨?_, ?_, ?_⟩
  · have hne : c ≠ code ' ' := by
      rintro rfl
      exact absurd h48 (by decide)
    have hgt : ¬ c ≤ 13 := by
      intro hle
      have : c.toNat ≤ 13 := hle
      omega
    simp [isSpace, hne, hgt]
  · rintro rfl
    exact absurd h48 (by decide)
  · rintro rfl
    exact absurd h48 (by decide)

theorem takeWhile_natDigits (k : Nat) : (natDigits k).takeWhile isDigit = natDigits k :=
  List.takeWhile_eq_self_iff.mpr (isDigit_of_mem_natDigits k)

theorem dropWhile_natDigits (k : Nat) : (natDigits k).dropWhile isSpace = natDigits k := by
  obtain ⟨c, rest, hcons⟩ := List.exists_cons_of_ne_nil (natDigits_ne_nil k)
  have hspace := (isDigit_facts (isDigit_of_mem_natDigits k c (by simp [hcons]))).1
  rw [hcons, List.dropWhile_cons_of_neg (by simp [hspace])]

/-- `atoi` of a run of digits. -/
theorem atoi_of_digits {s : Bytes} (hs : ∀ c ∈ s, isDigit c = true)
    (hvalue : digitsValue s < 2 ^ 63) : atoi s = toInt32 (digitsValue s) := by
  cases s with
  | nil => rfl
  | cons c rest =>
      obtain ⟨hspace, hminus, hplus⟩ := isDigit_facts (hs c List.mem_cons_self)
      have hdrop : (c :: rest).dropWhile isSpace = c :: rest :=
        List.dropWhile_cons_of_neg (by simp [hspace])
      have htake : (c :: rest).takeWhile isDigit = c :: rest :=
        List.takeWhile_eq_self_iff.mpr hs
      have hread : signedPrefix (c :: rest) = digitsValue (c :: rest) := by
        rw [signedPrefix, if_neg hminus, if_neg hplus, htake]
      have hclamp : clampLong (digitsValue (c :: rest) : Int) = digitsValue (c :: rest) := by
        unfold clampLong
        omega
      rw [atoi, hdrop, hread, hclamp]

/-- Reading back the decimal text of a number that fits an `int`. -/
theorem atoi_natDigits {k : Nat} (h : k < 2 ^ 31) : atoi (natDigits k) = k := by
  have hvalue := digitsValue_natDigits k
  rw [atoi_of_digits (isDigit_of_mem_natDigits k) (by omega), hvalue]
  exact toInt32_of_bounds (by omega) (by omega)

example : atoi (ascii " -42x") = -42 := by decide

/-- The same with `stoi`, which reads the whole text. -/
theorem stoi_natDigits {k : Nat} (h : k < 2 ^ 31) :
    stoi (natDigits k) = some ((k : Int), (natDigits k).length) := by
  have hscan : scanInt (natDigits k) = some ((k : Int), (natDigits k).length) := by
    obtain ⟨c, rest, hcons⟩ := List.exists_cons_of_ne_nil (natDigits_ne_nil k)
    obtain ⟨-, hminus, hplus⟩ :=
      isDigit_facts (isDigit_of_mem_natDigits k c (by simp [hcons]))
    have htake := takeWhile_natDigits k
    have hval := digitsValue_natDigits k
    unfold scanInt
    rw [dropWhile_natDigits]
    rw [hcons] at htake hval ⊢
    simp [hminus, hplus, htake, hval]
  have hrange : (-(2 ^ 31) ≤ (k : Int) && (k : Int) < 2 ^ 31) = true := by
    simp only [Bool.and_eq_true, decide_eq_true_eq]
    omega
  rw [stoi, hscan, Option.filter_some, if_pos hrange]

end Digits

end Library.CString
