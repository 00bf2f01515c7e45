import ParallelGdb.Library.CString

/-!
# Base64

The encoder works on three bytes at a time and fills the last group up with `=`;
the decoder works on four characters and keeps as many bytes as the padding says.
-/

namespace ParallelGdb.Startup.Base64

open Library.CString

/-- `sEncodingTable`. -/
def encodingTable : Bytes :=
  ascii "ABCDEFGHIJKLMNOPQRSTUVWXYZabcdefghijklmnopqrstuvwxyz0123456789+/"

/-- `kDecodingTable`. -/
def decodingTable : List Nat := [
  64, 64, 64, 64, 64, 64, 64, 64, 64, 64, 64, 64, 64, 64, 64, 64,
  64, 64, 64, 64, 64, 64, 64, 64, 64, 64, 64, 64, 64, 64, 64, 64,
  64, 64, 64, 64, 64, 64, 64, 64, 64, 64, 64, 62, 64, 64, 64, 63,
  52, 53, 54, 55, 56, 57, 58, 59, 60, 61, 64, 64, 64, 64, 64, 64,
  64,  0,  1,  2,  3,  4,  5,  6,  7,  8,  9, 10, 11, 12, 13, 14,
  15, 16, 17, 18, 19, 20, 21, 22, 23, 24, 25, 64, 64, 64, 64, 64,
  64, 26, 27, 28, 29, 30, 31, 32, 33, 34, 35, 36, 37, 38, 39, 40,
  41, 42, 43, 44, 45, 46, 47, 48, 49, 50, 51, 64, 64, 64, 64, 64,
  64, 64, 64, 64, 64, 64, 64, 64, 64, 64, 64, 64, 64, 64, 64, 64,
  64, 64, 64, 64, 64, 64, 64, 64, 64, 64, 64, 64, 64, 64, 64, 64,
  64, 64, 64, 64, 64, 64, 64, 64, 64, 64, 64, 64, 64, 64, 64, 64,
  64, 64, 64, 64, 64, 64, 64, 64, 64, 64, 64, 64, 64, 64, 64, 64,
  64, 64, 64, 64, 64, 64, 64, 64, 64, 64, 64, 64, 64, 64, 64, 64,
  64, 64, 64, 64, 64, 64, 64, 64, 64, 64, 64, 64, 64, 64, 64, 64,
  64, 64, 64, 64, 64, 64, 64, 64, 64, 64, 64, 64, 64, 64, 64, 64,
  64, 64, 64, 64, 64, 64, 64, 64, 64, 64, 64, 64, 64, 64, 64, 64]

/-- A character of the encoding table. -/
def letter (k : Nat) : UInt8 := encodingTable.getD k 0

/-- The bits of the second character, of two neighbouring bytes. -/
def second (a b : UInt8) : Nat := ((a.toNat &&& 0x3) <<< 4) ||| ((b.toNat &&& 0xF0) >>> 4)

/-- The bits of the third one. -/
def third (b c : UInt8) : Nat := ((b.toNat &&& 0xF) <<< 2) ||| ((c.toNat &&& 0xC0) >>> 6)

/-- `Base64::encode`. -/
def encode : Bytes → Bytes
  | a :: b :: c :: rest =>
      letter ((a.toNat >>> 2) &&& 0x3F) :: letter (second a b) :: letter (third b c) ::
        letter (c.toNat &&& 0x3F) :: encode rest
  | [a, b] =>
      [letter ((a.toNat >>> 2) &&& 0x3F), letter (second a b),
        letter ((b.toNat &&& 0xF) <<< 2), code '=']
  | [a] =>
      [letter ((a.toNat >>> 2) &&& 0x3F), letter ((a.toNat &&& 0x3) <<< 4), code '=', code '=']
  | [] => []

/-- What the decoder takes a character for. -/
def sextet (c : UInt8) : Nat := if c = code '=' then 0 else decodingTable.getD c.toNat 64

/-- The bytes of each four characters. -/
def triples : Bytes → Bytes
  | a :: b :: c :: d :: rest =>
      let triple := (sextet a <<< (3 * 6)) + (sextet b <<< (2 * 6)) + (sextet c <<< (1 * 6)) +
        (sextet d <<< (0 * 6))
      UInt8.ofNat ((triple >>> (2 * 8)) &&& 0xFF) :: UInt8.ofNat ((triple >>> (1 * 8)) &&& 0xFF) ::
        UInt8.ofNat ((triple >>> (0 * 8)) &&& 0xFF) :: triples rest
  | _ => []

/-- The number of bytes the decoder keeps. -/
def outLen (input : Bytes) : Nat :=
  let len := input.length / 4 * 3
  let len := if input[input.length - 1]? = some (code '=') then len - 1 else len
  if input[input.length - 2]? = some (code '=') then len - 1 else len

/-- `Base64::decode`. -/
def decode (input : Bytes) : Bytes :=
  if input.length % 4 ≠ 0 then [] else (triples input).take (outLen input)

section Groups

theorem sextet_letter {k : Nat} (hk : k < 64) : sextet (letter k) = k := by
  have hall : ∀ k : Fin 64, sextet (letter k) = k := by decide +kernel
  exact hall ⟨k, hk⟩

theorem letter_ne_padding {k : Nat} (hk : k < 64) : letter k ≠ code '=' := by
  have hall : ∀ k : Fin 64, letter k ≠ code '=' := by decide +kernel
  exact hall ⟨k, hk⟩

theorem and_63 (x : Nat) : x &&& 0x3F = x % 64 := Nat.and_two_pow_sub_one_eq_mod x 6

theorem and_15 (x : Nat) : x &&& 0xF = x % 16 := Nat.and_two_pow_sub_one_eq_mod x 4

theorem and_3 (x : Nat) : x &&& 0x3 = x % 4 := Nat.and_two_pow_sub_one_eq_mod x 2

theorem and_255 (x : Nat) : x &&& 0xFF = x % 256 := Nat.and_two_pow_sub_one_eq_mod x 8

theorem first_eq (a : UInt8) : (a.toNat >>> 2) &&& 0x3F = a.toNat / 4 := by
  have ha := a.toNat_lt
  rw [and_63, Nat.shiftRight_eq_div_pow]
  omega

theorem second_eq (a b : UInt8) : second a b = a.toNat % 4 * 16 + b.toNat / 16 := by
  have hb := b.toNat_lt
  have hlow : (b.toNat &&& 0xF0) >>> 4 = b.toNat / 16 := by
    have hmask : 0xF0 >>> 4 = 0xF := rfl
    rw [Nat.shiftRight_and_distrib, hmask, and_15, Nat.shiftRight_eq_div_pow]
    omega
  rw [second, hlow, and_3, ← Nat.shiftLeft_add_eq_or_of_lt (by omega), Nat.shiftLeft_eq]

theorem third_eq (b c : UInt8) : third b c = b.toNat % 16 * 4 + c.toNat / 64 := by
  have hc := c.toNat_lt
  have hlow : (c.toNat &&& 0xC0) >>> 6 = c.toNat / 64 := by
    have hmask : 0xC0 >>> 6 = 0x3 := rfl
    rw [Nat.shiftRight_and_distrib, hmask, and_3, Nat.shiftRight_eq_div_pow]
    omega
  rw [third, hlow, and_15, ← Nat.shiftLeft_add_eq_or_of_lt (by omega), Nat.shiftLeft_eq]

theorem triples_nil : triples [] = [] := rfl

/-- The three bytes of four sextets. -/
theorem triples_cons (a b c d : UInt8) (rest : Bytes) :
    triples (a :: b :: c :: d :: rest) =
      UInt8.ofNat ((sextet a * 262144 + sextet b * 4096 + sextet c * 64 + sextet d) / 65536 % 256) ::
      UInt8.ofNat ((sextet a * 262144 + sextet b * 4096 + sextet c * 64 + sextet d) / 256 % 256) ::
      UInt8.ofNat ((sextet a * 262144 + sextet b * 4096 + sextet c * 64 + sextet d) % 256) ::
        triples rest := by
  simp [triples, and_255, Nat.shiftLeft_eq, Nat.shiftRight_eq_div_pow]

theorem sextet_padding : sextet (code '=') = 0 := rfl

/-- A group of the encoder gives its three bytes back. -/
theorem group_bytes {a b c : UInt8} {w x y z : Nat} (hw : w = a.toNat / 4)
    (hx : x = a.toNat % 4 * 16 + b.toNat / 16) (hy : y = b.toNat % 16 * 4 + c.toNat / 64)
    (hz : z = c.toNat % 64) :
    UInt8.ofNat ((w * 262144 + x * 4096 + y * 64 + z) / 65536 % 256) = a ∧
      UInt8.ofNat ((w * 262144 + x * 4096 + y * 64 + z) / 256 % 256) = b ∧
      UInt8.ofNat ((w * 262144 + x * 4096 + y * 64 + z) % 256) = c := by
  have ha := a.toNat_lt
  have hb := b.toNat_lt
  have hc := c.toNat_lt
  have hgroup : w * 262144 + x * 4096 + y * 64 + z =
      a.toNat * 65536 + b.toNat * 256 + c.toNat := by omega
  rw [hgroup]
  refine ⟨?_, ?_, ?_⟩ <;>
  · apply UInt8.toNat_inj.mp
    rw [UInt8.toNat_ofNat']
    omega

end Groups

section RoundTrip

/-- The number of padding characters of an encoded text. -/
def padding (data : Bytes) : Nat := (3 - data.length % 3) % 3

theorem length_encode (data : Bytes) : (encode data).length = (data.length + 2) / 3 * 4 := by
  induction data using encode.induct with
  | case1 a b c rest ih =>
      simp only [encode, List.length_cons, ih]
      omega
  | case2 a b => simp [encode]
  | case3 a => simp [encode]
  | case4 => simp [encode]

/-- Undecoded padding reads as zeros. -/
theorem triples_encode (data : Bytes) :
    triples (encode data) = data ++ List.replicate (padding data) 0 := by
  induction data using encode.induct with
  | case1 a b c rest ih =>
      have ha := a.toNat_lt
      have hb := b.toNat_lt
      have hc := c.toNat_lt
      obtain ⟨h1, h2, h3⟩ := group_bytes (a := a) (b := b) (c := c) rfl rfl rfl rfl
      have hpadding : padding (a :: b :: c :: rest) = padding rest := by
        simp only [padding, List.length_cons]
        omega
      rw [encode, triples_cons, first_eq, second_eq, third_eq, and_63, sextet_letter (by omega),
        sextet_letter (by omega), sextet_letter (by omega), sextet_letter (by omega), h1, h2, h3,
        ih,
        hpadding]
      rfl
  | case2 a b =>
      have ha := a.toNat_lt
      have hb := b.toNat_lt
      have hx : second a b < 64 := by
        rw [second_eq]
        omega
      have hy : (b.toNat &&& 0xF) <<< 2 = b.toNat % 16 * 4 := by
        rw [and_15, Nat.shiftLeft_eq]
      obtain ⟨h1, h2, h3⟩ := group_bytes (a := a) (b := b) (c := 0) (w := a.toNat / 4)
        (x := second a b) (y := b.toNat % 16 * 4) (z := 0) rfl (second_eq a b) rfl rfl
      rw [encode, triples_cons, first_eq, hy, sextet_padding, sextet_letter (by omega),
        sextet_letter hx, sextet_letter (by omega), h1, h2, h3]
      simp [triples, padding]
  | case3 a =>
      have ha := a.toNat_lt
      have hx : (a.toNat &&& 0x3) <<< 4 = a.toNat % 4 * 16 := by
        rw [and_3, Nat.shiftLeft_eq]
      obtain ⟨h1, h2, h3⟩ := group_bytes (a := a) (b := 0) (c := 0) (w := a.toNat / 4)
        (x := a.toNat % 4 * 16) (y := 0) (z := 0) rfl rfl rfl rfl
      rw [encode, triples_cons, first_eq, hx, sextet_padding, sextet_letter (by omega),
        sextet_letter (by omega), h1, h2, h3]
      simp [triples, padding, List.replicate]
  | case4 => simp [encode, triples, padding]

/-- The last two characters are padding according to the length. -/
theorem padding_encode {data : Bytes} (h : data ≠ []) :
    ((encode data)[(encode data).length - 1]? = some (code '=') ↔ data.length % 3 ≠ 0) ∧
      ((encode data)[(encode data).length - 2]? = some (code '=') ↔ data.length % 3 = 1) := by
  induction data using encode.induct with
  | case1 a b c rest ih =>
      have hlast : letter (c.toNat &&& 0x3F) ≠ code '=' := letter_ne_padding (by
        rw [and_63]
        omega)
      have hthird : letter (third b c) ≠ code '=' := letter_ne_padding (by
        have hb := b.toNat_lt
        have hc := c.toNat_lt
        rw [third_eq]
        omega)
      cases hrest : rest with
      | nil => simp [encode, hlast, hthird]
      | cons d rest' =>
          have hne : rest ≠ [] := by simp [hrest]
          obtain ⟨h1, h2⟩ := ih hne
          have hlength := length_encode rest
          have hshift : ∀ k, (encode (a :: b :: c :: rest))[k + 4]? = (encode rest)[k]? := by
            intro k
            rw [encode]
            rfl
          have hlong : (encode (a :: b :: c :: rest)).length = (encode rest).length + 4 := by
            rw [encode]
            rfl
          have hpos : 4 ≤ (encode rest).length := by
            rw [hlength, hrest, List.length_cons]
            omega
          have hsame : (a :: b :: c :: rest).length % 3 = rest.length % 3 := by
            simp only [List.length_cons]
            omega
          have hone : (encode rest).length + 4 - 1 = (encode rest).length - 1 + 4 := by omega
          have htwo : (encode rest).length + 4 - 2 = (encode rest).length - 2 + 4 := by omega
          rw [← hrest, hlong, hone, htwo, hshift, hshift, hsame]
          exact ⟨h1, h2⟩
  | case2 a b =>
      have hthird : letter ((b.toNat &&& 0xF) <<< 2) ≠ code '=' := letter_ne_padding (by
        rw [and_15, Nat.shiftLeft_eq]
        omega)
      simp [encode, hthird]
  | case3 a => simp [encode]
  | case4 => exact absurd rfl h

theorem outLen_encode (data : Bytes) : outLen (encode data) = data.length := by
  by_cases hdata : data = []
  · subst hdata
    simp [encode, outLen]
  · obtain ⟨hlast, hsecond⟩ := padding_encode hdata
    have hlength := length_encode data
    simp only [outLen, hlast, hsecond]
    have hpos := List.length_pos_iff.mpr hdata
    split_ifs <;> omega

/-- What is encoded is decoded again. -/
theorem decode_encode (data : Bytes) : decode (encode data) = data := by
  have hlength := length_encode data
  rw [decode, if_neg (by omega), triples_encode, outLen_encode, List.take_left']
  rfl

/-- An encoded text is one line. -/
theorem newline_encode (data : Bytes) : code '\n' ∉ encode data := by
  have hletter : ∀ k, letter k ≠ code '\n' := by
    intro k h
    by_cases hk : k < 64
    · have hall : ∀ k : Fin 64, letter k ≠ code '\n' := by decide +kernel
      exact hall ⟨k, hk⟩ h
    · have hlong : encodingTable.length ≤ k := by
        have hlength : encodingTable.length = 64 := rfl
        omega
      rw [letter, List.getD_eq_default _ _ hlong] at h
      exact absurd h (by decide)
  have hpadding : code '=' ≠ code '\n' := by decide
  induction data using encode.induct with
  | case1 a b c rest ih => simp [encode, (hletter _).symm, ih]
  | case2 a b => simp [encode, (hletter _).symm, hpadding.symm]
  | case3 a => simp [encode, (hletter _).symm, hpadding.symm]
  | case4 => simp [encode]

end RoundTrip

end ParallelGdb.Startup.Base64
