import ParallelGdb.Startup.Config

/-!
# Importing any file

The decoder indexes its table with a `char`, which is signed, so a byte above 127
gives a negative index. With every index checked, an import leaves an array exactly
at such a byte in a password that the decoder does not refuse.
-/

namespace ParallelGdb.Startup

open Library.CString Library.Getline

namespace Base64

/-- `input[i]`: up to the NUL behind the last character. -/
def charAt (input : Bytes) (i : Int) : Option UInt8 :=
  if 0 ≤ i ∧ i ≤ input.length then some (input.getD i.toNat 0) else none

/-- `kDecodingTable[static_cast<int>(c)]`. -/
def tableAt (c : UInt8) : Option Nat :=
  let i := (c.toNat : Int).bmod 256
  if 0 ≤ i then decodingTable[i.toNat]? else none

/-- One character of a group. -/
def sextetAt (input : Bytes) (i : Nat) : Option Nat := do
  let c ← charAt input i
  if c = code '=' then some 0 else tableAt c

/-- The number of bytes the decoder keeps; an index before the first character is no
better than the one it wraps round to. -/
def outLenIn (input : Bytes) : Option Nat := do
  let len := input.length / 4 * 3
  let len := if (← charAt input (input.length - 1)) = code '=' then len - 1 else len
  let len := if (← charAt input (input.length - 2)) = code '=' then len - 1 else len
  return len

/-- The loop of `decode` over the remaining groups. -/
def triplesIn (input : Bytes) : Nat → Nat → Option Bytes
  | 0, _ => some []
  | groups + 1, i => do
      let a ← sextetAt input i
      let b ← sextetAt input (i + 1)
      let c ← sextetAt input (i + 2)
      let d ← sextetAt input (i + 3)
      let triple := (a <<< (3 * 6)) + (b <<< (2 * 6)) + (c <<< (1 * 6)) + (d <<< (0 * 6))
      return UInt8.ofNat ((triple >>> (2 * 8)) &&& 0xFF) ::
        UInt8.ofNat ((triple >>> (1 * 8)) &&& 0xFF) ::
        UInt8.ofNat ((triple >>> (0 * 8)) &&& 0xFF) :: (← triplesIn input groups (i + 4))

/-- `Base64::decode` with its indices checked. -/
def decodeIn (input : Bytes) : Option Bytes :=
  if input.length % 4 ≠ 0 then some []
  else do
    let outLen ← outLenIn input
    return (← triplesIn input (input.length / 4) 0).take outLen

section Bounds

variable {input : Bytes}

/-- A byte that is a valid index, as all of ASCII. -/
def Indexable (c : UInt8) : Prop := c < 128

instance (c : UInt8) : Decidable (Indexable c) := inferInstanceAs (Decidable (c < 128))

theorem tableAt_eq (c : UInt8) :
    tableAt c = if Indexable c then some (decodingTable.getD c.toNat 64) else none := by
  have hall : ∀ k : Fin 256, tableAt (UInt8.ofNat k) =
      if Indexable (UInt8.ofNat k) then some (decodingTable.getD (UInt8.ofNat k).toNat 64)
      else none := by decide +kernel
  have hc := hall ⟨c.toNat, c.toNat_lt⟩
  rwa [UInt8.ofNat_toNat] at hc

theorem charAt_natCast {i : Nat} (h : i ≤ input.length) :
    charAt input i = some (input.getD i 0) := by
  rw [charAt, if_pos ⟨by omega, by omega⟩, Int.toNat_natCast]

theorem sextetAt_eq {i : Nat} {c : UInt8} (h : input[i]? = some c) :
    sextetAt input i = if Indexable c then some (sextet c) else none := by
  obtain ⟨hi, rfl⟩ := List.getElem?_eq_some_iff.mp h
  rw [sextetAt, charAt_natCast hi.le, Option.bind_eq_bind, Option.bind_some,
    List.getD_eq_getElem _ _ hi, tableAt_eq, sextet]
  by_cases hpadding : input[i] = code '='
  · have hindex : Indexable input[i] := hpadding ▸ (by decide)
    rw [if_pos hpadding, if_pos hpadding, if_pos hindex]
  · rw [if_neg hpadding, if_neg hpadding]

/-- The loop stays in range if and only if every character is a valid index. -/
theorem triplesIn_eq (groups : Nat) (front rest : Bytes) (h : rest.length = 4 * groups) :
    triplesIn (front ++ rest) groups front.length =
      if ∀ c ∈ rest, Indexable c then some (triples rest) else none := by
  induction groups generalizing front rest with
  | zero =>
      obtain rfl := List.length_eq_zero_iff.mp h
      rw [triplesIn, if_pos (List.forall_mem_nil _), triples_nil]
  | succ groups ih =>
      rcases rest with _ | ⟨a, _ | ⟨b, _ | ⟨c, _ | ⟨d, rest⟩⟩⟩⟩ <;>
        simp only [List.length_nil, List.length_cons] at h <;> try omega
      have ha : (front ++ a :: b :: c :: d :: rest)[front.length]? = some a := by simp
      have hb : (front ++ a :: b :: c :: d :: rest)[front.length + 1]? = some b := by simp
      have hc : (front ++ a :: b :: c :: d :: rest)[front.length + 2]? = some c := by simp
      have hd : (front ++ a :: b :: c :: d :: rest)[front.length + 3]? = some d := by simp
      have hrest := ih (front ++ [a, b, c, d]) rest (by omega)
      rw [List.append_assoc, List.length_append] at hrest
      rw [triplesIn, sextetAt_eq ha, sextetAt_eq hb, sextetAt_eq hc, sextetAt_eq hd]
      simp only [List.forall_mem_cons]
      change triplesIn _ groups (front.length + 4) = _ at hrest
      simp only [List.cons_append, List.nil_append] at hrest
      by_cases hall : Indexable a ∧ Indexable b ∧ Indexable c ∧ Indexable d ∧
          ∀ x ∈ rest, Indexable x
      · obtain ⟨ha, hb, hc, hd, hmore⟩ := hall
        rw [if_pos hmore] at hrest
        rw [if_pos ha, if_pos hb, if_pos hc, if_pos hd, if_pos ⟨ha, hb, hc, hd, hmore⟩]
        simp only [Option.bind_eq_bind, Option.bind_some, hrest]
        rfl
      · rw [if_neg hall]
        by_cases ha : Indexable a <;> by_cases hb : Indexable b <;> by_cases hc : Indexable c <;>
          by_cases hd : Indexable d <;>
          simp only [ha, hb, hc, hd, if_true, if_false, Option.bind_eq_bind, Option.bind_some,
            Option.bind_none]
        have hmore : ¬ ∀ x ∈ rest, Indexable x := fun hmore => hall ⟨ha, hb, hc, hd, hmore⟩
        rw [hrest, if_neg hmore, Option.bind_none]

theorem outLenIn_eq (h : 2 ≤ input.length) : outLenIn input = some (outLen input) := by
  have hone : charAt input (input.length - 1) = some (input.getD (input.length - 1) 0) := by
    rw [← charAt_natCast (Nat.sub_le _ 1)]
    congr 1
    omega
  have htwo : charAt input (input.length - 2) = some (input.getD (input.length - 2) 0) := by
    rw [← charAt_natCast (Nat.sub_le _ 2)]
    congr 1
    omega
  have hget : ∀ i, i < input.length →
      (input[i]? = some (code '=') ↔ input.getD i 0 = code '=') := by
    intro i hi
    rw [List.getElem?_eq_getElem hi, List.getD_eq_getElem _ _ hi, Option.some_inj]
  simp only [outLenIn, outLen, hone, htwo, Option.bind_eq_bind, Option.bind_some,
    hget _ (show input.length - 1 < input.length by omega),
    hget _ (show input.length - 2 < input.length by omega)]
  rfl

/-- The decoder stays in range if and only if it refuses the length or every character
is a valid index; there it decodes. -/
theorem decodeIn_eq (h : input ≠ []) : decodeIn input =
    if input.length % 4 = 0 → ∀ c ∈ input, Indexable c then some (decode input) else none := by
  rw [decodeIn, decode]
  by_cases hlength : input.length % 4 = 0
  · have hpos : 0 < input.length := List.length_pos_iff.mpr h
    have hloop := triplesIn_eq (input.length / 4) [] input (by omega)
    rw [List.nil_append, List.length_nil] at hloop
    rw [if_neg (not_not.mpr hlength), if_neg (not_not.mpr hlength), outLenIn_eq (by omega), hloop]
    simp only [hlength, true_imp_iff, Option.bind_eq_bind, Option.bind_some]
    split <;> rfl
  · rw [if_pos hlength, if_pos hlength, if_pos fun h => absurd h hlength]

end Bounds

end Base64

/-- `set_value` with the indices of the decoder checked. -/
def setValueIn (key value : Bytes) (d : DialogContent) : Option DialogContent :=
  if ascii "ssh_password" = key then
    (Base64.decodeIn value).map fun password => { d with sshPassword := password }
  else some (setValue key value d)

/-- One line of a configuration file. -/
def readLineIn (d : DialogContent) (line : Bytes) : Option DialogContent :=
  match getline (code '=') line with
  | some (key, rest) =>
      match getline (code '\n') rest with
      | some (value, _) => setValueIn key value d
      | none => some d
  | none => some d

/-- `read_config`; `none` where it leaves an array. -/
def readConfigIn (file : Bytes) (d : DialogContent) : Option DialogContent :=
  (lines (code '\n') file).foldlM readLineIn (clearDialog d)

section Safety

variable {line : Bytes} {d : DialogContent}

/-- A line with a password the decoder can take. -/
def SafeLine (line : Bytes) : Prop :=
  ∀ value, line = ascii "ssh_password=" ++ value → value.length % 4 = 0 →
    ∀ c ∈ value, Base64.Indexable c

theorem setValueIn_eq {key value : Bytes} (hvalue : value ≠ []) :
    setValueIn key value d =
      if key = ascii "ssh_password" → value.length % 4 = 0 → ∀ c ∈ value, Base64.Indexable c then
        some (setValue key value d)
      else none := by
  by_cases hkey : ascii "ssh_password" = key
  · subst hkey
    have hset : setValue (ascii "ssh_password") value d =
        { d with sshPassword := Base64.decode value } := rfl
    rw [setValueIn, if_pos rfl, Base64.decodeIn_eq hvalue, hset]
    simp only [true_imp_iff]
    split <;> rfl
  · rw [setValueIn, if_neg hkey, if_pos fun h => absurd h.symm hkey]

/-- A line is read as without the checks if it is safe, and else leaves an array. -/
theorem readLineIn_cases (h : code '\n' ∉ line) (d : DialogContent) :
    SafeLine line ∧ readLineIn d line = some (readLine d line) ∨
      ¬ SafeLine line ∧ readLineIn d line = none := by
  by_cases hsep : code '=' ∈ line
  · obtain ⟨key, rest, rfl, hkey⟩ := List.eq_append_cons_of_mem hsep
    have hpassword : ∀ value, key ++ code '=' :: rest = ascii "ssh_password=" ++ value ↔
        key = ascii "ssh_password" ∧ rest = value := by
      intro value
      have hline : ascii "ssh_password=" ++ value = ascii "ssh_password" ++ code '=' :: value := rfl
      constructor
      · intro heq
        have hread := congrArg (getline (code '=')) (heq.trans hline)
        rw [getline_append hkey, getline_append (by decide)] at hread
        exact Prod.mk.inj (Option.some.inj hread)
      · rintro ⟨rfl, rfl⟩
        rfl
    have hsafe : SafeLine (key ++ code '=' :: rest) ↔
        (key = ascii "ssh_password" → rest.length % 4 = 0 → ∀ c ∈ rest, Base64.Indexable c) := by
      simp only [SafeLine, hpassword]
      exact ⟨fun h hkey => h rest ⟨hkey, rfl⟩, fun h value hv => hv.2 ▸ h hv.1⟩
    rw [hsafe, readLineIn, readLine, getline_append hkey]
    by_cases hrest : rest = []
    · subst hrest
      exact Or.inl ⟨fun _ _ => List.forall_mem_nil _, rfl⟩
    · have hnewline : code '\n' ∉ rest := fun hmem => h (by simp [hmem])
      simp only [getline_last hnewline hrest, setValueIn_eq hrest]
      split
      · rename_i hok
        exact Or.inl ⟨hok, rfl⟩
      · rename_i hbad
        exact Or.inr ⟨hbad, rfl⟩
  · have hsafe : SafeLine line := by
      intro value hline
      rw [hline] at hsep
      exact absurd (List.mem_append_left value (by decide)) hsep
    refine Or.inl ⟨hsafe, ?_⟩
    by_cases hline : line = []
    · subst hline
      rfl
    · rw [readLineIn, readLine, getline_last hsep hline]
      rfl

/-- An import is safe if and only if every line is, and then reads what is read
without the checks. -/
theorem readConfigIn_cases (file : Bytes) (d : DialogContent) :
    (∀ line ∈ lines (code '\n') file, SafeLine line) ∧
        readConfigIn file d = some (readConfig file d) ∨
      ¬ (∀ line ∈ lines (code '\n') file, SafeLine line) ∧ readConfigIn file d = none := by
  have hloop : ∀ (ls : List Bytes) (d : DialogContent), (∀ line ∈ ls, code '\n' ∉ line) →
      (∀ line ∈ ls, SafeLine line) ∧ ls.foldlM readLineIn d = some (ls.foldl readLine d) ∨
        ¬ (∀ line ∈ ls, SafeLine line) ∧ ls.foldlM readLineIn d = none := by
    intro ls
    induction ls with
    | nil => exact fun d _ => Or.inl ⟨List.forall_mem_nil _, rfl⟩
    | cons line ls ih =>
        intro d hls
        rw [List.forall_mem_cons] at hls
        simp only [List.forall_mem_cons, List.foldlM_cons, List.foldl_cons]
        rcases readLineIn_cases hls.1 d with ⟨hsafe, hline⟩ | ⟨hbad, hline⟩
        · rw [hline]
          rcases ih (readLine d line) hls.2 with ⟨hrest, hread⟩ | ⟨hrest, hread⟩
          · exact Or.inl ⟨⟨hsafe, hrest⟩, hread⟩
          · exact Or.inr ⟨fun h => hrest h.2, hread⟩
        · rw [hline]
          exact Or.inr ⟨fun h => hbad h.1, rfl⟩
  exact hloop _ _ fun line hline => not_mem_of_mem_lines hline

/-- Which files can be imported without leaving an array. -/
theorem import_inBounds_iff (file : Bytes) (d : DialogContent) :
    (readConfigIn file d).isSome ↔ ∀ line ∈ lines (code '\n') file, SafeLine line := by
  rcases readConfigIn_cases file d with ⟨hsafe, hread⟩ | ⟨hbad, hread⟩
  · rw [hread]
    exact iff_of_true rfl hsafe
  · rw [hread]
    exact iff_of_false (by simp) hbad

theorem umlautPassword_outOfBounds :
    ¬ (readConfigIn (ascii "ssh_password=" ++ [0xC3, 0xA4, 0xC3, 0xA4, 10])
      unusualContent).isSome := by decide +kernel

end Safety

end ParallelGdb.Startup
