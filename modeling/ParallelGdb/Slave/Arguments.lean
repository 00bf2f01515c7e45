import ParallelGdb.Library.CString
import ParallelGdb.Library.Slots

/-!
# The arguments of a slave

`parse_cl_args` reads options with `getopt` up to the first operand, which is the
target; the words behind it are the arguments of the target. `start_gdb` passes
both on to GDB.
-/

namespace ParallelGdb

open Library.CString Library.Slots

/-- The members `parse_cl_args` sets. -/
structure Slave where
  /-- `m_argv`, and `m_argc` as its length. -/
  argv : List Bytes
  argsOffset : Int := -1
  ipAddr : Option Bytes := none
  basePortStr : Option Bytes := none
  target : Option Bytes := none
  rankStr : Option Bytes := none
  rankEnvStr : Option Bytes := none
  sizeStr : Option Bytes := none
  sizeEnvStr : Option Bytes := none

/-- Where `parse_cl_args` does not succeed. -/
inductive ArgumentError
  /-- `-h` prints the help and exits. -/
  | help
  /-- It returns `false` with this message. -/
  | message (text : Bytes)

namespace Slave

section Getopt

/-- The options that have a value, and what they are for. -/
def valueOptions : List (UInt8 × String) := [
  (code 'i', "the host IP address"),
  (code 'p', "the base port"),
  (code 'r', "the process rank"),
  (code 'k', "the name for the environment variable containing the process rank"),
  (code 's', "the number of processes"),
  (code 'z', "the name for the environment variable containing the number of processes")]

def takesValue (c : UInt8) : Bool := (valueOptions.lookup c).isSome

/-- `%x` of a `char`, which is signed. -/
def hexadecimal (c : UInt8) : Bytes :=
  (Nat.toDigits 16 (if c < 128 then c.toNat else c.toNat + 0xFFFFFF00)).map code

/-- What is printed for `?`, by the value of `optopt`. -/
def optionMessage (optopt : UInt8) : Bytes :=
  match valueOptions.lookup optopt with
  | some value => ascii "Option -" ++ [optopt] ++ ascii " requires " ++ ascii value ++ ascii ".\n"
  | none =>
      if 32 ≤ optopt ∧ optopt < 127 then ascii "Unknown option '-" ++ [optopt] ++ ascii "'.\n"
      else ascii "Unknown option character '\\x" ++ hexadecimal optopt ++ ascii "'.\n"

/-- `case` of an option with a value. -/
def setOption (c : UInt8) (optarg : Bytes) (s : Slave) : Slave :=
  if c = code 'i' then { s with ipAddr := some optarg }
  else if c = code 'p' then { s with basePortStr := some optarg }
  else if c = code 'r' then { s with rankStr := some optarg }
  else if c = code 'k' then { s with rankEnvStr := some optarg }
  else if c = code 's' then { s with sizeStr := some optarg }
  else if c = code 'z' then { s with sizeEnvStr := some optarg }
  else s

/-- `getopt` takes a word for an operand. -/
def isOperand (word : Bytes) : Bool := word.head? ≠ some (code '-') || word = ascii "-"

/-- The loop over `getopt` with `"+hi:p:r:k:s:z:"`, from the word `optind` on. The
option without a value ends it, so no word is left half read. -/
def getoptLoop (s : Slave) (optind : Nat) : List Bytes → Except ArgumentError (Slave × Nat)
  | [] => .ok (s, optind)
  | word :: rest =>
      if isOperand word then .ok (s, optind)
      else if word = ascii "--" then .ok (s, optind + 1)
      else
        let c := word.getD 1 0
        let value := word.drop 2
        if c = code 'h' then .error .help
        else if !takesValue c then .error (.message (optionMessage c))
        else if value ≠ [] then getoptLoop (s.setOption c value) (optind + 1) rest
        else
          match rest with
          | [] => .error (.message (optionMessage c))
          | optarg :: rest => getoptLoop (s.setOption c optarg) (optind + 2) rest

/-- `parse_cl_args`. -/
def parseClArgs (argv : List Bytes) : Except ArgumentError Slave :=
  match getoptLoop { argv } 1 argv.tail with
  | .error e => .error e
  | .ok (s, optind) =>
      match argv[optind]? with
      | none => .error (.message (ascii "No target specified.\n"))
      | some target =>
          if s.ipAddr = none then .error (.message (ascii "Missing host IP address.\n"))
          else if s.basePortStr = none then .error (.message (ascii "Missing base port.\n"))
          else .ok { s with target := some target, argsOffset := optind + 1 }

end Getopt

section Gdb

/-- What `start_gdb` stores in front of the target. -/
def gdbOptions (numArgs : Int) (ttyTrgt : Bytes) : List Bytes :=
  [ascii "gdb", ascii "-q", ascii "-i", ascii "mi3", ascii "--tty=" ++ ttyTrgt] ++
    (if numArgs ≠ 0 then [ascii "--args"] else []) ++
    [ascii "-ex=set auto-load safe-path /", ascii "-ex=break main", ascii "-ex=run"]

/-- The argument vector `start_gdb` builds for GDB, with the null pointer at its end;
`none` where it leaves an array. -/
def startGdb (s : Slave) (ttyTrgt : Bytes) : Option (List (Option Bytes)) := do
  let numArgs := (s.argv.length : Int) - s.argsOffset
  let size := (11 + numArgs).toNat
  let slots ← ((gdbOptions numArgs ttyTrgt).map some).foldlM (store size) []
  let slots ← store size slots s.target
  let slots ← (List.range numArgs.toNat).foldlM (fun slots (i : Nat) => do
    store size slots (some (← s.argv[(s.argsOffset + i).toNat]?))) slots
  store size slots none

end Gdb

section Options

/-- Words that are options with values, and the options in order. -/
inductive Options : List Bytes → List (UInt8 × Bytes) → Prop
  | nil : Options [] []
  | attached {c value words os} : takesValue c = true → value ≠ [] → Options words os →
      Options ((code '-' :: c :: value) :: words) ((c, value) :: os)
  | separate {c value words os} : takesValue c = true → Options words os →
      Options ([code '-', c] :: value :: words) ((c, value) :: os)

/-- The value an option has in the end. -/
def lastValue (c : UInt8) (os : List (UInt8 × Bytes)) : Option Bytes := os.reverse.lookup c

def setOptions (os : List (UInt8 × Bytes)) (s : Slave) : Slave :=
  os.foldl (fun s o => s.setOption o.1 o.2) s

variable {s : Slave} {c : UInt8} {words words' rest : List Bytes} {os os' : List (UInt8 × Bytes)}

theorem takesValue_facts (h : takesValue c = true) : c ≠ code '-' ∧ c ≠ code 'h' := by
  constructor <;> rintro rfl <;> exact absurd h (by decide)

theorem isOperand_eq_false {word : Bytes} :
    isOperand word = false ↔ ∃ c value, word = code '-' :: c :: value := by
  rcases word with _ | ⟨dash, _ | ⟨c, value⟩⟩ <;> simp [isOperand, ascii]

/-- One option with its value. -/
theorem getoptLoop_attached {value : Bytes} (hc : takesValue c = true) (hvalue : value ≠ [])
    (s : Slave) (optind : Nat) (rest : List Bytes) :
    getoptLoop s optind ((code '-' :: c :: value) :: rest) =
      getoptLoop (s.setOption c value) (optind + 1) rest := by
  obtain ⟨hdash, hhelp⟩ := takesValue_facts hc
  have hoperand : isOperand (code '-' :: c :: value) = false :=
    isOperand_eq_false.mpr ⟨c, value, rfl⟩
  have hend : code '-' :: c :: value ≠ ascii "--" := by simp [ascii, hdash]
  simp [getoptLoop, hoperand, hend, hhelp, hc, hvalue]

theorem getoptLoop_separate (hc : takesValue c = true) (s : Slave) (optind : Nat)
    (rest : List Bytes) :
    getoptLoop s optind ([code '-', c] :: rest) =
      match rest with
      | [] => .error (.message (optionMessage c))
      | value :: rest => getoptLoop (s.setOption c value) (optind + 2) rest := by
  obtain ⟨hdash, hhelp⟩ := takesValue_facts hc
  have hoperand : isOperand [code '-', c] = false := isOperand_eq_false.mpr ⟨c, [], rfl⟩
  have hend : [code '-', c] ≠ ascii "--" := by simp [ascii, hdash]
  cases rest <;> simp [getoptLoop, hoperand, hend, hhelp, hc]

/-- The loop reads options as they are written. -/
theorem getoptLoop_options (h : Options words os) (s : Slave) (optind : Nat) (rest : List Bytes) :
    getoptLoop s optind (words ++ rest) =
      getoptLoop (setOptions os s) (optind + words.length) rest := by
  induction h generalizing s optind with
  | nil => rfl
  | attached hc hvalue _ ih =>
      rw [List.cons_append, getoptLoop_attached hc hvalue, ih, List.length_cons]
      congr 1
      omega
  | separate hc _ ih =>
      rw [List.cons_append, List.cons_append, getoptLoop_separate hc]
      simp only [ih, List.length_cons]
      congr 1
      omega

theorem getoptLoop_operand {word : Bytes} (h : isOperand word = true) (s : Slave) (optind : Nat)
    (rest : List Bytes) : getoptLoop s optind (word :: rest) = .ok (s, optind) := by
  simp [getoptLoop, h]

/-- Where the loop ends well it has read options, up to an operand, to a `--` or to
the end. -/
theorem getoptLoop_ok {optind optind' : Nat} {s' : Slave}
    (h : getoptLoop s optind words = .ok (s', optind')) :
    ∃ pre rest os, words = pre ++ rest ∧ Options pre os ∧ s' = setOptions os s ∧
      (optind' = optind + pre.length ∧ (∀ word ∈ rest.head?, isOperand word = true) ∨
        optind' = optind + pre.length + 1 ∧ rest.head? = some (ascii "--")) := by
  fun_induction getoptLoop s optind words with
  | case1 s optind =>
      obtain ⟨rfl, rfl⟩ := Prod.mk.inj (Except.ok.inj h)
      exact ⟨[], [], [], rfl, .nil, rfl, Or.inl ⟨rfl, by simp⟩⟩
  | case2 s optind word rest hoperand =>
      obtain ⟨rfl, rfl⟩ := Prod.mk.inj (Except.ok.inj h)
      exact ⟨[], word :: rest, [], rfl, .nil, rfl, Or.inl ⟨rfl, by simpa using hoperand⟩⟩
  | case3 s optind rest =>
      obtain ⟨rfl, rfl⟩ := Prod.mk.inj (Except.ok.inj h)
      exact ⟨[], ascii "--" :: rest, [], rfl, .nil, rfl, Or.inr ⟨rfl, rfl⟩⟩
  | case4 => cases h
  | case5 => cases h
  | case6 s optind word rest hoperand _ c value _ hc hvalue ih =>
      obtain ⟨d, text, rfl⟩ := isOperand_eq_false.mp (Bool.eq_false_iff.mpr hoperand)
      obtain ⟨pre, more, os, rfl, hpre, rfl, hend⟩ := ih h
      refine ⟨(code '-' :: d :: text) :: pre, more, (d, text) :: os, rfl,
        .attached (by simpa [c] using hc) hvalue hpre, rfl, ?_⟩
      simpa only [List.length_cons, Nat.add_assoc, Nat.add_comm 1] using hend
  | case7 => cases h
  | case8 s optind word hoperand _ c value _ hc hvalue optarg rest ih =>
      obtain ⟨d, text, rfl⟩ := isOperand_eq_false.mp (Bool.eq_false_iff.mpr hoperand)
      obtain rfl : text = [] := not_not.mp hvalue
      obtain ⟨pre, more, os, rfl, hpre, rfl, hend⟩ := ih h
      refine ⟨[code '-', d] :: optarg :: pre, more, (d, optarg) :: os, rfl,
        .separate (by simpa [c] using hc) hpre, rfl, ?_⟩
      simpa only [List.length_cons, Nat.add_assoc, Nat.add_comm 2, Nat.reduceAdd] using hend

theorem Options.append (h : Options words os) (h' : Options words' os') :
    Options (words ++ words') (os ++ os') := by
  induction h with
  | nil => exact h'
  | attached hc hvalue _ ih => exact .attached hc hvalue ih
  | separate hc _ ih => exact .separate hc ih

/-- Options that are written one after the other: the first part may end with an
option that takes the next word for its value. -/
theorem Options.split {front back : List Bytes} (h : Options (front ++ back) os) :
    (∃ os₁ os₂, os = os₁ ++ os₂ ∧ Options front os₁ ∧ Options back os₂) ∨
      ∃ pre c value rest os₁ os₂, front = pre ++ [[code '-', c]] ∧ back = value :: rest ∧
        takesValue c = true ∧ os = os₁ ++ (c, value) :: os₂ ∧ Options pre os₁ ∧
          Options rest os₂ := by
  generalize hwords : front ++ back = words at h
  induction h generalizing front with
  | nil =>
      obtain ⟨rfl, rfl⟩ := List.append_eq_nil_iff.mp hwords
      exact Or.inl ⟨[], [], rfl, .nil, .nil⟩
  | @attached c value words os hc hvalue hos ih =>
      rcases front with _ | ⟨word, front⟩
      · rw [List.nil_append] at hwords
        subst hwords
        exact Or.inl ⟨[], _, rfl, .nil, .attached hc hvalue hos⟩
      · obtain ⟨rfl, hrest⟩ := List.cons.inj hwords
        obtain ⟨os₁, os₂, rfl, h₁, h₂⟩ |
          ⟨pre, c', value', rest, os₁, os₂, rfl, hback, hc', rfl, h₁, h₂⟩ := ih hrest
        · exact Or.inl ⟨_, os₂, rfl, .attached hc hvalue h₁, h₂⟩
        · exact Or.inr ⟨_, c', value', rest, _, os₂, rfl, hback, hc', rfl,
            .attached hc hvalue h₁, h₂⟩
  | @separate c value words os hc hos ih =>
      rcases front with _ | ⟨word, _ | ⟨word', front⟩⟩
      · rw [List.nil_append] at hwords
        subst hwords
        exact Or.inl ⟨[], _, rfl, .nil, .separate hc hos⟩
      · obtain ⟨rfl, hrest⟩ := List.cons.inj hwords
        exact Or.inr ⟨[], c, value, words, [], os, rfl, hrest, hc, rfl, .nil, hos⟩
      · rw [List.cons_append, List.cons_append] at hwords
        obtain ⟨rfl, hmore⟩ := List.cons.inj hwords
        obtain ⟨rfl, hrest⟩ := List.cons.inj hmore
        obtain ⟨os₁, os₂, rfl, h₁, h₂⟩ |
          ⟨pre, c', value', rest, os₁, os₂, rfl, hback, hc', rfl, h₁, h₂⟩ := ih hrest
        · exact Or.inl ⟨_, os₂, rfl, .separate hc h₁, h₂⟩
        · exact Or.inr ⟨_, c', value', rest, _, os₂, rfl, hback, hc', rfl, .separate hc h₁, h₂⟩

theorem Options.inv {word : Bytes} (h : Options (word :: words) os) :
    isOperand word = false ∧ ∃ c value os', takesValue c = true ∧ os = (c, value) :: os' ∧
      (word = code '-' :: c :: value ∧ value ≠ [] ∧ Options words os' ∨
        ∃ words', word = [code '-', c] ∧ words = value :: words' ∧ Options words' os') := by
  cases h with
  | attached hc hvalue hrest =>
      exact ⟨isOperand_eq_false.mpr ⟨_, _, rfl⟩, _, _, _, hc, rfl, Or.inl ⟨rfl, hvalue, hrest⟩⟩
  | separate hc hrest =>
      exact ⟨isOperand_eq_false.mpr ⟨_, _, rfl⟩, _, _, _, hc, rfl, Or.inr ⟨_, rfl, rfl, hrest⟩⟩

/-- A value is the end of one of the words. -/
theorem Options.suffix (h : Options words os) {o : UInt8 × Bytes} (ho : o ∈ os) :
    ∃ word ∈ words, o.2 <:+ word := by
  induction h with
  | nil => cases ho
  | @attached c value words os hc hvalue _ ih =>
      rcases List.mem_cons.mp ho with rfl | ho
      · exact ⟨_, List.mem_cons_self .., [code '-', c], rfl⟩
      · obtain ⟨word, hword, hsuffix⟩ := ih ho
        exact ⟨word, List.mem_cons_of_mem _ hword, hsuffix⟩
  | @separate c value words os hc _ ih =>
      rcases List.mem_cons.mp ho with rfl | ho
      · exact ⟨value, by simp, List.suffix_rfl⟩
      · obtain ⟨word, hword, hsuffix⟩ := ih ho
        exact ⟨word, by simp [hword], hsuffix⟩

theorem lookup_singleton (c d : UInt8) (value : Bytes) :
    [(c, value)].lookup d = if c = d then some value else none := by
  by_cases h : c = d
  · simp [List.lookup, h]
  · have hbeq : (d == c) = false := by simpa using Ne.symm h
    simp [List.lookup, h, hbeq]

theorem setOption_values (c : UInt8) (value : Bytes) (s : Slave) :
    (s.setOption c value).argv = s.argv ∧
      (s.setOption c value).ipAddr = (if c = code 'i' then some value else none).or s.ipAddr ∧
      (s.setOption c value).basePortStr =
        (if c = code 'p' then some value else none).or s.basePortStr := by
  unfold setOption
  split_ifs <;> first | exact ⟨rfl, rfl, rfl⟩ | (subst_vars; contradiction)

/-- The members hold the last values of their options. -/
theorem setOptions_values (os : List (UInt8 × Bytes)) (s : Slave) :
    (setOptions os s).argv = s.argv ∧
      (setOptions os s).ipAddr = (lastValue (code 'i') os).or s.ipAddr ∧
      (setOptions os s).basePortStr = (lastValue (code 'p') os).or s.basePortStr := by
  induction os generalizing s with
  | nil => exact ⟨rfl, rfl, rfl⟩
  | cons o os ih =>
      obtain ⟨c, value⟩ := o
      obtain ⟨hargv, hip, hport⟩ := ih (s.setOption c value)
      obtain ⟨hargv', hip', hport'⟩ := setOption_values c value s
      simp only [lastValue, List.reverse_cons, List.lookup_append, lookup_singleton,
        Option.or_assoc] at hip hport ⊢
      rw [← hip', ← hport', ← hargv']
      exact ⟨hargv, hip, hport⟩

theorem lastValue_append_cons (c : UInt8) (os os' : List (UInt8 × Bytes)) (o : UInt8 × Bytes) :
    lastValue c (os ++ o :: os') =
      (lastValue c os').or (if o.1 = c then some o.2 else lastValue c os) := by
  obtain ⟨d, value⟩ := o
  rw [lastValue, List.reverse_append, List.reverse_cons, List.lookup_append, List.lookup_append,
    lookup_singleton, Option.or_assoc, lastValue, lastValue]
  split <;> rfl

end Options

section Calls

variable {argv : List Bytes} {s : Slave}

/-- Options, then the target, then its arguments. -/
theorem parseClArgs_options {slave target : Bytes} {words args : List Bytes}
    {os : List (UInt8 × Bytes)} (h : Options words os) (htarget : isOperand target = true)
    (hip : lastValue (code 'i') os ≠ none) (hport : lastValue (code 'p') os ≠ none) :
    parseClArgs (slave :: (words ++ target :: args)) =
      .ok { setOptions os { argv := slave :: (words ++ target :: args) } with
        target := some target, argsOffset := words.length + 2 } := by
  obtain ⟨-, hips, hports⟩ := setOptions_values os { argv := slave :: (words ++ target :: args) }
  have hread : getoptLoop { argv := slave :: (words ++ target :: args) } 1
      (words ++ target :: args) =
        .ok (setOptions os { argv := slave :: (words ++ target :: args) }, 1 + words.length) := by
    rw [getoptLoop_options h, getoptLoop_operand htarget]
  have hget : (slave :: (words ++ target :: args))[1 + words.length]? = some target := by
    rw [Nat.add_comm, List.getElem?_cons_succ, List.getElem?_append_right (le_refl _)]
    simp
  rw [Option.or_none] at hips hports
  rw [parseClArgs, List.tail_cons, hread]
  simp only [hget, hips, hports, if_neg hip, if_neg hport]
  congr 2
  push_cast
  omega

/-- What `parse_cl_args` has read where it succeeds. -/
theorem parseClArgs_ok (h : parseClArgs argv = .ok s) :
    ∃ pre rest os optind target, argv.tail = pre ++ rest ∧ Options pre os ∧
      (optind = 1 + pre.length ∧ (∀ word ∈ rest.head?, isOperand word = true) ∨
        optind = 1 + pre.length + 1 ∧ rest.head? = some (ascii "--")) ∧
      argv[optind]? = some target ∧
      s = { setOptions os { argv } with target := some target, argsOffset := optind + 1 } := by
  rw [parseClArgs] at h
  cases hread : getoptLoop { argv } 1 argv.tail with
  | error e =>
      rw [hread] at h
      cases h
  | ok out =>
      obtain ⟨s', optind⟩ := out
      obtain ⟨pre, rest, os, hwords, hpre, rfl, hend⟩ := getoptLoop_ok hread
      rw [hread] at h
      cases htarget : argv[optind]? with
      | none =>
          simp only [htarget] at h
          cases h
      | some target =>
          simp only [htarget] at h
          split_ifs at h
          exact ⟨pre, rest, os, optind, target, hwords, hpre, hend, htarget,
            (Except.ok.inj h).symm⟩

theorem length_gdbOptions_le (numArgs : Int) (ttyTrgt : Bytes) :
    (gdbOptions numArgs ttyTrgt).length ≤ 9 := by
  unfold gdbOptions
  split <;> simp

/-- All stores are in the array, and the target and its arguments come last. -/
theorem startGdb_eq {k : Nat} (hoffset : s.argsOffset = k) (hk : k ≤ s.argv.length)
    (ttyTrgt : Bytes) : ∃ front, s.startGdb ttyTrgt =
      some (front ++ (s.target :: (s.argv.drop k).map some) ++ [none]) := by
  obtain ⟨m, hm⟩ : ∃ m, s.argv.length = k + m := ⟨_, (Nat.add_sub_of_le hk).symm⟩
  have hnum : (s.argv.length : Int) - k = m := by omega
  have hsize : (11 + (m : Int)).toNat = 11 + m := by omega
  have hfront : ((gdbOptions m ttyTrgt).map some).length ≤ 9 := by
    rw [List.length_map]
    exact length_gdbOptions_le m ttyTrgt
  simp only [startGdb, hoffset, hnum, hsize, Int.toNat_natCast, Option.bind_eq_bind]
  generalize (gdbOptions m ttyTrgt).map some = front at hfront
  have hindex : ∀ i : Nat, ((k : Int) + i).toNat = k + i := by
    intro i
    omega
  have hargs := foldlM_range_store some s.argv (le_of_eq hm.symm) (front ++ [s.target])
    (show (front ++ [s.target]).length + m ≤ 11 + m by simp; omega)
  have hall : (s.argv.drop k).take m = s.argv.drop k := List.take_of_length_le (by simp; omega)
  refine ⟨front, ?_⟩
  simp only [hindex]
  rw [foldlM_store _ _ (by simp; omega), Option.bind_some, List.nil_append,
    store_eq_some (by omega), Option.bind_some, hargs, Option.bind_some, hall,
    store_eq_some (by simp; omega)]
  simp

end Calls

end Slave

end ParallelGdb
