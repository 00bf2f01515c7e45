import ParallelGdb.Library.Slots
import ParallelGdb.Library.Words
import ParallelGdb.Startup.Config

/-!
# The launch command

`get_cmd` joins the configuration to one command with single spaces, except for a
custom command, which it returns as it was entered. `start_slaves_local` splits the
command at spaces again.
-/

namespace ParallelGdb.Startup

open Library.CString Library.Getline Library.Slots Library.Words

/-- `[ \t]`. -/
def isBlank (c : UInt8) : Bool := c = code ' ' || c = 9

/-- What `get_cmd` writes in front of the arguments of the launcher. -/
def launcherPart (v : StartupValues) : Bytes :=
  if v.launcherMpirun then
    ascii "mpirun" ++ ascii " -np " ++ decimal v.numberOfProcesses
  else if v.launcherSrun then
    let cmd := ascii "srun" ++ ascii " --ntasks=" ++ decimal v.numberOfProcesses
    let cmd := if v.numNodes > 0 then cmd ++ ascii " --nodes=" ++ decimal v.numNodes else cmd
    if v.processesPerNode > 0 then
      cmd ++ ascii " --ntasks-per-node=" ++ decimal v.processesPerNode
    else cmd
  else []

/-- The three replacements at the end of `get_cmd`. -/
def normalize (cmd : Bytes) : Bytes :=
  squeeze isBlank (code ' ') ((cmd.dropWhile isBlank).rdropWhile isBlank)

/-- `get_cmd`. -/
def getCmd (v : StartupValues) : Bytes :=
  if v.launcherCustom then v.launcherArgs
  else
    normalize (launcherPart v ++ ascii " " ++ v.launcherArgs ++ ascii " " ++ v.slavePath ++
      ascii " -i " ++ v.ipAddress ++ ascii " -p " ++ decimal v.basePort ++ ascii " " ++
      v.targetPath ++ ascii " " ++ v.targetArgs)

/-- What `start_slaves_local` reads from the command. -/
def tokens (cmd : Bytes) : List Bytes := lines (code ' ') cmd

/-- The array `start_slaves_local` hands to `execvp`; `none` where it writes behind
the slots it allocated. -/
def launcherArgv (cmd : Bytes) : Option (List (Option Bytes)) := do
  let numSpaces := cmd.count (code ' ')
  let argv ← ((tokens cmd).map fun opt => some (cstr opt)).foldlM (store (numSpaces + 1)) []
  store (numSpaces + 1) argv none

/-- The button of the radio group that was on. -/
def StartupValues.Launches (v : StartupValues) (launcher : Launcher) : Prop :=
  v.launcherMpirun = decide (launcher = .mpirun) ∧ v.launcherSrun = decide (launcher = .srun) ∧
    v.launcherCustom = decide (launcher = .custom)

/-- The words a launcher is called with before its arguments. -/
def launcherWords (launcher : Launcher) (v : StartupValues) : List Bytes :=
  match launcher with
  | .mpirun => [ascii "mpirun", ascii "-np", decimal v.numberOfProcesses]
  | .srun =>
      [ascii "srun", ascii "--ntasks=" ++ decimal v.numberOfProcesses] ++
        (if v.numNodes > 0 then [ascii "--nodes=" ++ decimal v.numNodes] else []) ++
        (if v.processesPerNode > 0 then [ascii "--ntasks-per-node=" ++ decimal v.processesPerNode]
          else [])
  | .custom => []

/-- The words a slave is called with. -/
def slaveWords (v : StartupValues) : List Bytes :=
  words isBlank v.slavePath ++ [ascii "-i"] ++ words isBlank v.ipAddress ++
    [ascii "-p", decimal v.basePort] ++ words isBlank v.targetPath ++ words isBlank v.targetArgs

/-- The words that are configured. -/
def configuredWords (launcher : Launcher) (v : StartupValues) : List Bytes :=
  launcherWords launcher v ++ words isBlank v.launcherArgs ++
    if launcher = .custom then [] else slaveWords v

section Words

variable {v : StartupValues} {launcher : Launcher}

theorem isBlank_space : isBlank (code ' ') = true := rfl

theorem words_space (a b : Bytes) :
    words isBlank (a ++ ascii " " ++ b) = words isBlank a ++ words isBlank b := by
  have hspace : ascii " " = [code ' '] := rfl
  rw [hspace, List.append_assoc, List.singleton_append, words_append_cons isBlank_space]

theorem not_isBlank_decimal (z : Int) : ∀ c ∈ decimal z, isBlank c = false := by
  have hdigits : ∀ k, ∀ c ∈ natDigits k, isBlank c = false := by
    intro k c hc
    have hspace := (isDigit_facts (isDigit_of_mem_natDigits k c hc)).1
    simp only [isSpace, Bool.or_eq_false_iff, decide_eq_false_iff_not] at hspace
    simp only [isBlank, Bool.or_eq_false_iff, decide_eq_false_iff_not]
    refine ⟨hspace.1, ?_⟩
    rintro rfl
    exact absurd hspace.2 (by decide)
  cases z with
  | ofNat k => exact hdigits k
  | negSucc k =>
      intro c hc
      rcases List.mem_cons.mp hc with rfl | hc
      · rfl
      · exact hdigits (k + 1) c hc

theorem words_decimal (z : Int) : words isBlank (decimal z) = [decimal z] :=
  words_of_forall (not_isBlank_decimal z) (decimal_ne_nil z)

/-- An option and its number are one word. -/
theorem words_numbered {name : Bytes} (hname : ∀ c ∈ name, isBlank c = false) (cmd : Bytes)
    (z : Int) : words isBlank (cmd ++ (code ' ' :: name) ++ decimal z) =
      words isBlank cmd ++ [name ++ decimal z] := by
  have hword : words isBlank (name ++ decimal z) = [name ++ decimal z] := by
    apply words_of_forall
    · intro c hc
      rcases List.mem_append.mp hc with hc | hc
      · exact hname c hc
      · exact not_isBlank_decimal z c hc
    · exact List.append_ne_nil_of_right_ne_nil name (decimal_ne_nil z)
  rw [List.append_assoc, List.cons_append, words_append_cons isBlank_space, hword]

/-- An option with a blank on both sides. -/
theorem words_between {name : Bytes} (hname : words isBlank name = [name]) (a b : Bytes) :
    words isBlank (a ++ (code ' ' :: (name ++ [code ' '])) ++ b) =
      words isBlank a ++ [name] ++ words isBlank b := by
  have hcons : a ++ (code ' ' :: (name ++ [code ' '])) ++ b =
      a ++ code ' ' :: (name ++ code ' ' :: b) := by simp
  rw [hcons, words_append_cons isBlank_space, words_append_cons isBlank_space, hname,
    List.append_assoc]

theorem words_launcherPart (h : v.Launches launcher) (hcustom : launcher ≠ .custom) :
    words isBlank (launcherPart v) = launcherWords launcher v := by
  obtain ⟨hmpirun, hsrun, -⟩ := h
  cases launcher with
  | mpirun =>
      have hnp : ascii " -np " = code ' ' :: (ascii "-np" ++ [code ' ']) := rfl
      rw [launcherPart, hmpirun, if_pos (by decide), launcherWords, hnp,
        words_between (by decide), words_decimal]
      rfl
  | srun =>
      rw [launcherPart, hmpirun, hsrun, if_neg (by decide), if_pos (by decide), launcherWords]
      have hntasks : ∀ cmd z, words isBlank (cmd ++ ascii " --ntasks=" ++ decimal z) =
          words isBlank cmd ++ [ascii "--ntasks=" ++ decimal z] :=
        words_numbered (by decide +kernel)
      have hnodes : ∀ cmd z, words isBlank (cmd ++ ascii " --nodes=" ++ decimal z) =
          words isBlank cmd ++ [ascii "--nodes=" ++ decimal z] :=
        words_numbered (by decide +kernel)
      have hpernode : ∀ cmd z, words isBlank (cmd ++ ascii " --ntasks-per-node=" ++ decimal z) =
          words isBlank cmd ++ [ascii "--ntasks-per-node=" ++ decimal z] :=
        words_numbered (by decide +kernel)
      have hname : words isBlank (ascii "srun") = [ascii "srun"] := by decide
      split_ifs <;> simp only [hntasks, hnodes, hpernode, hname, List.append_nil] <;> rfl
  | custom => exact absurd rfl hcustom

theorem tokens_normalize (cmd : Bytes) : tokens (normalize cmd) = words isBlank cmd :=
  lines_squeeze isBlank_space cmd

/-- What is read from the command of a launcher. -/
theorem tokens_getCmd (h : v.Launches launcher) (hcustom : launcher ≠ .custom) :
    tokens (getCmd v) = configuredWords launcher v := by
  have hoff : v.launcherCustom = false := h.2.2.trans (decide_eq_false hcustom)
  have hip : ascii " -i " = code ' ' :: (ascii "-i" ++ [code ' ']) := rfl
  have hport : ascii " -p " = code ' ' :: (ascii "-p" ++ [code ' ']) := rfl
  rw [getCmd, hoff, if_neg (by decide), tokens_normalize, configuredWords, if_neg hcustom,
    slaveWords, words_space, words_space, hport, words_between (by decide), hip,
    words_between (by decide), words_space, words_space, words_launcherPart h hcustom,
    words_decimal]
  simp only [List.append_assoc, List.cons_append, List.nil_append]

/-- The tokens are the configured words, unless a custom command has a tab, a leading
blank or blanks in a row. -/
theorem tokens_configured_iff (h : v.Launches launcher) :
    (tokens (getCmd v) = configuredWords launcher v ∧
      ∀ token ∈ tokens (getCmd v), token ≠ [] ∧ ∀ c ∈ token, isBlank c = false) ↔
      (launcher = .custom → SingleSpaced isBlank (code ' ') v.launcherArgs) := by
  by_cases hcustom : launcher = .custom
  · subst hcustom
    have hargs : getCmd v = v.launcherArgs := by
      rw [getCmd, h.2.2]
      rfl
    have hwords : configuredWords .custom v = words isBlank v.launcherArgs := by
      simp [configuredWords, launcherWords]
    rw [hargs, hwords, tokens, lines_eq_words_iff isBlank_space]
    constructor
    · intro hall _
      exact hall.1
    · intro hsingle
      refine ⟨hsingle rfl, fun token htoken => ?_⟩
      rw [(lines_eq_words_iff isBlank_space _).mpr (hsingle rfl)] at htoken
      obtain ⟨hne, hblank, -⟩ := mem_words htoken
      exact ⟨hne, hblank⟩
  · refine iff_of_true ⟨tokens_getCmd h hcustom, fun token htoken => ?_⟩
      fun heq => absurd heq hcustom
    have hoff : v.launcherCustom = false := h.2.2.trans (decide_eq_false hcustom)
    rw [getCmd, hoff, if_neg (by decide), tokens_normalize] at htoken
    obtain ⟨hne, hblank, -⟩ := mem_words htoken
    exact ⟨hne, hblank⟩

/-- A configuration for one process on the local machine. -/
def localValues (launcher : Launcher) (launcherArgs : Bytes) : StartupValues where
  launcherMpirun := launcher = .mpirun
  launcherSrun := launcher = .srun
  launcherCustom := launcher = .custom
  ssh := false
  launcherArgs := launcherArgs
  slavePath := ascii "./slave"
  ipAddress := ascii "localhost"
  targetPath := ascii "./a.out"
  targetArgs := []
  sshAddress := []
  sshUser := []
  sshPassword := []
  numberOfProcesses := 1
  processesPerNode := -1
  numNodes := -1
  basePort := 2000

theorem tabbed_mpirun_tokens :
    tokens (getCmd (localValues .mpirun (ascii "--host\ta  b"))) =
        configuredWords .mpirun (localValues .mpirun (ascii "--host\ta  b")) ∧
      ∀ token ∈ tokens (getCmd (localValues .mpirun (ascii "--host\ta  b"))),
        token ≠ [] ∧ ∀ c ∈ token, isBlank c = false :=
  (tokens_configured_iff ⟨rfl, rfl, rfl⟩).mpr nofun

theorem doubled_blank_custom :
    (localValues .custom (ascii "run  a")).Launches .custom ∧
      [] ∈ tokens (getCmd (localValues .custom (ascii "run  a"))) ∧
      tokens (getCmd (localValues .custom (ascii "run  a"))) ≠
        configuredWords .custom (localValues .custom (ascii "run  a")) :=
  ⟨⟨rfl, rfl, rfl⟩, by decide, by decide⟩

end Words

section Bounds

variable {v : StartupValues}

/-- The null pointer has a slot only if a space at the end leaves one. -/
theorem isSome_launcherArgv (cmd : Bytes) :
    (launcherArgv cmd).isSome ↔ cmd = [] ∨ cmd.getLast? = some (code ' ') := by
  have hlength := length_lines (code ' ') cmd
  have htokens : ((tokens cmd).map fun opt => some (cstr opt)).length =
      cmd.count (code ' ') + if cmd = [] ∨ cmd.getLast? = some (code ' ') then 0 else 1 := by
    rw [List.length_map, tokens, hlength]
  simp only [launcherArgv, Option.bind_eq_bind]
  rw [foldlM_store _ _ (by rw [htokens, List.length_nil]; split <;> omega), Option.bind_some,
    List.nil_append, store, htokens]
  by_cases h : cmd = [] ∨ cmd.getLast? = some (code ' ')
  · simp [h]
  · simp [h]

/-- Which commands are split within the array. -/
theorem launcherArgv_inBounds_iff (v : StartupValues) :
    (launcherArgv (getCmd v)).isSome ↔ v.launcherCustom = true ∧
      (v.launcherArgs = [] ∨ v.launcherArgs.getLast? = some (code ' ')) := by
  rw [isSome_launcherArgv, getCmd]
  cases v.launcherCustom with
  | true => simp
  | false =>
      rw [if_neg (by decide)]
      refine iff_of_false ?_ (by simp)
      rintro (hnil | hlast)
      · have hwords := tokens_normalize (launcherPart v ++ ascii " " ++ v.launcherArgs ++
          ascii " " ++ v.slavePath ++ ascii " -i " ++ v.ipAddress ++ ascii " -p " ++
          decimal v.basePort ++ ascii " " ++ v.targetPath ++ ascii " " ++ v.targetArgs)
        have hport : ascii " -p " = code ' ' :: (ascii "-p" ++ [code ' ']) := rfl
        rw [hnil, words_space, words_space, hport, words_between (by decide)] at hwords
        simp [tokens, lines, linesFrom] at hwords
      · exact getLast?_squeeze_rdropWhile isBlank_space _ hlast

theorem localValues_outOfBounds :
    launcherArgv (getCmd (localValues .mpirun [])) = none := by decide +kernel

end Bounds

end ParallelGdb.Startup
