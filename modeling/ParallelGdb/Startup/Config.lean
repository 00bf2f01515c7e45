import ParallelGdb.Library.Getline
import ParallelGdb.Startup.Base64
import ParallelGdb.Startup.Values

/-!
# Configuration files

A configuration is written as one `key=value` line for each member. A value that
is empty is not read, so importing relies on the dialog being cleared before.
-/

namespace ParallelGdb.Startup

open Library.CString Library.Getline

/-- The buttons of the launcher, which are in one radio group. -/
inductive Launcher
  | mpirun
  | srun
  | custom
  deriving DecidableEq

/-- `set_active(true)` on a button of the group; the other two go off. -/
def DialogContent.activate (d : DialogContent) (launcher : Launcher) : DialogContent :=
  { d with
    launcherMpirun := launcher = .mpirun
    launcherSrun := launcher = .srun
    launcherCustom := launcher = .custom }

/-- `clear_dialog`. -/
def clearDialog (d : DialogContent) : DialogContent :=
  { d.activate .mpirun with
    launcherArgs := []
    numberOfProcesses := []
    processesPerNode := []
    numNodes := []
    ipAddress := []
    basePort := []
    slavePath := []
    targetPath := []
    targetArgs := []
    ssh := false
    sshAddress := []
    sshUser := []
    sshPassword := [] }

/-- `set_value`. -/
def setValue (key value : Bytes) (d : DialogContent) : DialogContent :=
  let d := if ascii "launcher_args" = key then { d with launcherArgs := value } else d
  let d := if ascii "number_of_processes" = key then { d with numberOfProcesses := value } else d
  let d := if ascii "processes_per_node" = key then { d with processesPerNode := value } else d
  let d := if ascii "num_nodes" = key then { d with numNodes := value } else d
  let d := if ascii "ip_address" = key then { d with ipAddress := value } else d
  let d := if ascii "base_port" = key then { d with basePort := value } else d
  let d := if ascii "slave_path" = key then { d with slavePath := value } else d
  let d := if ascii "target_path" = key then { d with targetPath := value } else d
  let d := if ascii "target_args" = key then { d with targetArgs := value } else d
  let d := if ascii "ssh_address" = key then { d with sshAddress := value } else d
  let d := if ascii "ssh_user" = key then { d with sshUser := value } else d
  let d := if ascii "ssh_password" = key then { d with sshPassword := Base64.decode value } else d
  let d :=
    if ascii "launcher" = key then
      if ascii "mpirun" = value then d.activate .mpirun
      else if ascii "srun" = value then d.activate .srun
      else if ascii "custom" = value then d.activate .custom
      else d
    else d
  if ascii "ssh" = key then { d with ssh := ascii "true" = value } else d

/-- One line of a configuration file. -/
def readLine (d : DialogContent) (line : Bytes) : DialogContent :=
  match getline (code '=') line with
  | some (key, rest) =>
      match getline (code '\n') rest with
      | some (value, _) => setValue key value d
      | none => d
  | none => d

/-- `read_config`. -/
def readConfig (file : Bytes) (d : DialogContent) : DialogContent :=
  (lines (code '\n') file).foldl readLine (clearDialog d)

/-- How a number is exported. -/
def numberText (exported : Bool) (number : Int) : Bytes := if exported then decimal number else []

/-- The keys and values `on_save_dialog_response` writes. -/
def configEntries (v : StartupValues) : List (Bytes × Bytes) := [
  (ascii "launcher",
    if v.launcherMpirun then ascii "mpirun"
    else if v.launcherSrun then ascii "srun" else ascii "custom"),
  (ascii "launcher_args", v.launcherArgs),
  (ascii "number_of_processes", numberText (v.numberOfProcesses > 0) v.numberOfProcesses),
  (ascii "processes_per_node", numberText (v.processesPerNode > 0) v.processesPerNode),
  (ascii "num_nodes", numberText (v.numNodes > 0) v.numNodes),
  (ascii "ip_address", v.ipAddress),
  (ascii "base_port", numberText (v.basePort ≥ 0) v.basePort),
  (ascii "slave_path", v.slavePath),
  (ascii "target_path", v.targetPath),
  (ascii "target_args", v.targetArgs),
  (ascii "ssh", if v.ssh then ascii "true" else ascii "false"),
  (ascii "ssh_address", v.sshAddress),
  (ascii "ssh_user", v.sshUser),
  (ascii "ssh_password", Base64.encode v.sshPassword)]

/-- `on_save_dialog_response`. -/
def saveConfig (v : StartupValues) : Bytes :=
  (configEntries v).flatMap fun entry => entry.1 ++ code '=' :: entry.2 ++ [code '\n']

/-- The texts that are exported as they are. -/
def DialogContent.texts (d : DialogContent) : List Bytes :=
  [d.launcherArgs, d.slavePath, d.ipAddress, d.targetPath, d.targetArgs, d.sshAddress, d.sshUser]

section Numbers

theorem readInt_decimal {valid : Int → Bool} {k : Nat} (hk : k < 2 ^ 31)
    (hvalid : valid (k : Int) = true) : readInt valid (decimal (k : Int)) = k := by
  have hread : stoi (decimal (k : Int)) = some ((k : Int), (decimal (k : Int)).length) :=
    stoi_natDigits hk
  simp [readInt, hread, hvalid]

/-- A number that is read is exported as a text that reads the same, and `-1` as
an empty text. -/
theorem readInt_numberText {valid : Int → Bool} {text : Bytes} {exported : Bool}
    (hexported : readInt valid text ≠ -1 → exported = true)
    (hminus : readInt valid text = -1 → exported = false)
    (hpos : ∀ z, valid z = true → 0 ≤ z) :
    readInt valid (numberText exported (readInt valid text)) = readInt valid text := by
  by_cases h : readInt valid text = -1
  · rw [h, hminus h]
    rfl
  · obtain ⟨hvalid, -, hlt⟩ := readInt_valid h
    rw [hexported h]
    obtain ⟨k, hk⟩ := Int.eq_ofNat_of_zero_le (hpos _ hvalid)
    rw [hk] at hvalid hlt ⊢
    exact readInt_decimal (by omega) hvalid

end Numbers

section Lines

/-- A line sets the value of its key, unless that is empty. -/
theorem readLine_entry {key value : Bytes} (hkey : code '=' ∉ key) (hvalue : code '\n' ∉ value)
    (d : DialogContent) : readLine d (key ++ code '=' :: value) =
      if value = [] then d else setValue key value d := by
  rw [readLine, getline_append hkey]
  by_cases h : value = []
  · subst h
    rfl
  · simp only [getline_last hvalue h, if_neg h]

/-- An empty value is in the cleared field already. -/
theorem readLine_text (put : Bytes → DialogContent → DialogContent) {key value : Bytes}
    (hset : ∀ d, setValue key value d = put value d) (hkey : code '=' ∉ key)
    (hvalue : code '\n' ∉ value) {d : DialogContent} (hempty : put [] d = d) :
    readLine d (key ++ code '=' :: value) = put value d := by
  rw [readLine_entry hkey hvalue, hset]
  split
  · rename_i h
    rw [h, hempty]
  · rfl

theorem newline_decimal (z : Int) : code '\n' ∉ decimal z := by
  have hdigits : ∀ k, code '\n' ∉ natDigits k := by
    intro k h
    exact absurd (isDigit_of_mem_natDigits k _ h) (by decide)
  cases z with
  | ofNat k => exact hdigits k
  | negSucc k =>
      rw [decimal, List.mem_cons, not_or]
      exact ⟨by decide, hdigits (k + 1)⟩

theorem newline_numberText (exported : Bool) (z : Int) : code '\n' ∉ numberText exported z := by
  unfold numberText
  split
  · exact newline_decimal z
  · exact List.not_mem_nil

/-- The line of the launcher. -/
theorem readLine_launcher {v : StartupValues} (hlauncher : ∃ launcher,
      v.launcherMpirun = decide (launcher = Launcher.mpirun) ∧
        v.launcherSrun = decide (launcher = Launcher.srun) ∧
        v.launcherCustom = decide (launcher = Launcher.custom)) (d : DialogContent) :
    readLine d (ascii "launcher" ++ code '=' ::
      (if v.launcherMpirun then ascii "mpirun"
        else if v.launcherSrun then ascii "srun" else ascii "custom")) =
      { d with
        launcherMpirun := v.launcherMpirun
        launcherSrun := v.launcherSrun
        launcherCustom := v.launcherCustom } := by
  obtain ⟨launcher, hmpirun, hsrun, hcustom⟩ := hlauncher
  rw [hmpirun, hsrun, hcustom]
  cases launcher <;> exact (readLine_entry (by decide) (by decide) d).trans rfl

/-- The line of the SSH flag. -/
theorem readLine_ssh (ssh : Bool) (d : DialogContent) :
    readLine d (ascii "ssh" ++ code '=' :: (if ssh then ascii "true" else ascii "false")) =
      { d with ssh := ssh } := by
  cases ssh <;> exact (readLine_entry (by decide) (by decide) d).trans rfl

end Lines

section RoundTrip

/-- What the dialog holds after an import. -/
def imported (v : StartupValues) : DialogContent where
  launcherMpirun := v.launcherMpirun
  launcherSrun := v.launcherSrun
  launcherCustom := v.launcherCustom
  ssh := v.ssh
  launcherArgs := v.launcherArgs
  slavePath := v.slavePath
  ipAddress := v.ipAddress
  targetPath := v.targetPath
  targetArgs := v.targetArgs
  sshAddress := v.sshAddress
  sshUser := v.sshUser
  sshPassword := v.sshPassword
  numberOfProcesses := numberText (v.numberOfProcesses > 0) v.numberOfProcesses
  processesPerNode := numberText (v.processesPerNode > 0) v.processesPerNode
  numNodes := numberText (v.numNodes > 0) v.numNodes
  basePort := numberText (v.basePort ≥ 0) v.basePort

variable {d start : DialogContent}

/-- Every written line is read as its entry. -/
theorem lines_saveConfig {v : StartupValues} (htexts : ∀ text ∈ (imported v).texts, code '\n' ∉ text) :
    lines (code '\n') (saveConfig v) =
      (configEntries v).map fun entry => entry.1 ++ code '=' :: entry.2 := by
  have hentries : ∀ entry ∈ configEntries v, code '\n' ∉ entry.1 ++ code '=' :: entry.2 := by
    simp only [DialogContent.texts, imported, List.forall_mem_cons] at htexts
    obtain ⟨hargs, hslave, hip, htarget, htargs, haddress, huser, -⟩ := htexts
    have hline : ∀ {key value : Bytes}, code '\n' ∉ key → code '\n' ∉ value →
        code '\n' ∉ key ++ code '=' :: value := by
      intro key value hkey hvalue
      rw [List.mem_append, List.mem_cons, not_or, not_or]
      exact ⟨hkey, by decide, hvalue⟩
    simp only [configEntries, List.forall_mem_cons]
    refine ⟨hline (by decide) ?_, hline (by decide) hargs,
      hline (by decide) (newline_numberText _ _),
      hline (by decide) (newline_numberText _ _), hline (by decide) (newline_numberText _ _),
      hline (by decide) hip, hline (by decide) (newline_numberText _ _), hline (by decide) hslave,
      hline (by decide) htarget, hline (by decide) htargs, hline (by decide) ?_,
      hline (by decide) haddress, hline (by decide) huser,
      hline (by decide) (Base64.newline_encode _), by simp⟩
    · split_ifs <;> decide
    · split_ifs <;> decide
  have hlines : ∀ line ∈ (configEntries v).map fun entry => entry.1 ++ code '=' :: entry.2,
      code '\n' ∉ line := by
    intro line hline
    obtain ⟨entry, he, rfl⟩ := List.mem_map.mp hline
    exact hentries entry he
  rw [← lines_flatMap hlines, List.flatMap_map, saveConfig]

/-- Importing a file brings the exported values into the dialog. -/
theorem readConfig_saveConfig {v : StartupValues} (hlauncher : ∃ launcher,
      v.launcherMpirun = decide (launcher = Launcher.mpirun) ∧
        v.launcherSrun = decide (launcher = Launcher.srun) ∧
        v.launcherCustom = decide (launcher = Launcher.custom))
    (htexts : ∀ text ∈ (imported v).texts, code '\n' ∉ text) (start : DialogContent) :
    readConfig (saveConfig v) start = imported v := by
  rw [readConfig, lines_saveConfig htexts]
  simp only [DialogContent.texts, imported, List.forall_mem_cons] at htexts
  obtain ⟨hargs, hslave, hip, htarget, htargs, haddress, huser, -⟩ := htexts
  simp only [configEntries, List.map_cons, List.map_nil, List.foldl_cons, List.foldl_nil]
  have htext : ∀ {key value : Bytes} (put : Bytes → DialogContent → DialogContent),
      (∀ d, setValue key value d = put value d) → code '=' ∉ key → code '\n' ∉ value →
      ∀ d, put [] d = d → readLine d (key ++ code '=' :: value) = put value d := by
    intro key value put hset hkey hvalue d hempty
    exact readLine_text put hset hkey hvalue hempty
  have hargs' := @htext (ascii "launcher_args") (v.launcherArgs)
    (fun value d => { d with launcherArgs := value }) (fun _ => rfl) (by decide) hargs
  have hprocesses := @htext (ascii "number_of_processes")
    (numberText (v.numberOfProcesses > 0) v.numberOfProcesses)
    (fun value d => { d with numberOfProcesses := value }) (fun _ => rfl) (by decide)
    (newline_numberText _ _)
  have hpernode := @htext (ascii "processes_per_node")
    (numberText (v.processesPerNode > 0) v.processesPerNode)
    (fun value d => { d with processesPerNode := value }) (fun _ => rfl) (by decide)
    (newline_numberText _ _)
  have hnodes := @htext (ascii "num_nodes") (numberText (v.numNodes > 0) v.numNodes)
    (fun value d => { d with numNodes := value }) (fun _ => rfl) (by decide)
    (newline_numberText _ _)
  have hip' := @htext (ascii "ip_address") (v.ipAddress)
    (fun value d => { d with ipAddress := value }) (fun _ => rfl) (by decide) hip
  have hport := @htext (ascii "base_port") (numberText (v.basePort ≥ 0) v.basePort)
    (fun value d => { d with basePort := value }) (fun _ => rfl) (by decide)
    (newline_numberText _ _)
  have hslave' := @htext (ascii "slave_path") (v.slavePath)
    (fun value d => { d with slavePath := value }) (fun _ => rfl) (by decide) hslave
  have htarget' := @htext (ascii "target_path") (v.targetPath)
    (fun value d => { d with targetPath := value }) (fun _ => rfl) (by decide) htarget
  have htargs' := @htext (ascii "target_args") (v.targetArgs)
    (fun value d => { d with targetArgs := value }) (fun _ => rfl) (by decide) htargs
  have haddress' := @htext (ascii "ssh_address") (v.sshAddress)
    (fun value d => { d with sshAddress := value }) (fun _ => rfl) (by decide) haddress
  have huser' := @htext (ascii "ssh_user") (v.sshUser)
    (fun value d => { d with sshUser := value }) (fun _ => rfl) (by decide) huser
  have hpassword := @htext (ascii "ssh_password") (Base64.encode v.sshPassword)
    (fun value d => { d with sshPassword := Base64.decode value }) (fun _ => rfl) (by decide)
    (Base64.newline_encode _)
  rw [readLine_launcher hlauncher, hargs' _ rfl, hprocesses _ rfl, hpernode _ rfl,
    hnodes _ rfl, hip' _ rfl, hport _ rfl, hslave' _ rfl, htarget' _ rfl, htargs' _ rfl,
    readLine_ssh, haddress' _ rfl, huser' _ rfl, hpassword _ rfl]
  simp only [Base64.decode_encode]
  rfl

/-- Exporting a dialog, importing the file and reading the dialog again gives the
same values. -/
theorem export_import (hlauncher : ∃ launcher, d = d.activate launcher)
    (htexts : ∀ text ∈ d.texts, code '\n' ∉ text) :
    readValues true (readConfig (saveConfig (readValues true d).1) start) =
      ((readValues true d).1, true) := by
  obtain ⟨launcher, hd⟩ := hlauncher
  have hvalues : readConfig (saveConfig (parseContent d)) start = imported (parseContent d) := by
    refine @readConfig_saveConfig (parseContent d) ⟨launcher, ?_, ?_, ?_⟩ htexts start
    · exact congrArg DialogContent.launcherMpirun hd
    · exact congrArg DialogContent.launcherSrun hd
    · exact congrArg DialogContent.launcherCustom hd
  have hagain : parseContent (imported (parseContent d)) = parseContent d := by
    have hnumber : ∀ text : Bytes, readInt (fun value => 0 < value)
        (numberText (readInt (fun value => 0 < value) text > 0)
          (readInt (fun value => 0 < value) text)) = readInt (fun value => 0 < value) text := by
      intro text
      apply readInt_numberText
      · intro h
        simpa using (readInt_valid h).1
      · intro h
        simp [h]
      · intro z hz
        simp only [decide_eq_true_eq] at hz
        omega
    have hport : ∀ text : Bytes, readInt (fun value => 0 ≤ value && value ≤ 0xFFFF)
        (numberText (readInt (fun value => 0 ≤ value && value ≤ 0xFFFF) text ≥ 0)
          (readInt (fun value => 0 ≤ value && value ≤ 0xFFFF) text)) =
          readInt (fun value => 0 ≤ value && value ≤ 0xFFFF) text := by
      intro text
      apply readInt_numberText
      · intro h
        have hvalid := (readInt_valid h).1
        simp only [Bool.and_eq_true, decide_eq_true_eq] at hvalid
        simpa using hvalid.1
      · intro h
        simp [h]
      · intro z hz
        simp only [Bool.and_eq_true, decide_eq_true_eq] at hz
        exact hz.1
    simp only [parseContent, StartupValues.mk.injEq]
    exact ⟨rfl, rfl, rfl, rfl, rfl, rfl, rfl, rfl, rfl, rfl, rfl, rfl, hnumber _, hnumber _,
      hnumber _, hport _⟩
  simp only [readValues, hvalues, hagain, Bool.true_or]

/-- A dialog with `=` signs, blanks, a password that is not ASCII, a number that
does not parse and one out of range. -/
def unusualContent : DialogContent where
  launcherMpirun := false
  launcherSrun := true
  launcherCustom := false
  ssh := true
  launcherArgs := ascii " --export=ALL,X=1 "
  slavePath := ascii "./slave"
  ipAddress := ascii "192.168.0.1"
  targetPath := ascii "/home/user/a=b"
  targetArgs := ascii "--size=3  -v "
  sshAddress := []
  sshUser := ascii "user"
  sshPassword := [0xC3, 0xBC, 0xFF, 0x0A]
  numberOfProcesses := ascii "4"
  processesPerNode := ascii "two"
  numNodes := []
  basePort := ascii "70000"

theorem unusualContent_restored :
    readValues true (readConfig (saveConfig (readValues true unusualContent).1) unusualContent) =
      ((readValues true unusualContent).1, true) :=
  export_import ⟨.srun, rfl⟩ (by decide +kernel)

end RoundTrip

end ParallelGdb.Startup
