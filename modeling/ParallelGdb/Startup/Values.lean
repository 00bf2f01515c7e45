import ParallelGdb.Library.CString

/-!
# Reading the startup dialog

`StartupDialog::read_values` copies the texts of the dialog, parses its four
number fields, and refuses the configuration with a message where a needed value
is missing or out of range.
-/

namespace ParallelGdb.Startup

open Library.CString

/-- The buttons and entries of the dialog. -/
structure DialogContent where
  launcherMpirun : Bool
  launcherSrun : Bool
  launcherCustom : Bool
  ssh : Bool
  launcherArgs : Bytes
  slavePath : Bytes
  ipAddress : Bytes
  targetPath : Bytes
  targetArgs : Bytes
  sshAddress : Bytes
  sshUser : Bytes
  sshPassword : Bytes
  numberOfProcesses : Bytes
  processesPerNode : Bytes
  numNodes : Bytes
  basePort : Bytes

/-- The members `read_values` sets. -/
structure StartupValues where
  launcherMpirun : Bool
  launcherSrun : Bool
  launcherCustom : Bool
  ssh : Bool
  launcherArgs : Bytes
  slavePath : Bytes
  ipAddress : Bytes
  targetPath : Bytes
  targetArgs : Bytes
  sshAddress : Bytes
  sshUser : Bytes
  sshPassword : Bytes
  numberOfProcesses : Int
  processesPerNode : Int
  numNodes : Int
  basePort : Int

/-- One number field: `-1` unless the whole text is a valid number. -/
def readInt (valid : Int → Bool) (text : Bytes) : Int :=
  match stoi text with
  | some (value, pos) => if pos ≠ text.length || !valid value then -1 else value
  | none => -1

/-- The members after the number fields are parsed. -/
def parseContent (d : DialogContent) : StartupValues where
  launcherMpirun := d.launcherMpirun
  launcherSrun := d.launcherSrun
  launcherCustom := d.launcherCustom
  ssh := d.ssh
  launcherArgs := d.launcherArgs
  slavePath := d.slavePath
  ipAddress := d.ipAddress
  targetPath := d.targetPath
  targetArgs := d.targetArgs
  sshAddress := d.sshAddress
  sshUser := d.sshUser
  sshPassword := d.sshPassword
  numberOfProcesses := readInt (fun value => 0 < value) d.numberOfProcesses
  processesPerNode := readInt (fun value => 0 < value) d.processesPerNode
  numNodes := readInt (fun value => 0 < value) d.numNodes
  basePort := readInt (fun value => 0 ≤ value && value ≤ 0xFFFF) d.basePort

/-- The message dialog `read_values` shows, if it refuses the configuration. -/
def refusal (v : StartupValues) : Option Bytes :=
  if v.numberOfProcesses = -1 then some (ascii "Invalid Number of Processes.")
  else if v.basePort = -1 then some (ascii "Invalid Base Port.")
  else if !v.launcherCustom && v.ipAddress = [] then some (ascii "Missing IP address.")
  else if !v.launcherCustom && v.slavePath = [] then some (ascii "Missing Slave Path.")
  else if !v.launcherCustom && v.targetPath = [] then some (ascii "Missing Target Path.")
  else none

/-- `read_values`: the members, and whether it returned `true`. -/
def readValues (exporting : Bool) (d : DialogContent) : StartupValues × Bool :=
  let v := parseContent d
  (v, exporting || (refusal v).isNone)

/-- What a number field holds if it is not refused. -/
theorem readInt_valid {valid : Int → Bool} {text : Bytes} (h : readInt valid text ≠ -1) :
    valid (readInt valid text) = true ∧
      -(2 ^ 31) ≤ readInt valid text ∧ readInt valid text < 2 ^ 31 := by
  unfold readInt at h ⊢
  cases hread : stoi text with
  | none => simp [hread] at h
  | some p =>
      obtain ⟨value, pos⟩ := p
      simp only [hread] at h ⊢
      split at h
      · exact absurd rfl h
      · rename_i hvalid
        simp only [Bool.or_eq_true, decide_eq_true_eq, Bool.not_eq_true', not_or,
          Bool.not_eq_false] at hvalid
        rw [if_neg (by simp [hvalid])]
        have hrange := (Option.filter_eq_some_iff.mp hread).2
        simp only [Bool.and_eq_true, decide_eq_true_eq] at hrange
        exact ⟨hvalid.2, hrange⟩

/-- An accepted configuration has a process number and a base port in range. -/
theorem readValues_accepted {d : DialogContent} {v : StartupValues}
    (h : readValues false d = (v, true)) :
    0 < v.numberOfProcesses ∧ v.numberOfProcesses < 2 ^ 31 ∧
      0 ≤ v.basePort ∧ v.basePort ≤ 65535 := by
  obtain ⟨rfl, hnone⟩ := Prod.mk.inj h
  have hnumber : (parseContent d).numberOfProcesses ≠ -1 := by
    intro hn
    simp [refusal, hn] at hnone
  have hport : (parseContent d).basePort ≠ -1 := by
    intro hp
    simp [refusal, hnumber, hp] at hnone
  obtain ⟨hpos, -, hlt⟩ := readInt_valid hnumber
  obtain ⟨hbase, -, -⟩ := readInt_valid hport
  simp only [decide_eq_true_eq] at hpos
  simp only [Bool.and_eq_true, decide_eq_true_eq] at hbase
  exact ⟨hpos, hlt, hbase.1, hbase.2⟩

end ParallelGdb.Startup
