import ParallelGdb.Library.Transition
import ParallelGdb.Startup.Import

/-!
# The startup dialog

The user edits the dialog in any order, imports and exports configurations, and is
asked again until the configuration is accepted or the dialog is closed. The signal
handlers of two buttons decide which entries can be edited.
-/

namespace ParallelGdb.Startup

open Library.CString Library.Getline Library.Transition

/-- The entries of the dialog. -/
inductive TextEntry
  | launcherArgs
  | numberOfProcesses
  | processesPerNode
  | numNodes
  | ipAddress
  | basePort
  | slavePath
  | targetPath
  | targetArgs
  | sshAddress
  | sshUser
  | sshPassword
  deriving DecidableEq

namespace TextEntry

/-- `get_text`. -/
def text (d : DialogContent) : TextEntry → Bytes
  | .launcherArgs => d.launcherArgs
  | .numberOfProcesses => d.numberOfProcesses
  | .processesPerNode => d.processesPerNode
  | .numNodes => d.numNodes
  | .ipAddress => d.ipAddress
  | .basePort => d.basePort
  | .slavePath => d.slavePath
  | .targetPath => d.targetPath
  | .targetArgs => d.targetArgs
  | .sshAddress => d.sshAddress
  | .sshUser => d.sshUser
  | .sshPassword => d.sshPassword

/-- `set_text`. -/
def setText (value : Bytes) (d : DialogContent) : TextEntry → DialogContent
  | .launcherArgs => { d with launcherArgs := value }
  | .numberOfProcesses => { d with numberOfProcesses := value }
  | .processesPerNode => { d with processesPerNode := value }
  | .numNodes => { d with numNodes := value }
  | .ipAddress => { d with ipAddress := value }
  | .basePort => { d with basePort := value }
  | .slavePath => { d with slavePath := value }
  | .targetPath => { d with targetPath := value }
  | .targetArgs => { d with targetArgs := value }
  | .sshAddress => { d with sshAddress := value }
  | .sshUser => { d with sshUser := value }
  | .sshPassword => { d with sshPassword := value }

/-- The entries of `set_sensitivity_ssh`. -/
def isSsh : TextEntry → Bool
  | .sshAddress | .sshUser | .sshPassword => true
  | _ => false

/-- The entries of `on_custom_launcher_toggled`. -/
def isLaunched : TextEntry → Bool
  | .processesPerNode | .numNodes | .slavePath | .ipAddress | .targetPath | .targetArgs => true
  | _ => false

end TextEntry

structure StartupDialog where
  content : DialogContent
  /-- The entries that can be edited. -/
  sensitive : TextEntry → Bool
  /-- The file choosers of the slave and of the target can be used. -/
  choosers : Bool
  values : StartupValues
  isValid : Bool

namespace StartupDialog

/-- The buttons and entries after the constructor. -/
def initContent : DialogContent where
  launcherMpirun := true
  launcherSrun := false
  launcherCustom := false
  ssh := false
  launcherArgs := []
  slavePath := []
  ipAddress := []
  targetPath := []
  targetArgs := []
  sshAddress := []
  sshUser := []
  sshPassword := []
  numberOfProcesses := []
  processesPerNode := []
  numNodes := []
  basePort := ascii "32768"

/-- The members the constructor sets. -/
def initValues : StartupValues where
  launcherMpirun := false
  launcherSrun := false
  launcherCustom := false
  ssh := false
  launcherArgs := []
  slavePath := []
  ipAddress := []
  targetPath := []
  targetArgs := []
  sshAddress := []
  sshUser := []
  sshPassword := []
  numberOfProcesses := -1
  processesPerNode := -1
  numNodes := -1
  basePort := -1

/-- `set_sensitivity_ssh`. -/
def setSensitivitySsh (state : Bool) (d : StartupDialog) : StartupDialog :=
  { d with sensitive := fun entry => if entry.isSsh then state else d.sensitive entry }

/-- `on_ssh_button_toggled`. -/
def onSshButtonToggled (d : StartupDialog) : StartupDialog := d.setSensitivitySsh d.content.ssh

/-- `on_custom_launcher_toggled`. -/
def onCustomLauncherToggled (d : StartupDialog) : StartupDialog :=
  let state := d.content.launcherCustom
  { d with
    sensitive := fun entry => if entry.isLaunched then !state else d.sensitive entry
    choosers := !state }

/-- The constructor. -/
def init : StartupDialog :=
  setSensitivitySsh false
    { content := initContent
      sensitive := fun _ => true
      choosers := true
      values := initValues
      isValid := false }

/-- Set buttons and entries. A button that changes calls its handler. -/
def setContent (content : DialogContent) (d : StartupDialog) : StartupDialog :=
  let custom := content.launcherCustom ≠ d.content.launcherCustom
  let ssh := content.ssh ≠ d.content.ssh
  let d := { d with content }
  let d := if custom then d.onCustomLauncherToggled else d
  if ssh then d.onSshButtonToggled else d

/-- `clear_dialog`. -/
def clearDialog (d : StartupDialog) : StartupDialog :=
  (d.setContent (Startup.clearDialog d.content)).setSensitivitySsh false

/-- `set_value`; `none` where the decoder of the password leaves its table. -/
def setValue (key value : Bytes) (d : StartupDialog) : Option StartupDialog := do
  let d := d.setContent (← setValueIn key value d.content)
  return if ascii "ssh" = key then d.setSensitivitySsh (ascii "true" = value) else d

/-- One line in `read_config`. -/
def readLine (d : StartupDialog) (line : Bytes) : Option StartupDialog :=
  match getline (code '=') line with
  | some (key, rest) =>
      match getline (code '\n') rest with
      | some (value, _) => d.setValue key value
      | none => some d
  | none => some d

/-- `read_config`. A file that cannot be opened has no line. -/
def readConfig (file : Bytes) (d : StartupDialog) : Option StartupDialog :=
  (lines (code '\n') file).foldlM readLine d.clearDialog

/-- `read_values`, and the message it shows. -/
def readValues (exporting : Bool) (d : StartupDialog) : StartupDialog × Bool :=
  let (values, ok) := Startup.readValues exporting d.content
  ({ d with values }, ok)

/-- `on_dialog_response` to the OK button. -/
def onDialogResponse (d : StartupDialog) : StartupDialog :=
  let (d, ok) := d.readValues false
  { d with isValid := ok }

/-- What the user can do in the dialog. -/
inductive Act
  | edit (entry : TextEntry) (text : Bytes)
  | chooseLauncher (launcher : Launcher)
  | toggleSsh
  /-- A file is chosen for the slave or for the target. -/
  | chooseSlave (path : Bytes)
  | chooseTarget (path : Bytes)
  /-- `clear_all`; that no file is selected any more is an import of its own. -/
  | clearAll
  | exportConfig
  | importConfig (file : Bytes)
  | ok

/-- One step, where the widget can be used. -/
def next (d : StartupDialog) : Act → Option StartupDialog
  | .edit entry text =>
      if d.sensitive entry then some { d with content := entry.setText text d.content } else none
  | .chooseLauncher launcher => some (d.setContent (d.content.activate launcher))
  | .toggleSsh => some (d.setContent { d.content with ssh := !d.content.ssh })
  | .chooseSlave path =>
      if d.choosers then some { d with content := TextEntry.setText path d.content .slavePath }
      else none
  | .chooseTarget path =>
      if d.choosers then some { d with content := TextEntry.setText path d.content .targetPath }
      else none
  | .clearAll => some d.clearDialog
  | .exportConfig => some (d.readValues true).1
  | .importConfig file => d.readConfig file
  | .ok => some d.onDialogResponse

/-- All that can be done in the dialog. -/
def system : System StartupDialog Act := System.ofNext (· = init) next

end StartupDialog

/-- One button of the radio group is on. -/
def DialogContent.Launches (d : DialogContent) (launcher : Launcher) : Prop :=
  d.launcherMpirun = decide (launcher = .mpirun) ∧ d.launcherSrun = decide (launcher = .srun) ∧
    d.launcherCustom = decide (launcher = .custom)

section Launchers

variable {d : DialogContent} {launcher : Launcher}

theorem launches_activate (d : DialogContent) (launcher : Launcher) :
    (d.activate launcher).Launches launcher := ⟨rfl, rfl, rfl⟩

/-- A change of one member, or none. -/
theorem launches_ite {c : Prop} [Decidable c] {e : DialogContent}
    (he : ∃ launcher, e.Launches launcher) (hd : ∃ launcher, d.Launches launcher) :
    ∃ launcher, (if c then e else d).Launches launcher := by
  split
  · exact he
  · exact hd

/-- A line leaves one button on. -/
theorem launches_setValue (key value : Bytes) (h : ∃ launcher, d.Launches launcher) :
    ∃ launcher, (setValue key value d).Launches launcher := by
  unfold setValue
  extract_lets args processes pernode nodes ip port slave target targs address user password
    launcher
  have hargs : ∃ l, args.Launches l := launches_ite h h
  have hprocesses : ∃ l, processes.Launches l := launches_ite hargs hargs
  have hpernode : ∃ l, pernode.Launches l := launches_ite hprocesses hprocesses
  have hnodes : ∃ l, nodes.Launches l := launches_ite hpernode hpernode
  have hip : ∃ l, ip.Launches l := launches_ite hnodes hnodes
  have hport : ∃ l, port.Launches l := launches_ite hip hip
  have hslave : ∃ l, slave.Launches l := launches_ite hport hport
  have htarget : ∃ l, target.Launches l := launches_ite hslave hslave
  have htargs : ∃ l, targs.Launches l := launches_ite htarget htarget
  have haddress : ∃ l, address.Launches l := launches_ite htargs htargs
  have huser : ∃ l, user.Launches l := launches_ite haddress haddress
  have hpassword : ∃ l, password.Launches l := launches_ite huser huser
  have hlauncher : ∃ l, launcher.Launches l :=
    launches_ite (launches_ite ⟨_, launches_activate _ _⟩
      (launches_ite ⟨_, launches_activate _ _⟩
        (launches_ite ⟨_, launches_activate _ _⟩ hpassword))) hpassword
  exact launches_ite hlauncher hlauncher

theorem launches_setValueIn {key value : Bytes} {e : DialogContent}
    (h : ∃ launcher, d.Launches launcher) (he : setValueIn key value d = some e) :
    ∃ launcher, e.Launches launcher := by
  unfold setValueIn at he
  split at he
  · obtain ⟨password, -, rfl⟩ := Option.map_eq_some_iff.mp he
    exact h
  · obtain rfl := Option.some.inj he
    exact launches_setValue key value h

end Launchers

namespace StartupDialog

/-- The buttons and the entries agree on what can be edited. -/
structure Agrees (d : StartupDialog) : Prop where
  launcher : ∃ launcher, d.content.Launches launcher
  sensitive : ∀ entry, d.sensitive entry =
    if entry.isSsh then d.content.ssh
    else if entry.isLaunched then !d.content.launcherCustom
    else true
  choosers : d.choosers = !d.content.launcherCustom

section Steps

variable {d e : StartupDialog}

theorem content_setContent (content : DialogContent) (d : StartupDialog) :
    (d.setContent content).content = content := by
  unfold setContent
  extract_lets custom ssh d₁ d₂
  have h : d₂.content = content := by
    unfold d₂
    split <;> rfl
  split
  · exact h
  · exact h

theorem isLaunched_of_isSsh {entry : TextEntry} (h : entry.isSsh = true) :
    entry.isLaunched = false := by
  cases entry <;> first | rfl | cases h

/-- The handlers restore the agreement. -/
theorem Agrees.setContent (h : d.Agrees) {content : DialogContent}
    (hlauncher : ∃ launcher, content.Launches launcher) : (d.setContent content).Agrees := by
  unfold StartupDialog.setContent
  extract_lets custom ssh d₁ d₂
  have hlaunched : (∀ entry, d₂.sensitive entry =
      if entry.isSsh then d.content.ssh
      else if entry.isLaunched then !content.launcherCustom
      else true) ∧ d₂.choosers = (!content.launcherCustom) ∧ d₂.content = content := by
    unfold d₂
    split
    · refine ⟨fun entry => ?_, rfl, rfl⟩
      simp only [onCustomLauncherToggled, d₁, h.sensitive]
      cases hssh : entry.isSsh with
      | true => simp [isLaunched_of_isSsh hssh]
      | false => cases entry.isLaunched <;> rfl
    · rename_i hsame
      rw [not_not] at hsame
      rw [hsame]
      exact ⟨h.sensitive, h.choosers, rfl⟩
  obtain ⟨hsensitive, hchoosers, hcontent₂⟩ := hlaunched
  split
  · refine ⟨by rwa [onSshButtonToggled, setSensitivitySsh, hcontent₂], fun entry => ?_, ?_⟩
    · simp only [onSshButtonToggled, setSensitivitySsh, hsensitive, hcontent₂]
      split <;> rfl
    · simp only [onSshButtonToggled, setSensitivitySsh, hchoosers, hcontent₂]
  · rename_i hsame
    rw [not_not] at hsame
    refine ⟨by rwa [hcontent₂], fun entry => ?_, by rw [hchoosers, hcontent₂]⟩
    rw [hsensitive, hcontent₂, hsame]

theorem Agrees.setSensitivitySsh (h : d.Agrees) :
    (d.setSensitivitySsh d.content.ssh).Agrees := by
  refine ⟨h.launcher, fun entry => ?_, h.choosers⟩
  simp only [StartupDialog.setSensitivitySsh, h.sensitive]
  split <;> rfl

theorem Agrees.clearDialog (h : d.Agrees) : d.clearDialog.Agrees := by
  have hset : (d.setContent (Startup.clearDialog d.content)).Agrees :=
    h.setContent ⟨.mpirun, rfl, rfl, rfl⟩
  have hcontent := content_setContent (Startup.clearDialog d.content) d
  have hssh : (d.setContent (Startup.clearDialog d.content)).content.ssh = false := by
    rw [hcontent]
    rfl
  rw [StartupDialog.clearDialog, ← hssh]
  exact hset.setSensitivitySsh

/-- The explicit call in `set_value` sets what the handler has set. -/
theorem Agrees.setValue (h : d.Agrees) {key value : Bytes} (he : d.setValue key value = some e) :
    e.Agrees := by
  obtain ⟨content, hcontent, he⟩ := Option.bind_eq_some_iff.mp he
  obtain rfl := Option.some.inj he
  have hset := h.setContent (launches_setValueIn h.launcher hcontent)
  split
  · rename_i hkey
    subst hkey
    have hssh : (d.setContent content).content.ssh = decide (ascii "true" = value) := by
      obtain rfl := Option.some.inj hcontent
      rw [content_setContent]
      rfl
    rw [← hssh]
    exact hset.setSensitivitySsh
  · exact hset

theorem Agrees.readLine (h : d.Agrees) {line : Bytes} (he : d.readLine line = some e) :
    e.Agrees := by
  unfold StartupDialog.readLine at he
  split at he
  · split at he
    · exact h.setValue he
    · obtain rfl := Option.some.inj he
      exact h
  · obtain rfl := Option.some.inj he
    exact h

theorem Agrees.readConfig (h : d.Agrees) {file : Bytes} (he : d.readConfig file = some e) :
    e.Agrees := by
  have hlines (lines : List Bytes) {d : StartupDialog} (h : d.Agrees)
      (he : lines.foldlM StartupDialog.readLine d = some e) : e.Agrees := by
    induction lines generalizing d with
    | nil =>
        obtain rfl := Option.some.inj he
        exact h
    | cons line rest ih =>
        rw [List.foldlM_cons] at he
        obtain ⟨d', hd', he⟩ := Option.bind_eq_some_iff.mp he
        exact ih (h.readLine hd') he
  exact hlines _ h.clearDialog he

/-- The buttons and the sensitivity do not depend on what is written in the entries. -/
theorem Agrees.setText (h : d.Agrees) (entry : TextEntry) (text : Bytes) :
    Agrees { d with content := entry.setText text d.content } := by
  cases entry <;> exact ⟨h.launcher, h.sensitive, h.choosers⟩

theorem Agrees.next (h : d.Agrees) {a : Act} (he : d.next a = some e) : e.Agrees := by
  cases a with
  | edit entry text =>
      obtain ⟨-, he⟩ := Option.ite_none_right_eq_some.mp he
      obtain rfl := Option.some.inj he
      exact h.setText entry text
  | chooseLauncher launcher =>
      obtain rfl := Option.some.inj he
      exact h.setContent ⟨launcher, launches_activate _ _⟩
  | toggleSsh =>
      obtain rfl := Option.some.inj he
      exact h.setContent h.launcher
  | chooseSlave path =>
      obtain ⟨-, he⟩ := Option.ite_none_right_eq_some.mp he
      obtain rfl := Option.some.inj he
      exact h.setText .slavePath path
  | chooseTarget path =>
      obtain ⟨-, he⟩ := Option.ite_none_right_eq_some.mp he
      obtain rfl := Option.some.inj he
      exact h.setText .targetPath path
  | clearAll =>
      obtain rfl := Option.some.inj he
      exact h.clearDialog
  | exportConfig =>
      obtain rfl := Option.some.inj he
      exact ⟨h.launcher, h.sensitive, h.choosers⟩
  | importConfig file => exact h.readConfig he
  | ok =>
      obtain rfl := Option.some.inj he
      exact ⟨h.launcher, h.sensitive, h.choosers⟩

theorem agrees_init : init.Agrees := by
  refine ⟨⟨.mpirun, rfl, rfl, rfl⟩, fun entry => ?_, rfl⟩
  cases entry <;> rfl

end Steps

/-- In every state the buttons tell which entries can be edited. -/
theorem agrees_of_reachable {d : StartupDialog} (hd : Reachable system d) : d.Agrees := by
  refine hd.invariant ?_ fun d a e h he => h.next he
  rintro d rfl
  exact agrees_init

end StartupDialog

end ParallelGdb.Startup
