import ParallelGdb.Master.Handshake
import ParallelGdb.Startup.Dialog
import ParallelGdb.Startup.Launch
import ParallelGdb.Startup.Ssh

/-!
# From the startup dialog to the connections

Once the configuration is accepted, the master opens its ports, starts the slaves and
shows its window. What it does depends on the entries that can be edited only, and the
slaves it starts connect to the ports it has opened.
-/

namespace ParallelGdb.Startup

open Library.CString Library.Transition Library.Words Slave Target

/-- What the system replies. -/
structure Outside where
  /-- The acceptor for the port with this offset can be opened. -/
  canBind : Nat → Bool
  fork : Bool
  ssh : SshCall → Bool

/-- Nothing fails. -/
def Outside.good : Outside := ⟨fun _ => true, true, fun _ => true⟩

/-- `master_starts_slaves`. -/
def masterStartsSlaves (v : StartupValues) : Bool :=
  let cmd := v.launcherArgs.filter fun c => !isBlank c
  !(v.launcherCustom && cmd = [])

/-- How `start_slaves` starts the slaves. -/
inductive SlavesStart
  | byHand
  | overSsh (calls : List (SshCall × Bool))
  | forked (cmd : Bytes)

/-- `start_slaves`. -/
def startSlaves (outside : Outside) (v : StartupValues) : SlavesStart × Bool :=
  if masterStartsSlaves v then
    if v.ssh then
      let out := startSlavesSsh outside.ssh v []
      (.overSsh out.2, out.1)
    else (.forked (getCmd v), outside.fork)
  else (.byHand, true)

/-- The loop of `start_servers`: the ports that are opened, and whether all are. -/
def openPorts (canBind : Nat → Bool) (basePort : Int) : List Nat → Option (List Int × Bool)
  | [] => some ([], true)
  | offset :: rest => do
      let port ← checked (basePort + offset)
      if canBind offset then
        let (ports, ok) ← openPorts canBind basePort rest
        return (port :: ports, ok)
      else return ([], false)

/-- What `main` has done in front of the main loop. -/
structure Launched where
  /-- The arguments of the constructor of the window. -/
  numProcesses : Int
  basePort : Int
  ports : List Int
  /-- Missing where a port could not be opened. -/
  slaves : Option SlavesStart
  /-- `start_GUI` is called. -/
  gui : Bool

/-- `main` behind the dialog; `none` where an `int` overflows. -/
def launch (outside : Outside) (v : StartupValues) : Option Launched := do
  let count ← checked (2 * v.numberOfProcesses)
  let (ports, ok) ← openPorts outside.canBind v.basePort (List.range count.toNat)
  let out := startSlaves outside v
  return {
    numProcesses := v.numberOfProcesses
    basePort := v.basePort
    ports
    slaves := if ok then some out.1 else none
    gui := ok && out.2 }

/-- A round of `run_startup_dialog` with the OK button: the message that is shown, or
what `main` does where the configuration is accepted. -/
def StartupDialog.afterOk (outside : Outside) (d : StartupDialog) :
    Except Bytes (Option Launched) :=
  let d := d.onDialogResponse
  if d.isValid then .ok (launch outside d.values)
  else .error ((refusal d.values).getD [])

namespace StartupDialog

variable {d : StartupDialog} {outside : Outside}

/-- The buttons are the same, and what is written in the entries that can be edited. -/
structure SameSensitive (d : StartupDialog) (content : DialogContent) : Prop where
  launcherMpirun : content.launcherMpirun = d.content.launcherMpirun
  launcherSrun : content.launcherSrun = d.content.launcherSrun
  launcherCustom : content.launcherCustom = d.content.launcherCustom
  ssh : content.ssh = d.content.ssh
  texts : ∀ entry, d.sensitive entry = true → TextEntry.text content entry =
    TextEntry.text d.content entry

theorem afterOk_eq (outside : Outside) (d : StartupDialog) :
    d.afterOk outside =
      match refusal (parseContent d.content) with
      | some message => .error message
      | none => .ok (launch outside (parseContent d.content)) := by
  simp only [afterOk, onDialogResponse, readValues, Startup.readValues, Bool.false_or]
  cases refusal (parseContent d.content) <;> rfl

end StartupDialog

section Values

variable {v w : StartupValues} {outside : Outside}

/-- The members `main` depends on are the same. -/
structure SameLaunch (v w : StartupValues) : Prop where
  launcherCustom : v.launcherCustom = w.launcherCustom
  launcherArgs : v.launcherArgs = w.launcherArgs
  ssh : v.ssh = w.ssh
  numberOfProcesses : v.numberOfProcesses = w.numberOfProcesses
  basePort : v.basePort = w.basePort
  getCmd : getCmd v = getCmd w
  login : v.ssh = true → v.sshAddress = w.sshAddress ∧ v.sshUser = w.sshUser ∧
    v.sshPassword = w.sshPassword

theorem SameLaunch.startSlaves (h : SameLaunch v w) :
    startSlaves outside v = startSlaves outside w := by
  have hstarts : masterStartsSlaves v = masterStartsSlaves w := by
    rw [masterStartsSlaves, masterStartsSlaves, h.launcherCustom, h.launcherArgs]
  unfold Startup.startSlaves
  rw [hstarts, ← h.ssh, h.getCmd]
  cases hssh : v.ssh with
  | false => rfl
  | true =>
      obtain ⟨haddress, huser, hpassword⟩ := h.login hssh
      have hcalls : startSlavesSsh outside.ssh v [] = startSlavesSsh outside.ssh w [] := by
        unfold startSlavesSsh
        rw [haddress, huser, hpassword, h.getCmd]
      rw [hcalls]

theorem SameLaunch.launch (h : SameLaunch v w) : launch outside v = launch outside w := by
  unfold Startup.launch
  rw [h.numberOfProcesses, h.basePort, h.startSlaves]

end Values

namespace StartupDialog

section Sensitive

variable {d : StartupDialog} {content : DialogContent}

/-- An entry that no handler disables. -/
theorem SameSensitive.text (h : d.SameSensitive content) (hagrees : d.Agrees) (entry : TextEntry)
    (hssh : entry.isSsh = false) (hlaunched : entry.isLaunched = false) :
    TextEntry.text content entry = TextEntry.text d.content entry := by
  apply h.texts
  rw [hagrees.sensitive, hssh, hlaunched]
  rfl

theorem SameSensitive.launchedText (h : d.SameSensitive content) (hagrees : d.Agrees)
    (hcustom : d.content.launcherCustom = false) (entry : TextEntry)
    (hlaunched : entry.isLaunched = true) :
    TextEntry.text content entry = TextEntry.text d.content entry := by
  apply h.texts
  have hssh : entry.isSsh = false := by
    cases hssh : entry.isSsh with
    | false => rfl
    | true => rw [isLaunched_of_isSsh hssh] at hlaunched; cases hlaunched
  rw [hagrees.sensitive, hssh, hlaunched, hcustom]
  rfl

theorem SameSensitive.sshText (h : d.SameSensitive content) (hagrees : d.Agrees)
    (hon : d.content.ssh = true) (entry : TextEntry) (hssh : entry.isSsh = true) :
    TextEntry.text content entry = TextEntry.text d.content entry := by
  apply h.texts
  rw [hagrees.sensitive, hssh, hon]
  rfl

/-- Without a custom launcher only the SSH entries can differ. -/
theorem SameSensitive.content_eq (h : d.SameSensitive content) (hagrees : d.Agrees)
    (hcustom : d.content.launcherCustom = false) :
    content = { d.content with
      sshAddress := content.sshAddress
      sshUser := content.sshUser
      sshPassword := content.sshPassword } := by
  have hargs : content.launcherArgs = d.content.launcherArgs :=
    h.text hagrees .launcherArgs rfl rfl
  have hprocesses : content.numberOfProcesses = d.content.numberOfProcesses :=
    h.text hagrees .numberOfProcesses rfl rfl
  have hport : content.basePort = d.content.basePort := h.text hagrees .basePort rfl rfl
  have hpernode : content.processesPerNode = d.content.processesPerNode :=
    h.launchedText hagrees hcustom .processesPerNode rfl
  have hnodes : content.numNodes = d.content.numNodes :=
    h.launchedText hagrees hcustom .numNodes rfl
  have hslave : content.slavePath = d.content.slavePath :=
    h.launchedText hagrees hcustom .slavePath rfl
  have hip : content.ipAddress = d.content.ipAddress :=
    h.launchedText hagrees hcustom .ipAddress rfl
  have htarget : content.targetPath = d.content.targetPath :=
    h.launchedText hagrees hcustom .targetPath rfl
  have htargs : content.targetArgs = d.content.targetArgs :=
    h.launchedText hagrees hcustom .targetArgs rfl
  dsimp only
  rw [← h.launcherMpirun, ← h.launcherSrun, ← h.launcherCustom, ← h.ssh, ← hargs, ← hprocesses,
    ← hport, ← hpernode, ← hnodes, ← hslave, ← hip, ← htarget, ← htargs]

/-- The command does not read the SSH entries; a custom one reads only its own. -/
theorem SameSensitive.getCmd (h : d.SameSensitive content) (hagrees : d.Agrees) :
    getCmd (parseContent content) = getCmd (parseContent d.content) := by
  cases hcustom : d.content.launcherCustom with
  | true =>
      have hargs : content.launcherArgs = d.content.launcherArgs :=
        h.text hagrees .launcherArgs rfl rfl
      have hcustom' : content.launcherCustom = true := h.launcherCustom.trans hcustom
      simp only [Startup.getCmd, parseContent, hcustom, hcustom', if_true, hargs]
  | false =>
      rw [h.content_eq hagrees hcustom]
      rfl

theorem SameSensitive.sameLaunch (h : d.SameSensitive content) (hagrees : d.Agrees) :
    SameLaunch (parseContent content) (parseContent d.content) where
  launcherCustom := h.launcherCustom
  launcherArgs := h.text hagrees .launcherArgs rfl rfl
  ssh := h.ssh
  numberOfProcesses := congrArg (readInt fun value => 0 < value)
    (h.text hagrees .numberOfProcesses rfl rfl)
  basePort := congrArg (readInt fun value => 0 ≤ value && value ≤ 0xFFFF)
    (h.text hagrees .basePort rfl rfl)
  getCmd := h.getCmd hagrees
  login hssh := by
    have hon : d.content.ssh = true := h.ssh.symm.trans hssh
    exact ⟨h.sshText hagrees hon .sshAddress rfl,
      h.sshText hagrees hon .sshUser rfl,
      h.sshText hagrees hon .sshPassword rfl⟩

theorem SameSensitive.refusal (h : d.SameSensitive content) (hagrees : d.Agrees) :
    refusal (parseContent content) = refusal (parseContent d.content) := by
  have hsame := h.sameLaunch hagrees
  cases hcustom : d.content.launcherCustom with
  | true =>
      unfold Startup.refusal
      rw [hsame.numberOfProcesses, hsame.basePort, hsame.launcherCustom]
      simp only [parseContent, hcustom, Bool.not_true, Bool.false_and]
  | false =>
      rw [h.content_eq hagrees hcustom]
      rfl

/-- However the dialog was filled in: what is written in an entry that cannot be edited
has no influence on whether the configuration is accepted, nor on the ports that are
opened, the command, the SSH session and the window. -/
theorem afterOk_sensitive (hd : Reachable system d) (h : d.SameSensitive content)
    (outside : Outside) : afterOk outside { d with content } = d.afterOk outside := by
  have hagrees := agrees_of_reachable hd
  rw [afterOk_eq, afterOk_eq]
  simp only [h.refusal hagrees, (h.sameLaunch hagrees).launch]

/-- A custom launcher is chosen; what was written for the slave before stays there. -/
def customActs : List Act :=
  [.edit .numberOfProcesses (ascii "1"), .edit .slavePath (ascii "./slave"),
    .chooseLauncher .custom, .edit .launcherArgs (ascii "run.sh")]

theorem customActs_sensitive : ∃ d : StartupDialog,
    d.content.slavePath = ascii "./slave" ∧
      afterOk .good { d with content := { d.content with slavePath := [] } } =
        d.afterOk .good := by
  obtain ⟨d, hd, hp⟩ := (Reachable.start (M := system) rfl).replay_any customActs
    (fun d => decide (d.content.slavePath = ascii "./slave") && !d.sensitive .slavePath)
    (by decide +kernel)
  simp only [Bool.and_eq_true, decide_eq_true_eq, Bool.not_eq_true'] at hp
  have hsame : d.SameSensitive { d.content with slavePath := [] } := by
    refine ⟨rfl, rfl, rfl, rfl, fun entry hentry => ?_⟩
    cases entry with
    | slavePath =>
        rw [hp.2] at hentry
        cases hentry
    | _ => rfl
  exact ⟨d, hp.1, afterOk_sensitive hd hsame .good⟩

end Sensitive

section Launching

variable {d : StartupDialog} {outside : Outside} {l : Launched}

theorem openPorts_all {canBind : Nat → Bool} {base : Int} {offsets : List Nat} {ports : List Int}
    (h : openPorts canBind base offsets = some (ports, true)) :
    ports = offsets.map fun (k : Nat) => base + (k : Int) := by
  induction offsets generalizing ports with
  | nil => exact (Prod.mk.inj (Option.some.inj h)).1.symm
  | cons offset rest ih =>
      rw [openPorts] at h
      obtain ⟨port, hport, h⟩ := Option.bind_eq_some_iff.mp h
      obtain ⟨rfl, -⟩ := checked_eq_some.mp hport
      split at h
      · obtain ⟨⟨more, ok⟩, hmore, h⟩ := Option.bind_eq_some_iff.mp h
        obtain ⟨rfl, rfl⟩ := Prod.mk.inj (Option.some.inj h)
        rw [List.map_cons, ih hmore]
      · cases h

/-- Where the window is shown, all ports are open and the slaves are started. -/
theorem launch_gui {v : StartupValues} (h : launch outside v = some l) (hgui : l.gui = true) :
    l.numProcesses = v.numberOfProcesses ∧ l.basePort = v.basePort ∧
      l.ports = (List.range (2 * v.numberOfProcesses).toNat).map
        (fun (k : Nat) => v.basePort + (k : Int)) ∧
      l.slaves = some (startSlaves outside v).1 := by
  obtain ⟨count, hcount, h⟩ := Option.bind_eq_some_iff.mp h
  obtain ⟨rfl, -⟩ := checked_eq_some.mp hcount
  obtain ⟨⟨ports, ok⟩, hports, h⟩ := Option.bind_eq_some_iff.mp h
  obtain rfl := Option.some.inj h
  simp only [Bool.and_eq_true] at hgui
  obtain ⟨rfl, -⟩ := hgui
  exact ⟨rfl, rfl, openPorts_all hports, rfl⟩

/-- From the dialog to the connections: where the master accepts the configuration of a
launcher on its own machine and gets to its window, every rank whose words are passed on
by the launcher starts its two socat instances for the ports the master has opened and
reads as this rank's. -/
theorem launched_slaves_meet {launcher : Launcher} {n : Nat}
    (hafter : d.afterOk outside = .ok (some l)) (hgui : l.gui = true)
    (hlaunches : d.content.Launches launcher) (hcustom : launcher ≠ .custom)
    (hssh : d.content.ssh = false) (hdeliverable : Deliverable (parseContent d.content))
    (hn : l.numProcesses = n) (hbase : GoodPorts n l.basePort) {getenv : Fin n → Environment}
    (hranked : ∀ s, parseClArgs (slaveArgv launcher (parseContent d.content)) = .ok s →
      s.Ranked getenv) :
    0 < n ∧ l.slaves = some (.forked (getCmd (parseContent d.content))) ∧
      ∀ rank : Fin n,
        (∃ started, start (slaveArgv launcher (parseContent d.content)) (getenv rank) =
            .ok started ∧
          started.startProcesses =
            some (socatOf d.content.ipAddress l.basePort (.gdb rank),
              socatOf d.content.ipAddress l.basePort (.trgt rank))) ∧
        ∀ c ∈ [Source.gdb rank, Source.trgt rank],
          threadPort l.basePort c.offset ∈ l.ports ∧
            sourceOf n l.basePort (threadPort l.basePort c.offset) = some c := by
  have haccepted : refusal (parseContent d.content) = none ∧
      launch outside (parseContent d.content) = some l := by
    rw [afterOk_eq] at hafter
    cases hrefusal : refusal (parseContent d.content) with
    | some message => simp [hrefusal] at hafter
    | none => exact ⟨rfl, by simpa [hrefusal] using hafter⟩
  obtain ⟨hrefusal, hlaunch⟩ := haccepted
  obtain ⟨hnumber, hport, hports, hslaves⟩ := launch_gui hlaunch hgui
  have hread : Startup.readValues false d.content = (parseContent d.content, true) := by
    rw [Startup.readValues, hrefusal]
    rfl
  obtain ⟨hpos, -, hbase0, -⟩ := readValues_accepted hread
  have hvalues : (parseContent d.content).Launches launcher := hlaunches
  have hdelivered : Delivered launcher (parseContent d.content) [] :=
    hdeliverable.delivered (slaveArgv_eq hvalues hcustom hbase0)
  obtain ⟨s, hs, hip, hbaseStr, -⟩ := hdelivered
  refine ⟨by omega, ?_, fun rank => ⟨?_, fun c hc => ⟨?_, sourceOf_threadPort hbase c⟩⟩⟩
  · have hoff : (parseContent d.content).launcherCustom = false :=
      hvalues.2.2.trans (decide_eq_false hcustom)
    have hlocal : (parseContent d.content).ssh = false := hssh
    rw [hslaves, startSlaves, masterStartsSlaves, hoff, hlocal]
    rfl
  · rw [← hport] at hbaseStr
    exact startProcesses_socatOf hs hip hbaseStr hbase (hranked s hs rank)
  · rw [threadPort_eq hbase, hports, hport]
    refine List.mem_map.mpr ⟨c.offset, List.mem_range.mpr ?_, rfl⟩
    have hlt := c.offset.isLt
    omega

/-- Two processes on one host. -/
def twoProcesses : StartupDialog :=
  { StartupDialog.init with content := { rankedDialog with
      slavePath := ascii "./slave"
      numberOfProcesses := ascii "2" } }

theorem twoProcesses_meet : ∃ started,
    start (slaveArgv .mpirun (parseContent twoProcesses.content)) (twoRanks 1) = .ok started ∧
      started.startProcesses = some (socatOf (ascii "localhost") 2000 (Source.gdb (1 : Fin 2)),
        socatOf (ascii "localhost") 2000 (Source.trgt (1 : Fin 2))) := by
  have hlaunched : (twoProcesses.afterOk .good).toOption.join.any
      (fun l => l.gui && l.numProcesses = 2 && l.basePort = 2000) = true := by decide +kernel
  obtain ⟨l, hl, hp⟩ := (Option.any_eq_true _ _).mp hlaunched
  simp only [Bool.and_eq_true, decide_eq_true_eq] at hp
  obtain ⟨⟨hgui, hn⟩, hport⟩ := hp
  have hafter : twoProcesses.afterOk .good = .ok (some l) := by
    cases hx : twoProcesses.afterOk .good with
    | error e => simp [hx, Except.toOption] at hl
    | ok o =>
        rw [hx] at hl
        exact congrArg Except.ok (Option.join_eq_some_iff.mp hl |> Option.some.inj)
  have hslave : (words isBlank (parseContent twoProcesses.content).slavePath).map cstr =
      [ascii "./slave"] := by decide +kernel
  have hread : (parseClArgs (slaveArgv .mpirun (parseContent twoProcesses.content))).toOption.any
      (fun s => s.rankStr = none && s.rankEnvStr = none && s.sizeStr = none &&
        s.sizeEnvStr = none) = true := by decide +kernel
  have hranked : ∀ s, parseClArgs (slaveArgv .mpirun (parseContent twoProcesses.content)) = .ok s →
      s.Ranked twoRanks := by
    intro s hs rank
    rw [hs] at hread
    simp only [Except.toOption, Option.any_some, Bool.and_eq_true, decide_eq_true_eq] at hread
    obtain ⟨⟨⟨hrank, hrankEnv⟩, hsize⟩, hsizeEnv⟩ := hread
    exact ⟨rankText_of_launcher hrank hrankEnv (Or.inl rfl),
      sizeText_of_launcher hsize hsizeEnv (Or.inl rfl)⟩
  have hmeet := launched_slaves_meet (n := 2) hafter hgui ⟨rfl, rfl, rfl⟩ (by decide) rfl
    ⟨⟨by decide, by decide +kernel⟩, ⟨by decide, by decide +kernel⟩, by decide, by decide +kernel,
      _, _, hslave, Or.inl ⟨_, .nil⟩⟩ hn (by rw [hport]; decide) hranked
  rw [hport] at hmeet
  exact (hmeet.2.2 1).1

end Launching

end StartupDialog

end ParallelGdb.Startup
