import ParallelGdb.Slave.Arguments
import ParallelGdb.Startup.Ports

/-!
# Who a slave is

Behind its arguments a slave finds out its rank and the number of processes, from an
option, from a variable the user names or from those of the launchers. From the two
follow its ports at the master, and the names of the PTYs its socat instances create.
-/

namespace ParallelGdb.Slave

open Library.CString Startup

/-- `getenv`. -/
abbrev Environment := Bytes → Option Bytes

/-- The text `set_rank` and `set_size` parse: the option's, or that of the first variable
that is set, a custom one before the default ones. -/
def identityText (option customEnv : Option Bytes) (defaults : List String)
    (getenv : Environment) : Option Bytes :=
  match option with
  | some text => some text
  | none => (customEnv.toList ++ defaults.map ascii).findSome? getenv

/-- `stoi` of a whole text, with the messages of `set_rank` and `set_size`. -/
def parseIdentity (name : String) (text : Option Bytes) : Except ArgumentError Int :=
  match text with
  | none =>
      .error (.message (ascii "Could not read environemnt variable containing " ++ ascii name ++
        ascii ".\n"))
  | some text =>
      match stoi text with
      | some (value, pos) => if pos ≠ text.length then .error (unparsable text) else .ok value
      | none => .error (unparsable text)
where
  unparsable (text : Bytes) : ArgumentError :=
    .message (ascii "Could not parse " ++ ascii name ++ ascii " to integer. String: " ++ text ++
      ascii "\n")

def rankText (s : Slave) (getenv : Environment) : Option Bytes :=
  identityText s.rankStr s.rankEnvStr ["OMPI_COMM_WORLD_RANK", "PMI_RANK"] getenv

def sizeText (s : Slave) (getenv : Environment) : Option Bytes :=
  identityText s.sizeStr s.sizeEnvStr ["OMPI_COMM_WORLD_SIZE", "PMI_SIZE"] getenv

/-- `set_rank`. -/
def setRank (s : Slave) (getenv : Environment) : Except ArgumentError Int :=
  parseIdentity "rank" (s.rankText getenv)

/-- `set_size`. -/
def setSize (s : Slave) (getenv : Environment) : Except ArgumentError Int :=
  parseIdentity "size" (s.sizeText getenv)

/-- A slave in front of `start_processes`. -/
structure Started where
  slave : Slave
  basePort : Int
  rank : Int
  size : Int

/-- `main` up to `start_processes`. -/
def start (argv : List Bytes) (getenv : Environment) : Except ArgumentError Started := do
  let slave ← parseClArgs argv
  let basePort ←
    match setBasePort (slave.basePortStr.getD []) with
    | some basePort => .ok basePort
    | none => .error (.message (ascii "Could not parse base port to integer. String: " ++
        slave.basePortStr.getD [] ++ ascii "\n"))
  let rank ← slave.setRank getenv
  let size ← slave.setSize getenv
  return { slave, basePort, rank, size }

/-- The name of a PTY: the rank is filled up with zeros to four characters. -/
def ttyName (device : String) (rank : Int) : Bytes :=
  ascii device ++ List.replicate (4 - (decimal rank).length) (code '0') ++ decimal rank

def ttyGdb (rank : Int) : Bytes := ttyName "/tmp/ttyGDB" rank

def ttyTrgt (rank : Int) : Bytes := ttyName "/tmp/ttyTRGT" rank

/-- The argument vector of `start_socat`. -/
def startSocat (s : Slave) (ttyName : Bytes) (port : Int) : List Bytes :=
  [ascii "socat", ascii "TCP:" ++ s.ipAddr.getD [] ++ ascii ":" ++ decimal port,
    ascii "PTY,echo=0,link=" ++ ttyName]

/-- What `start_processes` executes: the socat instance of GDB and that of the target. -/
def Started.startProcesses (s : Started) : Option (List Bytes × List Bytes) := do
  let (portGdb, portTrgt) ← slavePorts s.basePort s.rank s.size
  return (s.slave.startSocat (ttyGdb s.rank) portGdb, s.slave.startSocat (ttyTrgt s.rank) portTrgt)

section Identity

variable {s : Slave} {getenv : Environment}

theorem parseIdentity_natDigits (name : String) {k : Nat} (h : k < 2 ^ 31) :
    parseIdentity name (some (natDigits k)) = .ok (k : Int) := by
  rw [parseIdentity, stoi_natDigits h]
  simp

/-- A launcher that sets its variables is understood, unless an option or a custom
variable comes first. -/
theorem rankText_of_launcher (hoption : s.rankStr = none) (hcustom : s.rankEnvStr = none)
    {text : Bytes} (hset : getenv (ascii "OMPI_COMM_WORLD_RANK") = some text ∨
      getenv (ascii "OMPI_COMM_WORLD_RANK") = none ∧ getenv (ascii "PMI_RANK") = some text) :
    s.rankText getenv = some text := by
  rw [rankText, hoption, hcustom]
  rcases hset with hset | ⟨hunset, hset⟩
  · simp [identityText, hset]
  · simp [identityText, hunset, hset]

theorem sizeText_of_launcher (hoption : s.sizeStr = none) (hcustom : s.sizeEnvStr = none)
    {text : Bytes} (hset : getenv (ascii "OMPI_COMM_WORLD_SIZE") = some text ∨
      getenv (ascii "OMPI_COMM_WORLD_SIZE") = none ∧ getenv (ascii "PMI_SIZE") = some text) :
    s.sizeText getenv = some text := by
  rw [sizeText, hoption, hcustom]
  rcases hset with hset | ⟨hunset, hset⟩
  · simp [identityText, hset]
  · simp [identityText, hunset, hset]

/-- What `main` has found out where rank and number of processes are told. -/
theorem start_eq {argv : List Bytes} {base : Int} {rank size : Nat}
    (hargv : parseClArgs argv = .ok s) (hport : s.basePortStr = some (decimal base))
    (hbase : 0 ≤ base ∧ base < 2 ^ 31) (hrank : s.rankText getenv = some (natDigits rank))
    (hsize : s.sizeText getenv = some (natDigits size)) (hlt : rank < 2 ^ 31 ∧ size < 2 ^ 31) :
    start argv getenv = .ok { slave := s, basePort := base, rank := rank, size := size } := by
  have hread : setBasePort (s.basePortStr.getD []) = some base := by
    rw [hport]
    exact setBasePort_decimal hbase.1 hbase.2
  simp [start, hargv, hread, setRank, setSize, hrank, hsize, parseIdentity_natDigits _ hlt.1,
    parseIdentity_natDigits _ hlt.2, bind, Except.bind, pure, Except.pure]

end Identity

section Names

theorem digitsValue_replicate (k : Nat) (digits : Bytes) :
    digitsValue (List.replicate k (code '0') ++ digits) = digitsValue digits := by
  unfold digitsValue
  rw [List.foldl_append]
  congr 1
  induction k with
  | zero => rfl
  | succ k ih =>
      rw [List.replicate_succ, List.foldl_cons]
      exact ih

/-- The zeros in front do not make two ranks one. -/
theorem ttyName_injective (device : String) {rank rank' : Nat}
    (h : ttyName device rank = ttyName device rank') : rank = rank' := by
  simp only [ttyName, List.append_assoc] at h
  have hvalue := congrArg digitsValue (List.append_cancel_left h)
  rw [digitsValue_replicate, digitsValue_replicate] at hvalue
  simpa [decimal, digitsValue_natDigits] using hvalue

/-- The two devices of all ranks have different names. -/
theorem ttyGdb_ne_ttyTrgt (rank rank' : Int) : ttyGdb rank ≠ ttyTrgt rank' := by
  intro h
  have hletter := congrArg (fun name => name[8]?) h
  simp [ttyGdb, ttyTrgt, ttyName, ascii] at hletter
  exact absurd hletter (by decide)

end Names

end ParallelGdb.Slave
