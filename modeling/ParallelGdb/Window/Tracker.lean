import ParallelGdb.Mi.Records

/-!
# What the window tracks of the ranks

The per-rank arrays of `UIWindow` that the handling of GDB output and the
Breakpoint class work on. An array of `m_num_processes` entries is a function
on `Fin n`. Breakpoint objects are identities; deleting one empties its entry
in `objects` while pointers to it may survive elsewhere. What is written to a
rank's connection is kept in the order it was sent.
-/

namespace ParallelGdb

open Library.CString Mi

instance lawfulBEqRank (n : Nat) : LawfulBEq (Fin n) := inferInstance

/-- `TargetState`. -/
inductive TargetState
  | unknown
  | stopped
  | running
  | exited
  deriving DecidableEq, Repr

/-- `BreakpointState`. -/
inductive BreakpointState
  | notExisting
  | created
  | errorCreating
  | errorDeleting
  deriving DecidableEq, Repr

/-- The members of a Breakpoint object. -/
structure Breakpoint (n : Nat) where
  line : Int
  fullPath : Bytes
  numbers : Fin n → Int
  stopAll : Bool
  state : Fin n → BreakpointState

/-- A `Breakpoint *` to some object, deleted or not. -/
abbrev BkptId := Nat

/-- The MI commands a Breakpoint sends. -/
inductive Command
  | breakInsert (fullPath : Bytes) (line : Int)
  | breakDelete (number : Int)
  deriving DecidableEq, Repr

/-- The bytes of a command as they are written to the connection. -/
def Command.text : Command → Bytes
  | .breakInsert fullPath line =>
      ascii "-break-insert " ++ fullPath ++ ascii ":" ++ decimal line ++ ascii "\n"
  | .breakDelete number => ascii "-break-delete " ++ decimal number ++ ascii "\n"

structure Tracker (n : Nat) where
  currentLine : Fin n → Int
  currentFile : Fin n → Bytes
  targetState : Fin n → TargetState
  exitCode : Fin n → Int
  /-- `m_gdb_handle[rank]->po`: the records of the unfinished response. -/
  gdbHandle : Fin n → List MiOutput
  textBuffersGdb : Fin n → Bytes
  /-- Whether `m_conns_gdb[rank]` is a socket or `nullptr`. -/
  connsGdb : Fin n → Bool
  connsTrgt : Fin n → Bool
  bkptno2Bkpt : Fin n → Int → Option BkptId
  breakpoints : Fin n → Option BkptId
  sentStop : Fin n → Bool
  /-- The Breakpoint objects that have not been deleted. -/
  objects : BkptId → Option (Breakpoint n)
  /-- Commands written to the rank's GDB, oldest first, with their sender. -/
  sentGdb : Fin n → List (BkptId × Command)
  /-- Texts `stop_all` wrote to the rank's target, oldest first. -/
  sentTrgt : Fin n → List Bytes

namespace Tracker

variable {n : Nat}

/-- The arrays as the constructor of `UIWindow` leaves them, with no
connection yet. -/
def init (n : Nat) : Tracker n where
  currentLine := fun _ => 0
  currentFile := fun _ => []
  targetState := fun _ => .unknown
  exitCode := fun _ => 0
  gdbHandle := fun _ => []
  textBuffersGdb := fun _ => []
  connsGdb := fun _ => false
  connsTrgt := fun _ => false
  bkptno2Bkpt := fun _ _ => none
  breakpoints := fun _ => none
  sentStop := fun _ => false
  objects := fun _ => none
  sentGdb := fun _ => []
  sentTrgt := fun _ => []

/-- `send_data` on the rank's GDB connection: a missing socket sends nothing. -/
def sendGdb (t : Tracker n) (r : Fin n) (sender : BkptId) (cmd : Command) :
    Bool × Tracker n :=
  if t.connsGdb r then
    (true, { t with sentGdb :=
      Function.update t.sentGdb r (t.sentGdb r ++ [(sender, cmd)]) })
  else
    (false, t)

/-- `send_data` on the rank's target connection. -/
def sendTrgt (t : Tracker n) (r : Fin n) (data : Bytes) : Bool × Tracker n :=
  if t.connsTrgt r then
    (true, { t with sentTrgt := Function.update t.sentTrgt r (t.sentTrgt r ++ [data]) })
  else
    (false, t)

/-- `set_breakpoint`. -/
def setBreakpoint (t : Tracker n) (r : Fin n) (b : Option BkptId) : Tracker n :=
  { t with breakpoints := Function.update t.breakpoints r b }

/-- Write an object back under its identity. -/
def store (t : Tracker n) (b : BkptId) (bp : Breakpoint n) : Tracker n :=
  { t with objects := Function.update t.objects b (some bp) }

/-- `delete breakpoint`. -/
def free (t : Tracker n) (b : BkptId) : Tracker n :=
  { t with objects := Function.update t.objects b none }

end Tracker

end ParallelGdb
