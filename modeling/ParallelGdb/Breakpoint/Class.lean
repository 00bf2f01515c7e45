import ParallelGdb.Library.RankLoop
import ParallelGdb.Window.Tracker

/-!
# The Breakpoint class

The members of `breakpoint.cpp`. A method gets its own object beside the window
and returns both, since nothing else reaches the object while the method runs.
`delete_breakpoints` opens its error dialog before it folds the error states
back; the dialog spins the main loop, so the method is split there.
-/

namespace ParallelGdb

open Library.CString Library.RankLoop

namespace Breakpoint

variable {n : Nat}

/-- The constructor. -/
def new (n : Nat) (line : Int) (fullPath : Bytes) : Breakpoint n where
  line := line
  fullPath := fullPath
  numbers := fun _ => -1
  stopAll := false
  state := fun _ => .notExisting

def setState (bp : Breakpoint n) (r : Fin n) (s : BreakpointState) : Breakpoint n :=
  { bp with state := Function.update bp.state r s }

/-- `set_number`. -/
def setNumber (bp : Breakpoint n) (r : Fin n) (number : Int) : Breakpoint n :=
  { bp with numbers := Function.update bp.numbers r number }

/-- `is_created`. -/
def isCreated (bp : Breakpoint n) (r : Fin n) : Bool := bp.state r = .created

/-- `one_created`. -/
def oneCreated (bp : Breakpoint n) : Bool := (List.finRange n).any bp.isCreated

/-- `get_list`. -/
def getList (bp : Breakpoint n) (state : BreakpointState) : Bytes :=
  forEach (fun str r =>
    if bp.state r = state then
      (if str = [] then str else str ++ ascii ", ") ++ decimal (r : Nat)
    else
      str) (List.finRange n) []

/-- `update_states`: an error state falls back to what still holds at GDB. -/
def updateStates (bp : Breakpoint n) : Breakpoint n :=
  { bp with state := fun r =>
      match bp.state r with
      | .errorDeleting => .created
      | .errorCreating => .notExisting
      | s => s }

/-- `create_breakpoint`, called on the object with identity `this`. -/
def createBreakpoint (this : BkptId) (r : Fin n) (s : Breakpoint n × Tracker n) :
    Bool × Breakpoint n × Tracker n :=
  let bp := s.1.setState r .errorCreating
  if s.2.targetState r ≠ .stopped then
    (false, bp, s.2)
  else
    match s.2.sendGdb r this (.breakInsert bp.fullPath bp.line) with
    | (true, t) => (true, bp.setState r .created, t.setBreakpoint r (some this))
    | (false, t) => (false, bp, t)

/-- `delete_breakpoint`. -/
def deleteBreakpoint (this : BkptId) (r : Fin n) (s : Breakpoint n × Tracker n) :
    Bool × Breakpoint n × Tracker n :=
  let bp := s.1.setState r .errorDeleting
  if s.2.targetState r ≠ .stopped then
    (false, bp, s.2)
  else
    match s.2.sendGdb r this (.breakDelete (bp.numbers r)) with
    | (true, t) => (true, bp.setState r .notExisting, t)
    | (false, t) => (false, bp, t)

/-- The loop of `delete_breakpoints`, up to the place where the error dialog opens. -/
def deleteLoop (this : BkptId) (s : Breakpoint n × Tracker n) :
    Bool × Breakpoint n × Tracker n :=
  forEach (fun acc r =>
    if acc.2.1.state r = .created then
      let out := deleteBreakpoint this r acc.2
      (acc.1 && out.1, out.2)
    else
      acc) (List.finRange n) (true, s)

/-- The text of the error dialog of `delete_breakpoints`. -/
def deleteMessage (bp : Breakpoint n) : Bytes :=
  ascii "Could not delete Breakpoint for some Processes.\nNot deleted for Process(es): " ++
    bp.getList .errorDeleting

/-- One round of the loop of `update_breakpoints`. -/
def updateStep (this : BkptId) (buttonStates : Fin n → Bool)
    (s : Breakpoint n × Tracker n) (r : Fin n) : Breakpoint n × Tracker n :=
  let s :=
    if !buttonStates r && s.1.state r = .created then (deleteBreakpoint this r s).2 else s
  if buttonStates r && s.1.state r ≠ .created then (createBreakpoint this r s).2 else s

/-- The loop of `update_breakpoints`. -/
def updateLoop (this : BkptId) (buttonStates : Fin n → Bool)
    (s : Breakpoint n × Tracker n) : Breakpoint n × Tracker n :=
  forEach (updateStep this buttonStates) (List.finRange n) s

/-- The text of the dialog of `update_breakpoints`, if one is shown: `loop` is
the object after the loop, `folded` after `update_states`. -/
def updateMessage (loop folded : Breakpoint n) : Option Bytes :=
  let errorCreatingList := loop.getList .errorCreating
  let errorDeletingList := loop.getList .errorDeleting
  if errorCreatingList = [] ∧ errorDeletingList = [] then
    none
  else
    let createdList := folded.getList .created
    some <|
      (if errorCreatingList = [] then [] else
        ascii "Could not create Breakpoint for some Processes. [ " ++
          errorCreatingList ++ ascii "]\n") ++
      (if errorDeletingList = [] then [] else
        ascii "Could not delete Breakpoint for some Processes. [ " ++
          errorDeletingList ++ ascii "]\n") ++
      ascii "Active Breakpoint for Process(es): " ++
      (if createdList = [] then ascii "<None>" else createdList)

/-- `update_breakpoints` up to its dialog, which is the last thing it does. -/
def updateBreakpoints (this : BkptId) (buttonStates : Fin n → Bool)
    (s : Breakpoint n × Tracker n) : Option Bytes × Breakpoint n × Tracker n :=
  let s := updateLoop this buttonStates s
  let folded := s.1.updateStates
  (updateMessage s.1 folded, folded, s.2)

end Breakpoint

end ParallelGdb
