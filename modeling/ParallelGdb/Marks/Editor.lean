import Mathlib.Data.Finset.Basic
import ParallelGdb.Breakpoint.Attempts
import ParallelGdb.Library.Transition

/-!
# Line marks in the source buffers

A source buffer keeps its marks and, stored beside them, the set of their lines.
The click handler looks a mark up by its name and creates, edits or deletes it. A
modal dialog lets no other click through, but everything else goes on.
-/

namespace ParallelGdb

open Library.CString Library.Transition Breakpoint

/-- A breakpoint mark: its name, its line, and the pointer stored in it. -/
structure LineMark where
  name : Bytes
  line : Nat
  breakpoint : BkptId
  deriving DecidableEq

/-- The breakpoint marks of a source buffer, and the set under `marks_id`. -/
structure SourceBuffer where
  marks : List LineMark := []
  lines : Option (Finset Int) := none

namespace SourceBuffer

/-- `get_marks` of an iterator at this line. -/
def getMarks (buffer : SourceBuffer) (line : Nat) : List LineMark :=
  buffer.marks.filter fun mark => mark.line = line

/-- `create_source_mark`; Gtk adds no mark under a name that is taken. -/
def createSourceMark (buffer : SourceBuffer) (mark : LineMark) : SourceBuffer :=
  if buffer.marks.any fun other => other.name = mark.name then buffer
  else { buffer with marks := buffer.marks ++ [mark] }

/-- `delete_mark`. -/
def deleteMark (buffer : SourceBuffer) (mark : LineMark) : SourceBuffer :=
  { buffer with marks := buffer.marks.filter fun other => other.name ≠ mark.name }

end SourceBuffer

/-- What a call is about: the line `create_mark` got, or the mark of the others. -/
inductive MarkOp
  | create (line : Nat)
  | edit (mark : LineMark)

/-- The flag `create_mark` and `edit_mark` give the BreakpointDialog. -/
def MarkOp.isNew : MarkOp → Bool
  | .create _ => true
  | .edit _ => false

structure MarkCall where
  fullpath : Bytes
  breakpoint : BkptId
  op : MarkOp

/-- The dialog a call waits in. -/
inductive MarkDialog
  /-- The BreakpointDialog. -/
  | config (call : MarkCall)
  /-- The message dialog of `update_breakpoints`. -/
  | updated (call : MarkCall)
  /-- The error dialog of `delete_breakpoints`. -/
  | deleting (call : MarkCall)

structure Editor (n : Nat) where
  window : Tracker n
  /-- The source buffers of the pages, by the path of the file. -/
  buffers : Bytes → SourceBuffer
  dialog : Option MarkDialog
  /-- The identity the next new Breakpoint gets. -/
  nextId : BkptId

namespace Editor

variable {n : Nat}

def init (n : Nat) : Editor n where
  window := Tracker.init n
  buffers := fun _ => {}
  dialog := none
  nextId := 0

def setBuffer (s : Editor n) (fullpath : Bytes) (buffer : SourceBuffer) : Editor n :=
  { s with buffers := Function.update s.buffers fullpath buffer }

/-- `clear_mark`. Without a set or a Breakpoint it would follow a bad pointer. -/
def clearMark (s : Editor n) (fullpath : Bytes) (mark : LineMark) (b : BkptId) :
    Option (Editor n) := do
  let bp ← s.window.objects b
  let lines ← (s.buffers fullpath).lines
  let buffer := (s.buffers fullpath).deleteMark mark
  return { s with window := s.window.free b }.setBuffer fullpath
    { buffer with lines := some (lines.erase (bp.line - 1)) }

/-- The end of `create_mark`, once `update_breakpoints` has returned. -/
def endCreate (s : Editor n) (fullpath : Bytes) (line : Nat) (b : BkptId) (bp : Breakpoint n) :
    Editor n :=
  if bp.oneCreated then
    let buffer := (s.buffers fullpath).createSourceMark ⟨decimal line, line, b⟩
    s.setBuffer fullpath { buffer with lines := some (insert (line : Int) (buffer.lines.getD ∅)) }
  else
    { s with window := s.window.free b }

/-- The end of `edit_mark`. -/
def endEdit (s : Editor n) (fullpath : Bytes) (mark : LineMark) (b : BkptId)
    (bp : Breakpoint n) : Option (Editor n) :=
  if bp.oneCreated then some s else s.clearMark fullpath mark b

/-- `create_mark` or `edit_mark` goes on. -/
def finish (s : Editor n) (call : MarkCall) (bp : Breakpoint n) : Option (Editor n) :=
  match call.op with
  | .create line => some (s.endCreate call.fullpath line call.breakpoint bp)
  | .edit mark => s.endEdit call.fullpath mark call.breakpoint bp

/-- `create_mark` up to the dialog. -/
def createMark (s : Editor n) (fullpath : Bytes) (line : Nat) : Editor n :=
  { s with
    window := s.window.store s.nextId (Breakpoint.new n ((line : Int) + 1) fullpath)
    nextId := s.nextId + 1
    dialog := some (.config ⟨fullpath, s.nextId, .create line⟩) }

/-- `edit_mark` up to the dialog, which reads the Breakpoint. -/
def editMark (s : Editor n) (fullpath : Bytes) (mark : LineMark) : Option (Editor n) :=
  (s.window.objects mark.breakpoint).map fun _ =>
    { s with dialog := some (.config ⟨fullpath, mark.breakpoint, .edit mark⟩) }

/-- `delete_mark` up to the error dialog, or to its end. -/
def deleteMark (s : Editor n) (fullpath : Bytes) (mark : LineMark) : Option (Editor n) := do
  let b := mark.breakpoint
  let bp ← s.window.objects b
  let out := deleteLoop b (bp, s.window)
  if out.1 then
    clearMark { s with window := out.2.2.store b out.2.1.updateStates } fullpath mark b
  else
    return { s with
      window := out.2.2.store b out.2.1
      dialog := some (.deleting ⟨fullpath, b, .edit mark⟩) }

/-- OK in the BreakpointDialog: the flag is set, `update_breakpoints` runs. -/
def applyDialog (s : Editor n) (call : MarkCall) (bp : Breakpoint n)
    (buttonStates : Fin n → Bool) (stopAll : Bool) : Option (Editor n) :=
  let b := call.breakpoint
  let out := updateBreakpoints b buttonStates ({ bp with stopAll := stopAll }, s.window)
  let s := { s with window := out.2.2.store b out.2.1, dialog := none }
  match out.1 with
  | some _ => some { s with dialog := some (.updated call) }
  | none => s.finish call out.2.1

/-- The mark `on_line_mark_clicked` finds. -/
def markAt (s : Editor n) (fullpath : Bytes) (line : Nat) : Option LineMark :=
  ((s.buffers fullpath).getMarks line).find? fun mark => mark.name = decimal line

/-- `on_line_mark_clicked`. -/
def onLineMarkClicked (s : Editor n) (secondary : Bool) (fullpath : Bytes) (line : Nat) :
    Option (Editor n) :=
  match s.markAt fullpath line with
  | none => some (if secondary then s else s.createMark fullpath line)
  | some mark => if secondary then s.editMark fullpath mark else s.deleteMark fullpath mark

/-- What can happen next. -/
inductive Act (n : Nat)
  | click (secondary : Bool) (fullpath : Bytes) (line : Nat)
  /-- The BreakpointDialog is closed without OK. -/
  | cancel
  | accept (buttonStates : Fin n → Bool) (stopAll : Bool)
  /-- A message dialog is closed. -/
  | dismiss
  /-- GDBs, targets and connections: of the Breakpoints only the numbers change. -/
  | environment (window : Tracker n) (numbers : BkptId → Fin n → Int)
  /-- The tab of a file without marked lines is closed. -/
  | close (fullpath : Bytes)

/-- Where a step is possible. -/
def Enabled (s : Editor n) : Act n → Prop
  | .click _ _ _ => s.dialog = none
  | .cancel => ∃ call, s.dialog = some (.config call)
  | .accept _ _ => ∃ call, s.dialog = some (.config call)
  | .dismiss => ∃ call, s.dialog = some (.updated call) ∨ s.dialog = some (.deleting call)
  | .environment _ _ => True
  | .close fullpath => s.dialog = none ∧ (s.buffers fullpath).lines.getD ∅ = ∅

/-- The window `u` with the Breakpoints of `t`, under other numbers. -/
def renumbered (t u : Tracker n) (numbers : BkptId → Fin n → Int) : Tracker n :=
  { u with objects := fun b => (t.objects b).map fun bp => { bp with numbers := numbers b } }

/-- One step, where it is possible and follows no bad pointer. -/
def next (s : Editor n) : Act n → Option (Editor n)
  | .click secondary fullpath line =>
      if s.dialog.isNone then s.onLineMarkClicked secondary fullpath line else none
  | .cancel =>
      match s.dialog with
      | some (.config _) => some { s with dialog := none }
      | _ => none
  | .accept buttonStates stopAll =>
      match s.dialog with
      | some (.config call) => do
          s.applyDialog call (← s.window.objects call.breakpoint) buttonStates stopAll
      | _ => none
  | .dismiss =>
      match s.dialog with
      | some (.updated call) => do
          finish { s with dialog := none } call (← s.window.objects call.breakpoint)
      | some (.deleting call) => do
          let bp ← s.window.objects call.breakpoint
          return { s with window := s.window.store call.breakpoint bp.updateStates, dialog := none }
      | _ => none
  | .environment window numbers => some { s with window := renumbered s.window window numbers }
  | .close fullpath =>
      if s.dialog.isNone ∧ (s.buffers fullpath).lines.getD ∅ = ∅ then
        some (s.setBuffer fullpath {})
      else
        none

/-- All sequences of clicks, answers and changes around them. -/
def system (n : Nat) : System (Editor n) (Act n) := System.ofNext (· = init n) next

end Editor

end ParallelGdb
