import ParallelGdb.Library.Transition
import ParallelGdb.Window.References

/-!
# Line marks, dialogs and responses

A click on a line mark creates, edits or deletes a Breakpoint, and each of the
three can stop in a modal dialog. The dialog spins the main loop: no other click
gets through, but responses are handled. A session is the window together with
the line marks and the dialog a click is waiting in.
-/

namespace ParallelGdb

open Library.CString Library.Transition Mi Breakpoint

/-- What a click waits for. `isNew` tells `create_mark` from `edit_mark`. -/
inductive Dialog
  /-- The BreakpointDialog. -/
  | config (b : BkptId) (isNew : Bool)
  /-- The message dialog of `update_breakpoints`. -/
  | updated (b : BkptId) (isNew : Bool) (message : Bytes)
  /-- The error dialog of `delete_breakpoints`. -/
  | deleting (b : BkptId) (message : Bytes)
  deriving DecidableEq

structure Session (n : Nat) where
  window : Tracker n
  /-- The Breakpoints that have a line mark. -/
  marks : List BkptId
  dialog : Option Dialog
  /-- The identity the next new Breakpoint gets. -/
  nextId : BkptId

namespace Session

variable {n : Nat}

/-- The window right after its constructor. -/
def init (n : Nat) : Session n where
  window := Tracker.init n
  marks := []
  dialog := none
  nextId := 0

/-- The line mark `on_line_mark_clicked` finds at a line. -/
def markAt (s : Session n) (fullpath : Bytes) (line : Nat) : Option BkptId :=
  s.marks.find? fun b =>
    match s.window.objects b with
    | some bp => bp.fullPath = fullpath && bp.line = (line : Int) + 1
    | none => false

/-- `clear_mark`. -/
def clearMark (s : Session n) (b : BkptId) : Session n :=
  { s with
    window := s.window.free b
    marks := s.marks.filter (· ≠ b) }

/-- The end of `create_mark`, once `update_breakpoints` has returned. -/
def endCreate (s : Session n) (b : BkptId) (bp : Breakpoint n) : Session n :=
  if bp.oneCreated then { s with marks := b :: s.marks }
  else { s with window := s.window.free b }

/-- The end of `edit_mark`. -/
def endEdit (s : Session n) (b : BkptId) (bp : Breakpoint n) : Session n :=
  if bp.oneCreated then s else s.clearMark b

/-- `create_mark` or `edit_mark` goes on. -/
def finish (s : Session n) (b : BkptId) (isNew : Bool) (bp : Breakpoint n) : Session n :=
  if isNew then s.endCreate b bp else s.endEdit b bp

/-- `create_mark` up to the dialog. -/
def createMark (s : Session n) (fullpath : Bytes) (line : Nat) : Session n :=
  { s with
    window := s.window.store s.nextId (Breakpoint.new n ((line : Int) + 1) fullpath)
    nextId := s.nextId + 1
    dialog := some (.config s.nextId true) }

/-- `edit_mark` up to the dialog. -/
def editMark (s : Session n) (b : BkptId) : Session n :=
  { s with dialog := some (.config b false) }

/-- `delete_mark` up to the error dialog, or to its end. -/
def deleteMark (s : Session n) (b : BkptId) (bp : Breakpoint n) : Session n :=
  let out := deleteLoop b (bp, s.window)
  if out.1 then
    Session.clearMark { s with window := out.2.2.store b out.2.1.updateStates } b
  else
    { s with
      window := out.2.2.store b out.2.1
      dialog := some (.deleting b (deleteMessage out.2.1)) }

/-- OK in the BreakpointDialog: the flag is set, `update_breakpoints` runs. -/
def applyDialog (s : Session n) (b : BkptId) (isNew : Bool) (bp : Breakpoint n)
    (buttonStates : Fin n → Bool) (stopAll : Bool) : Session n :=
  let out := updateBreakpoints b buttonStates ({ bp with stopAll := stopAll }, s.window)
  let s := { s with window := out.2.2.store b out.2.1, dialog := none }
  match out.1 with
  | some message => { s with dialog := some (.updated b isNew message) }
  | none => s.finish b isNew out.2.1

/-- What can happen next. -/
inductive Act (n : Nat)
  /-- `on_line_mark_clicked`. -/
  | click (secondary : Bool) (fullpath : Bytes) (line : Nat)
  /-- The BreakpointDialog is closed without OK. -/
  | cancel
  | accept (buttonStates : Fin n → Bool) (stopAll : Bool)
  /-- A message dialog is closed. -/
  | dismiss
  /-- `handle_data_gdb` has a complete response of the rank. -/
  | response (first : List MiOutput) (r : Fin n)
  /-- The rank's connections are opened or closed. -/
  | connect (r : Fin n) (gdb trgt : Bool)

/-- One step, where it is possible. -/
def next (s : Session n) : Act n → Option (Session n)
  | .click secondary fullpath line =>
      if s.dialog = none then
        match s.markAt fullpath line with
        | none => some (if secondary then s else s.createMark fullpath line)
        | some b =>
            if secondary then some (s.editMark b)
            else (s.window.objects b).map (s.deleteMark b)
      else
        none
  | .cancel =>
      match s.dialog with
      | some (.config _ _) => some { s with dialog := none }
      | _ => none
  | .accept buttonStates stopAll =>
      match s.dialog with
      | some (.config b isNew) =>
          (s.window.objects b).map fun bp => s.applyDialog b isNew bp buttonStates stopAll
      | _ => none
  | .dismiss =>
      match s.dialog with
      | some (.updated b isNew _) =>
          (s.window.objects b).map fun bp => Session.finish { s with dialog := none } b isNew bp
      | some (.deleting b _) =>
          (s.window.objects b).map fun bp =>
            { s with window := s.window.store b bp.updateStates, dialog := none }
      | _ => none
  | .response first r =>
      match s.window.handleResponse first r with
      | .ok t => some { s with window := t }
      | .error _ => none
  | .connect r gdb trgt =>
      some { s with window := { s.window with
        connsGdb := Function.update s.window.connsGdb r gdb
        connsTrgt := Function.update s.window.connsTrgt r trgt } }

/-- All interleavings of clicks, dialog answers and responses. -/
def system (n : Nat) : System (Session n) (Act n) := System.ofNext (· = init n) next

/-- `*stopped,reason="breakpoint-hit",bkptno=…`. -/
def hitRecord (number : Nat) : MiOutput where
  tclass := .stopped
  c := [.const (some (ascii "reason")) (ascii "breakpoint-hit"),
    .const (some (ascii "bkptno")) (natDigits number)]

/-- `^done,bkpt={number=…}`. -/
def insertedRecord (number : Nat) : MiOutput where
  type := .resultRecord
  tclass := .done
  c := [.tuple (some (ascii "bkpt")) [.const (some (ascii "number")) (natDigits number)]]

theorem miResStop_hitRecord :
    miResStop [hitRecord 2] = .ok (some { reason := .bkptHit, haveBkptno := true, bkptno := 2 }) :=
  rfl

end Session

end ParallelGdb
