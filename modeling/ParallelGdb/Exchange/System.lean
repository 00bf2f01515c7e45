import ParallelGdb.Library.Transition
import ParallelGdb.Window.Parse

/-!
# The breakpoint exchange between the window and the GDBs

The window sends `-break-insert` and `-break-delete` to a rank's GDB, which
reads them in order and answers in order; the window handles an answer some
time later with `parse_breakpoint`. Each command to a rank carries its place
among all commands to that rank, so that what GDB assigned to one insert can
be told from what it assigned to another. These places, `lastInsert` and
`assigned` record history only; neither side reads them.
-/

namespace ParallelGdb

open Library.CString Library.Transition Mi Breakpoint

/-- A command on its way to GDB. -/
structure Sent where
  serial : Nat
  sender : BkptId
  cmd : Command

/-- What GDB answers to one command. -/
inductive Answer
  | inserted (number : Nat)
  | rejected
  | deleted
  | noSuchNumber
  deriving DecidableEq, Repr

/-- The answer as the parsed records of its response: `^done,bkpt={number=…}`,
`^error,msg=…` or a bare `^done`. -/
def Answer.records : Answer → List MiOutput
  | .inserted number =>
      [{ type := .resultRecord, tclass := .done,
         c := [.tuple (some (ascii "bkpt"))
           [.const (some (ascii "number")) (natDigits number)]] }]
  | .rejected =>
      [{ type := .resultRecord, tclass := .error,
         c := [.const (some (ascii "msg")) (ascii "No source file or line.")] }]
  | .deleted => [{ type := .resultRecord, tclass := .done }]
  | .noSuchNumber =>
      [{ type := .resultRecord, tclass := .error,
         c := [.const (some (ascii "msg")) (ascii "No breakpoint number.")] }]

/-- An answer on its way to the window, with the command it belongs to. -/
structure Reply where
  serial : Nat
  sender : BkptId
  answer : Answer
  deriving DecidableEq

/-- The insert a channel entry carries: its place and its sender. -/
def Sent.insertOf (sent : Sent) : Option (Nat × BkptId) :=
  match sent.cmd with
  | .breakInsert _ _ => some (sent.serial, sent.sender)
  | .breakDelete _ => none

def Reply.insertOf (reply : Reply) : Option (Nat × BkptId) :=
  match reply.answer with
  | .inserted _ => some (reply.serial, reply.sender)
  | _ => none

/-- A rank's GDB with the two channels to it. -/
structure Gdb where
  commands : List Sent
  answers : List Reply
  nextSerial : Nat
  /-- The most recent insert of each Breakpoint. -/
  lastInsert : BkptId → Option Nat
  /-- The inserts GDB accepted, each with the number it got. -/
  assigned : List (Nat × Nat)
  /-- The breakpoints GDB holds, with the Breakpoint that inserted each. -/
  table : Nat → Option BkptId

namespace Gdb

def init : Gdb where
  commands := []
  answers := []
  nextSerial := 0
  lastInsert := fun _ => none
  assigned := []
  table := fun _ => none

/-- A command arrives in GDB's input. -/
def receive (g : Gdb) (p : BkptId × Command) : Gdb :=
  { g with
    commands := g.commands ++ [⟨g.nextSerial, p.1, p.2⟩]
    nextSerial := g.nextSerial + 1
    lastInsert :=
      match p.2 with
      | .breakInsert _ _ => Function.update g.lastInsert p.1 (some g.nextSerial)
      | .breakDelete _ => g.lastInsert }

/-- GDB accepts the insert at the head of its input and numbers it. -/
def accept (g : Gdb) (sent : Sent) (rest : List Sent) (number : Nat) : Gdb :=
  { g with
    commands := rest
    answers := g.answers ++ [⟨sent.serial, sent.sender, .inserted number⟩]
    assigned := (sent.serial, number) :: g.assigned
    table := Function.update g.table number (some sent.sender) }

/-- GDB rejects the insert at the head of its input. -/
def reject (g : Gdb) (sent : Sent) (rest : List Sent) : Gdb :=
  { g with
    commands := rest
    answers := g.answers ++ [⟨sent.serial, sent.sender, .rejected⟩] }

/-- GDB runs the `-break-delete` at the head of its input. -/
def remove (g : Gdb) (sent : Sent) (rest : List Sent) (number : Int) : Gdb :=
  if number = number.toNat ∧ g.table number.toNat ≠ none then
    { g with
      commands := rest
      answers := g.answers ++ [⟨sent.serial, sent.sender, .deleted⟩]
      table := Function.update g.table number.toNat none }
  else
    { g with
      commands := rest
      answers := g.answers ++ [⟨sent.serial, sent.sender, .noSuchNumber⟩] }

/-- The open inserts: those GDB has not read, and those it has accepted with
an answer the window has not handled. -/
def opens (g : Gdb) : List (Nat × BkptId) :=
  g.commands.filterMap Sent.insertOf ++ g.answers.filterMap Reply.insertOf

end Gdb

/-- The window and the GDB of each rank. -/
structure Exchange (n : Nat) where
  window : Tracker n
  gdb : Fin n → Gdb

namespace Exchange

variable {n : Nat}

/-- What can happen next. -/
inductive Label (n : Nat)
  /-- `create_breakpoint` for one rank. -/
  | create (b : BkptId) (r : Fin n)
  /-- `delete_breakpoint` for one rank. -/
  | delete (b : BkptId) (r : Fin n)
  /-- A call of `update_breakpoints`. -/
  | update (b : BkptId) (buttonStates : Fin n → Bool)
  /-- A call of `delete_breakpoints`. -/
  | deleteAll (b : BkptId)
  /-- The rank's target state becomes another one. -/
  | target (r : Fin n) (state : TargetState)
  | accept (r : Fin n) (number : Nat)
  | reject (r : Fin n)
  | remove (r : Fin n)
  /-- The window handles the oldest answer of the rank. -/
  | handle (r : Fin n)

/-- The window after an operation of the user; what it wrote reaches the GDBs. -/
def deliver (s : Exchange n) (t : Tracker n) : Exchange n where
  window := t
  gdb := fun r =>
    ((t.sentGdb r).drop (s.window.sentGdb r).length).foldl Gdb.receive (s.gdb r)

/-- Run a Breakpoint method on a live object and store the object back. -/
def perform (s : Exchange n) (b : BkptId)
    (method : Breakpoint n × Tracker n → Breakpoint n × Tracker n) :
    Option (Exchange n) := do
  let bp ← s.window.objects b
  let out := method (bp, s.window)
  return s.deliver (out.2.store b out.1)

def setGdb (s : Exchange n) (r : Fin n) (g : Gdb) : Exchange n :=
  { s with gdb := Function.update s.gdb r g }

/-- The callers of `create_breakpoint` and `delete_breakpoint` look at the
state of the object first. -/
def hasState (s : Exchange n) (b : BkptId) (r : Fin n) (p : BreakpointState → Bool) : Bool :=
  match s.window.objects b with
  | some bp => p (bp.state r)
  | none => false

/-- A breakpoint number GDB has not used yet. -/
def fresh (g : Gdb) (number : Nat) : Bool :=
  0 < number && number < 2 ^ 31 && g.assigned.all fun p => p.2 ≠ number

/-- GDB reads the command at the head of its input. -/
def readCommand (s : Exchange n) (r : Fin n) (run : Sent → List Sent → Option Gdb) :
    Option (Exchange n) :=
  match (s.gdb r).commands with
  | [] => none
  | sent :: rest => (run sent rest).map (s.setGdb r)

/-- One step, where it is possible. -/
def next (s : Exchange n) : Label n → Option (Exchange n)
  | .create b r =>
      if s.window.targetState r = .stopped ∧ s.hasState b r (· ≠ .created) then
        s.perform b fun p => (createBreakpoint b r p).2
      else none
  | .delete b r =>
      if s.window.targetState r = .stopped ∧ s.hasState b r (· = .created) then
        s.perform b fun p => (deleteBreakpoint b r p).2
      else none
  | .update b buttonStates => s.perform b fun p => (updateBreakpoints b buttonStates p).2
  | .deleteAll b => s.perform b fun p =>
      let out := (deleteLoop b p).2
      (out.1.updateStates, out.2)
  | .target r state =>
      some { s with window :=
        { s.window with targetState := Function.update s.window.targetState r state } }
  | .accept r number => s.readCommand r fun sent rest =>
      match sent.cmd with
      | .breakInsert _ _ =>
          if fresh (s.gdb r) number then some ((s.gdb r).accept sent rest number) else none
      | .breakDelete _ => none
  | .reject r => s.readCommand r fun sent rest =>
      match sent.cmd with
      | .breakInsert _ _ => some ((s.gdb r).reject sent rest)
      | .breakDelete _ => none
  | .remove r => s.readCommand r fun sent rest =>
      match sent.cmd with
      | .breakInsert _ _ => none
      | .breakDelete number => some ((s.gdb r).remove sent rest number)
  | .handle r =>
      match (s.gdb r).answers with
      | [] => none
      | reply :: rest =>
          match s.window.parseBreakpoint reply.answer.records r with
          | .ok t => some { (s.setGdb r { s.gdb r with answers := rest }) with window := t }
          | .error _ => none

/-- Any number of Breakpoints none of which has been used, nothing sent, and
no rank waiting for an answer. -/
def Initial (s : Exchange n) : Prop :=
  (∀ b bp, s.window.objects b = some bp →
    bp = { Breakpoint.new n bp.line bp.fullPath with stopAll := bp.stopAll }) ∧
  (∀ r, s.window.breakpoints r = none) ∧
  (∀ r k, s.window.bkptno2Bkpt r k = none) ∧
  (∀ r, s.window.sentGdb r = []) ∧
  ∀ r, s.gdb r = Gdb.init

/-- All interleavings of the user, the GDBs and the window. -/
def system (n : Nat) : System (Exchange n) (Label n) := System.ofNext Initial next

/-- A window with every connection open and fresh Breakpoints for one line. -/
def start (n : Nat) : Exchange n where
  window :=
    { Tracker.init n with
      connsGdb := fun _ => true
      objects := fun _ => some (Breakpoint.new n 5 (ascii "/a.c")) }
  gdb := fun _ => Gdb.init

theorem initial_start (n : Nat) : Initial (start n) := by
  refine ⟨?_, fun _ => rfl, fun _ _ => rfl, fun _ => rfl, fun _ => rfl⟩
  intro b bp hbp
  obtain rfl := Option.some.inj hbp
  rfl

end Exchange

end ParallelGdb
