import ParallelGdb.Library.Transition
import Mathlib.Data.List.Basic

/-!
# The children of a slave

Behind its arguments a slave starts two socat instances, waits for the PTYs they
create, starts GDB and monitors the three. Children exit and PTYs appear between
any two system calls, and what a system call returns depends on them.
-/

namespace ParallelGdb.Slave

open Library.Transition

abbrev Pid := Int32

/-- The processes that `start_processes` starts. -/
inductive Role
  | socatGdb
  | socatTrgt
  | gdb
  deriving DecidableEq

inductive Signal
  | sigint
  | sigkill
  deriving DecidableEq

/-- What `kill_children` sends to a child. -/
def Role.killSignal : Role → Signal
  | .socatGdb => .sigint
  | .socatTrgt => .sigint
  | .gdb => .sigkill

/-- A child that no `waitpid` has collected; one that has exited keeps its PID. -/
structure Child where
  pid : Pid
  role : Role
  exited : Bool
  deriving DecidableEq

/-- What the slave did to processes. -/
inductive Event
  | forked (pid : Pid) (role : Role)
  | collected (pid : Pid)
  | signal (pid : Pid) (sig : Signal)
  deriving DecidableEq

/-- The value `main` returns. -/
inductive ExitState
  | success
  | failure
  deriving DecidableEq

/-- The system call `main` makes next, with the local variables it still needs. -/
inductive Point
  /-- `start_socat`. -/
  | forkSocatGdb
  | forkSocatTrgt
  /-- A round of `wait_for_socat`. -/
  | waitSocatGdb
  | waitSocatTrgt (exited : Int32)
  | existsTtyGdb (exited : Int32)
  | existsTtyTrgt (exited : Int32) (foundGdb : Bool)
  /-- `start_gdb`. -/
  | forkGdb
  /-- A round of `monitor_processes`. -/
  | monitorGdb
  | monitorSocatGdb (exited : Int32)
  | monitorSocatTrgt (exited : Int32)
  /-- `kill_children`. -/
  | killGdb (result : ExitState)
  | killSocatGdb (result : ExitState)
  | killSocatTrgt (result : ExitState)
  | returned (result : ExitState)
  deriving DecidableEq

/-- The slave with its children, the PTYs and what it has done so far. -/
structure Main where
  point : Point
  pidSocatGdb : Pid
  pidSocatTrgt : Pid
  pidGdb : Pid
  children : List Child
  ttyGdb : Bool
  ttyTrgt : Bool
  log : List Event
  deriving DecidableEq

namespace Main

/-- `main` in front of `start_processes`, with the PIDs of the constructor. -/
def init : Main where
  point := .forkSocatGdb
  pidSocatGdb := -1
  pidSocatTrgt := -1
  pidGdb := -1
  children := []
  ttyGdb := false
  ttyTrgt := false
  log := []

/-- The PID stored for a process. -/
def pidOf (m : Main) : Role → Pid
  | .socatGdb => m.pidSocatGdb
  | .socatTrgt => m.pidSocatTrgt
  | .gdb => m.pidGdb

def storePid (m : Main) : Role → Pid → Main
  | .socatGdb, pid => { m with pidSocatGdb := pid }
  | .socatTrgt, pid => { m with pidSocatTrgt := pid }
  | .gdb, pid => { m with pidGdb := pid }

def atPoint (m : Main) (point : Point) : Main :=
  { m with point := point }

section SystemCalls

/-- The values `fork` can return to the slave. -/
def Forks (m : Main) (r : Pid) : Prop :=
  r = -1 ∨ 0 < r ∧ ∀ c ∈ m.children, c.pid ≠ r

instance decidableForks (m : Main) (r : Pid) : Decidable (m.Forks r) :=
  inferInstanceAs (Decidable (_ ∨ _))

/-- The new child of a `fork` that returned `r`. -/
def addChild (m : Main) (role : Role) (r : Pid) : Main :=
  if 0 < r then
    { m with
      children := ⟨r, role, false⟩ :: m.children
      log := m.log ++ [.forked r role] }
  else m

/-- The children `waitpid(pid, ...)` is about. -/
def waited (m : Main) (pid : Pid) : List Child :=
  m.children.filter fun c => c.pid = pid ∨ pid = -1

/-- The values `waitpid(pid, nullptr, WNOHANG)` can return: the PID of a child that
has exited, zero while all of them run, and -1 where there are none. -/
def Waits (m : Main) (pid r : Pid) : Prop :=
  (∃ c ∈ m.waited pid, c.exited ∧ c.pid = r) ∨
  (r = 0 ∧ m.waited pid ≠ [] ∧ ∀ c ∈ m.waited pid, ¬ c.exited) ∨
  (r = -1 ∧ m.waited pid = [])

instance decidableWaits (m : Main) (pid r : Pid) : Decidable (m.Waits pid r) :=
  inferInstanceAs (Decidable (_ ∨ _))

/-- What a `waitpid` that returned `r` leaves. -/
def collect (m : Main) (r : Pid) : Main :=
  if 0 < r then
    { m with
      children := m.children.filter fun c => c.pid ≠ r
      log := m.log ++ [.collected r] }
  else m

/-- One of the three tests of `kill_children`. -/
def killChild (m : Main) (role : Role) : Main :=
  if 0 < m.pidOf role then
    { m with log := m.log ++ [.signal (m.pidOf role) role.killSignal] }
  else m

/-- A child exits. -/
def exitChild (m : Main) (pid : Pid) : Main :=
  { m with
    children := m.children.map fun c => if c.pid = pid then { c with exited := true } else c }

end SystemCalls

section Control

/-- The end of `start_processes`, and what `main` does with its value. -/
def startedProcesses (m : Main) : Main :=
  if 0 < m.pidGdb ∧ 0 < m.pidSocatGdb ∧ 0 < m.pidSocatTrgt then
    m.atPoint .monitorGdb
  else m.atPoint (.killGdb .failure)

/-- `start_processes` behind the two `start_socat`. -/
def startedSocats (m : Main) : Main :=
  if 0 < m.pidSocatGdb ∧ 0 < m.pidSocatTrgt then m.atPoint .waitSocatGdb
  else m.startedProcesses

/-- The end of a round of `wait_for_socat`; where it fails, `start_gdb` returns -1. -/
def waitedForSocat (m : Main) (exited : Int32) (foundGdb foundTrgt : Bool) : Main :=
  if foundGdb && foundTrgt then m.atPoint .forkGdb
  else if 0 = exited then m.atPoint .waitSocatGdb
  else (m.storePid .gdb (-1)).startedProcesses

/-- The end of a round of `monitor_processes`. -/
def monitored (m : Main) (exited : Int32) : Main :=
  if 0 = exited then m.atPoint .monitorGdb
  else m.atPoint (.killGdb .success)

/-- Behind a `fork` of the slave that returned `r`. -/
def forked (m : Main) (r : Pid) : Option Main :=
  match m.point with
  | .forkSocatGdb =>
      some (((m.addChild .socatGdb r).storePid .socatGdb r).atPoint .forkSocatTrgt)
  | .forkSocatTrgt => some ((m.addChild .socatTrgt r).storePid .socatTrgt r).startedSocats
  | .forkGdb => some ((m.addChild .gdb r).storePid .gdb r).startedProcesses
  | _ => none

/-- The PID a `waitpid` of the slave is called with. -/
def polled (m : Main) : Option Pid :=
  match m.point with
  | .waitSocatGdb => some m.pidSocatGdb
  | .waitSocatTrgt _ => some m.pidSocatTrgt
  | .monitorGdb => some m.pidGdb
  | .monitorSocatGdb _ => some m.pidSocatGdb
  | .monitorSocatTrgt _ => some m.pidSocatTrgt
  | _ => none

/-- Behind a `waitpid` that returned `r`, with `exited |= r`. -/
def polledWith (m : Main) (r : Pid) : Option Main :=
  match m.point with
  | .waitSocatGdb => some ((m.collect r).atPoint (.waitSocatTrgt (0 ||| r)))
  | .waitSocatTrgt exited => some ((m.collect r).atPoint (.existsTtyGdb (exited ||| r)))
  | .monitorGdb => some ((m.collect r).atPoint (.monitorSocatGdb (0 ||| r)))
  | .monitorSocatGdb exited =>
      some ((m.collect r).atPoint (.monitorSocatTrgt (exited ||| r)))
  | .monitorSocatTrgt exited => some ((m.collect r).monitored (exited ||| r))
  | _ => none

/-- Behind a `filesystem::exists`. -/
def existsTty (m : Main) : Option Main :=
  match m.point with
  | .existsTtyGdb exited => some (m.atPoint (.existsTtyTrgt exited m.ttyGdb))
  | .existsTtyTrgt exited foundGdb => some (m.waitedForSocat exited foundGdb m.ttyTrgt)
  | _ => none

/-- Behind one of the tests of `kill_children`. -/
def killed (m : Main) : Option Main :=
  match m.point with
  | .killGdb result => some ((m.killChild .gdb).atPoint (.killSocatGdb result))
  | .killSocatGdb result => some ((m.killChild .socatGdb).atPoint (.killSocatTrgt result))
  | .killSocatTrgt result => some ((m.killChild .socatTrgt).atPoint (.returned result))
  | _ => none

end Control

end Main

/-- The system calls of the slave, with the values the system chooses, and what
happens around it. -/
inductive Action
  | fork (r : Pid)
  | waitpid (r : Pid)
  | pathExists
  | kill
  | childExits (pid : Pid)
  | ttyGdbAppears
  | ttyTrgtAppears
  deriving DecidableEq

namespace Main

def next (m : Main) : Action → Option Main
  | .fork r => if m.Forks r then m.forked r else none
  | .waitpid r =>
      match m.polled with
      | some pid => if m.Waits pid r then m.polledWith r else none
      | none => none
  | .pathExists => m.existsTty
  | .kill => m.killed
  | .childExits pid => some (m.exitChild pid)
  | .ttyGdbAppears => some { m with ttyGdb := true }
  | .ttyTrgtAppears => some { m with ttyTrgt := true }

/-- `main` behind the parsing of its arguments. -/
def system : System Main Action := System.ofNext (· = init) next

end Main

end ParallelGdb.Slave
