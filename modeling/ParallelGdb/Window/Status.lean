import ParallelGdb.Library.Overwrite
import ParallelGdb.Window.Frame

/-!
# What a response does to the tracked status

Target state, position and exit code of a rank are only ever assigned to, and
what a response assigns can be read off its records. The other ranks keep
theirs.
-/

namespace ParallelGdb

open Library.CString Library.Overwrite Mi

/-- What is tracked of a rank's target. -/
@[ext] structure Status where
  targetState : TargetState
  currentFile : Bytes
  currentLine : Int
  exitCode : Int

/-- Assignments to these fields. -/
@[ext] structure Changes where
  targetState : Option TargetState := none
  currentFile : Option Bytes := none
  currentLine : Option Int := none
  exitCode : Option Int := none

namespace Changes

def apply (c : Changes) (s : Status) : Status where
  targetState := put c.targetState s.targetState
  currentFile := put c.currentFile s.currentFile
  currentLine := put c.currentLine s.currentLine
  exitCode := put c.exitCode s.exitCode

/-- `c` followed by `d`. -/
def andThen (c d : Changes) : Changes where
  targetState := d.targetState.or c.targetState
  currentFile := d.currentFile.or c.currentFile
  currentLine := d.currentLine.or c.currentLine
  exitCode := d.exitCode.or c.exitCode

theorem apply_andThen (c d : Changes) (s : Status) :
    (c.andThen d).apply s = d.apply (c.apply s) := by
  simp only [apply, andThen, put_or]

@[simp] theorem apply_empty (s : Status) : apply {} s = s := rfl

@[simp] theorem andThen_empty (c : Changes) : c.andThen {} = c := by
  ext <;> simp [andThen]

instance : Nontrivial TargetState := ⟨.unknown, .stopped, by decide⟩

theorem apply_injective {c d : Changes} (h : ∀ s, c.apply s = d.apply s) : c = d := by
  have hfields := fun s => Status.mk.inj (h s)
  ext1
  · exact put_ext fun a => (hfields ⟨a, [], 0, 0⟩).1
  · exact put_ext fun a => (hfields ⟨.unknown, a, 0, 0⟩).2.1
  · exact put_ext fun a => (hfields ⟨.unknown, [], a, 0⟩).2.2.1
  · exact put_ext fun a => (hfields ⟨.unknown, [], 0, a⟩).2.2.2

/-- The last assignment to each field along a list of records. -/
def along (f : MiOutput → Changes) (first : List MiOutput) : Changes where
  targetState := lastSome (fun o => (f o).targetState) first
  currentFile := lastSome (fun o => (f o).currentFile) first
  currentLine := lastSome (fun o => (f o).currentLine) first
  exitCode := lastSome (fun o => (f o).exitCode) first

@[simp] theorem along_nil (f : MiOutput → Changes) : along f [] = {} := rfl

theorem along_cons (f : MiOutput → Changes) (o : MiOutput) (rest : List MiOutput) :
    along f (o :: rest) = (f o).andThen (along f rest) := by
  simp only [along, andThen, lastSome_cons]

end Changes

/-- What the class of a record assigns. -/
def classChanges (o : MiOutput) : Changes :=
  match o.tclass with
  | .running => { targetState := some .running, currentFile := some [] }
  | .stopped => { targetState := some .stopped }
  | _ => {}

/-- What an exit reason assigns. -/
def exitChanges (stop : MiStop) : Changes :=
  if stop.reason.isExit then
    { targetState := some .exited, currentFile := some [], exitCode := some stop.exitCode }
  else {}

/-- What a frame with a source file assigns. -/
def positionChanges (stop : MiStop) : Changes :=
  match Tracker.stopPosition stop with
  | some (fullpath, line) => { currentFile := some fullpath, currentLine := some line }
  | none => {}

/-- What a stop record assigns besides its class. -/
def stopChanges (stop : MiStop) : Changes :=
  (exitChanges stop).andThen (positionChanges stop)

/-- The stop a record reports, if it can be read. -/
def stopOf (o : MiOutput) : Option MiStop :=
  if o.isStop then (miGetStopped o.c).toOption else none

/-- What a record assigns as a response of its own. -/
def recordChanges (o : MiOutput) : Changes :=
  (classChanges o).andThen ((stopOf o).elim {} stopChanges)

/-- What a whole response assigns. -/
def responseChanges (first : List MiOutput) : Changes :=
  (Changes.along classChanges first).andThen
    (((miGetStopRecord first).bind stopOf).elim {} stopChanges)

namespace Tracker

variable {n : Nat}

def status (t : Tracker n) (r : Fin n) : Status where
  targetState := t.targetState r
  currentFile := t.currentFile r
  currentLine := t.currentLine r
  exitCode := t.exitCode r

theorem status_applyClass (t : Tracker n) (r : Fin n) (o : MiOutput) :
    (t.applyClass r o.tclass).status r = (classChanges o).apply (t.status r) := by
  unfold classChanges
  cases o.tclass <;> simp [applyClass, status, Changes.apply]

theorem status_applyStream (t : Tracker n) (r q : Fin n) (o : MiOutput) :
    (t.applyStream r o).status q = t.status q := by
  unfold applyStream
  split
  · split <;> rfl
  · rfl

theorem status_parseTargetState (first : List MiOutput) (r : Fin n) (t : Tracker n) :
    (t.parseTargetState first r).status r =
      (Changes.along classChanges first).apply (t.status r) := by
  unfold parseTargetState
  induction first generalizing t with
  | nil => rfl
  | cons o rest ih =>
      rw [List.foldl_cons, ih, parseTargetStateStep, status_applyStream, status_applyClass,
        Changes.along_cons, Changes.apply_andThen]

theorem status_recordExit (stop : MiStop) (r : Fin n) (t : Tracker n) :
    (t.recordExit stop r).status r = (exitChanges stop).apply (t.status r) := by
  unfold recordExit exitChanges
  split <;> simp [status, Changes.apply]

theorem status_recordPosition (stop : MiStop) (r : Fin n) (t : Tracker n) :
    (t.recordPosition stop r).status r = (positionChanges stop).apply (t.status r) := by
  unfold recordPosition positionChanges
  cases stopPosition stop with
  | none => rfl
  | some position => simp [status, Changes.apply]

theorem status_applyStop {stop : MiStop} {r : Fin n} {t u : Tracker n}
    (h : t.applyStop stop r = .ok u) :
    u.status r = (stopChanges stop).apply (t.status r) := by
  obtain ⟨v, hv, rfl⟩ := applyStop_cases h
  have hstatus : v.status r = t.status r := by
    rcases hv with rfl | ⟨bp, rfl⟩
    · rfl
    · rw [stopAll_eq]
      rfl
  rw [status_recordPosition, status_recordExit, hstatus, stopChanges, Changes.apply_andThen]

theorem status_parseStopRecord {first : List MiOutput} {r : Fin n} {t u : Tracker n}
    (h : t.parseStopRecord first r = .ok u) :
    u.status r =
      (((miGetStopRecord first).bind stopOf).elim {} stopChanges).apply (t.status r) := by
  obtain ⟨hnone, rfl⟩ | ⟨o, stop, hfirst, hstop, hu⟩ := parseStopRecord_cases h
  · rw [hnone]
    rfl
  · have ho : o.isStop = true := List.find?_some hfirst
    rw [hfirst, status_applyStop hu]
    simp [stopOf, ho, hstop, Except.toOption]

theorem status_handleResponse {first : List MiOutput} {r : Fin n} {t u : Tracker n}
    (h : t.handleResponse first r = .ok u) :
    u.status r = (responseChanges first).apply (t.status r) := by
  obtain ⟨v, hv, hu⟩ := handleResponse_passes h
  have hsame : u.status r = v.status r := by
    obtain rfl | ⟨b, bp, number, -, -, rfl⟩ := parseBreakpoint_cases hu
    · rfl
    · rfl
  rw [hsame, status_parseStopRecord hv, status_parseTargetState, responseChanges,
    Changes.apply_andThen]

section OtherRanks

variable {q r : Fin n}

theorem status_parseTargetState_of_ne (h : q ≠ r) (first : List MiOutput) (t : Tracker n) :
    (t.parseTargetState first r).status q = t.status q := by
  unfold parseTargetState
  induction first generalizing t with
  | nil => rfl
  | cons o rest ih =>
      rw [List.foldl_cons, ih, parseTargetStateStep, status_applyStream]
      cases o.tclass <;> simp [applyClass, status, Function.update_of_ne h]

theorem status_applyStop_of_ne (h : q ≠ r) {stop : MiStop} {t u : Tracker n}
    (hu : t.applyStop stop r = .ok u) : u.status q = t.status q := by
  obtain ⟨v, hv, rfl⟩ := applyStop_cases hu
  have hexit : (v.recordExit stop r).status q = v.status q := by
    unfold recordExit
    split <;> simp [status, Function.update_of_ne h]
  have hposition : ((v.recordExit stop r).recordPosition stop r).status q =
      (v.recordExit stop r).status q := by
    unfold recordPosition
    split <;> simp [status, Function.update_of_ne h]
  rw [hposition, hexit]
  rcases hv with rfl | ⟨bp, rfl⟩
  · rfl
  · rw [stopAll_eq]
    rfl

/-- A response of one rank leaves the status of the others alone. -/
theorem status_handleResponse_of_ne (h : q ≠ r) {first : List MiOutput} {t u : Tracker n}
    (hu : t.handleResponse first r = .ok u) : u.status q = t.status q := by
  obtain ⟨v, hv, hu⟩ := handleResponse_passes hu
  have hsame : u.status q = v.status q := by
    obtain rfl | ⟨b, bp, number, -, -, rfl⟩ := parseBreakpoint_cases hu
    · rfl
    · rfl
  rw [hsame, ← status_parseTargetState_of_ne h first t]
  obtain ⟨-, rfl⟩ | ⟨o, stop, -, -, hv⟩ := parseStopRecord_cases hv
  · rfl
  · exact status_applyStop_of_ne h hv

end OtherRanks

end Tracker

end ParallelGdb
