import ParallelGdb.Breakpoint.Loops

/-!
# Interpreting the records of a response

The three passes of `handle_data_gdb` over a response, as far as they work on
the tracked state: `parse_target_state`, `parse_stop_record` with `stop_all`,
and `parse_breakpoint`. What they do to the tabs and the overview is added
where the whole window is modelled; it changes none of the fields here.
-/

namespace ParallelGdb

open Library.CString Library.RankLoop Mi

/-- Gtk takes valid UTF-8 only. -/
def validUtf8 (text : Bytes) : Bool := ByteArray.validateUTF8 ⟨text.toArray⟩

/-- `TextBuffer::insert` at the end: a text that is not UTF-8 is rejected. -/
def insertText (buffer text : Bytes) : Bytes :=
  if validUtf8 text then buffer ++ text else buffer

namespace Tracker

variable {n : Nat}

/-- The class of a record as `parse_target_state` reads it. -/
def applyClass (t : Tracker n) (r : Fin n) (tclass : MiClass) : Tracker n :=
  match tclass with
  | .running =>
      { t with
        targetState := Function.update t.targetState r .running
        currentFile := Function.update t.currentFile r [] }
  | .stopped =>
      { t with
        targetState := Function.update t.targetState r .stopped
        sentStop := Function.update t.sentStop r false }
  | _ => t

/-- The text of a stream record goes to the rank's GDB text view. -/
def applyStream (t : Tracker n) (r : Fin n) (o : MiOutput) : Tracker n :=
  if o.type = .outOfBand && o.stype = .stream then
    match getCstr o with
    | some text =>
        { t with
          textBuffersGdb := Function.update t.textBuffersGdb r
            (insertText (t.textBuffersGdb r) text) }
    | none => t
  else
    t

/-- One round of the loop of `parse_target_state`. -/
def parseTargetStateStep (r : Fin n) (t : Tracker n) (o : MiOutput) : Tracker n :=
  (t.applyClass r o.tclass).applyStream r o

/-- `parse_target_state`. -/
def parseTargetState (first : List MiOutput) (r : Fin n) (t : Tracker n) : Tracker n :=
  first.foldl (parseTargetStateStep r) t

/-- One round of the loop of `stop_all`. -/
def stopAllStep (bp : Breakpoint n) (t : Tracker n) (r : Fin n) : Tracker n :=
  if t.targetState r ≠ .running || t.sentStop r || !bp.isCreated r then
    t
  else
    match t.sendTrgt r [3] with
    | (true, t) => { t with sentStop := Function.update t.sentStop r true }
    | (false, t) => t

/-- `stop_all`: interrupt the running ranks of the Breakpoint with `^C`. -/
def stopAll (bp : Breakpoint n) (t : Tracker n) : Tracker n :=
  forEach (stopAllStep bp) (List.finRange n) t

/-- The Breakpoint a stop record names on this rank, if its number is registered. -/
def stopBreakpoint (stop : MiStop) (r : Fin n) (t : Tracker n) : Option BkptId :=
  if stop.haveBkptno && stop.bkptno > 1 then t.bkptno2Bkpt r stop.bkptno else none

/-- The first part of `parse_stop_record`. -/
def hitBreakpoint (stop : MiStop) (r : Fin n) (t : Tracker n) : Except Fault (Tracker n) :=
  match stopBreakpoint stop r t with
  | none => .ok t
  | some b =>
      match t.objects b with
      | none => .error .deletedBreakpoint
      | some bp => .ok (if bp.stopAll then t.stopAll bp else t)

/-- The second part: an exit reason ends the target. -/
def recordExit (stop : MiStop) (r : Fin n) (t : Tracker n) : Tracker n :=
  if stop.reason.isExit then
    { t with
      targetState := Function.update t.targetState r .exited
      currentFile := Function.update t.currentFile r []
      exitCode := Function.update t.exitCode r stop.exitCode }
  else
    t

/-- The source position a stop record reports. -/
def stopPosition (stop : MiStop) : Option (Bytes × Int) :=
  match stop.frame with
  | some frame => frame.fullname.map fun fullname => (fullname, frame.line)
  | none => none

/-- The assignments of `set_position`. -/
def recordPosition (stop : MiStop) (r : Fin n) (t : Tracker n) : Tracker n :=
  match stopPosition stop with
  | some (fullpath, line) =>
      { t with
        currentFile := Function.update t.currentFile r fullpath
        currentLine := Function.update t.currentLine r line }
  | none => t

/-- What `parse_stop_record` does with the stop record it found. -/
def applyStop (stop : MiStop) (r : Fin n) (t : Tracker n) : Except Fault (Tracker n) := do
  let t ← t.hitBreakpoint stop r
  return (t.recordExit stop r).recordPosition stop r

/-- `parse_stop_record`. -/
def parseStopRecord (first : List MiOutput) (r : Fin n) (t : Tracker n) :
    Except Fault (Tracker n) := do
  match ← miResStop first with
  | none => return t
  | some stop => t.applyStop stop r

/-- Register the number GDB gave to the awaited Breakpoint. -/
def registerBreakpoint (t : Tracker n) (r : Fin n) (b : BkptId) (bp : Breakpoint n)
    (number : Int) : Tracker n :=
  { t.store b (bp.setNumber r number) with
    bkptno2Bkpt := Function.update t.bkptno2Bkpt r
      (Function.update (t.bkptno2Bkpt r) number (some b))
    breakpoints := Function.update t.breakpoints r none }

/-- `parse_breakpoint`. -/
def parseBreakpoint (first : List MiOutput) (r : Fin n) (t : Tracker n) :
    Except Fault (Tracker n) :=
  match t.breakpoints r with
  | none => .ok t
  | some b => do
      match ← miResBkpt first with
      | none => return t
      | some number =>
          match t.objects b with
          | none => .error .deletedBreakpoint
          | some bp => return t.registerBreakpoint r b bp number

/-- All `parse_breakpoint` can do: nothing, or register a number for the
Breakpoint in the slot. -/
theorem parseBreakpoint_cases {t w : Tracker n} {first : List MiOutput} {r : Fin n}
    (h : t.parseBreakpoint first r = .ok w) :
    w = t ∨ ∃ b bp number, t.breakpoints r = some b ∧ t.objects b = some bp ∧
      w = t.registerBreakpoint r b bp number := by
  unfold parseBreakpoint at h
  cases hslot : t.breakpoints r with
  | none =>
      simp only [hslot, Except.ok.injEq] at h
      exact Or.inl h.symm
  | some b =>
      cases hres : miResBkpt first with
      | error e => simp [hslot, hres, bind, Except.bind] at h
      | ok found =>
          cases found with
          | none =>
              simp only [hslot, hres, bind, Except.bind, pure, Except.pure,
                Except.ok.injEq] at h
              exact Or.inl h.symm
          | some number =>
              cases hobj : t.objects b with
              | none => simp [hslot, hres, bind, Except.bind, hobj] at h
              | some bp =>
                  simp only [hslot, hres, bind, Except.bind, hobj, pure, Except.pure,
                    Except.ok.injEq] at h
                  exact Or.inr ⟨b, bp, number, rfl, hobj, h.symm⟩

/-- The three passes over one response, in the order of `handle_data_gdb`. -/
def handleResponse (first : List MiOutput) (r : Fin n) (t : Tracker n) :
    Except Fault (Tracker n) := do
  let t := t.parseTargetState first r
  let t ← t.parseStopRecord first r
  t.parseBreakpoint first r

end Tracker

end ParallelGdb
