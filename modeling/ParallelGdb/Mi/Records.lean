import ParallelGdb.Library.CString

/-!
# Parsed GDB/MI records and what the window reads from them

The trees `parse.c` builds from one output line, and the functions that look
a result, a breakpoint or a stop up in a list of such records. A list value
may hold entries without a name; comparing such a name with `strcmp` is a
null-pointer access and is kept as a fault.
-/

namespace ParallelGdb.Mi

open Library.CString

/-- The ways a handler leaves defined behaviour or throws. -/
inductive Fault
  /-- A byte behind the memory handed over was read. -/
  | overread
  /-- `strcmp` met the missing name of a list entry. -/
  | nullName
  /-- A pointer to a deleted Breakpoint was followed. -/
  | deletedBreakpoint
  /-- `std::invalid_argument("Invalid row.")`. -/
  | invalidRow
  /-- A method of a label the grid does not hold was called. -/
  | nullLabel
  /-- A method of a view the lookup map does not hold was called. -/
  | nullView
  /-- `std::map::at` without the key. -/
  | outOfRange
  deriving DecidableEq, Repr

/-- `mi_results`: a constant, a tuple or a list, with its name if it has one. -/
inductive MiResults
  | const (var : Option Bytes) (cstr : Bytes)
  | tuple (var : Option Bytes) (rs : List MiResults)
  | list (var : Option Bytes) (rs : List MiResults)

/-- `MI_T_*`. -/
inductive MiType
  | outOfBand
  | resultRecord
  deriving DecidableEq, Repr

/-- `MI_ST_*`. -/
inductive MiSubtype
  | async
  | stream
  deriving DecidableEq, Repr

/-- `MI_SST_*`. -/
inductive MiSubsubtype
  | exec
  | status
  | notify
  | console
  | target
  | log
  deriving DecidableEq, Repr

/-- `MI_CL_*`: the classes of asynchronous and of result records. -/
inductive MiClass
  | unknown
  | stopped
  | download
  | done
  | running
  | connected
  | error
  | exit
  deriving DecidableEq, Repr

/-- `mi_output`. The defaults are the zeros `mi_alloc_output` leaves. -/
structure MiOutput where
  type : MiType := .outOfBand
  stype : MiSubtype := .async
  sstype : MiSubsubtype := .exec
  tclass : MiClass := .unknown
  c : List MiResults := []

def MiResults.var : MiResults → Option Bytes
  | .const var _ => var
  | .tuple var _ => var
  | .list var _ => var

/-- `strcmp(r->var, name) == 0`. -/
def MiResults.named (r : MiResults) (name : String) : Except Fault Bool :=
  match r.var with
  | none => .error .nullName
  | some var => .ok (decide (var = ascii name))

/-- `mi_get_rrecord`: the first result record of the response. -/
def miGetRrecord (first : List MiOutput) : Option MiOutput :=
  first.find? fun o => decide (o.type = .resultRecord)

/-- `mi_get_var_r`. -/
def miGetVarR (name : String) : List MiResults → Except Fault (Option MiResults)
  | [] => .ok none
  | r :: rest => do
      if ← r.named name then
        return some r
      miGetVarR name rest

/-- `mi_get_bkpt`, of which the window uses the number only. -/
def miGetBkpt (p : List MiResults) : Int :=
  p.foldl (fun number r =>
    match r with
    | .const (some var) cstr => if var = ascii "number" then atoi cstr else number
    | _ => number) 0

/-- `mi_res_bkpt`: the number of the breakpoint the first result record reports. -/
def miResBkpt (first : List MiOutput) : Except Fault (Option Int) :=
  match miGetRrecord first with
  | none => .ok none
  | some res =>
      if res.tclass = .done then do
        match ← miGetVarR "bkpt" res.c with
        | some (.tuple _ rs) => return some (miGetBkpt rs)
        | _ => return none
      else
        .ok none

/-- `mi_stop_reason`. -/
inductive MiStopReason
  | unknown
  | bkptHit
  | wpTrigger
  | readWpTrigger
  | accessWpTrigger
  | wpScope
  | functionFinished
  | locationReached
  | endSteppingRange
  | exitedSignalled
  | exited
  | exitedNormally
  | signalReceived
  deriving DecidableEq, Repr

/-- `reason_names` beside `reason_values`. -/
def reasonNames : List (String × MiStopReason) :=
  [("breakpoint-hit", .bkptHit),
   ("watchpoint-trigger", .wpTrigger),
   ("read-watchpoint-trigger", .readWpTrigger),
   ("access-watchpoint-trigger", .accessWpTrigger),
   ("watchpoint-scope", .wpScope),
   ("function-finished", .functionFinished),
   ("location-reached", .locationReached),
   ("end-stepping-range", .endSteppingRange),
   ("exited-signalled", .exitedSignalled),
   ("exited", .exited),
   ("exited-normally", .exitedNormally),
   ("signal-received", .signalReceived)]

/-- `mi_reason_str_to_enum`. -/
def miReasonStrToEnum (s : Bytes) : MiStopReason :=
  match reasonNames.find? fun p => decide (ascii p.1 = s) with
  | some p => p.2
  | none => .unknown

/-- The reasons on which `parse_stop_record` treats the target as exited. -/
def MiStopReason.isExit (reason : MiStopReason) : Bool :=
  reason = .exitedSignalled || reason = .exited || reason = .exitedNormally

/-- The part of `mi_frames` the window uses. -/
structure MiFrames where
  fullname : Option Bytes := none
  line : Int := 0

/-- `mi_parse_frame`: a later entry of a name replaces an earlier one. -/
def miParseFrame : MiFrames → List MiResults → Except Fault MiFrames
  | res, [] => .ok res
  | res, .const var cstr :: rest => do
      if ← (MiResults.const var cstr).named "fullname" then
        miParseFrame { res with fullname := some cstr } rest
      else if ← (MiResults.const var cstr).named "line" then
        miParseFrame { res with line := atoi cstr } rest
      else
        miParseFrame res rest
  | res, .list var rs :: rest => do
      let _ ← (MiResults.list var rs).named "args"
      miParseFrame res rest
  | res, .tuple _ _ :: rest => miParseFrame res rest

/-- The part of `mi_stop` the window uses, and of the pointers to the values of a
watchpoint whether they are set. -/
structure MiStop where
  reason : MiStopReason := .unknown
  haveBkptno : Bool := false
  bkptno : Int := 0
  haveExitCode : Bool := false
  exitCode : Int := 0
  frame : Option MiFrames := none
  wpOld : Bool := false
  wpVal : Bool := false

/-- The pointer `v.cstr` of a result is not null. For a tuple or list it is that of
the first entry. -/
def MiResults.pointer : MiResults → Bool
  | .const _ _ => true
  | .tuple _ rs => !rs.isEmpty
  | .list _ rs => !rs.isEmpty

/-- A round of the loop of `mi_get_stopped` over the entries of a `value`, on the
pointers `wp_old` and `wp_val`. -/
def miGetStoppedValue (wp : Bool × Bool) (p : MiResults) : Except Fault (Bool × Bool) := do
  if (← p.named "value") || (← p.named "new") then
    return (wp.1, p.pointer)
  if ← p.named "old" then
    return (p.pointer, wp.2)
  return wp

/-- What `mi_get_stopped` does with a tuple or list. `mi_get_wp`, which it calls for a
watchpoint, skips what has no name. -/
def miGetStoppedTuple (res : MiStop) (r : MiResults) (rs : List MiResults) :
    Except Fault MiStop := do
  if ← r.named "frame" then
    return { res with frame := some (← miParseFrame {} rs) }
  if !(res.wpOld || res.wpVal) && (← r.named "value") then
    let (wpOld, wpVal) ← rs.foldlM miGetStoppedValue (res.wpOld, res.wpVal)
    return { res with wpOld, wpVal }
  return res

/-- One round of the loop of `mi_get_stopped`: the last reason and frame count,
of breakpoint number and exit code the first. -/
def miGetStoppedStep (res : MiStop) : MiResults → Except Fault MiStop
  | .const var cstr => do
      let r := MiResults.const var cstr
      if ← r.named "reason" then
        return { res with reason := miReasonStrToEnum cstr }
      if !res.haveBkptno && (← r.named "bkptno") then
        return { res with haveBkptno := true, bkptno := atoi cstr }
      if !res.haveExitCode && (← r.named "exit-code") then
        return { res with haveExitCode := true, exitCode := atoi cstr }
      return res
  | .tuple var rs => miGetStoppedTuple res (.tuple var rs) rs
  | .list var rs => miGetStoppedTuple res (.list var rs) rs

/-- `mi_get_stopped`. -/
def miGetStopped (r : List MiResults) : Except Fault MiStop :=
  r.foldlM miGetStoppedStep {}

/-- What `mi_get_stop_record` looks for. -/
def MiOutput.isStop (o : MiOutput) : Bool :=
  o.type = .outOfBand && o.stype = .async && o.sstype = .exec && o.tclass = .stopped

/-- `mi_get_stop_record`: the first stop record of the response. -/
def miGetStopRecord (first : List MiOutput) : Option MiOutput :=
  first.find? fun o => o.isStop

/-- `mi_res_stop`. -/
def miResStop (first : List MiOutput) : Except Fault (Option MiStop) :=
  match miGetStopRecord first with
  | none => .ok none
  | some sr => do return some (← miGetStopped sr.c)

section Faults

variable {α β : Type}

/-- Looking results up fails in one way only. -/
def NameFault (x : Except Fault α) : Prop := ∀ e, x = .error e → e = .nullName

theorem nameFault_ok (a : α) : NameFault (.ok a) := by
  intro e h
  cases h

theorem NameFault.bind {x : Except Fault α} {f : α → Except Fault β} (hx : NameFault x)
    (hf : ∀ a, NameFault (f a)) : NameFault (x >>= f) := by
  intro e h
  cases hxa : x with
  | error e' =>
      simp only [hxa, Bind.bind, Except.bind, Except.error.injEq] at h
      exact h ▸ hx e' hxa
  | ok a =>
      simp only [hxa, Bind.bind, Except.bind] at h
      exact hf a e h

theorem nameFault_named (r : MiResults) (name : String) : NameFault (r.named name) := by
  intro e h
  unfold MiResults.named at h
  split at h
  · exact (Except.error.inj h).symm
  · cases h

theorem nameFault_ite {c : Prop} [Decidable c] {x y : Except Fault α} (hx : NameFault x)
    (hy : NameFault y) : NameFault (if c then x else y) := by
  split
  · exact hx
  · exact hy

theorem nameFault_miGetVarR (name : String) (rs : List MiResults) :
    NameFault (miGetVarR name rs) := by
  induction rs with
  | nil => exact nameFault_ok none
  | cons r rest ih =>
      exact (nameFault_named r name).bind fun found => nameFault_ite (nameFault_ok _) ih

theorem nameFault_miResBkpt (first : List MiOutput) : NameFault (miResBkpt first) := by
  unfold miResBkpt
  split
  · exact nameFault_ok none
  · rename_i res _
    apply nameFault_ite
    · apply (nameFault_miGetVarR "bkpt" res.c).bind
      intro found
      split <;> exact nameFault_ok _
    · exact nameFault_ok none

theorem nameFault_miParseFrame (res : MiFrames) (rs : List MiResults) :
    NameFault (miParseFrame res rs) := by
  induction rs generalizing res with
  | nil => exact nameFault_ok res
  | cons r rest ih =>
      cases r with
      | const var cstr =>
          apply (nameFault_named _ _).bind
          intro isName
          apply nameFault_ite (ih _)
          apply (nameFault_named _ _).bind
          exact fun isLine => nameFault_ite (ih _) (ih _)
      | list var rs => exact (nameFault_named _ _).bind fun _ => ih res
      | tuple var rs => exact ih res

theorem nameFault_foldlM {f : β → α → Except Fault β} (h : ∀ b a, NameFault (f b a))
    (items : List α) (b : β) : NameFault (items.foldlM f b) := by
  induction items generalizing b with
  | nil => exact nameFault_ok b
  | cons a rest ih =>
      rw [List.foldlM_cons]
      exact (h b a).bind ih

theorem nameFault_miGetStoppedValue (wp : Bool × Bool) (p : MiResults) :
    NameFault (miGetStoppedValue wp p) := by
  apply (nameFault_named p "value").bind
  intro isValue
  apply (nameFault_named p "new").bind
  intro isNew
  apply nameFault_ite (nameFault_ok _)
  apply (nameFault_named p "old").bind
  exact fun isOld => nameFault_ite (nameFault_ok _) (nameFault_ok _)

theorem nameFault_miGetStoppedTuple (res : MiStop) (r : MiResults) (rs : List MiResults) :
    NameFault (miGetStoppedTuple res r rs) := by
  apply (nameFault_named r "frame").bind
  intro isFrame
  apply nameFault_ite
  · exact (nameFault_miParseFrame _ rs).bind fun frame => nameFault_ok _
  · apply (nameFault_named r "value").bind
    intro isValue
    apply nameFault_ite _ (nameFault_ok _)
    exact (nameFault_foldlM nameFault_miGetStoppedValue rs _).bind fun wp => nameFault_ok _

theorem nameFault_miGetStoppedStep (res : MiStop) (r : MiResults) :
    NameFault (miGetStoppedStep res r) := by
  cases r with
  | const var cstr =>
      apply (nameFault_named _ "reason").bind
      intro isReason
      apply nameFault_ite (nameFault_ok _)
      apply (nameFault_named _ "bkptno").bind
      intro isBkptno
      apply nameFault_ite (nameFault_ok _)
      apply (nameFault_named _ "exit-code").bind
      exact fun isExitCode => nameFault_ite (nameFault_ok _) (nameFault_ok _)
  | tuple var rs => exact nameFault_miGetStoppedTuple res _ rs
  | list var rs => exact nameFault_miGetStoppedTuple res _ rs

theorem nameFault_miGetStopped (rs : List MiResults) : NameFault (miGetStopped rs) :=
  nameFault_foldlM nameFault_miGetStoppedStep rs {}

theorem nameFault_miResStop (first : List MiOutput) : NameFault (miResStop first) := by
  unfold miResStop
  split
  · exact nameFault_ok none
  · exact (nameFault_miGetStopped _).bind fun stop => nameFault_ok _

end Faults

/-- `get_cstr`. -/
def getCstr (o : MiOutput) : Option Bytes :=
  match o.c with
  | .const _ cstr :: _ => some cstr
  | _ => none

end ParallelGdb.Mi
