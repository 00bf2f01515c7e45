import ParallelGdb.Window.Chunk
import ParallelGdb.Window.OneByOne
import ParallelGdb.Mi.Reports

/-!
# The target state and GDB's execution records

What the execution records of GDB say about the target, what the window hears of
it, and when the two agree on the last word. A response in the handle already
decides the state its prompt will bring about, so the state that is due can be
followed line by line.
-/

namespace ParallelGdb

open Library.CString Library.Overwrite Mi

/-- The state a stop for this reason leaves the target in. -/
def stopState (reason : Option Bytes) : TargetState :=
  if reason = some (ascii "exited-signalled") ∨ reason = some (ascii "exited") ∨
      reason = some (ascii "exited-normally") then .exited
  else .stopped

/-- The state an execution record calls for: `^running`, `*running` or `*stopped`. -/
def Mi.Line.called : Line → Option TargetState
  | .result _ .running _ => some .running
  | .async _ record =>
      if record.type = .exec then
        if record.tclass.name = ascii "running" then some .running
        else if record.tclass.name = ascii "stopped" then
          some (stopState (record.results.text "reason" Quoted.written))
        else none
      else none
  | _ => none

/-- What the window hears of it: nothing of a record with a token, nothing of
`*running`, and the reason without its backslashes. It takes a `=stopped` or `+stopped`
for a stop, too, but if the unfinished response has an exit, as the flag says, that
remains. -/
def Mi.Line.heard (exited : Bool) : Line → Option TargetState
  | .result token .running _ => if token.digits = [] then some .running else none
  | .async token record =>
      if token.digits = [] ∧ record.tclass.name = ascii "stopped" then
        if record.type = .exec then some (stopState (record.results.text "reason" Quoted.read))
        else if exited then none
        else some .stopped
      else none
  | _ => none

/-- The unfinished response has an exit after the line. -/
def Mi.Line.leavesExited (l : Line) (before : Bool) : Bool :=
  !l.completes && (l.heard before = some .exited || before)

/-- The last that the window hears in a response that is completed. -/
def heardFrom : Bool → List Line → Option TargetState
  | _, [] => none
  | exited, l :: rest =>
      (heardFrom (l.leavesExited exited) rest).or
        (if rest.any Line.completes then l.heard exited else none)

/-- If the line is a stop that the window reads, it can be read. -/
def Mi.Line.readable : Line → Bool
  | .async token record =>
      token.digits ≠ [] || record.type ≠ .exec || record.tclass.name ≠ ascii "stopped" ||
        record.results.readable
  | _ => true

def Mi.Line.isPrompt : Line → Bool
  | .prompt _ => true
  | _ => false

/-- An execution record waits for its prompt after the line. -/
def Mi.Line.leavesOpen (l : Line) (before : Bool) : Bool :=
  !l.isPrompt && (l.called.isSome || before)

/-- A prompt follows each execution record before the next one. The flag says
that one is waiting for its prompt. -/
def Prompted : Bool → List Line → Prop
  | waiting, [] => waiting = false
  | waiting, l :: rest =>
      (l.called.isSome → waiting = false) ∧ Prompted (l.leavesOpen waiting) rest

/-- The state the execution records call for in the end. -/
def calledState (lines : List Line) : TargetState := (lastSome Line.called lines).getD .unknown

section Records

/-- The reasons of an exit. -/
theorem isExit_miReasonStrToEnum (s : Bytes) :
    (miReasonStrToEnum s).isExit = true ↔
      s = ascii "exited-signalled" ∨ s = ascii "exited" ∨ s = ascii "exited-normally" := by
  constructor
  · intro h
    unfold miReasonStrToEnum at h
    split at h
    · rename_i p hfind
      have hs : ascii p.1 = s := by simpa using List.find?_some hfind
      have hexit : ∀ q ∈ reasonNames, q.2.isExit = true →
          q.1 = "exited-signalled" ∨ q.1 = "exited" ∨ q.1 = "exited-normally" := by decide
      have hmem := hexit p (List.mem_of_find?_eq_some hfind) h
      rw [← hs]
      exact hmem.imp (congrArg ascii) fun hor => hor.imp (congrArg ascii) (congrArg ascii)
    · cases h
  · rintro (rfl | rfl | rfl) <;> rfl

/-- A record that changes no state. -/
def Quiet (o : MiOutput) : Prop := o.tclass ≠ .running ∧ o.tclass ≠ .stopped

/-- The state a response leaves its target in, if it decides it. -/
def dueChange (first : List MiOutput) : Option TargetState := (responseChanges first).targetState

/-- The stop of a response is an exit. -/
def exitDue (first : List MiOutput) : Bool :=
  ((miGetStopRecord first).bind stopOf).any fun stop => stop.reason.isExit

theorem Quiet.not_stop {o : MiOutput} (h : Quiet o) : o.isStop = false := by
  simp [MiOutput.isStop, h.2]

theorem Quiet.classChanges {o : MiOutput} (h : Quiet o) : classChanges o = {} := by
  unfold ParallelGdb.classChanges
  split
  · exact absurd ‹_› h.1
  · exact absurd ‹_› h.2
  · rfl

theorem targetState_stopChanges (stop : MiStop) :
    (stopChanges stop).targetState = if stop.reason.isExit then some .exited else none := by
  have hposition : (positionChanges stop).targetState = none := by
    unfold positionChanges
    split <;> rfl
  simp only [stopChanges, Changes.andThen, hposition, Option.none_or, exitChanges]
  split <;> rfl

/-- An exit decides the state, and otherwise the last class. -/
theorem due_eq (first : List MiOutput) :
    dueChange first = (if exitDue first then some .exited else none).or
      (lastSome (fun o => (classChanges o).targetState) first) := by
  rw [dueChange, responseChanges, exitDue]
  cases (miGetStopRecord first).bind stopOf with
  | none => rfl
  | some stop =>
      simp only [Changes.andThen, Option.elim_some, targetState_stopChanges, Option.any_some]
      rfl

theorem due_nil : dueChange [] = none := rfl

/-- A record that is no stop leaves the one there is. -/
theorem exitDue_append {o : MiOutput} (h : o.isStop = false) (first : List MiOutput) :
    exitDue (first ++ [o]) = exitDue first := by
  simp [exitDue, miGetStopRecord, List.find?_append, h]

/-- Behind records that are no stops a record counts as alone. -/
theorem exitDue_alone_append {first : List MiOutput} (h : ∀ o ∈ first, o.isStop = false)
    (o : MiOutput) :
    exitDue first = false ∧
      exitDue (first ++ [o]) = (stopOf o).any fun stop => stop.reason.isExit := by
  have hnone : first.find? (fun o => o.isStop) = none := by
    rw [List.find?_eq_none]
    intro o ho
    simp [h o ho]
  refine ⟨by simp [exitDue, miGetStopRecord, hnone], ?_⟩
  rw [exitDue, miGetStopRecord, List.find?_append, hnone, Option.none_or]
  cases hstop : o.isStop <;> simp [hstop, stopOf]

/-- A record that changes no state leaves the state that is due. -/
theorem due_append_quiet {o : MiOutput} (h : Quiet o) (first : List MiOutput) :
    dueChange (first ++ [o]) = dueChange first := by
  rw [due_eq, due_eq, exitDue_append h.not_stop, lastSome_concat, h.classChanges, Option.none_or]

/-- A record that is no stop but has its class makes the target stop, unless it exits. -/
theorem due_append_stopped {o : MiOutput} (hclass : o.tclass = .stopped) (hstop : o.isStop = false)
    (first : List MiOutput) :
    dueChange (first ++ [o]) = some (if exitDue first then .exited else .stopped) := by
  rw [due_eq, exitDue_append hstop, lastSome_concat, ParallelGdb.classChanges, hclass]
  cases exitDue first <;> rfl

/-- Behind records that are no stops a record is as due as alone. -/
theorem due_alone_append {first : List MiOutput} (h : ∀ o ∈ first, o.isStop = false)
    {o : MiOutput} {state : TargetState} (hstate : (recordChanges o).targetState = some state) :
    dueChange (first ++ [o]) = some state := by
  have halone : (recordChanges o).targetState =
      (if (stopOf o).any fun stop => stop.reason.isExit then some .exited else none).or
        (classChanges o).targetState := by
    rw [recordChanges, Changes.andThen]
    cases stopOf o with
    | none => rfl
    | some stop => simp only [Option.elim_some, targetState_stopChanges, Option.any_some]
  rw [due_eq, (exitDue_alone_append h o).2, lastSome_concat, ← Option.or_assoc, ← halone, hstate,
    Option.some_or]

/-- A stop record assigns what its reason says. -/
theorem recordChanges_stop {o : MiOutput} (hstop : o.isStop = true) {stop : MiStop}
    (hread : miGetStopped o.c = .ok stop) :
    stopOf o = some stop ∧
      (recordChanges o).targetState = some (if stop.reason.isExit then .exited else .stopped) := by
  have hclass : o.tclass = .stopped := by
    simp only [MiOutput.isStop, Bool.and_eq_true, decide_eq_true_eq] at hstop
    exact hstop.2
  have hof : stopOf o = some stop := by simp [stopOf, hstop, hread, Except.toOption]
  refine ⟨hof, ?_⟩
  simp only [recordChanges, hof, Option.elim_some, Changes.andThen, targetState_stopChanges,
    ParallelGdb.classChanges, hclass]
  split <;> rfl

theorem stopState_eq (reason : Option Bytes) :
    stopState reason =
      if ((reason.map miReasonStrToEnum).getD .unknown).isExit then .exited else .stopped := by
  cases reason with
  | none => rfl
  | some s =>
      simp only [stopState, Option.map_some, Option.getD_some, Option.some.injEq,
        isExit_miReasonStrToEnum]

/-- The record of a stop line and what it assigns. -/
theorem recordChanges_stopLine {o : MiOutput} {rs : Fields} (hstop : o.isStop = true)
    (hc : o.c = rs.trees) (h : rs.readable = true) :
    (recordChanges o).targetState = some (stopState (rs.text "reason" Quoted.read)) ∧
      (stopState (rs.text "reason" Quoted.read) = .exited ↔
        ((stopOf o).any fun stop => stop.reason.isExit) = true) := by
  obtain ⟨stop, hread, hreads⟩ := miGetStopped_trees h
  obtain ⟨hof, hstate⟩ := recordChanges_stop hstop (hc ▸ hread)
  rw [hstate, hof, stopState_eq, ← hreads.reason, Option.any_some]
  cases stop.reason.isExit <;> simp

/-- What a line does to the state that is due: nothing, or it is a stop in class only, or
it has an execution record that is heard. -/
theorem heard_record {l : Line} (hread : l.readable = true) :
    ((∀ exited, l.heard exited = none) ∧ ∀ o ∈ l.record, Quiet o) ∨
      (∃ o, l.record = some o ∧ o.tclass = .stopped ∧ o.isStop = false ∧
        ∀ exited, l.heard exited = if exited then none else some .stopped) ∨
      ∃ o state, l.record = some o ∧ l.called.isSome = true ∧
        (∀ exited, l.heard exited = some state) ∧ (recordChanges o).targetState = some state ∧
        (state = .exited ↔ ((stopOf o).any fun stop => stop.reason.isExit) = true) := by
  cases l with
  | result token tclass results =>
      by_cases htoken : token.digits = []
      · rw [Line.record, if_pos htoken]
        cases tclass with
        | running =>
            right; right
            refine ⟨_, .running, rfl, rfl, fun _ => if_pos htoken, ?_, ?_⟩
            · simp [recordChanges, stopOf, MiOutput.isStop, ResultClass.tclass,
                ParallelGdb.classChanges]
            · simp [stopOf, MiOutput.isStop]
        | _ => exact Or.inl ⟨fun _ => rfl, by simp [Quiet, ResultClass.tclass]⟩
      · left
        constructor
        · intro exited
          cases tclass <;> simp [Line.heard, htoken]
        · simp [Line.record, htoken]
  | async token record =>
      by_cases htoken : token.digits = []
      · rw [Line.record, if_pos htoken, asyncClass]
        by_cases hstopped : record.tclass.name = ascii "stopped"
        · right
          have hheard : ∀ exited, (Line.async token record).heard exited =
              if record.type = .exec then
                some (stopState (record.results.text "reason" Quoted.read))
              else if exited then none else some .stopped :=
            fun exited => if_pos ⟨htoken, hstopped⟩
          rw [if_pos hstopped]
          by_cases hexec : record.type = .exec
          · right
            have hreadable : record.results.readable = true := by
              simpa [Line.readable, htoken, hexec, hstopped] using hread
            have hne : ascii "stopped" ≠ ascii "running" := by decide
            refine ⟨_, _, rfl, ?_, fun exited => (hheard exited).trans (if_pos hexec),
              recordChanges_stopLine (by simp [MiOutput.isStop, hexec, AsyncType.sstype]) rfl
                hreadable⟩
            rw [Line.called, if_pos hexec, if_neg (by rw [hstopped]; exact hne), if_pos hstopped]
            rfl
          · left
            refine ⟨_, rfl, rfl, ?_, fun exited => (hheard exited).trans (if_neg hexec)⟩
            have hother : record.type.sstype ≠ .exec := by
              cases htype : record.type with
              | exec => exact absurd htype hexec
              | status => simp [AsyncType.sstype]
              | notify => simp [AsyncType.sstype]
            simp [MiOutput.isStop, hother]
        · left
          rw [if_neg hstopped]
          refine ⟨fun exited => if_neg (by simp [hstopped]), ?_⟩
          split <;> simp [Quiet]
      · left
        rw [Line.record, if_neg htoken]
        exact ⟨fun exited => if_neg (by simp [htoken]), by simp⟩
  | stream type text => exact Or.inl ⟨fun _ => rfl, by simp [Line.record, Quiet]⟩
  | prompt blank => exact Or.inl ⟨fun _ => rfl, by simp [Line.record]⟩

/-- A line that cannot be read is a stop, and `mi_get_stopped` fails at its record. -/
theorem unreadable_record {l : Line} (h : l.readable = false) :
    l.called.isSome = true ∧ l.completes = false ∧
      ∃ o, l.record = some o ∧ o.isStop = true ∧ miGetStopped o.c = .error .nullName := by
  cases l with
  | async token record =>
      simp only [Line.readable, Bool.or_eq_false_iff, decide_eq_false_iff_not,
        not_not] at h
      obtain ⟨⟨⟨htoken, hexec⟩, hstopped⟩, hreadable⟩ := h
      have hne : ascii "stopped" ≠ ascii "running" := by decide
      refine ⟨?_, rfl, { sstype := .exec, tclass := .stopped, c := record.results.trees }, ?_, rfl,
        miGetStopped_fault hreadable⟩
      · rw [Line.called, if_pos hexec, if_neg (by rw [hstopped]; exact hne), if_pos hstopped]
        rfl
      · rw [Line.record, if_pos htoken, asyncClass, if_pos hstopped, hexec]
        rfl
  | _ => cases h

theorem stopState_ne_unknown (reason : Option Bytes) : stopState reason ≠ .unknown := by
  unfold stopState
  split <;> simp

theorem heard_ne_unknown (exited : Bool) (l : Line) : l.heard exited ≠ some .unknown := by
  cases l with
  | result token tclass results =>
      cases tclass <;> simp [Line.heard]
  | async token record =>
      rw [Line.heard]
      split
      · split
        · simp [stopState_ne_unknown]
        · split <;> simp
      · simp
  | stream type text => simp [Line.heard]
  | prompt blank => simp [Line.heard]

theorem heardFrom_ne_unknown (exited : Bool) (lines : List Line) :
    heardFrom exited lines ≠ some .unknown := by
  induction lines generalizing exited with
  | nil => simp [heardFrom]
  | cons l rest ih =>
      have hrest := ih (l.leavesExited exited)
      rw [heardFrom]
      cases hlast : heardFrom (l.leavesExited exited) rest with
      | none =>
          rw [Option.none_or]
          split
          · exact heard_ne_unknown exited l
          · simp
      | some state =>
          rw [Option.some_or]
          exact hlast ▸ hrest

/-- A line that completes a response is not heard. -/
theorem heard_of_completes {l : Line} (h : l.completes = true) (exited : Bool) :
    l.heard exited = none := by
  cases l with
  | result token tclass results => cases tclass <;> simp_all [Line.completes, Line.heard]
  | async token record => cases h
  | stream type text => cases h
  | prompt blank => rfl

/-- Where no response is completed, nothing is heard. -/
theorem heardFrom_of_incomplete {lines : List Line} (h : lines.any Line.completes = false)
    (exited : Bool) : heardFrom exited lines = none := by
  induction lines generalizing exited with
  | nil => rfl
  | cons l rest ih =>
      rw [List.any_cons, Bool.or_eq_false_iff] at h
      rw [heardFrom, ih h.2, h.2]
      rfl

/-- An execution record calls for a known state. -/
theorem called_ne_unknown (l : Line) : l.called ≠ some .unknown := by
  cases l with
  | result token tclass results => cases tclass <;> simp [Line.called]
  | async token record =>
      rw [Line.called]
      split
      · split
        · simp
        · split <;> simp [stopState_ne_unknown]
      · simp
  | stream type text => simp [Line.called]
  | prompt blank => simp [Line.called]

/-- The record of a line can be interpreted. -/
def Readable (o : MiOutput) : Prop :=
  (o.isStop = true → ∃ stop, miGetStopped o.c = .ok stop) ∧ ∃ found, miResBkpt [o] = .ok found

theorem record_readable {l : Line} (hread : l.readable = true) : ∀ o ∈ l.record, Readable o := by
  have hresult : ∀ {tclass : MiClass} (rs : Fields),
      Readable { type := .resultRecord, tclass := tclass, c := rs.trees } := by
    intro tclass rs
    refine ⟨by simp [MiOutput.isStop], ?_⟩
    obtain ⟨found, hfound⟩ := miGetVarR_trees "bkpt" rs
    simp only [miResBkpt, miGetRrecord, List.find?_cons, decide_true]
    split
    · simp only [hfound, bind, Except.bind]
      split <;> exact ⟨_, rfl⟩
    · exact ⟨none, rfl⟩
  have hother : ∀ {o : MiOutput}, o.type = .outOfBand → ∃ found, miResBkpt [o] = .ok found :=
    fun ho => ⟨none, Tracker.miResBkpt_other_type (by simp [ho])⟩
  intro o ho
  cases l with
  | result token tclass results =>
      rw [Line.record] at ho
      split at ho
      · obtain rfl := Option.some.inj ho
        exact hresult results
      · cases ho
  | async token record =>
      rw [Line.record] at ho
      split at ho
      · rename_i htoken
        obtain ⟨tclass, hclass, rfl⟩ := Option.map_eq_some_iff.mp ho
        refine ⟨fun hstop => ?_, hother rfl⟩
        simp only [MiOutput.isStop, Bool.and_eq_true, decide_eq_true_eq] at hstop
        have hstopped : record.tclass.name = ascii "stopped" := by
          by_contra hne
          rw [asyncClass, if_neg hne] at hclass
          split at hclass
          · obtain rfl := Option.some.inj hclass
            simp at hstop
          · cases hclass
        have hexec : record.type = .exec := by
          have hsstype := hstop.1.2
          cases htype : record.type with
          | exec => rfl
          | _ => simp [htype, AsyncType.sstype] at hsstype
        refine (miGetStopped_trees_iff record.results).mpr ?_
        simpa [Line.readable, htoken, hexec, hstopped] using hread
      · cases ho
  | stream type text =>
      obtain rfl := Option.some.inj ho
      exact ⟨by simp [MiOutput.isStop], hother rfl⟩
  | prompt blank => cases ho

/-- With readable records a response can be searched for a breakpoint. -/
theorem miResBkpt_readable {first : List MiOutput} (h : ∀ o ∈ first, Readable o) :
    ∃ found, miResBkpt first = .ok found := by
  induction first with
  | nil => exact ⟨none, rfl⟩
  | cons o rest ih =>
      rw [Tracker.miResBkpt_cons]
      split
      · exact (h o (by simp)).2
      · exact ih fun o' ho' => h o' (by simp [ho'])

end Records

namespace Tracker

variable {n : Nat} {r : Fin n}

/-- The target state once the unfinished response is interpreted. -/
def dueState (t : Tracker n) (r : Fin n) : TargetState :=
  put (dueChange (t.gdbHandle r)) (t.targetState r)

/-- What holds between two lines: nothing dangles, the records that wait can be
interpreted, one of them is a stop only if an execution record waits, and the flag says
whether it is an exit. -/
structure BetweenLines (r : Fin n) (waiting exited : Bool) (t : Tracker n) : Prop where
  safe : t.NoDangling
  readable : ∀ o ∈ t.gdbHandle r, Readable o
  alone : waiting = false → ∀ o ∈ t.gdbHandle r, o.isStop = false
  exited : exitDue (t.gdbHandle r) = exited

/-- A response that is complete brings about the state that is due. -/
theorem respond_complete {t : Tracker n} {first : List MiOutput} (hsafe : t.NoDangling)
    (hread : ∀ o ∈ first, Readable o) :
    ∃ u, t.respond r (true, first) = .ok u ∧ u.NoDangling ∧ u.gdbHandle r = [] ∧
      u.targetState r = put (dueChange first) (t.targetState r) := by
  have hsafe' : NoDangling { t with gdbHandle := Function.update t.gdbHandle r [] } := hsafe
  have hstop : ∀ o, miGetStopRecord first = some o → ∃ stop, miGetStopped o.c = .ok stop :=
    fun o ho => (hread o (List.mem_of_find?_eq_some ho)).1 (List.find?_some ho)
  obtain ⟨u, hu⟩ := handleResponse_ok hsafe' hstop (Or.inr (miResBkpt_readable hread))
  refine ⟨u, hu, hsafe'.response hu, ?_, ?_⟩
  · rw [gdbHandle_handleResponse hu]
    exact Function.update_self ..
  · exact congrArg Status.targetState (status_handleResponse hu)

/-- What a line adds to the records that wait, and what is due then. -/
theorem due_line {t : Tracker n} {waiting exited : Bool} (h : BetweenLines r waiting exited t)
    {l : Line} (hl : l.called.isSome → waiting = false) (hread : l.readable = true) :
    (∀ o ∈ t.gdbHandle r ++ l.record.toList, Readable o) ∧
      ((l.called.isSome || waiting) = false →
        ∀ o ∈ t.gdbHandle r ++ l.record.toList, o.isStop = false) ∧
      exitDue (t.gdbHandle r ++ l.record.toList) = (l.heard exited = some .exited || exited) ∧
      put (dueChange (t.gdbHandle r ++ l.record.toList)) (t.targetState r) =
        put (l.heard exited) (t.dueState r) := by
  have hreadable : ∀ o ∈ t.gdbHandle r ++ l.record.toList, Readable o := by
    intro o ho
    rcases List.mem_append.mp ho with ho | ho
    · exact h.readable o ho
    · exact record_readable hread o (Option.mem_toList.mp ho)
  obtain ⟨hheard, hquiet⟩ | ⟨o, hrecord, hclass, hstop, hheard⟩ |
    ⟨o, state, hrecord, hcalled, hheard, hstate, hexit⟩ := heard_record hread
  · rw [hheard]
    cases hrecord : l.record with
    | none =>
        rw [Option.toList_none, List.append_nil]
        exact ⟨h.readable, fun hopen => h.alone (Bool.or_eq_false_iff.mp hopen).2,
          by simp [h.exited], rfl⟩
    | some o =>
        have ho := hquiet o hrecord
        rw [hrecord] at hreadable
        refine ⟨hreadable, fun hopen o' ho' => ?_, ?_, ?_⟩
        · rcases List.mem_append.mp ho' with ho' | ho'
          · exact h.alone (Bool.or_eq_false_iff.mp hopen).2 o' ho'
          · rw [List.mem_singleton.mp ho']
            exact ho.not_stop
        · rw [Option.toList_some, exitDue_append ho.not_stop, h.exited]
          simp
        · rw [Option.toList_some, due_append_quiet ho, put_none, dueState]
  · rw [hrecord] at hreadable ⊢
    rw [Option.toList_some] at hreadable ⊢
    refine ⟨hreadable, fun hopen o' ho' => ?_, ?_, ?_⟩
    · rcases List.mem_append.mp ho' with ho' | ho'
      · exact h.alone (Bool.or_eq_false_iff.mp hopen).2 o' ho'
      · rw [List.mem_singleton.mp ho']
        exact hstop
    · rw [exitDue_append hstop, h.exited, hheard]
      cases exited <;> rfl
    · rw [due_append_stopped hclass hstop, h.exited, hheard, put_some, dueState, due_eq, h.exited]
      cases exited <;> rfl
  · have halone := h.alone (hl hcalled)
    obtain ⟨hbefore, hbehind⟩ := exitDue_alone_append halone o
    rw [hrecord] at hreadable ⊢
    rw [Option.toList_some] at hreadable ⊢
    rw [h.exited] at hbefore
    refine ⟨hreadable, fun hopen => ?_, ?_, ?_⟩
    · rw [hcalled] at hopen
      cases hopen
    · rw [hbehind, hheard, hbefore, Bool.or_false, Bool.eq_iff_iff, ← hexit]
      simp
    · rw [due_alone_append halone hstate, hheard, put_some, put_some]

/-- One line more. -/
theorem handleSent_due {t : Tracker n} {waiting exited : Bool} (h : BetweenLines r waiting exited t)
    {l : Line} (hl : l.called.isSome → waiting = false) (hread : l.readable = true) :
    ∃ u, t.handleSent r l = .ok u ∧
      BetweenLines r (l.leavesOpen waiting) (l.leavesExited exited) u ∧
      u.dueState r = put (l.heard exited) (t.dueState r) ∧
      u.targetState r = if l.completes then t.dueState r else t.targetState r := by
  obtain ⟨hreadable, halone, hexited, hdue⟩ := due_line h hl hread
  cases hcompletes : l.completes with
  | true =>
      obtain ⟨u, hu, hsafe, hempty, hstate⟩ := respond_complete h.safe hreadable
      have hnone : ∀ o, o ∉ u.gdbHandle r := fun o ho => by
        rw [hempty] at ho
        cases ho
      refine ⟨u, ?_, ⟨hsafe, fun o ho => absurd ho (hnone o),
        fun _ o ho => absurd ho (hnone o), ?_⟩, ?_, ?_⟩
      · rw [handleSent, hcompletes, hu]
      · rw [hempty, Line.leavesExited, hcompletes]
        rfl
      · rw [dueState, hempty, due_nil, put_none, hstate, hdue]
      · rw [if_pos rfl, hstate, hdue, heard_of_completes hcompletes, put_none]
  | false =>
      have hstep : t.handleSent r l = t.respond r (false, t.gdbHandle r ++ l.record.toList) := by
        rw [handleSent, hcompletes]
      refine ⟨_, hstep.trans rfl, ⟨h.safe, ?_, ?_, ?_⟩, ?_, rfl⟩
      · simpa using hreadable
      · intro hopen
        have hprompt : l.isPrompt = false := by
          cases l <;> first | rfl | cases hcompletes
        simp only [Line.leavesOpen, hprompt, Bool.not_false, Bool.true_and] at hopen
        simpa using halone hopen
      · rw [Line.leavesExited, hcompletes, Bool.not_false, Bool.true_and, ← hexited]
        simp
      · rw [dueState]
        simpa using hdue

/-- All lines, where they can be read. -/
theorem handleSent_run {waiting exited : Bool} {lines : List Line}
    (hlines : Prompted waiting lines) (hread : ∀ l ∈ lines, l.readable = true) {t : Tracker n}
    (h : BetweenLines r waiting exited t) :
    ∃ u, lines.foldlM (handleSent r) t = .ok u ∧
      u.targetState r = if lines.any Line.completes then put (heardFrom exited lines) (t.dueState r)
        else t.targetState r := by
  induction lines generalizing waiting exited t with
  | nil => exact ⟨t, rfl, rfl⟩
  | cons l rest ih =>
      obtain ⟨hfirst, hrest⟩ := hlines
      obtain ⟨u, hu, hbetween, hdue, hstate⟩ := handleSent_due h hfirst (hread l (by simp))
      obtain ⟨v, hv, hlast⟩ := ih hrest (fun l hl => hread l (by simp [hl])) hbetween
      refine ⟨v, ?_, ?_⟩
      · rw [List.foldlM_cons, hu]
        exact hv
      · rw [hlast, hdue, hstate, List.any_cons, heardFrom]
        cases hmore : rest.any Line.completes with
        | true => rw [if_pos rfl, if_pos rfl, Bool.or_true, if_pos rfl, put_or]
        | false =>
            rw [heardFrom_of_incomplete hmore, Bool.or_false]
            rfl

/-- The response that waits has a stop that cannot be read. -/
def Doomed (r : Fin n) (t : Tracker n) : Prop :=
  ∃ o e, miGetStopRecord (t.gdbHandle r) = some o ∧ miGetStopped o.c = .error e

/-- Records behind it do not change this. -/
theorem Doomed.append {t : Tracker n} (h : Doomed r t) (more : List MiOutput) :
    ∃ o e, miGetStopRecord (t.gdbHandle r ++ more) = some o ∧ miGetStopped o.c = .error e := by
  obtain ⟨o, e, ho, he⟩ := h
  have hfind : (t.gdbHandle r).find? (fun o => o.isStop) = some o := ho
  exact ⟨o, e, by rw [miGetStopRecord, List.find?_append, hfind, Option.some_or], he⟩

/-- Such a response is not handled. -/
theorem respond_fails {t : Tracker n} {first : List MiOutput} {o : MiOutput} {e : Fault}
    (ho : miGetStopRecord first = some o) (he : miGetStopped o.c = .error e) (u : Tracker n) :
    t.respond r (true, first) ≠ .ok u := by
  intro hu
  obtain ⟨v, hv, -⟩ := handleResponse_passes (show _ = Except.ok u from hu)
  obtain ⟨hnone, -⟩ | ⟨o', stop, ho', hstop, -⟩ := parseStopRecord_cases hv
  · rw [ho] at hnone
    cases hnone
  · obtain rfl := Option.some.inj (ho.symm.trans ho')
    rw [he] at hstop
    cases hstop

/-- The prompt that is to come is not reached. -/
theorem Doomed.run_fails {t : Tracker n} (h : Doomed r t) {lines : List Line}
    (hlines : Prompted true lines) (u : Tracker n) : lines.foldlM (handleSent r) t ≠ .ok u := by
  induction lines generalizing t with
  | nil => cases hlines
  | cons l rest ih =>
      obtain ⟨hfirst, hrest⟩ := hlines
      obtain ⟨o, e, ho, he⟩ := h.append l.record.toList
      rw [List.foldlM_cons]
      cases hcompletes : l.completes with
      | true =>
          have hfails := respond_fails (r := r) (t := t) ho he
          rw [handleSent, hcompletes]
          cases hstep : t.respond r (true, t.gdbHandle r ++ l.record.toList) with
          | ok v => exact absurd hstep (hfails v)
          | error e => exact nofun
      | false =>
          have hopen : l.leavesOpen true = true := by
            have hprompt : l.isPrompt = false := by
              cases l <;> first | rfl | cases hcompletes
            simp [Line.leavesOpen, hprompt]
          rw [hopen] at hrest
          have hstep :
              t.handleSent r l = t.respond r (false, t.gdbHandle r ++ l.record.toList) := by
            rw [handleSent, hcompletes]
          rw [hstep]
          refine ih (t := { t with
            gdbHandle := Function.update t.gdbHandle r (t.gdbHandle r ++ l.record.toList) })
            ?_ hrest
          exact ⟨o, e, by simpa using ho, he⟩

/-- Where a stop cannot be read, the lines are not handled. -/
theorem handleSent_run_fails {waiting exited : Bool} {lines : List Line}
    (hlines : Prompted waiting lines) (hread : ¬ ∀ l ∈ lines, l.readable = true) {t : Tracker n}
    (h : BetweenLines r waiting exited t) (u : Tracker n) :
    lines.foldlM (handleSent r) t ≠ .ok u := by
  induction lines generalizing waiting exited t with
  | nil => exact absurd nofun hread
  | cons l rest ih =>
      obtain ⟨hfirst, hrest⟩ := hlines
      cases hl : l.readable with
      | true =>
          obtain ⟨v, hv, hbetween, -⟩ := handleSent_due h hfirst hl
          rw [List.foldlM_cons, hv]
          exact ih hrest (fun hall => hread (List.forall_mem_cons.mpr ⟨hl, hall⟩)) hbetween
      | false =>
          obtain ⟨hcalled, hcompletes, o, hrecord, hstop, hfault⟩ := unreadable_record hl
          have hnone : (t.gdbHandle r).find? (fun o => o.isStop) = none := by
            rw [List.find?_eq_none]
            intro o' ho'
            simp [h.alone (hfirst hcalled) o' ho']
          have hopen : l.leavesOpen waiting = true := by
            have hprompt : l.isPrompt = false := by
              cases l <;> first | rfl | cases hcompletes
            simp [Line.leavesOpen, hprompt, hcalled]
          rw [hopen] at hrest
          have hstep : t.handleSent r l = t.respond r (false, t.gdbHandle r ++ [o]) := by
            rw [handleSent, hcompletes, hrecord]
            rfl
          rw [List.foldlM_cons, hstep]
          have hdoomed : Doomed r { t with
              gdbHandle := Function.update t.gdbHandle r (t.gdbHandle r ++ [o]) } := by
            refine ⟨o, _, ?_, hfault⟩
            simp [miGetStopRecord, List.find?_append, hnone, hstop]
          exact hdoomed.run_fails hrest u

/-- With nothing waiting the lines start afresh. -/
theorem betweenLines_start {t : Tracker n} (hempty : t.gdbHandle r = []) (hsafe : t.NoDangling) :
    BetweenLines r false false t := by
  have hnone : ∀ o, o ∉ t.gdbHandle r := fun o ho => by
    rw [hempty] at ho
    cases ho
  exact ⟨hsafe, fun o ho => absurd ho (hnone o), fun _ o ho => absurd ho (hnone o),
    by rw [hempty]; rfl⟩

/-- The state the window has after the lines. -/
theorem handleChunks_heard {t : Tracker n} (hempty : t.gdbHandle r = []) (hsafe : t.NoDangling)
    {groups : List (List SentLine)}
    (hprompted : Prompted false (groups.flatten.map SentLine.line))
    (hread : ∀ l ∈ groups.flatten.map SentLine.line, l.readable = true) :
    ∃ u, t.handleChunks r (groups.map chunkOf) = .ok u ∧
      u.targetState r =
        put (heardFrom false (groups.flatten.map SentLine.line)) (t.targetState r) := by
  obtain ⟨u, hu, hstate⟩ := handleSent_run hprompted hread (betweenLines_start hempty hsafe)
  refine ⟨u, by rw [handleChunks_chunkOf, hu], ?_⟩
  rw [hstate, dueState, hempty, due_nil, put_none]
  split
  · rfl
  · rename_i hnone
    rw [heardFrom_of_incomplete (Bool.eq_false_iff.mpr hnone), put_none]

/-- The target state follows GDB's execution records if and only if each stop the window
reads can be read, and the last record the window hears calls for the same state as the
last execution record there is. -/
theorem targetState_follows_iff {t : Tracker n} (hunknown : t.targetState r = .unknown)
    (hempty : t.gdbHandle r = []) (hsafe : t.NoDangling) {groups : List (List SentLine)}
    (hprompted : Prompted false (groups.flatten.map SentLine.line)) :
    (∃ u, t.handleChunks r (groups.map chunkOf) = .ok u ∧
        u.targetState r = calledState (groups.flatten.map SentLine.line)) ↔
      (∀ l ∈ groups.flatten.map SentLine.line, l.readable = true) ∧
        heardFrom false (groups.flatten.map SentLine.line) =
          lastSome Line.called (groups.flatten.map SentLine.line) := by
  by_cases hread : ∀ l ∈ groups.flatten.map SentLine.line, l.readable = true
  · obtain ⟨u, hu, hstate⟩ := handleChunks_heard hempty hsafe hprompted hread
    have hcalled : lastSome Line.called (groups.flatten.map SentLine.line) ≠ some .unknown := by
      intro h
      obtain ⟨l, -, hl⟩ := exists_of_lastSome h
      exact called_ne_unknown l hl
    have hheard := heardFrom_ne_unknown false (groups.flatten.map SentLine.line)
    have hiff : u.targetState r = calledState (groups.flatten.map SentLine.line) ↔
        heardFrom false (groups.flatten.map SentLine.line) =
          lastSome Line.called (groups.flatten.map SentLine.line) := by
      rw [hstate, hunknown, calledState]
      generalize heardFrom false (groups.flatten.map SentLine.line) = heard at hheard ⊢
      generalize lastSome Line.called (groups.flatten.map SentLine.line) = called at hcalled ⊢
      cases heard with
      | none =>
          cases called with
          | none => simp [put]
          | some state =>
              have hne : TargetState.unknown ≠ state := fun h => hcalled (congrArg some h.symm)
              simp [put, hne]
      | some state =>
          cases called with
          | none =>
              have hne : state ≠ .unknown := fun h => hheard (congrArg some h)
              simp [put, hne]
          | some state' => simp [put]
    constructor
    · rintro ⟨v, hv, hfollows⟩
      obtain rfl := Except.ok.inj (hu.symm.trans hv)
      exact ⟨hread, hiff.mp hfollows⟩
    · rintro ⟨-, hsame⟩
      exact ⟨u, hu, hiff.mpr hsame⟩
  · refine iff_of_false ?_ fun h => hread h.1
    rintro ⟨u, hu, -⟩
    rw [handleChunks_chunkOf] at hu
    exact handleSent_run_fails hprompted hread (betweenLines_start hempty hsafe) u hu

/-- A stop and its prompt; then a breakpoint command resumes the target. -/
def stoppedLines : List SentLine :=
  [⟨.async .empty ⟨.exec, .stopped, []⟩, false⟩,
    ⟨.prompt true, false⟩]

def resumedLines : List SentLine :=
  [⟨.async .empty ⟨.exec, .ofLiteral "running" (by decide) rfl, []⟩, false⟩,
    ⟨.prompt true, false⟩]

theorem prompted_stopped : Prompted false ([stoppedLines].flatten.map SentLine.line) :=
  ⟨fun _ => rfl, nofun, rfl⟩

theorem prompted_resumed :
    Prompted false ([stoppedLines, resumedLines].flatten.map SentLine.line) :=
  ⟨fun _ => rfl, nofun, fun _ => rfl, nofun, rfl⟩

theorem init_noDangling (n : Nat) : (init n).NoDangling := by
  rintro b (⟨q, hq⟩ | ⟨q, number, hq⟩) <;> cases hq

theorem stopped_followed :
    ∃ u, (init 1).handleChunks 0 ([stoppedLines].map chunkOf) = .ok u ∧
      u.targetState 0 = calledState ([stoppedLines].flatten.map SentLine.line) := by
  have hread : ∀ l ∈ [stoppedLines].flatten.map SentLine.line, l.readable = true := by
    intro l hl
    obtain rfl | rfl : l = _ ∨ l = _ := by simpa [stoppedLines] using hl
    · rfl
    · rfl
  exact (targetState_follows_iff (t := init 1) (r := 0) rfl rfl (init_noDangling 1)
    prompted_stopped).mpr ⟨hread, rfl⟩

theorem resumed_not_followed :
    ∃ u, (init 1).handleChunks 0 ([stoppedLines, resumedLines].map chunkOf) = .ok u ∧
      u.targetState 0 = .stopped ∧
      calledState ([stoppedLines, resumedLines].flatten.map SentLine.line) = .running := by
  have hread : ∀ l ∈ [stoppedLines, resumedLines].flatten.map SentLine.line,
      l.readable = true := by
    intro l hl
    obtain rfl | rfl | rfl | rfl : l = _ ∨ l = _ ∨ l = _ ∨ l = _ := by
      simpa [stoppedLines, resumedLines] using hl
    all_goals rfl
  obtain ⟨u, hu, hstate⟩ := handleChunks_heard (t := init 1) (r := 0) rfl (init_noDangling 1)
    prompted_resumed hread
  exact ⟨u, hu, hstate.trans rfl, rfl⟩

end Tracker

end ParallelGdb
