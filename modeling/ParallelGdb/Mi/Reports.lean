import ParallelGdb.Library.Overwrite
import ParallelGdb.Mi.Lines

/-!
# What is read of a written record

The results of a written record all have names, so the functions that look
something up in a record do not fail on it, but for the entries of a list of values:
those of a `value` and of a frame have none. Where a name occurs more than once, the
last reason, frame, file or line counts, and the first exit code.
-/

namespace ParallelGdb.Mi

open Library.CString Library.Overwrite

/-- The last quoted text of this name, under a reading of quoted texts. -/
def Fields.text (name : String) (reading : Quoted → Bytes) (rs : Fields) : Option Bytes :=
  lastSome (fun p =>
    match p.2 with
    | .const s => if p.1.name = ascii name then some (reading s) else none
    | _ => none) rs

/-- The first quoted value of this name. -/
def Fields.firstQuoted (name : String) (rs : Fields) : Option Quoted :=
  rs.findSome? fun p =>
    match p.2 with
    | .const s => if p.1.name = ascii name then some s else none
    | _ => none

/-- The first quoted text of this name, under a reading of quoted texts. -/
def Fields.firstText (name : String) (reading : Quoted → Bytes) (rs : Fields) : Option Bytes :=
  (rs.firstQuoted name).map reading

/-- The results as fields. -/
def Results.fields : Results → Fields
  | .one var v => [(var, v)]
  | .more var v rs => (var, v) :: rs.fields

/-- The fields `mi_parse_frame` goes through, in a tuple as in a list. -/
def Value.frameFields : Value → Option Fields
  | .const _ => none
  | .tuple rs => some rs.fields
  | .results rs => some rs.fields
  | _ => some []

/-- The fields of the last frame. -/
def Fields.frame (rs : Fields) : Option Fields :=
  lastSome (fun p => if p.1.name = ascii "frame" then p.2.frameFields else none) rs

/-- What `mi_parse_frame` keeps of a frame. -/
def Fields.readFrame (res : MiFrames) (rs : Fields) : MiFrames where
  fullname := (rs.text "fullname" Quoted.read).or res.fullname
  line := ((rs.text "line" Quoted.read).map atoi).getD res.line

/-- All values are tuples. -/
def Values.allTuples : Values → Bool
  | .one v => v.isTuple
  | .more v vs => v.isTuple && vs.allTuples

/-- `mi_parse_frame` asks no entry for a name it does not have: of the entries of a list
of values it skips the tuples only. -/
def Value.isFrame : Value → Bool
  | .values vs => vs.allTuples
  | _ => true

/-- A list of values, none of which has a name. -/
def Value.isValues : Value → Bool
  | .values _ => true
  | _ => false

/-- The pointer under the value is not null. -/
def Value.pointer : Value → Bool
  | .emptyTuple => false
  | .emptyList => false
  | _ => true

/-- What the entries of a `value` make of the pointers to the values of a watchpoint. -/
def Fields.watched (wp : Bool × Bool) (rs : Fields) : Bool × Bool :=
  ((lastSome (fun p => if p.1.name = ascii "old" then some p.2.pointer else none) rs).getD wp.1,
    (lastSome (fun p =>
      if p.1.name = ascii "value" ∨ p.1.name = ascii "new" then some p.2.pointer else none)
      rs).getD wp.2)

/-- The pointers behind a result of a stop record. A `value` counts while both are null. -/
def Value.watched (wp : Bool × Bool) (var : VarName) : Value → Bool × Bool
  | .tuple rs => if var.name = ascii "value" ∧ wp = (false, false) then rs.fields.watched wp else wp
  | .results rs =>
      if var.name = ascii "value" ∧ wp = (false, false) then rs.fields.watched wp else wp
  | _ => wp

/-- A result of a stop record can be read. -/
def Value.readable (wp : Bool × Bool) (var : VarName) (v : Value) : Bool :=
  if var.name = ascii "frame" then v.isFrame
  else if var.name = ascii "value" ∧ wp = (false, false) then !v.isValues
  else true

/-- The results of a stop record can be read: `mi_get_stopped` compares the name of no
entry of a list of values. -/
def Fields.readableFrom : Bool × Bool → Fields → Bool
  | _, [] => true
  | wp, (var, v) :: rest => v.readable wp var && readableFrom (v.watched wp var) rest

def Fields.readable (rs : Fields) : Bool := rs.readableFrom (false, false)

section Lookup

theorem tree_var (v : Value) (var : Option Bytes) : (v.tree var).var = var := by
  cases v <;> rfl

theorem results_trees (rs : Results) : rs.trees = rs.fields.trees := by
  cases rs with
  | one var v => rfl
  | more var v rs =>
      rw [Results.trees, results_trees rs]
      rfl

theorem named_tree (var : VarName) (v : Value) (name : String) :
    (v.tree var.name).named name = .ok (decide (var.name = ascii name)) := by
  rw [MiResults.named, tree_var]

/-- The results of a record can be searched. -/
theorem miGetVarR_trees (name : String) (rs : Fields) :
    ∃ found, miGetVarR name rs.trees = .ok found := by
  induction rs with
  | nil => exact ⟨none, rfl⟩
  | cons p rs ih =>
      obtain ⟨found, hfound⟩ := ih
      have htrees : Fields.trees (p :: rs) = p.2.tree p.1.name :: Fields.trees rs := rfl
      rw [htrees, miGetVarR, named_tree]
      by_cases hname : p.1.name = ascii name
      · exact ⟨some (p.2.tree p.1.name), by simp [hname, bind, Except.bind, pure, Except.pure]⟩
      · exact ⟨found, by simpa [hname, bind, Except.bind, pure, Except.pure] using hfound⟩

theorem fields_trees_cons (var : VarName) (v : Value) (rs : Fields) :
    Fields.trees ((var, v) :: rs) = v.tree var.name :: Fields.trees rs := rfl

theorem text_cons (name : String) (reading : Quoted → Bytes) (p : VarName × Value) (rs : Fields) :
    Fields.text name reading (p :: rs) =
      (Fields.text name reading rs).or (Fields.text name reading [p]) := by
  simp only [Fields.text, lastSome_cons, lastSome_nil, Option.none_or]

theorem firstText_cons (name : String) (reading : Quoted → Bytes) (p : VarName × Value)
    (rs : Fields) :
    Fields.firstText name reading (p :: rs) =
      (Fields.firstText name reading [p]).or (Fields.firstText name reading rs) := by
  simp only [Fields.firstText, Fields.firstQuoted, List.findSome?_cons, List.findSome?_nil]
  split <;> simp [*]

/-- One result has a first text if it has a last one. -/
theorem firstText_single (name : String) (reading : Quoted → Bytes) (p : VarName × Value) :
    Fields.firstText name reading [p] = Fields.text name reading [p] := by
  obtain ⟨var, v⟩ := p
  simp only [Fields.firstText, Fields.firstQuoted, Fields.text, List.findSome?_cons,
    List.findSome?_nil, lastSome_cons, lastSome_nil, Option.none_or]
  cases v with
  | const q =>
      by_cases hname : var.name = ascii name
      · simp [hname]
      · simp [hname]
  | _ => rfl

/-- Another reading of a first text that is there. -/
theorem firstText_read {name : String} {rs : Fields} {written : Bytes}
    (h : rs.firstText name Quoted.written = some written) :
    ∃ s : Quoted, s.written = written ∧ rs.firstText name Quoted.read = some s.read := by
  obtain ⟨s, hs, hwritten⟩ := Option.map_eq_some_iff.mp h
  exact ⟨s, hwritten, Option.map_eq_some_iff.mpr ⟨s, hs, rfl⟩⟩

theorem firstText_read_none {name : String} {rs : Fields}
    (h : rs.firstText name Quoted.written = none) : rs.firstText name Quoted.read = none :=
  Option.map_eq_none_iff.mpr (Option.map_eq_none_iff.mp h)

theorem frame_cons (p : VarName × Value) (rs : Fields) :
    Fields.frame (p :: rs) = (Fields.frame rs).or (Fields.frame [p]) := by
  simp only [Fields.frame, lastSome_cons, lastSome_nil, Option.none_or]

theorem text_const (name : String) (reading : Quoted → Bytes) (var : VarName) (s : Quoted) :
    Fields.text name reading [(var, .const s)] =
      if var.name = ascii name then some (reading s) else none := by
  simp only [Fields.text, lastSome_cons, lastSome_nil, Option.none_or]

/-- Only a quoted value has a text. -/
theorem text_other {v : Value} (hv : ∀ s, v ≠ .const s) (name : String)
    (reading : Quoted → Bytes) (var : VarName) : Fields.text name reading [(var, v)] = none := by
  simp only [Fields.text, lastSome_cons, lastSome_nil, Option.none_or]

theorem readFrame_cons (res : MiFrames) (p : VarName × Value) (rs : Fields) :
    Fields.readFrame res (p :: rs) = Fields.readFrame (Fields.readFrame res [p]) rs := by
  simp only [Fields.readFrame, text_cons _ _ p rs, Option.or_assoc, MiFrames.mk.injEq, true_and]
  cases Fields.text "line" Quoted.read rs <;> rfl

/-- One result of a frame. -/
theorem miParseFrame_cons (res : MiFrames) (var : VarName) (v : Value) (rest : List MiResults) :
    miParseFrame res (v.tree var.name :: rest) =
      miParseFrame (Fields.readFrame res [(var, v)]) rest := by
  have hname := named_tree var v
  have hother : (∀ s, v ≠ .const s) → Fields.readFrame res [(var, v)] = res := by
    intro hv
    simp only [Fields.readFrame, text_other hv, Option.none_or, Option.map_none, Option.getD_none]
  cases v with
  | const s =>
      have hne : ascii "line" ≠ ascii "fullname" := by decide
      simp only [Value.tree] at hname
      simp only [Value.tree, miParseFrame, hname, bind, Except.bind, Fields.readFrame, text_const]
      by_cases hfull : var.name = ascii "fullname"
      · simp [hfull, hne.symm]
      · by_cases hline : var.name = ascii "line"
        · simp [hline, hne]
        · simp [hfull, hline]
  | emptyTuple =>
      rw [hother (by simp), Value.tree, miParseFrame]
  | tuple rs =>
      rw [hother (by simp), Value.tree, miParseFrame]
  | emptyList =>
      rw [Value.tree] at hname ⊢
      rw [hother (by simp), miParseFrame, hname]
      rfl
  | results rs =>
      rw [Value.tree] at hname ⊢
      rw [hother (by simp), miParseFrame, hname]
      rfl
  | values vs =>
      rw [Value.tree] at hname ⊢
      rw [hother (by simp), miParseFrame, hname]
      rfl

/-- A frame is read up to its last file and line. -/
theorem miParseFrame_trees (res : MiFrames) (rs : Fields) :
    miParseFrame res rs.trees = .ok (rs.readFrame res) := by
  induction rs generalizing res with
  | nil => rfl
  | cons p rs ih => rw [fields_trees_cons, miParseFrame_cons, ih, ← readFrame_cons]

/-- Of the entries of a list of values a frame keeps nothing. -/
theorem miParseFrame_values (res : MiFrames) (vs : Values) :
    miParseFrame res vs.trees = if vs.allTuples then .ok res else .error .nullName := by
  cases vs with
  | one v => cases v <;> rfl
  | more v vs =>
      rw [Values.trees, Values.allTuples]
      cases v with
      | tuple rs => exact miParseFrame_values res vs
      | emptyTuple => exact miParseFrame_values res vs
      | _ => rfl

end Lookup

section Watchpoints

theorem results_ne_nil (rs : Results) : rs.trees.isEmpty = false := by
  cases rs <;> rfl

theorem values_ne_nil (vs : Values) : vs.trees.isEmpty = false := by
  cases vs <;> rfl

theorem pointer_tree (v : Value) (var : Option Bytes) : (v.tree var).pointer = v.pointer := by
  cases v with
  | tuple rs => exact congrArg (!·) (results_ne_nil rs)
  | results rs => exact congrArg (!·) (results_ne_nil rs)
  | values vs => exact congrArg (!·) (values_ne_nil vs)
  | _ => rfl

theorem watched_cons (wp : Bool × Bool) (p : VarName × Value) (rs : Fields) :
    Fields.watched wp (p :: rs) = Fields.watched (Fields.watched wp [p]) rs := by
  simp only [Fields.watched, lastSome_cons, lastSome_nil, Option.none_or, Option.getD_or]

theorem miGetStoppedValue_tree (wp : Bool × Bool) (var : VarName) (v : Value) :
    miGetStoppedValue wp (v.tree var.name) = .ok (Fields.watched wp [(var, v)]) := by
  have hvalue : ascii "value" ≠ ascii "old" := by decide
  have hnew : ascii "new" ≠ ascii "old" := by decide
  simp only [miGetStoppedValue, named_tree, pointer_tree, bind, Except.bind, pure, Except.pure,
    Fields.watched, lastSome_cons, lastSome_nil, Option.none_or, Bool.or_eq_true,
    decide_eq_true_eq]
  by_cases hname : var.name = ascii "value" ∨ var.name = ascii "new"
  · have hold : var.name ≠ ascii "old" := by
      rcases hname with hname | hname
      · rw [hname]
        exact hvalue
      · rw [hname]
        exact hnew
    simp [hname, hold]
  · rw [if_neg hname, if_neg hname]
    by_cases hold : var.name = ascii "old"
    · simp [hold]
    · simp [hold]

/-- The entries of a tuple are all gone through. -/
theorem foldlM_miGetStoppedValue (wp : Bool × Bool) (rs : Fields) :
    rs.trees.foldlM miGetStoppedValue wp = .ok (rs.watched wp) := by
  induction rs generalizing wp with
  | nil => rfl
  | cons p rs ih =>
      rw [fields_trees_cons, List.foldlM_cons, miGetStoppedValue_tree, watched_cons wp p rs]
      exact ih _

/-- The first entry of a list of values has no name. -/
theorem foldlM_miGetStoppedValue_values (wp : Bool × Bool) (vs : Values) :
    vs.trees.foldlM miGetStoppedValue wp = .error .nullName := by
  cases vs with
  | one v =>
      rw [Values.trees, List.foldlM_cons, miGetStoppedValue, MiResults.named, tree_var]
      rfl
  | more v vs =>
      rw [Values.trees, List.foldlM_cons, miGetStoppedValue, MiResults.named, tree_var]
      rfl

end Watchpoints

section Stops

/-- The pointers to the values of a watchpoint. -/
def MiStop.wp (res : MiStop) : Bool × Bool := (res.wpOld, res.wpVal)

theorem wp_eq_false_iff (res : MiStop) :
    res.wp = (false, false) ↔ (!(res.wpOld || res.wpVal)) = true := by
  rw [MiStop.wp]
  cases res.wpOld <;> cases res.wpVal <;> decide

/-- What is read of a stop record besides the breakpoint. -/
structure ReadsStop (res stop : MiStop) (rs : Fields) : Prop where
  reason : stop.reason = ((rs.text "reason" Quoted.read).map miReasonStrToEnum).getD res.reason
  frame : stop.frame = ((rs.frame).map (Fields.readFrame {})).or res.frame
  haveExitCode : stop.haveExitCode =
    (res.haveExitCode || (rs.firstText "exit-code" Quoted.read).isSome)
  exitCode : stop.exitCode =
    if res.haveExitCode then res.exitCode
    else ((rs.firstText "exit-code" Quoted.read).map atoi).getD res.exitCode

theorem ReadsStop.cons {res mid stop : MiStop} {p : VarName × Value} {rs : Fields}
    (h : ReadsStop res mid [p]) (h' : ReadsStop mid stop rs) : ReadsStop res stop (p :: rs) where
  reason := by
    rw [h'.reason, h.reason, text_cons _ _ p rs]
    cases Fields.text "reason" Quoted.read rs <;> rfl
  frame := by
    rw [h'.frame, h.frame, frame_cons p rs]
    cases Fields.frame rs <;> rfl
  haveExitCode := by
    rw [h'.haveExitCode, h.haveExitCode, firstText_cons _ _ p rs, Bool.or_assoc]
    cases Fields.firstText "exit-code" Quoted.read [p] <;> simp
  exitCode := by
    rw [h'.exitCode, h.haveExitCode, h.exitCode, firstText_cons _ _ p rs]
    cases res.haveExitCode <;> cases Fields.firstText "exit-code" Quoted.read [p] <;> simp

theorem frame_single (var : VarName) (v : Value) :
    Fields.frame [(var, v)] = if var.name = ascii "frame" then v.frameFields else none := by
  simp only [Fields.frame, lastSome_cons, lastSome_nil, Option.none_or]

/-- A quoted result of a stop record. -/
theorem miGetStoppedStep_const (res : MiStop) (var : VarName) (s : Quoted) :
    ∃ stop, miGetStoppedStep res ((Value.const s).tree var.name) = .ok stop ∧
      ReadsStop res stop [(var, .const s)] ∧ stop.wp = res.wp := by
  have hname := named_tree var (.const s)
  have hframe : Fields.frame [(var, .const s)] = none := by
    rw [frame_single]
    exact ite_self none
  simp only [Value.tree] at hname
  simp only [Value.tree, miGetStoppedStep, hname, bind, Except.bind, pure, Except.pure,
    decide_eq_true_eq]
  have hcode : Fields.firstText "exit-code" Quoted.read [(var, .const s)] =
      if var.name = ascii "exit-code" then some s.read else none := by
    rw [firstText_single, text_const]
  by_cases hreason : var.name = ascii "reason"
  · have hne : ascii "reason" ≠ ascii "exit-code" := by decide
    rw [if_pos hreason]
    exact ⟨_, rfl, ⟨by simp [text_const, hreason], by simp [hframe], by simp [hcode, hreason, hne],
      by simp [hcode, hreason, hne]⟩, rfl⟩
  · rw [if_neg hreason]
    have hkeeps : ∀ stop : MiStop, stop.reason = res.reason → stop.frame = res.frame →
        (stop.haveExitCode = (res.haveExitCode || decide (var.name = ascii "exit-code")) ∧
          stop.exitCode = if var.name = ascii "exit-code" ∧ ¬ res.haveExitCode then atoi s.read
            else res.exitCode) → ReadsStop res stop [(var, .const s)] := by
      rintro stop hr hf ⟨hhave, hvalue⟩
      refine ⟨by simp [text_const, hreason, hr], by simp [hframe, hf], ?_, ?_⟩
      · rw [hhave, hcode]
        split <;> simp [*]
      · rw [hvalue, hcode]
        cases res.haveExitCode <;> split <;> simp_all
    by_cases hbkptno : var.name = ascii "bkptno"
    · have hne : ascii "bkptno" ≠ ascii "exit-code" := by decide
      cases hb : res.haveBkptno <;> cases hc : res.haveExitCode <;>
        simp only [hbkptno, hne, Bool.not_true, Bool.not_false, Bool.false_and, Bool.true_and,
          decide_true, decide_false, if_true, if_false, Bool.false_eq_true] <;>
        exact ⟨_, rfl, hkeeps _ rfl rfl (by simp [hbkptno, hne, hc]), rfl⟩
    · cases hb : res.haveBkptno <;> cases hc : res.haveExitCode <;>
        by_cases hexit : var.name = ascii "exit-code" <;>
        simp only [hbkptno, hexit, Bool.not_true, Bool.not_false, Bool.false_and, Bool.true_and,
          decide_true, decide_false, if_true, if_false, Bool.false_eq_true] <;>
        exact ⟨_, rfl, hkeeps _ rfl rfl (by simp [hexit, hc]), rfl⟩

/-- A result that is no text says at most where the stop is. -/
theorem ReadsStop.other {res stop : MiStop} {var : VarName} {v : Value} (hv : ∀ s, v ≠ .const s)
    (hframe : stop.frame = ((Fields.frame [(var, v)]).map (Fields.readFrame {})).or res.frame)
    (hreason : stop.reason = res.reason) (hhave : stop.haveExitCode = res.haveExitCode)
    (hvalue : stop.exitCode = res.exitCode) : ReadsStop res stop [(var, v)] := by
  have hcode : Fields.firstText "exit-code" Quoted.read [(var, v)] = none := by
    rw [firstText_single, text_other hv]
  exact ⟨by simp [text_other hv, hreason], hframe, by simp [hcode, hhave],
    by simp [hcode, hvalue]⟩

/-- A tuple or list of a stop record that can be read. -/
theorem miGetStoppedTuple_ok (res : MiStop) (var : VarName) (v : Value) (rs : List MiResults)
    {frame : Fields} {watched : Bool × Bool} (hv : ∀ s, v ≠ .const s)
    (hframe : var.name = ascii "frame" →
      v.frameFields = some frame ∧ miParseFrame {} rs = .ok (frame.readFrame {}))
    (hvalue : var.name = ascii "value" → res.wp = (false, false) →
      rs.foldlM miGetStoppedValue res.wp = .ok watched)
    (hwatched : v.watched res.wp var =
      if var.name = ascii "value" ∧ res.wp = (false, false) then watched else res.wp) :
    ∃ stop, miGetStoppedTuple res (v.tree var.name) rs = .ok stop ∧
      ReadsStop res stop [(var, v)] ∧ stop.wp = v.watched res.wp var := by
  have hne : ascii "frame" ≠ ascii "value" := by decide
  rw [hwatched]
  simp only [miGetStoppedTuple, named_tree, bind, Except.bind, pure, Except.pure,
    decide_eq_true_eq]
  by_cases hvar : var.name = ascii "frame"
  · obtain ⟨hfields, hparse⟩ := hframe hvar
    rw [if_pos hvar, hparse, if_neg (by simp [hvar, hne])]
    exact ⟨_, rfl, .other hv (by simp [frame_single, hvar, hfields]) rfl rfl rfl, rfl⟩
  · have hold : res.frame = ((Fields.frame [(var, v)]).map (Fields.readFrame {})).or res.frame := by
      simp [frame_single, hvar]
    rw [if_neg hvar]
    by_cases hread : var.name = ascii "value" ∧ res.wp = (false, false)
    · have hloop := hvalue hread.1 hread.2
      rw [MiStop.wp] at hloop
      rw [if_pos hread, (wp_eq_false_iff res).mp hread.2, decide_eq_true hread.1, hloop]
      exact ⟨_, rfl, .other hv hold rfl rfl rfl, rfl⟩
    · have hskip : (!(res.wpOld || res.wpVal) && decide (var.name = ascii "value")) = false := by
        rw [Bool.and_eq_false_iff]
        by_cases hname : var.name = ascii "value"
        · left
          rw [← Bool.not_eq_true, ← wp_eq_false_iff]
          exact fun hwp => hread ⟨hname, hwp⟩
        · exact Or.inr (decide_eq_false hname)
      rw [if_neg hread, hskip]
      exact ⟨_, rfl, .other hv hold rfl rfl rfl, rfl⟩

/-- A result of a stop record that can be read. -/
theorem miGetStoppedStep_tree (res : MiStop) (var : VarName) {v : Value}
    (h : v.readable res.wp var = true) :
    ∃ stop, miGetStoppedStep res (v.tree var.name) = .ok stop ∧
      ReadsStop res stop [(var, v)] ∧ stop.wp = v.watched res.wp var := by
  cases v with
  | const s => exact miGetStoppedStep_const res var s
  | emptyTuple =>
      exact miGetStoppedTuple_ok res var .emptyTuple [] (by simp) (fun _ => ⟨rfl, rfl⟩)
        (fun _ _ => rfl) (ite_self res.wp).symm
  | emptyList =>
      exact miGetStoppedTuple_ok res var .emptyList [] (by simp) (fun _ => ⟨rfl, rfl⟩)
        (fun _ _ => rfl) (ite_self res.wp).symm
  | tuple rs =>
      refine miGetStoppedTuple_ok res var (.tuple rs) rs.trees (by simp) (fun _ => ⟨rfl, ?_⟩)
        (fun _ _ => ?_) rfl
      · rw [results_trees]
        exact miParseFrame_trees {} rs.fields
      · rw [results_trees]
        exact foldlM_miGetStoppedValue res.wp rs.fields
  | results rs =>
      refine miGetStoppedTuple_ok res var (.results rs) rs.trees (by simp) (fun _ => ⟨rfl, ?_⟩)
        (fun _ _ => ?_) rfl
      · rw [results_trees]
        exact miParseFrame_trees {} rs.fields
      · rw [results_trees]
        exact foldlM_miGetStoppedValue res.wp rs.fields
  | values vs =>
      refine miGetStoppedTuple_ok res var (.values vs) vs.trees (by simp)
        (fun hvar => ⟨rfl, ?_⟩) (fun hvar hwp => ?_) (ite_self res.wp).symm
      · rw [Value.readable, if_pos hvar] at h
        have hall : vs.allTuples = true := h
        rw [miParseFrame_values, if_pos hall]
        rfl
      · have hne : ascii "value" ≠ ascii "frame" := by decide
        rw [Value.readable, if_neg (hvar ▸ hne), if_pos ⟨hvar, hwp⟩] at h
        cases h

/-- Where it cannot be read, a name is asked for that is not there. -/
theorem miGetStoppedStep_fault (res : MiStop) (var : VarName) {v : Value}
    (h : v.readable res.wp var = false) :
    miGetStoppedStep res (v.tree var.name) = .error .nullName := by
  obtain ⟨vs, rfl⟩ : ∃ vs, v = .values vs := by
    cases v with
    | values vs => exact ⟨vs, rfl⟩
    | _ => simp [Value.readable, Value.isFrame, Value.isValues] at h
  have hstep : miGetStoppedStep res ((Value.values vs).tree var.name) =
      miGetStoppedTuple res ((Value.values vs).tree var.name) vs.trees := rfl
  rw [hstep]
  simp only [miGetStoppedTuple, named_tree, bind, Except.bind, pure, Except.pure,
    decide_eq_true_eq]
  rw [Value.readable] at h
  by_cases hvar : var.name = ascii "frame"
  · rw [if_pos hvar] at h
    have hall : vs.allTuples = false := h
    rw [if_pos hvar, miParseFrame_values, if_neg (by simp [hall])]
  · rw [if_neg hvar] at h
    by_cases hread : var.name = ascii "value" ∧ res.wp = (false, false)
    · rw [if_neg hvar, (wp_eq_false_iff res).mp hread.2, decide_eq_true hread.1,
        foldlM_miGetStoppedValue_values]
      rfl
    · rw [if_neg hread] at h
      cases h

/-- What is read of the results, if they can be read. -/
theorem foldlM_miGetStoppedStep (res : MiStop) (rs : Fields) :
    if rs.readableFrom res.wp then
      ∃ stop, rs.trees.foldlM miGetStoppedStep res = .ok stop ∧ ReadsStop res stop rs
    else rs.trees.foldlM miGetStoppedStep res = .error .nullName := by
  induction rs generalizing res with
  | nil =>
      exact ⟨res, rfl, rfl, rfl, by simp [Fields.firstText, Fields.firstQuoted],
        by simp [Fields.firstText, Fields.firstQuoted]⟩
  | cons p rs ih =>
      obtain ⟨var, v⟩ := p
      rw [Fields.readableFrom, fields_trees_cons, List.foldlM_cons]
      cases hreadable : v.readable res.wp var with
      | false =>
          rw [miGetStoppedStep_fault res var hreadable]
          rfl
      | true =>
          obtain ⟨mid, hmid, hread, hwp⟩ := miGetStoppedStep_tree res var hreadable
          have hrest := ih mid
          rw [hwp] at hrest
          rw [Bool.true_and, hmid]
          split
          · rename_i hpos
            rw [if_pos hpos] at hrest
            obtain ⟨stop, hstop, hlast⟩ := hrest
            exact ⟨stop, hstop, hread.cons hlast⟩
          · rename_i hneg
            rw [if_neg hneg] at hrest
            exact hrest

/-- A written stop record that can be read. -/
theorem miGetStopped_trees {rs : Fields} (h : rs.readable = true) :
    ∃ stop, miGetStopped rs.trees = .ok stop ∧ ReadsStop {} stop rs := by
  have hrun := foldlM_miGetStoppedStep {} rs
  have hpos : rs.readableFrom (MiStop.wp {}) = true := h
  rwa [if_pos hpos] at hrun

theorem miGetStopped_fault {rs : Fields} (h : rs.readable = false) :
    miGetStopped rs.trees = .error .nullName := by
  have hrun := foldlM_miGetStoppedStep {} rs
  have hneg : ¬ rs.readableFrom (MiStop.wp {}) = true := Bool.eq_false_iff.mp h
  rwa [if_neg hneg] at hrun

/-- `mi_get_stopped` reads exactly the records that can be read. -/
theorem miGetStopped_trees_iff (rs : Fields) :
    (∃ stop, miGetStopped rs.trees = .ok stop) ↔ rs.readable = true := by
  constructor
  · rintro ⟨stop, hstop⟩
    by_contra h
    rw [miGetStopped_fault (Bool.eq_false_iff.mpr h)] at hstop
    cases hstop
  · intro h
    obtain ⟨stop, hstop, -⟩ := miGetStopped_trees h
    exact ⟨stop, hstop⟩

end Stops

end ParallelGdb.Mi
