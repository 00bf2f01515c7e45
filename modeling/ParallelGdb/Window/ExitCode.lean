import ParallelGdb.Library.Digits
import ParallelGdb.Tabs.Paint
import ParallelGdb.Window.SourcePosition

/-!
# The exit code of a rank

GDB writes an exit code in octal and `mi_get_stopped` reads it in base ten. With
no exit code in the record the one of a stop is zero, so a rank that was killed by
a signal looks like one that ended normally.
-/

namespace ParallelGdb

open Library.CString Library.Overwrite Mi Std

/-- How GDB says that a target is gone. -/
inductive Termination
  | exited (e : Nat) (pos : 0 < e) (fits : e < 2 ^ 31)
  | exitedNormally
  | exitedSignalled

namespace Termination

/-- The text of the reason. -/
def reason : Termination → String
  | exited _ _ _ => "exited"
  | exitedNormally => "exited-normally"
  | exitedSignalled => "exited-signalled"

/-- The text of the exit code: a zero and the octal digits. -/
def exitCode : Termination → Option Bytes
  | exited e _ _ => some (code '0' :: digitsIn 8 e)
  | exitedNormally => none
  | exitedSignalled => none

/-- The results of a stop record that reports a termination. -/
structure ReportedBy (t : Termination) (results : Fields) : Prop where
  reason : results.text "reason" Quoted.written = some (ascii t.reason)
  exitCode : results.firstText "exit-code" Quoted.written = t.exitCode

/-- The exit code says how the target ended. -/
def Recorded (exitCode : Int) : Termination → Prop
  | exited e _ _ => exitCode = e
  | exitedNormally => exitCode = 0
  | exitedSignalled => exitCode ≠ 0

/-- The terminations whose exit code is the same in both bases. -/
def Plain : Termination → Prop
  | exited e _ _ => e < 8
  | exitedNormally => True
  | exitedSignalled => False

/-- The exit code that is read of a report. -/
def readCode : Termination → Int
  | exited e _ _ => toInt32 (misread e)
  | exitedNormally => 0
  | exitedSignalled => 0

theorem recorded_readCode_iff (t : Termination) : t.Recorded t.readCode ↔ t.Plain := by
  cases t with
  | exited e pos fits => exact toInt32_misread_iff fits
  | exitedNormally => exact iff_of_true rfl trivial
  | exitedSignalled => exact iff_of_false (fun h => h rfl) not_false

section Reading

variable {t : Termination} {results : Fields}

/-- The reason is one of an exit. -/
theorem isExit_reason (t : Termination) : (miReasonStrToEnum (ascii t.reason)).isExit = true := by
  have hall : ∀ s ∈ ["exited", "exited-normally", "exited-signalled"],
      (miReasonStrToEnum (ascii s)).isExit = true := by decide +kernel
  exact hall t.reason (by cases t <;> simp [reason])

theorem reason_plain (t : Termination) :
    ∀ c ∈ ascii t.reason, c ≠ 0 ∧ c ≠ code '\n' ∧ c ≠ code '"' ∧ c ≠ code '\\' := by
  have hall : ∀ s ∈ ["exited", "exited-normally", "exited-signalled"], ∀ c ∈ ascii s,
      c ≠ 0 ∧ c ≠ code '\n' ∧ c ≠ code '"' ∧ c ≠ code '\\' := by decide +kernel
  exact hall t.reason (by cases t <;> simp [reason])

theorem isDigit_exitCode (e : Nat) : ∀ c ∈ code '0' :: digitsIn 8 e, isDigit c = true :=
  List.forall_mem_cons.mpr
    ⟨by decide, isDigit_of_mem_digitsIn (by decide) (by decide) e⟩

/-- `atoi` does not know the leading zero of an octal number. -/
theorem atoi_exitCode {e : Nat} (he : e < 2 ^ 31) :
    atoi (code '0' :: digitsIn 8 e) = toInt32 (misread e) := by
  have hvalue : digitsValue (code '0' :: digitsIn 8 e) = misread e := rfl
  have hbound := misread_le 11 e (by omega)
  rw [atoi_of_digits (isDigit_exitCode e) (by omega), hvalue]

/-- The reason and the exit code of a report as they are read. -/
theorem ReportedBy.readStop (h : t.ReportedBy results) {stop : MiStop}
    (hreads : ReadsStop {} stop results) :
    stop.reason.isExit = true ∧ stop.exitCode = t.readCode := by
  constructor
  · obtain ⟨s, hs, hread⟩ := Fields.text_read h.reason
    rw [hreads.reason, hread, Option.map_some, Option.getD_some, read_of_plain hs t.reason_plain]
    exact t.isExit_reason
  · have hcode := h.exitCode
    have hnone : t.exitCode = none →
        ((results.firstText "exit-code" Quoted.read).map atoi).getD 0 = 0 := by
      intro ht
      rw [ht] at hcode
      rw [firstText_read_none hcode]
      rfl
    rw [hreads.exitCode, if_neg Bool.false_ne_true]
    cases t with
    | exited e pos fits =>
        obtain ⟨s, hs, hread⟩ := firstText_read hcode
        have hplain := read_of_plain hs fun c hc => plain_of_isDigit (isDigit_exitCode e c hc)
        rw [hread, Option.map_some, Option.getD_some, hplain, atoi_exitCode fits]
        rfl
    | exitedNormally => exact hnone rfl
    | exitedSignalled => exact hnone rfl

end Reading

end Termination

namespace UIWindow

variable {n : Nat} {w u : UIWindow n} {rank : Fin n} {load : Bytes → SourceFile}

/-- The Exited row shows a zero for a rank, without a colour. -/
def ShowsPlainZero (w : UIWindow n) (rank : Fin n) : Prop :=
  ∃ shown, w.labelAt (column rank) 4 = some shown ∧ shown.text = ascii "0" ∧ shown.color = none

/-- The window knows how a rank ended, and only a normal end looks like one. -/
structure Knows (w : UIWindow n) (rank : Fin n) (t : Termination) : Prop where
  exitCode : t.Recorded (w.tracker.exitCode rank)
  plainZero : w.ShowsPlainZero rank → t = .exitedNormally

/-- `check_overview` shows the exit code of a rank that has exited. -/
theorem checkOverview_exited {es : List (Entry n)} (h : w.Shows es)
    (hstate : w.tracker.targetState rank = .exited) (hu : w.checkOverview rank = .ok u) :
    u.labelAt (column rank) 4 = some {
      text := decimal (w.tracker.exitCode rank)
      tooltip := ascii "Exited with code: " ++ decimal (w.tracker.exitCode rank)
      color := if w.tracker.exitCode rank ≠ 0 then some 0 else none } := by
  let clear (shown : Label) : Label := { shown with text := [], tooltip := [] }
  obtain ⟨v, hv, hredrawn⟩ := withLabel_ok (h.running rank) .nullLabel clear
  obtain ⟨es', -, hes'⟩ := hredrawn.shows es h
  obtain ⟨v', hv', hredrawn'⟩ := withLabel_ok (hes'.exited rank) .nullLabel clear
  have hcleared := hredrawn.trans (hredrawn'.trans (redrawn_clearLabelsOverview v' rank))
  obtain ⟨es'', -, hes''⟩ := hcleared.shows es h
  obtain ⟨shown, hshown⟩ := Option.isSome_iff_exists.mp (hes''.exited rank)
  have htracker : v'.tracker = w.tracker := (hredrawn.trans hredrawn').tracker
  have hlast (f : Label → Label) : withLabel .nullLabel (v'.clearLabelsOverview rank)
      (column rank) 4 f = .ok ((v'.clearLabelsOverview rank).editLabel (column rank) 4 f) := by
    rw [withLabel, hshown]
  unfold checkOverview at hu
  simp only [clear] at hv hv'
  simp only [hv, hv', htracker, hstate, bind, Except.bind, hlast, Except.ok.injEq] at hu
  rw [← hu, labelAt_editLabel hes''.placed, if_pos ⟨rfl, rfl⟩, hshown, Option.map_some]

theorem showsPlainZero_iff {es : List (Entry n)} (h : w.Shows es)
    (hstate : w.tracker.targetState rank = .exited) (hu : w.checkOverview rank = .ok u) :
    u.ShowsPlainZero rank ↔ w.tracker.exitCode rank = 0 := by
  have hshown := checkOverview_exited h hstate hu
  constructor
  · rintro ⟨shown, hlabel, -, hcolor⟩
    obtain rfl := Option.some.inj (hshown.symm.trans hlabel)
    by_contra hcode
    simp [hcode] at hcolor
  · intro hcode
    rw [hcode] at hshown
    exact ⟨_, hshown, rfl, rfl⟩

section Report

variable {results : Fields}
variable {stopCr promptCr blank : Bool} {t : Termination}

/-- A report of a termination leaves its rank exited with the code that is read. -/
theorem handleDataGdb_exit (hn : 0 < n) (hw : ∃ es, w.Shows es)
    (hwait : ∀ o ∈ w.tracker.gdbHandle rank, o.isStop = false) (ht : t.ReportedBy results)
    (hu : w.handleDataGdb rank load
      (chunkOf (stopReport results stopCr promptCr blank)) = .ok u) :
    u.tracker.exitCode rank = t.readCode ∧ (u.ShowsPlainZero rank ↔ t.readCode = 0) := by
  obtain ⟨stop, -, hstop, hreads⟩ := stopOf_stopRecord (readable_of_handled hn hw hwait hu)
  obtain ⟨hexit, hcode⟩ := ht.readStop hreads
  obtain ⟨v, hv, hadvanced, -, hstatus⟩ := handleDataGdb_stopReport_cases hn hw hu
  obtain ⟨es, hes⟩ := hadvanced.shown
  obtain ⟨v', hv', hredrawn⟩ := checkOverview_ok hes rank
  obtain rfl := Except.ok.inj (hv'.symm.trans hv)
  -- A position in the report changes neither state nor exit code.
  have hposition : (positionChanges stop).targetState = none ∧
      (positionChanges stop).exitCode = none := by
    rw [positionChanges]
    split <;> exact ⟨rfl, rfl⟩
  rw [responseChanges_stop hwait hstop] at hstatus
  have hstate : v.tracker.targetState rank = .exited := by
    have := congrArg Status.targetState hstatus
    simp only [Changes.apply, Changes.andThen, stopChanges, exitChanges, hexit, if_true,
      hposition.1, Option.none_or, Option.some_or, put_some] at this
    exact this
  have hvalue : v.tracker.exitCode rank = t.readCode := by
    have := congrArg Status.exitCode hstatus
    simp only [Changes.apply, Changes.andThen, stopChanges, exitChanges, hexit, if_true,
      hposition.2, Option.none_or, Option.some_or, put_some, hcode] at this
    exact this
  rw [hredrawn.tracker, showsPlainZero_iff hes hstate hv, hvalue]
  exact ⟨rfl, Iff.rfl⟩

/-- The window knows how a rank ended exactly if the report can be read and the rank
ended normally or with an exit code of one octal digit. -/
theorem termination_known_iff (hn : 0 < n) (hw : ∃ es, w.Shows es)
    (hwait : ∀ o ∈ w.tracker.gdbHandle rank, o.isStop = false) (ht : t.ReportedBy results) :
    (w.tracker.NoDangling → (∀ o ∈ w.tracker.gdbHandle rank, Readable o) →
      ((∃ u, w.handleDataGdb rank load
          (chunkOf (stopReport results stopCr promptCr blank)) = .ok u ∧ u.Knows rank t) ↔
        results.readable = true ∧ t.Plain)) ∧
    ∀ u, w.handleDataGdb rank load
        (chunkOf (stopReport results stopCr promptCr blank)) = .ok u →
      (u.Knows rank t ↔ t.Plain) := by
  have hknows : ∀ u, w.handleDataGdb rank load
        (chunkOf (stopReport results stopCr promptCr blank)) = .ok u →
      (u.Knows rank t ↔ t.Plain) := by
    intro u hu
    obtain ⟨hcode, hzero⟩ := handleDataGdb_exit hn hw hwait ht hu
    rw [← t.recorded_readCode_iff]
    constructor
    · intro h
      exact hcode ▸ h.exitCode
    · intro h
      refine ⟨hcode.symm ▸ h, fun hplain => ?_⟩
      have hread := hzero.mp hplain
      rw [hread] at h
      cases t with
      | exited e pos fits =>
          have he : (0 : Int) = e := h
          omega
      | exitedNormally => rfl
      | exitedSignalled => exact absurd rfl h
  refine ⟨fun hsafe hread => ⟨?_, ?_⟩, hknows⟩
  · rintro ⟨u, hu, hknown⟩
    exact ⟨readable_of_handled hn hw hwait hu, (hknows u hu).mp hknown⟩
  · rintro ⟨hreadable, hplain⟩
    obtain ⟨u, hu⟩ := handleDataGdb_stopReport_ok hn hw hsafe hread hreadable
    exact ⟨u, hu, (hknows u hu).mpr hplain⟩

end Report

section Reports

/-- The results of an exit with an exit code. -/
def exitResults (reason exitCode : Quoted) : Fields :=
  [(.ofLiteral "reason" (by decide) rfl, .const reason),
    (.ofLiteral "exit-code" (by decide) rfl, .const exitCode)]

theorem exitResults_readable (reason exitCode : Quoted) :
    (exitResults reason exitCode).readable = true := rfl

/-- What GDB writes when the target exits with an exit code. -/
theorem chunkOf_exit (reason exitCode : Quoted) :
    chunkOf (stopReport (exitResults reason exitCode) false false true) =
      ascii "*stopped,reason=\"" ++ reason.written ++ ascii "\",exit-code=\"" ++
        exitCode.written ++ ascii "\"\n(gdb) \n" := by
  simp [chunkOf, SentLine.written, stopReport, stopLine, Line.written, exitResults,
    Fields.written, Value.written, VarName.ofLiteral, VarName.stopped, Token.empty,
    ascii, AsyncType.mark]

/-- Every exit code can be reported. -/
theorem exists_exitReport (e : Nat) (pos : 0 < e) (fits : e < 2 ^ 31) :
    ∃ reason exitCode : Quoted,
      (Termination.exited e pos fits).ReportedBy (exitResults reason exitCode) ∧
      reason.written = ascii "exited" ∧ exitCode.written = code '0' :: digitsIn 8 e := by
  obtain ⟨reason, hreason, -⟩ := exists_plain (Termination.exited e pos fits).reason_plain
  obtain ⟨exitCode, hcode, -⟩ :=
    exists_plain fun c hc => plain_of_isDigit (Termination.isDigit_exitCode e c hc)
  refine ⟨reason, exitCode, ⟨?_, ?_⟩, hreason, hcode⟩
  · exact congrArg some hreason
  · exact congrArg some hcode

theorem smallCode_known :
    ∃ u : UIWindow 1, (init 1).initOverview.handleDataGdb 0 missingFile
        (ascii "*stopped,reason=\"exited\",exit-code=\"03\"\n(gdb) \n") = .ok u ∧
      u.Knows 0 (.exited 3 (by decide) (by decide)) := by
  obtain ⟨reason, exitCode, hreported, hreason, hcode⟩ :=
    exists_exitReport 3 (by decide) (by decide)
  obtain ⟨hiff, -⟩ := @termination_known_iff 1 (init 1).initOverview 0 missingFile
    (exitResults reason exitCode) false false true _ (by decide) ⟨[], shows_initOverview⟩ nofun
    hreported
  obtain ⟨u, hu, hknown⟩ := (hiff (Tracker.init_noDangling 1) nofun).mpr
    ⟨exitResults_readable reason exitCode, (by decide : 3 < 8)⟩
  refine ⟨u, ?_, hknown⟩
  have hwritten : ascii "*stopped,reason=\"" ++ ascii "exited" ++ ascii "\",exit-code=\"" ++
      code '0' :: digitsIn 8 3 ++ ascii "\"\n(gdb) \n" =
      ascii "*stopped,reason=\"exited\",exit-code=\"03\"\n(gdb) \n" := by decide +kernel
  rw [chunkOf_exit, hreason, hcode, hwritten] at hu
  exact hu

/-- An exit code of 255 is written in octal and read as 377. -/
theorem octalCode_misread :
    ∃ u : UIWindow 1, (init 1).initOverview.handleDataGdb 0 missingFile
        (ascii "*stopped,reason=\"exited\",exit-code=\"0377\"\n(gdb) \n") = .ok u ∧
      u.tracker.exitCode 0 = 377 ∧ ¬ u.Knows 0 (.exited 255 (by decide) (by decide)) := by
  obtain ⟨reason, exitCode, hreported, hreason, hcode⟩ :=
    exists_exitReport 255 (by decide) (by decide)
  have hshown : ∃ es, ((init 1).initOverview).Shows es := ⟨[], shows_initOverview⟩
  obtain ⟨u, hu⟩ := @handleDataGdb_stopReport_ok 1 (init 1).initOverview 0 missingFile
    (exitResults reason exitCode) false false true (by decide) hshown
    (Tracker.init_noDangling 1) nofun (exitResults_readable reason exitCode)
  obtain ⟨hread, -⟩ := handleDataGdb_exit (by decide) hshown nofun hreported hu
  have hvalue : u.tracker.exitCode 0 = 377 := hread.trans (by decide +kernel)
  refine ⟨u, ?_, hvalue, ?_⟩
  · have hwritten : ascii "*stopped,reason=\"" ++ ascii "exited" ++ ascii "\",exit-code=\"" ++
        code '0' :: digitsIn 8 255 ++ ascii "\"\n(gdb) \n" =
        ascii "*stopped,reason=\"exited\",exit-code=\"0377\"\n(gdb) \n" := by decide +kernel
    rw [chunkOf_exit, hreason, hcode, hwritten] at hu
    exact hu
  · rintro ⟨hrecorded, -⟩
    have h255 : u.tracker.exitCode 0 = 255 := hrecorded
    rw [hvalue] at h255
    exact absurd h255 (by decide)

end Reports

end UIWindow

end ParallelGdb
