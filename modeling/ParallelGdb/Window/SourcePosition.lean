import ParallelGdb.Mi.Encoding
import ParallelGdb.Tabs.Labels
import ParallelGdb.Window.Execution

/-!
# The source position of a stop

GDB reports the path of a stop as a quoted text. The window takes the path as it
reads this text, for the current file of the rank as for its tabs.
-/

namespace ParallelGdb

open Library.CString Library.Overwrite Mi Std

/-- Another reading of a text that is there. -/
theorem Mi.Fields.text_read {name : String} {rs : Fields} {written : Bytes}
    (h : rs.text name Quoted.written = some written) :
    ∃ s : Quoted, s.written = written ∧ rs.text name Quoted.read = some s.read := by
  induction rs with
  | nil => cases h
  | cons p rs ih =>
      rw [text_cons] at h ⊢
      cases hrest : Fields.text name Quoted.written rs with
      | some written' =>
          rw [hrest, Option.some_or] at h
          obtain rfl := Option.some.inj h
          obtain ⟨s, hs, hread⟩ := ih hrest
          exact ⟨s, hs, by rw [hread, Option.some_or]⟩
      | none =>
          have hnone : Fields.text name Quoted.read rs = none := by
            apply lastSome_eq_none.mpr
            intro q hq
            have hq' := lastSome_eq_none.mp hrest q hq
            obtain ⟨var, v⟩ := q
            cases v with
            | const s =>
                by_cases hvar : var.name = ascii name
                · simp [hvar] at hq'
                · simp [hvar]
            | _ => rfl
          rw [hrest, Option.none_or] at h
          rw [hnone, Option.none_or]
          obtain ⟨var, v⟩ := p
          cases v with
          | const s =>
              rw [text_const] at h ⊢
              split at h
              · rename_i hvar
                exact ⟨s, Option.some.inj h, if_pos hvar⟩
              · cases h
          | _ =>
              rw [text_other (by simp)] at h
              cases h

namespace UIWindow

variable {n : Nat}

/-- `*stopped` with these results. -/
def stopLine (results : Fields) : Line := .async .empty ⟨.exec, .stopped, results⟩

/-- A stop and the prompt behind it. -/
def stopReport (results : Fields) (stopCr promptCr blank : Bool) : List SentLine :=
  [⟨stopLine results, stopCr⟩, ⟨.prompt blank, promptCr⟩]

/-- The record of a stop. -/
def stopRecord (results : Fields) : MiOutput where
  sstype := .exec
  tclass := .stopped
  c := results.trees

/-- The window with these records in the handle of a rank. -/
def withHandle (w : UIWindow n) (rank : Fin n) (records : List MiOutput) : UIWindow n :=
  { w with tracker :=
    { w.tracker with gdbHandle := Function.update w.tracker.gdbHandle rank records } }

section Report

variable {w u : UIWindow n} {rank : Fin n} {load : Bytes → SourceFile}
variable {results : Fields}
variable {stopCr promptCr blank : Bool}

theorem stopLine_record : (stopLine results).record = some (stopRecord results) := by
  have hclass : asyncClass VarName.stopped.name = some .stopped :=
    if_pos rfl
  simp only [stopLine, Line.record, hclass, Option.map_some]
  rfl

/-- A stop report is handled as one response. -/
theorem handleDataGdb_stopReport :
    w.handleDataGdb rank load (chunkOf (stopReport results stopCr promptCr blank)) = (do
      let w ← handleResponse rank load (w.withHandle rank [])
        (w.tracker.gdbHandle rank ++ [stopRecord results])
      w.checkOverview rank) := by
  have hopen : w.handleSent rank load (stopLine results) =
      .ok (w.withHandle rank (w.tracker.gdbHandle rank ++ [stopRecord results])) := by
    rw [handleSent, stopLine_record]
    rfl
  have hclose : ∀ w : UIWindow n, w.handleSent rank load (.prompt blank) =
      handleResponse rank load (w.withHandle rank []) (w.tracker.gdbHandle rank) := by
    intro w
    simp [handleSent, respond, Line.completes, Line.record, withHandle]
  have hlines : ((stopReport results stopCr promptCr blank).map SentLine.line).foldlM
      (handleSent rank load) w = handleResponse rank load (w.withHandle rank [])
        (w.tracker.gdbHandle rank ++ [stopRecord results]) := by
    simp only [stopReport, List.map_cons, List.map_nil, List.foldlM_cons, List.foldlM_nil, hopen,
      bind_pure]
    refine (hclose _).trans ?_
    simp only [withHandle, Function.update_idem, Function.update_self]
  rw [handleDataGdb_chunkOf, hlines]

/-- The stop of a stop report can be read. -/
theorem stopOf_stopRecord (hreadable : results.readable = true) :
    ∃ stop, miGetStopped (stopRecord results).c = .ok stop ∧
      stopOf (stopRecord results) = some stop ∧ ReadsStop {} stop results := by
  obtain ⟨stop, hstop, hreads⟩ := miGetStopped_trees hreadable
  refine ⟨stop, hstop, ?_, hreads⟩
  have hread : miGetStopped (stopRecord results).c = .ok stop := hstop
  rw [stopOf, hread]
  rfl

/-- The stop of a report is the one a response looks for if no other waits. -/
theorem miGetStopRecord_append (hwait : ∀ o ∈ w.tracker.gdbHandle rank, o.isStop = false) :
    miGetStopRecord (w.tracker.gdbHandle rank ++ [stopRecord results]) =
      some (stopRecord results) := by
  have hnone : (w.tracker.gdbHandle rank).find? (fun o => o.isStop) = none := by
    rw [List.find?_eq_none]
    intro o ho
    rw [hwait o ho]
    exact Bool.false_ne_true
  rw [miGetStopRecord, List.find?_append, hnone]
  rfl

/-- A stop report assigns what its response says, and then its rank is drawn. -/
theorem handleDataGdb_stopReport_cases (hn : 0 < n) (hw : ∃ es, w.Shows es)
    (hu : w.handleDataGdb rank load
      (chunkOf (stopReport results stopCr promptCr blank)) = .ok u) :
    ∃ v : UIWindow n, v.checkOverview rank = .ok u ∧
      Advanced rank (responsePath (w.tracker.gdbHandle rank ++ [stopRecord results])).toList
        (w.withHandle rank []) v ∧
      Tracker.respond rank w.tracker (true, w.tracker.gdbHandle rank ++ [stopRecord results]) =
        .ok v.tracker ∧
      v.tracker.status rank =
        (responseChanges (w.tracker.gdbHandle rank ++ [stopRecord results])).apply
          (w.tracker.status rank) := by
  obtain ⟨es, hes⟩ := hw
  have hes' : (w.withHandle rank []).Shows es := hes.withTracker _
  rw [handleDataGdb_stopReport] at hu
  cases hv : UIWindow.handleResponse rank load (w.withHandle rank [])
      (w.tracker.gdbHandle rank ++ [stopRecord results]) with
  | error e => simp [hv, bind, Except.bind] at hu
  | ok v =>
      simp only [hv, bind, Except.bind] at hu
      obtain ⟨htracker, hadvanced⟩ := handleResponse_advances hes' hn hv
      have hstatus := Tracker.status_handleResponse htracker
      exact ⟨v, hu, hadvanced, htracker, hstatus⟩

/-- A stop report that is handled can be read. -/
theorem readable_of_handled (hn : 0 < n) (hw : ∃ es, w.Shows es)
    (hwait : ∀ o ∈ w.tracker.gdbHandle rank, o.isStop = false)
    (hu : w.handleDataGdb rank load (chunkOf (stopReport results stopCr promptCr blank)) = .ok u) :
    results.readable = true := by
  obtain ⟨v, -, -, htracker, -⟩ := handleDataGdb_stopReport_cases hn hw hu
  by_contra hreadable
  exact Tracker.respond_fails (miGetStopRecord_append hwait)
    (miGetStopped_fault (Bool.eq_false_iff.mpr hreadable)) v.tracker htracker

/-- What a response assigns in which this stop is the only one. -/
theorem responseChanges_stop (hwait : ∀ o ∈ w.tracker.gdbHandle rank, o.isStop = false)
    {stop : MiStop} (hstop : stopOf (stopRecord results) = some stop) :
    responseChanges (w.tracker.gdbHandle rank ++ [stopRecord results]) =
      (Changes.along classChanges (w.tracker.gdbHandle rank ++ [stopRecord results])).andThen
        (stopChanges stop) := by
  rw [responseChanges, miGetStopRecord_append hwait, Option.bind_some, hstop]
  rfl

/-- A stop report brings its rank to the position that is read in it. -/
theorem handleDataGdb_position (hn : 0 < n) (hw : ∃ es, w.Shows es)
    (hwait : ∀ o ∈ w.tracker.gdbHandle rank, o.isStop = false) {fs : Fields}
    (hfs : results.frame = some fs) {path line : Bytes}
    (hpath : fs.text "fullname" Quoted.read = some path)
    (hline : fs.text "line" Quoted.read = some line)
    (hu : w.handleDataGdb rank load
      (chunkOf (stopReport results stopCr promptCr blank)) = .ok u) :
    u.tracker.currentFile rank = path ∧ u.tracker.currentLine rank = atoi line ∧
      path ∈ u.maps.openedFiles := by
  obtain ⟨stop, hread, hstop, hreads⟩ :=
    stopOf_stopRecord (readable_of_handled hn hw hwait hu)
  have hposition : Tracker.stopPosition stop = some (path, atoi line) := by
    rw [Tracker.stopPosition, hreads.frame, hfs]
    simp [Fields.readFrame, hpath, hline]
  have hpath' : responsePath (w.tracker.gdbHandle rank ++ [stopRecord results]) = some path := by
    have hres : miResStop (w.tracker.gdbHandle rank ++ [stopRecord results]) =
        .ok (some stop) := by
      simp only [miResStop, miGetStopRecord_append hwait, hread, bind, Except.bind, pure,
        Except.pure]
    rw [responsePath, hres]
    simp only [Tracker.stopPath, hposition, Option.map_some]
  obtain ⟨v, hv, hadvanced, -, hstatus⟩ := handleDataGdb_stopReport_cases hn hw hu
  obtain ⟨es, hes⟩ := hadvanced.shown
  obtain ⟨v', hv', hredrawn⟩ := checkOverview_ok hes rank
  obtain rfl := Except.ok.inj (hv'.symm.trans hv)
  have hopened : path ∈ v.maps.openedFiles := by
    rw [hes.mem_openedFiles, hadvanced.paths, hpath']
    simp
  obtain ⟨es', -, hes'⟩ := hredrawn.shows es hes
  rw [responseChanges_stop hwait hstop] at hstatus
  refine ⟨?_, ?_, ?_⟩
  · rw [hredrawn.tracker]
    have hfile := congrArg Status.currentFile hstatus
    simp only [Changes.apply, Changes.andThen, stopChanges, positionChanges, hposition,
      Option.some_or, put_some] at hfile
    exact hfile
  · rw [hredrawn.tracker]
    have hline' := congrArg Status.currentLine hstatus
    simp only [Changes.apply, Changes.andThen, stopChanges, positionChanges, hposition,
      Option.some_or, put_some] at hline'
    exact hline'
  · rw [hes'.mem_openedFiles, (hredrawn.advanced hes rank).paths, ← hes.mem_openedFiles]
    exact Or.inl hopened

/-- A stop report that can be read is handled, unless it hits a breakpoint that is gone. -/
theorem handleDataGdb_stopReport_ok (hn : 0 < n) (hw : ∃ es, w.Shows es)
    (hsafe : w.tracker.NoDangling) (hread : ∀ o ∈ w.tracker.gdbHandle rank, Readable o)
    (hreadable : results.readable = true) :
    ∃ u, w.handleDataGdb rank load
      (chunkOf (stopReport results stopCr promptCr blank)) = .ok u := by
  obtain ⟨es, hes⟩ := hw
  let first := w.tracker.gdbHandle rank ++ [stopRecord results]
  have hfirst : ∀ o ∈ first, Readable o := by
    intro o ho
    rcases List.mem_append.mp ho with ho | ho
    · exact hread o ho
    · have hline : (stopLine results).readable = true := by
        simp [stopLine, Line.readable, hreadable]
      rw [List.mem_singleton.mp ho]
      exact record_readable hline _ stopLine_record
  obtain ⟨t, ht, -⟩ := Tracker.respond_complete (r := rank) hsafe hfirst
  have hsim :=
    handleResponse_sim (hes.withTracker (w.withHandle rank []).tracker) hn first rank load
  rw [show Tracker.handleResponse first rank (w.withHandle rank []).tracker = .ok t from ht] at hsim
  obtain ⟨v, hv, -, hadvanced⟩ := hsim
  obtain ⟨es', hes'⟩ := hadvanced.shown
  obtain ⟨u, hu, -⟩ := checkOverview_ok hes' rank
  refine ⟨u, ?_⟩
  rw [handleDataGdb_stopReport]
  exact (congrArg (· >>= fun w => checkOverview w rank) hv).trans hu

/-- The window follows a rank to a position. -/
structure StandsAt (u : UIWindow n) (rank : Fin n) (path : Bytes) (line : Int) : Prop where
  file : u.tracker.currentFile rank = path
  line : u.tracker.currentLine rank = line
  opened : path ∈ u.maps.openedFiles

/-- Where the report names its path in c-string form, the window follows GDB exactly if
the report can be read and all characters of the path are printable ASCII, newlines or
tabs. -/
theorem sourcePosition_follows_iff (hn : 0 < n) (hw : ∃ es, w.Shows es)
    (hwait : ∀ o ∈ w.tracker.gdbHandle rank, o.isStop = false) {fs : Fields}
    (hfs : results.frame = some fs) {path : Bytes} (hpath : ∀ c ∈ path, c ≠ 0)
    (hfullname : fs.text "fullname" Quoted.written = some (encode path)) {line : Nat}
    (hbound : line < 2 ^ 31) (hline : fs.text "line" Quoted.written = some (natDigits line)) :
    (w.tracker.NoDangling → (∀ o ∈ w.tracker.gdbHandle rank, Readable o) →
      ((∃ u, w.handleDataGdb rank load
          (chunkOf (stopReport results stopCr promptCr blank)) = .ok u ∧
          u.StandsAt rank path line) ↔ results.readable = true ∧ ∀ c ∈ path, Kept c)) ∧
    ∀ u, w.handleDataGdb rank load
        (chunkOf (stopReport results stopCr promptCr blank)) = .ok u →
      (u.StandsAt rank path line ↔ ∀ c ∈ path, Kept c) := by
  have hfollows : ∀ u, w.handleDataGdb rank load
        (chunkOf (stopReport results stopCr promptCr blank)) = .ok u →
      (u.StandsAt rank path line ↔ ∀ c ∈ path, Kept c) := by
    intro u hu
    obtain ⟨s, hs, hread⟩ := Fields.text_read hfullname
    obtain ⟨digits, hdigits, hread'⟩ := Fields.text_read hline
    obtain ⟨hfile, hcurrent, hopened⟩ := handleDataGdb_position hn hw hwait hfs hread hread' hu
    rw [read_of_encoded hs hpath] at hfile hopened
    rw [read_of_digits hdigits, atoi_natDigits hbound] at hcurrent
    rw [← readBack_eq_iff]
    constructor
    · intro h
      exact hfile.symm.trans h.file
    · intro h
      rw [h] at hfile hopened
      exact ⟨hfile, hcurrent, hopened⟩
  refine ⟨fun hsafe hread => ⟨?_, ?_⟩, hfollows⟩
  · rintro ⟨u, hu, hstands⟩
    exact ⟨readable_of_handled hn hw hwait hu, (hfollows u hu).mp hstands⟩
  · rintro ⟨hreadable, hkept⟩
    obtain ⟨u, hu⟩ := handleDataGdb_stopReport_ok hn hw hsafe hread hreadable
    exact ⟨u, hu, (hfollows u hu).mpr hkept⟩

end Report

/-- The results of a stop at a position. -/
def positionResults (fullname line : Quoted) : Fields :=
  [(.ofLiteral "frame" (by decide) rfl,
    .tuple (.more (.ofLiteral "fullname" (by decide) rfl) (.const fullname)
      (.one (.ofLiteral "line" (by decide) rfl) (.const line))))]

theorem positionResults_readable (fullname line : Quoted) :
    (positionResults fullname line).readable = true := rfl

/-- The texts of such a frame. -/
theorem positionResults_texts (fullname line : Quoted) :
    ∃ fs, (positionResults fullname line).frame = some fs ∧
      ∀ reading, fs.text "fullname" reading = some (reading fullname) ∧
        fs.text "line" reading = some (reading line) :=
  ⟨_, rfl, fun _ => ⟨rfl, rfl⟩⟩

/-- What GDB writes when it stops at a position. -/
theorem chunkOf_position (fullname line : Quoted) :
    chunkOf (stopReport (positionResults fullname line) false false true) =
      ascii "*stopped,frame=\x7bfullname=\"" ++ fullname.written ++ ascii "\",line=\"" ++
        line.written ++ ascii "\"\x7d\n(gdb) \n" := by
  simp [chunkOf, SentLine.written, stopReport, stopLine, Line.written, positionResults,
    Fields.written, Value.written, Results.written, VarName.ofLiteral, VarName.stopped, Token.empty,
    ascii, AsyncType.mark]

theorem exists_digits (k : Nat) : ∃ d : Quoted, d.written = natDigits k := by
  obtain ⟨d, hd, -⟩ :=
    exists_plain fun c hc => plain_of_isDigit (isDigit_of_mem_natDigits k c hc)
  exact ⟨d, hd⟩

theorem plainPath_followed :
    ∃ u : UIWindow 1, (init 1).initOverview.handleDataGdb 0 missingFile
        (ascii "*stopped,frame=\x7bfullname=\"/src/a.c\",line=\"7\"\x7d\n(gdb) \n") = .ok u ∧
      u.tracker.currentFile 0 = ascii "/src/a.c" ∧ u.tracker.currentLine 0 = 7 ∧
      ascii "/src/a.c" ∈ u.maps.openedFiles := by
  have hpath : ∀ c ∈ ascii "/src/a.c", c ≠ 0 := by decide +kernel
  have hkept : ∀ c ∈ ascii "/src/a.c", Kept c := by decide +kernel
  obtain ⟨s, hs, -⟩ := exists_encoded hpath
  obtain ⟨d, hd⟩ := exists_digits 7
  obtain ⟨fs, hfs, htexts⟩ := positionResults_texts s d
  obtain ⟨hiff, -⟩ := @sourcePosition_follows_iff 1 (init 1).initOverview 0 missingFile
    (positionResults s d) false false true (by decide) ⟨[], shows_initOverview⟩ nofun
    fs hfs (ascii "/src/a.c") hpath
    ((htexts Quoted.written).1.trans (congrArg some hs)) 7 (by decide)
    ((htexts Quoted.written).2.trans (congrArg some hd))
  obtain ⟨u, hu, hfile, hline, hopened⟩ := (hiff (Tracker.init_noDangling 1) nofun).mpr
    ⟨positionResults_readable s d, hkept⟩
  refine ⟨u, ?_, hfile, hline, hopened⟩
  have hwritten : ascii "*stopped,frame=\x7bfullname=\"" ++ encode (ascii "/src/a.c") ++
      ascii "\",line=\"" ++ natDigits 7 ++ ascii "\"\x7d\n(gdb) \n" =
      ascii "*stopped,frame=\x7bfullname=\"/src/a.c\",line=\"7\"\x7d\n(gdb) \n" := by decide +kernel
  rw [chunkOf_position, hs, hd, hwritten] at hu
  exact hu

/-- `/src/ä.c` in UTF-8. -/
def umlautPath : Bytes := ascii "/src/" ++ [195, 164] ++ ascii ".c"

/-- An octal escape is read as its digits. -/
theorem umlautPath_misread :
    ∃ u : UIWindow 1, (init 1).initOverview.handleDataGdb 0 missingFile
        (ascii "*stopped,frame=\x7bfullname=\"" ++ encode umlautPath ++
          ascii "\",line=\"7\"\x7d\n(gdb) \n") = .ok u ∧
      u.tracker.currentFile 0 = ascii "/src/303244.c" ∧
      u.tracker.currentFile 0 ≠ umlautPath := by
  have hpath : ∀ c ∈ umlautPath, c ≠ 0 := by decide +kernel
  obtain ⟨s, hs, hread⟩ := exists_encoded hpath
  obtain ⟨d, hd⟩ := exists_digits 7
  obtain ⟨fs, hfs, htexts⟩ := positionResults_texts s d
  have hshown : ∃ es, ((init 1).initOverview).Shows es := ⟨[], shows_initOverview⟩
  obtain ⟨u, hu⟩ := @handleDataGdb_stopReport_ok 1 (init 1).initOverview 0 missingFile
    (positionResults s d) false false true (by decide) hshown
    (Tracker.init_noDangling 1) nofun (positionResults_readable s d)
  obtain ⟨hfile, -, -⟩ := handleDataGdb_position (by decide) hshown nofun hfs
    (htexts Quoted.read).1 (htexts Quoted.read).2 hu
  have hvalue : u.tracker.currentFile 0 = ascii "/src/303244.c" := by
    rw [hfile, hread]
    decide +kernel
  have hwritten : ascii "\",line=\"" ++ natDigits 7 ++ ascii "\"\x7d\n(gdb) \n" =
      ascii "\",line=\"7\"\x7d\n(gdb) \n" := by decide +kernel
  refine ⟨u, ?_, hvalue, ?_⟩
  · rw [chunkOf_position, hs, hd, List.append_assoc, List.append_assoc,
      ← List.append_assoc (ascii _) (natDigits 7), hwritten] at hu
    exact hu
  · rw [hvalue]
    decide +kernel

end UIWindow

end ParallelGdb
