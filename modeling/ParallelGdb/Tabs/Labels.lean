import ParallelGdb.Tabs.Texts
import ParallelGdb.Tabs.Unused

/-!
# The overview and the tracked state

Where a rank is drawn follows the stops of its responses, and which file it is
in follows their classes as well. At the end of a chunk the two agree exactly if
no record of the chunk has cleared or kept the one without the other.
-/

namespace ParallelGdb

open Library.CString Library.Overwrite Library.Transition Mi Std

/-- What a stop does to the place its rank is drawn at. -/
def stopPlace (stop : MiStop) : Option (Option (Bytes × Int)) :=
  match Tracker.stopPosition stop with
  | some position => some (some position)
  | none => if stop.reason.isExit then some none else none

/-- What a response does to it. -/
def responsePlace (first : List MiOutput) : Option (Option (Bytes × Int)) :=
  ((miGetStopRecord first).bind stopOf).bind stopPlace

theorem miResStop_ok {first : List MiOutput} {found : Option MiStop}
    (h : miResStop first = .ok found) : (miGetStopRecord first).bind stopOf = found := by
  unfold miResStop at h
  cases hsr : miGetStopRecord first with
  | none =>
      rw [hsr] at h
      exact Except.ok.inj h
  | some o =>
      have ho : o.isStop = true := List.find?_some hsr
      cases hstop : miGetStopped o.c with
      | error e => simp [hsr, hstop, bind, Except.bind] at h
      | ok stop =>
          simp only [hsr, hstop, bind, Except.bind, pure, Except.pure, Except.ok.injEq] at h
          simp [stopOf, ho, hstop, Except.toOption, h]

/-- What these responses make of the status of their rank. -/
def Status.after (s : Status) (responses : List (List MiOutput)) : Status :=
  responses.foldl (fun s first => (responseChanges first).apply s) s

theorem targetState_after (s : Status) (responses : List (List MiOutput)) :
    (s.after responses).targetState =
      put (lastSome (fun first => (responseChanges first).targetState) responses) s.targetState := by
  induction responses generalizing s with
  | nil => rfl
  | cons first rest ih =>
      rw [lastSome_cons, put_or]
      exact ih _

section Responses

/-- The line of a rank changes where its place does. -/
theorem currentLine_responseChanges (first : List MiOutput) :
    (responseChanges first).currentLine = (responsePlace first).bind (Option.map Prod.snd) := by
  have hclass : (Changes.along classChanges first).currentLine = none := by
    apply lastSome_eq_none.mpr
    intro o _
    unfold classChanges
    split <;> rfl
  have hstop : ∀ stop, (stopChanges stop).currentLine =
      (stopPlace stop).bind (Option.map Prod.snd) := by
    intro stop
    unfold stopChanges Changes.andThen positionChanges exitChanges stopPlace
    cases Tracker.stopPosition stop <;> cases stop.reason.isExit <;> rfl
  unfold responseChanges responsePlace
  cases (miGetStopRecord first).bind stopOf with
  | none => exact hclass
  | some stop =>
      change (stopChanges stop).currentLine.or (Changes.along classChanges first).currentLine = _
      rw [hclass, Option.or_none]
      exact hstop stop

/-- A place is given by a stop, whose class assigns a state. -/
theorem targetState_of_place {first : List MiOutput} (h : (responsePlace first).isSome) :
    (responseChanges first).targetState ≠ none := by
  cases hsr : miGetStopRecord first with
  | none => simp [responsePlace, hsr] at h
  | some o =>
      have ho : o.isStop = true := List.find?_some hsr
      have hstopped : o.tclass = .stopped := by
        simp only [MiOutput.isStop, Bool.and_eq_true, decide_eq_true_eq] at ho
        exact ho.2
      intro hnone
      have hclass : (Changes.along classChanges first).targetState = none :=
        (Option.or_eq_none_iff.mp hnone).2
      have hnever := lastSome_eq_none.mp hclass o (List.mem_of_find?_eq_some hsr)
      simp [classChanges, hstopped] at hnever

/-- No record makes the state of a rank unknown. -/
theorem targetState_ne_unknown (first : List MiOutput) :
    (responseChanges first).targetState ≠ some .unknown := by
  have hclass : (Changes.along classChanges first).targetState ≠ some .unknown := by
    intro hunknown
    obtain ⟨o, -, ho⟩ := exists_of_lastSome hunknown
    unfold classChanges at ho
    split at ho <;> cases ho
  have hstop : ∀ stop, (stopChanges stop).targetState ≠ some .unknown := by
    intro stop
    unfold stopChanges Changes.andThen positionChanges exitChanges
    cases Tracker.stopPosition stop <;> cases stop.reason.isExit <;> simp
  unfold responseChanges
  intro hunknown
  rcases Option.or_eq_some_iff.mp hunknown with hlast | ⟨-, hfirst⟩
  · cases hfound : (miGetStopRecord first).bind stopOf with
    | none => simp [hfound] at hlast
    | some stop =>
        rw [hfound] at hlast
        exact hstop stop hlast
  · exact hclass hfirst

/-- A rank that stays unknown is drawn nowhere by its responses. -/
theorem lastSome_place_of_unknown {responses : List (List MiOutput)} {s : TargetState}
    (h : put (lastSome (fun first => (responseChanges first).targetState) responses) s =
      .unknown) : s = .unknown ∧ lastSome responsePlace responses = none := by
  cases hlast : lastSome (fun first => (responseChanges first).targetState) responses with
  | some state =>
      rw [hlast] at h
      obtain rfl : state = .unknown := h
      obtain ⟨first, -, hfirst⟩ := exists_of_lastSome hlast
      exact absurd hfirst (targetState_ne_unknown first)
  | none =>
      rw [hlast] at h
      refine ⟨h, lastSome_eq_none.mpr fun first hfirst => ?_⟩
      by_contra hplace
      exact targetState_of_place (Option.isSome_iff_ne_none.mpr hplace)
        (lastSome_eq_none.mp hlast first hfirst)

/-- The place of a rank has the line it is on. -/
theorem place_after {place : Option (Bytes × Int)} {s : Status}
    (h : ∀ file line, place = some (file, line) → line = s.currentLine)
    (responses : List (List MiOutput)) (file : Bytes) (line : Int)
    (hplace : put (lastSome responsePlace responses) place = some (file, line)) :
    line = (s.after responses).currentLine := by
  induction responses generalizing place s with
  | nil => exact h file line hplace
  | cons first rest ih =>
      rw [lastSome_cons, put_or] at hplace
      refine ih (s := (responseChanges first).apply s) ?_ hplace
      intro file line hfirst
      have hline : ((responseChanges first).apply s).currentLine =
          put ((responsePlace first).bind (Option.map Prod.snd)) s.currentLine := by
        rw [← currentLine_responseChanges]
        rfl
      rw [hline]
      cases hp : responsePlace first with
      | none =>
          rw [hp] at hfirst
          exact h file line hfirst
      | some position =>
          rw [hp] at hfirst
          obtain rfl : position = some (file, line) := hfirst
          rfl

end Responses

namespace UIWindow

variable {n : Nat}

section Places

variable {w u : UIWindow n} {place : Fin n → Option (Bytes × Int)} {rank : Fin n}
variable {load : Bytes → SourceFile}

theorem openedPlace_nil (w : UIWindow n) (place : Fin n → Option (Bytes × Int)) :
    w.openedPlace [] place = place := by
  funext q
  rw [openedPlace, if_neg fun hboth => List.not_mem_nil hboth.2]

/-- Where a rank is drawn depends on the paths and on its own status. -/
theorem openedPlace_congr {q : Fin n} (hpaths : ∀ p, p ∈ u.paths ↔ p ∈ w.paths)
    (hstatus : u.tracker.status q = w.tracker.status q) {place' : Fin n → Option (Bytes × Int)}
    (hplace : place' q = place q) (reached : List Bytes) :
    u.openedPlace reached place' q = w.openedPlace reached place q := by
  have hfile := congrArg Status.currentFile hstatus
  have hline := congrArg Status.currentLine hstatus
  simp only [Tracker.status] at hfile hline
  simp only [openedPlace, hfile, hline, hpaths, hplace]

theorem OwnPlace.congr {q : Fin n} (h : w.OwnPlace place q)
    (hstatus : u.tracker.status q = w.tracker.status q) {place' : Fin n → Option (Bytes × Int)}
    (hplace : place' q = place q) : u.OwnPlace place' q := by
  have hfile := congrArg Status.currentFile hstatus
  have hline := congrArg Status.currentLine hstatus
  simp only [Tracker.status] at hfile hline
  simpa only [OwnPlace, hfile, hline, hplace] using h

theorem status_moveTo_of_ne (t : Tracker n) {q : Fin n} (h : q ≠ rank) (fullpath : Bytes)
    (line : Int) : (t.moveTo rank fullpath line).status q = t.status q := by
  simp [Tracker.moveTo, Tracker.status, h]

variable (load) in
/-- The position of a stop is drawn. -/
theorem Drawn.showPosition (h : w.Drawn place) (hn : 0 < n)
    (hothers : ∀ q, q ≠ rank → w.OwnPlace place q) (stop : MiStop) :
    ∃ u, w.showPosition stop rank load = .ok u ∧
      u.Drawn (Function.update (w.openedPlace (Tracker.stopPath stop).toList place) rank
        (put ((Tracker.stopPosition stop).map some) (place rank))) ∧
      u.header 2 = w.header 2 ∧ u.header 4 = w.header 4 := by
  unfold UIWindow.showPosition Tracker.stopPath
  cases Tracker.stopPosition stop with
  | none =>
      refine ⟨w, rfl, ?_, rfl, rfl⟩
      simpa [openedPlace_nil] using h
  | some position =>
      obtain ⟨fullpath, line⟩ := position
      obtain ⟨v, hv, hvdrawn, hv2, hv4⟩ := h.setPosition rank fullpath line
      obtain ⟨es, hes⟩ := h.shown
      obtain ⟨v', hv', hredrawn⟩ := setPosition_ok hes rank fullpath line
      obtain rfl := Except.ok.inj (hv'.symm.trans hv)
      have htracker : v'.tracker = w.tracker.moveTo rank fullpath line := hredrawn.tracker
      have hpaths : v'.paths = w.paths := by
        rw [hredrawn.frame]
        rfl
      have hplace : ∀ q, v'.OwnPlace (Function.update place rank (some (fullpath, line))) q := by
        intro q
        by_cases hq : q = rank
        · subst hq
          right
          simp [htracker, Tracker.moveTo]
        · refine (hothers q hq).congr ?_ (Function.update_of_ne hq _ _)
          rw [htracker, status_moveTo_of_ne _ hq]
      obtain ⟨u, hu, hdrawn, hu2, hu4⟩ :=
        hvdrawn.appendSourceFile hn fullpath (load fullpath) hplace
      have hsame : v'.openedPlace [fullpath] (Function.update place rank (some (fullpath, line))) =
          Function.update (w.openedPlace [fullpath] place) rank (some (fullpath, line)) := by
        funext q
        by_cases hq : q = rank
        · subst hq
          simp [openedPlace, htracker, Tracker.moveTo]
        · rw [Function.update_of_ne hq]
          refine openedPlace_congr (by simp [hpaths]) ?_ (Function.update_of_ne hq _ _) _
          rw [htracker, status_moveTo_of_ne _ hq]
      rw [hsame] at hdrawn
      obtain ⟨es', hes', htexts⟩ := hdrawn
      have hscroll : u.scrollToLine rank =
          { u with idle := u.idle ++ if u.follows rank then [rank] else [] } := by
        rw [scrollToLine]
        split <;> simp
      refine ⟨u.scrollToLine rank, ?_, ⟨es', ?_, htexts⟩, ?_, ?_⟩
      · simp only [hv, hu, bind, Except.bind, pure, Except.pure]
      · rw [hscroll]
        exact hes'.congr rfl rfl rfl rfl rfl
      · rw [hscroll]
        exact hu2.trans hv2
      · rw [hscroll]
        exact hu4.trans hv4

/-- An exit reason clears the labels. -/
theorem Drawn.recordExit (h : w.Drawn place) (stop : MiStop) (rank : Fin n) :
    (w.recordExit stop rank).Drawn
        (if stop.reason.isExit then Function.update place rank none else place) ∧
      (w.recordExit stop rank).header 2 = w.header 2 ∧
      (w.recordExit stop rank).header 4 = w.header 4 := by
  unfold UIWindow.recordExit
  split
  · have ht := h.withTracker (w.tracker.recordExit stop rank)
    have hclear := repainted_clearLabelsOverview ht.shown rank
    exact ⟨ht.clearLabels rank, hclear.running ht.shown, hclear.exited ht.shown⟩
  · exact ⟨h, rfl, rfl⟩

theorem status_recordExit_of_ne (stop : MiStop) {q : Fin n} (h : q ≠ rank) (t : Tracker n) :
    (t.recordExit stop rank).status q = t.status q := by
  unfold Tracker.recordExit
  split <;> simp [Tracker.status, h]

theorem put_stopPlace (stop : MiStop) (old : Option (Bytes × Int)) :
    put (stopPlace stop) old =
      put ((Tracker.stopPosition stop).map some) (if stop.reason.isExit then none else old) := by
  unfold stopPlace
  cases Tracker.stopPosition stop with
  | some position => rfl
  | none => cases stop.reason.isExit <;> rfl

/-- A stop moves the place of its rank. -/
theorem Drawn.applyStop (h : w.Drawn place) (hn : 0 < n)
    (hothers : ∀ q, q ≠ rank → w.OwnPlace place q) {stop : MiStop}
    (hu : w.applyStop stop rank load = .ok u) :
    u.Drawn (Function.update (w.openedPlace (Tracker.stopPath stop).toList place) rank
        (put (stopPlace stop) (place rank))) ∧
      u.header 2 = w.header 2 ∧ u.header 4 = w.header 4 := by
  unfold UIWindow.applyStop UIWindow.hitBreakpoint at hu
  cases ht : w.tracker.hitBreakpoint stop rank with
  | error e => simp [ht, bind, Except.bind] at hu
  | ok t =>
      simp only [ht, bind, Except.bind, pure, Except.pure] at hu
      have hstatus : ∀ q, t.status q = w.tracker.status q := by
        intro q
        obtain rfl | ⟨-, bp, rfl⟩ := Tracker.hitBreakpoint_cases ht
        · rfl
        · rw [Tracker.stopAll_eq]
          rfl
      have hhit := h.withTracker t
      obtain ⟨es, hes⟩ := hhit.shown
      obtain ⟨hvdrawn, hv2, hv4⟩ := hhit.recordExit stop rank
      obtain ⟨hvtracker, hvadvanced⟩ := recordExit_sim hes stop rank
      have hvstatus : ∀ q, q ≠ rank →
          (UIWindow.recordExit stop rank { w with tracker := t }).tracker.status q =
            w.tracker.status q := by
        intro q hq
        rw [hvtracker, status_recordExit_of_ne stop hq, hstatus]
      have hvplace : ∀ q, q ≠ rank →
          (if stop.reason.isExit then Function.update place rank none else place) q = place q := by
        intro q hq
        split
        · exact Function.update_of_ne hq _ _
        · rfl
      obtain ⟨u', hu', hdrawn, hu2, hu4⟩ := hvdrawn.showPosition load hn
        (fun q hq => (hothers q hq).congr (hvstatus q hq) (hvplace q hq)) stop
      obtain rfl := Except.ok.inj (hu'.symm.trans hu)
      refine ⟨?_, hu2.trans hv2, hu4.trans hv4⟩
      convert hdrawn using 1
      funext q
      by_cases hq : q = rank
      · subst hq
        rw [Function.update_self, Function.update_self, put_stopPlace]
        split <;> simp
      · rw [Function.update_of_ne hq, Function.update_of_ne hq]
        refine (openedPlace_congr ?_ (hvstatus q hq) (hvplace q hq) _).symm
        intro p
        rw [hvadvanced.paths]
        simp [UIWindow.paths]

theorem Drawn.parseStopRecord (h : w.Drawn place) (hn : 0 < n)
    (hothers : ∀ q, q ≠ rank → w.OwnPlace place q) {first : List MiOutput}
    (hu : w.parseStopRecord first rank load = .ok u) :
    u.Drawn (Function.update (w.openedPlace (responsePath first).toList place) rank
        (put (responsePlace first) (place rank))) ∧
      u.header 2 = w.header 2 ∧ u.header 4 = w.header 4 := by
  unfold UIWindow.parseStopRecord at hu
  cases hfound : miResStop first with
  | error e => simp [hfound, bind, Except.bind] at hu
  | ok found =>
      have hplace : responsePlace first = found.bind stopPlace := by
        rw [responsePlace, miResStop_ok hfound]
      cases found with
      | none =>
          simp only [hfound, bind, Except.bind, pure, Except.pure, Except.ok.injEq] at hu
          subst hu
          have hpath : responsePath first = none := by simp [responsePath, hfound]
          rw [hplace, hpath]
          exact ⟨by simpa [openedPlace_nil] using h, rfl, rfl⟩
      | some stop =>
          simp only [hfound, bind, Except.bind] at hu
          have hpath : responsePath first = Tracker.stopPath stop := by simp [responsePath, hfound]
          rw [hplace, hpath]
          exact h.applyStop hn hothers hu

/-- A response moves the place of its rank. -/
theorem Drawn.handleResponse (h : w.Drawn place) (hn : 0 < n)
    (hothers : ∀ q, q ≠ rank → w.OwnPlace place q) {first : List MiOutput}
    (hu : w.handleResponse rank load first = .ok u) :
    u.Drawn (Function.update (w.openedPlace (responsePath first).toList place) rank
        (put (responsePlace first) (place rank))) ∧
      u.header 2 = w.header 2 ∧ u.header 4 = w.header 4 := by
  unfold UIWindow.handleResponse UIWindow.parseBreakpoint at hu
  have hstatus : ∀ q, q ≠ rank →
      (w.tracker.parseTargetState first rank).status q = w.tracker.status q :=
    fun q hq => Tracker.status_parseTargetState_of_ne hq first w.tracker
  cases hv : UIWindow.parseStopRecord first rank load
      { w with tracker := w.tracker.parseTargetState first rank } with
  | error e => simp [hv, bind, Except.bind] at hu
  | ok v =>
      simp only [hv, bind, Except.bind, pure, Except.pure] at hu
      obtain ⟨hdrawn, hv2, hv4⟩ := (h.withTracker _).parseStopRecord hn
        (fun q hq => (hothers q hq).congr (hstatus q hq) rfl) hv
      have hsame : Function.update
          (openedPlace { w with tracker := w.tracker.parseTargetState first rank }
            (responsePath first).toList place) rank (put (responsePlace first) (place rank)) =
          Function.update (w.openedPlace (responsePath first).toList place) rank
            (put (responsePlace first) (place rank)) := by
        funext q
        by_cases hq : q = rank
        · subst hq
          rw [Function.update_self, Function.update_self]
        · rw [Function.update_of_ne hq, Function.update_of_ne hq]
          refine openedPlace_congr ?_ (hstatus q hq) rfl _
          exact fun p => Iff.rfl
      rw [hsame] at hdrawn
      cases ht : v.tracker.parseBreakpoint first rank with
      | error e => simp [ht] at hu
      | ok t =>
          simp only [ht, Except.ok.injEq] at hu
          subst hu
          exact ⟨hdrawn.withTracker t, hv2, hv4⟩

/-- The responses of a chunk one after the other. -/
theorem Drawn.foldResponses (h : w.Drawn place) (hn : 0 < n)
    (hothers : ∀ q, q ≠ rank → w.OwnPlace place q) {responses : List (List MiOutput)}
    (hu : responses.foldlM (UIWindow.handleResponse rank load) w = .ok u) :
    u.Drawn (Function.update (w.openedPlace (responses.filterMap responsePath) place) rank
        (put (lastSome responsePlace responses) (place rank))) ∧
      u.header 2 = w.header 2 ∧ u.header 4 = w.header 4 := by
  induction responses generalizing w place with
  | nil =>
      obtain rfl := Except.ok.inj hu
      exact ⟨by simpa [openedPlace_nil] using h, rfl, rfl⟩
  | cons first rest ih =>
      rw [List.foldlM_cons] at hu
      cases hv : UIWindow.handleResponse rank load w first with
      | error e => simp [hv, bind, Except.bind] at hu
      | ok v =>
          simp only [hv, bind, Except.bind] at hu
          obtain ⟨es, hes⟩ := h.shown
          obtain ⟨htracker, hadvanced⟩ := handleResponse_advances hes hn hv
          have hstatus : ∀ q, q ≠ rank → v.tracker.status q = w.tracker.status q :=
            fun q hq => Tracker.status_handleResponse_of_ne hq htracker
          obtain ⟨hvdrawn, hv2, hv4⟩ := h.handleResponse hn hothers hv
          have hvplace : ∀ q, q ≠ rank → v.OwnPlace (Function.update
              (w.openedPlace (responsePath first).toList place) rank
              (put (responsePlace first) (place rank))) q := by
            intro q hq
            by_cases hopened : w.tracker.currentFile q ∉ w.paths ∧
                w.tracker.currentFile q ∈ (responsePath first).toList
            · right
              have hfile := congrArg Status.currentFile (hstatus q hq)
              have hline := congrArg Status.currentLine (hstatus q hq)
              simp only [Tracker.status] at hfile hline
              rw [Function.update_of_ne hq, openedPlace, if_pos hopened, hfile, hline]
            · refine (hothers q hq).congr (hstatus q hq) ?_
              rw [Function.update_of_ne hq, openedPlace, if_neg hopened]
          obtain ⟨hudrawn, hu2, hu4⟩ := ih hvdrawn hvplace hu
          refine ⟨?_, hu2.trans hv2, hu4.trans hv4⟩
          convert hudrawn using 1
          funext q
          by_cases hq : q = rank
          · subst hq
            rw [Function.update_self, Function.update_self, Function.update_self, lastSome_cons,
              put_or]
          · have hfile := congrArg Status.currentFile (hstatus q hq)
            have hline := congrArg Status.currentLine (hstatus q hq)
            simp only [Tracker.status] at hfile hline
            have hreached : ∀ p, p ∈ (first :: rest).filterMap responsePath ↔
                p ∈ (responsePath first).toList ∨ p ∈ rest.filterMap responsePath := by
              intro p
              cases hpath : responsePath first <;> simp [hpath]
            simp only [Function.update_of_ne hq, openedPlace, hfile, hline, hadvanced.paths,
              hreached]
            by_cases hold : w.tracker.currentFile q ∈ w.paths
            · simp [hold]
            · by_cases hnow : w.tracker.currentFile q ∈ (responsePath first).toList
              · simp [hold, hnow]
              · simp [hold, hnow]

end Places

end UIWindow

end ParallelGdb
