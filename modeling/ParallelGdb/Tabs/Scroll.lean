import ParallelGdb.Tabs.Handlers

/-!
# Deferred scrolls

A stop queues a scroll that looks the rank's file up when the idle handler gets
to it. By then the rank may be in another file, which has a tab as well, or in
none: a record that clears the file leaves the queued scroll behind. The lookup
succeeds throughout a run exactly if no chunk does that.
-/

namespace ParallelGdb

open Library.CString Library.Overwrite Library.Transition Mi Std

namespace UIWindow

variable {n : Nat}

/-- What can happen to a window between two callbacks of the idle handler. -/
inductive ScrollAct (n : Nat)
  /-- `handle_data_gdb` with a chunk that completes these responses. -/
  | chunk (rank : Fin n) (load : Bytes → SourceFile) (responses : List (List MiOutput))
  | openFile (fullpath : Bytes) (file : SourceFile)
  /-- `open_missing`, after a click on the icon of a page. -/
  | openMissing (pageNum : Nat) (content : Int → Option Bytes)
  | setMarks (view : ViewId) (marks : Option (List Int))
  | setFollow (followRank : Int)
  | closeUnusedTabs
  /-- The idle handler runs a queued `do_scroll`. -/
  | runIdle (rank : Fin n)

def scrollNext (w : UIWindow n) : ScrollAct n → Option (UIWindow n)
  | .chunk rank load responses => (w.handleResponses rank load responses).toOption
  | .openFile fullpath file => (w.appendSourceFile fullpath file).toOption
  | .openMissing pageNum content => (w.clickMissing pageNum content).toOption
  | .setMarks view marks =>
      some { w with views := Function.update w.views view { w.views view with marks } }
  | .setFollow followRank => some { w with followRank }
  | .closeUnusedTabs => some w.closeUnusedTabs
  | .runIdle rank =>
      if rank ∈ w.idle then
        (w.doScroll rank).toOption.map fun _ => { w with idle := w.idle.erase rank }
      else
        none

/-- All interleavings of chunks, changes of the tabs and idle callbacks. -/
def scrollSystem (n : Nat) : System (UIWindow n) (ScrollAct n) :=
  System.ofNext (· = (init n).initOverview) scrollNext

/-- Every queued scroll finds the file its rank is in. -/
def ScrollsSafe (w : UIWindow n) : Prop :=
  ∀ rank ∈ w.idle, w.tracker.currentFile rank ∈ w.maps.path2View ∧
    ∃ target, w.doScroll rank = .ok target

/-- A rank is in a file with a tab, or in none. -/
def Located (w : UIWindow n) : Prop :=
  (∃ es, w.Shows es) ∧
    ∀ rank, w.tracker.currentFile rank = [] ∨ w.tracker.currentFile rank ∈ w.paths

/-- The file these responses leave a rank in. -/
def leftFile (responses : List (List MiOutput)) (file : Bytes) : Bytes :=
  put (lastSome (fun first => (responseChanges first).currentFile) responses) file

/-- A chunk leaves no scroll behind: if its rank has a scroll queued, or gets
one, the last record to assign its file names one. A tab for the empty path
serves as well. -/
def LeavesNoScroll (w : UIWindow n) : ScrollAct n → Prop
  | .chunk rank _ responses =>
      rank ∈ w.idle ∨ w.follows rank = true ∧ responses.filterMap responsePath ≠ [] →
        leftFile responses (w.tracker.currentFile rank) ≠ [] ∨
          [] ∈ w.maps.openedFiles ∨ [] ∈ responses.filterMap responsePath
  | _ => True

section Lookup

variable {w : UIWindow n} {es : List (Entry n)}

theorem Shows.mem_path2View (h : w.Shows es) (p : Bytes) : p ∈ w.maps.path2View ↔ p ∈ w.paths := by
  rw [h.maps.view.mem_iff, List.map_map]
  rfl

theorem Shows.mem_openedFiles (h : w.Shows es) (p : Bytes) :
    p ∈ w.maps.openedFiles ↔ p ∈ w.paths := h.maps.opened p

/-- The throwing lookup succeeds exactly if the file has a tab. -/
theorem scrollsSafe_iff (h : w.Shows es) :
    w.ScrollsSafe ↔ ∀ rank ∈ w.idle, w.tracker.currentFile rank ∈ w.paths := by
  apply forall₂_congr
  intro rank _
  rw [h.mem_path2View]
  refine ⟨fun hboth => hboth.1, fun hmem => ⟨hmem, ?_⟩⟩
  have hview : w.tracker.currentFile rank ∈ w.maps.path2View := (h.mem_path2View _).mpr hmem
  obtain ⟨view, hview⟩ := Option.isSome_iff_exists.mp
    (ExtTreeMap.mem_iff_isSome_getElem?.mp hview)
  exact ⟨_, by rw [doScroll, hview]⟩

end Lookup

section Chunk

variable {w u : UIWindow n} {rank : Fin n} {load : Bytes → SourceFile}

theorem currentFile_stopChanges (stop : MiStop) :
    (stopChanges stop).currentFile =
      (Tracker.stopPath stop).or (if stop.reason.isExit then some [] else none) := by
  unfold stopChanges Changes.andThen positionChanges exitChanges Tracker.stopPath
  cases Tracker.stopPosition stop <;> cases stop.reason.isExit <;> rfl

/-- A response that assigns the file clears it or names the file of its stop. -/
theorem responsePath_of_currentFile {first : List MiOutput} {file : Bytes}
    (h : (responseChanges first).currentFile = some file) :
    file = [] ∨ responsePath first = some file := by
  have hclass : (Changes.along classChanges first).currentFile = some file → file = [] := by
    intro hfile
    obtain ⟨o, -, ho⟩ := exists_of_lastSome hfile
    unfold classChanges at ho
    split at ho
    · exact (Option.some.inj ho).symm
    · cases ho
    · cases ho
  unfold responseChanges at h
  cases hsr : miGetStopRecord first with
  | none =>
      rw [hsr] at h
      exact Or.inl (hclass h)
  | some o =>
      have ho : o.isStop = true := List.find?_some hsr
      cases hstop : miGetStopped o.c with
      | error e =>
          have hof : stopOf o = none := by simp [stopOf, hstop, Except.toOption]
          rw [hsr, Option.bind_some, hof] at h
          exact Or.inl (hclass h)
      | ok stop =>
          have hof : stopOf o = some stop := by simp [stopOf, ho, hstop, Except.toOption]
          have hresp : responsePath first = Tracker.stopPath stop := by
            simp [responsePath, miResStop, hsr, hstop, bind, Except.bind, pure, Except.pure]
          rw [hsr, Option.bind_some, hof, Option.elim_some] at h
          have hfile : ((Tracker.stopPath stop).or (if stop.reason.isExit then some [] else none)).or
              (Changes.along classChanges first).currentFile = some file := by
            rw [← currentFile_stopChanges]
            exact h
          rw [hresp]
          cases hpath : Tracker.stopPath stop with
          | some p =>
              rw [hpath] at hfile
              exact Or.inr hfile
          | none =>
              rw [hpath, Option.none_or] at hfile
              left
              split at hfile
              · exact (Option.some.inj hfile).symm
              · exact hclass hfile

/-- One response of a rank. -/
theorem Located.handleResponse (h : w.Located) (hn : 0 < n) {first : List MiOutput}
    (hu : w.handleResponse rank load first = .ok u) :
    u.Located ∧ Advanced rank (responsePath first).toList w u ∧
      u.tracker.currentFile rank =
        put (responseChanges first).currentFile (w.tracker.currentFile rank) ∧
      ∀ q, q ≠ rank → u.tracker.currentFile q = w.tracker.currentFile q := by
  obtain ⟨⟨es, hes⟩, hfiles⟩ := h
  obtain ⟨ht, hadvanced⟩ := handleResponse_advances hes hn hu
  have hrank := congrArg Status.currentFile (Tracker.status_handleResponse ht)
  have hothers : ∀ q, q ≠ rank → u.tracker.currentFile q = w.tracker.currentFile q :=
    fun q hq => congrArg Status.currentFile (Tracker.status_handleResponse_of_ne hq ht)
  have hold : ∀ q, w.tracker.currentFile q = [] ∨ w.tracker.currentFile q ∈ u.paths :=
    fun q => (hfiles q).imp_right fun hmem => (hadvanced.paths _).mpr (Or.inl hmem)
  refine ⟨⟨hadvanced.shown, fun q => ?_⟩, hadvanced, hrank, hothers⟩
  by_cases hq : q = rank
  · subst hq
    have hfile : u.tracker.currentFile q =
        put (responseChanges first).currentFile (w.tracker.currentFile q) := hrank
    rw [hfile]
    cases hassigned : (responseChanges first).currentFile with
    | none => exact hold q
    | some file =>
        apply (responsePath_of_currentFile hassigned).imp id
        intro hpath
        exact (hadvanced.paths _).mpr (Or.inr (by simp [hpath]))
  · rw [hothers q hq]
    exact hold q

/-- The responses of a chunk one after the other. -/
theorem Located.foldResponses (h : w.Located) (hn : 0 < n) {responses : List (List MiOutput)}
    (hu : responses.foldlM (UIWindow.handleResponse rank load) w = .ok u) :
    u.Located ∧ Advanced rank (responses.filterMap responsePath) w u ∧
      u.tracker.currentFile rank = leftFile responses (w.tracker.currentFile rank) ∧
      ∀ q, q ≠ rank → u.tracker.currentFile q = w.tracker.currentFile q := by
  induction responses generalizing w with
  | nil =>
      obtain rfl := Except.ok.inj hu
      exact ⟨h, .of_same h.1 rfl rfl rfl, rfl, fun q _ => rfl⟩
  | cons first rest ih =>
      rw [List.foldlM_cons] at hu
      cases hv : UIWindow.handleResponse rank load w first with
      | error e => simp [hv, bind, Except.bind] at hu
      | ok v =>
          simp only [hv, bind, Except.bind] at hu
          obtain ⟨hlocated, hadvanced, hrank, hothers⟩ := h.handleResponse hn hv
          obtain ⟨hlocated', hadvanced', hrank', hothers'⟩ := ih hlocated hu
          refine ⟨hlocated', ?_, ?_, fun q hq => (hothers' q hq).trans (hothers q hq)⟩
          · have htrans := hadvanced.trans hadvanced'
            cases hpath : responsePath first <;> simpa [hpath] using htrans
          · rw [hrank', hrank, leftFile, leftFile, lastSome_cons, put_or]

/-- A whole chunk. -/
theorem Located.handleResponses (h : w.Located) (hn : 0 < n) {responses : List (List MiOutput)}
    (hu : w.handleResponses rank load responses = .ok u) :
    u.Located ∧ Advanced rank (responses.filterMap responsePath) w u ∧
      u.tracker.currentFile rank = leftFile responses (w.tracker.currentFile rank) ∧
      ∀ q, q ≠ rank → u.tracker.currentFile q = w.tracker.currentFile q := by
  unfold UIWindow.handleResponses at hu
  cases hv : responses.foldlM (UIWindow.handleResponse rank load) w with
  | error e => simp [hv, bind, Except.bind] at hu
  | ok v =>
      simp only [hv, bind, Except.bind] at hu
      obtain ⟨hlocated, hadvanced, hrank, hothers⟩ := h.foldResponses hn hv
      obtain ⟨es, hes⟩ := hlocated.1
      obtain ⟨u', hu', hredrawn⟩ := checkOverview_ok hes rank
      obtain rfl := Except.ok.inj (hu.symm.trans hu')
      have hlast := hredrawn.advanced hes rank
      have hpaths : ∀ p, p ∈ u.paths ↔ p ∈ v.paths := fun p => by simp [hlast.paths p]
      refine ⟨⟨hlast.shown, fun q => ?_⟩, by simpa using hadvanced.trans hlast, ?_, fun q hq => ?_⟩
      · rw [hredrawn.tracker, hpaths]
        exact hlocated.2 q
      · rw [hredrawn.tracker, hrank]
      · rw [hredrawn.tracker, hothers q hq]

end Chunk

section Run

variable {w u : UIWindow n}

theorem located_initOverview : (init n).initOverview.Located := by
  refine ⟨⟨[], shows_initOverview⟩, fun rank => Or.inl ?_⟩
  rw [(sameRanks_initOverview _).tracker]
  rfl

theorem scrollsSafe_initOverview : (init n).initOverview.ScrollsSafe := by
  intro rank hrank
  rw [(sameRanks_initOverview _).idle] at hrank
  exact absurd hrank List.not_mem_nil

/-- A step that moves no rank, queues nothing and keeps the tabs of the files
the ranks are in. -/
theorem Located.keep (h : w.Located) (hshown : ∃ es, u.Shows es)
    (hfiles : u.tracker.currentFile = w.tracker.currentFile)
    (hidle : ∀ rank ∈ u.idle, rank ∈ w.idle)
    (hpaths : ∀ rank, w.tracker.currentFile rank ∈ w.paths → w.tracker.currentFile rank ∈ u.paths) :
    u.Located ∧ (w.ScrollsSafe → u.ScrollsSafe) := by
  obtain ⟨⟨es, hes⟩, hlocated⟩ := h
  refine ⟨⟨hshown, fun rank => ?_⟩, fun hsafe => ?_⟩
  · rw [hfiles]
    exact (hlocated rank).imp_right (hpaths rank)
  · obtain ⟨es', hes'⟩ := hshown
    rw [scrollsSafe_iff hes] at hsafe
    rw [scrollsSafe_iff hes', hfiles]
    exact fun rank hrank => hpaths rank (hsafe rank (hidle rank hrank))

/-- A chunk keeps the queued scrolls safe exactly if it leaves none behind. -/
theorem Located.chunk_safe_iff (h : w.Located) (hn : 0 < n) {rank : Fin n}
    {load : Bytes → SourceFile} {responses : List (List MiOutput)}
    (hu : w.handleResponses rank load responses = .ok u) (hsafe : w.ScrollsSafe) :
    u.ScrollsSafe ↔ LeavesNoScroll w (.chunk rank load responses) := by
  obtain ⟨⟨⟨es', hes'⟩, hlocated⟩, hadvanced, hrank, hothers⟩ := h.handleResponses hn hu
  obtain ⟨⟨es, hes⟩, -⟩ := h
  rw [scrollsSafe_iff hes] at hsafe
  have hown : u.tracker.currentFile rank ∈ u.paths ↔
      leftFile responses (w.tracker.currentFile rank) ≠ [] ∨
        [] ∈ w.maps.openedFiles ∨ [] ∈ responses.filterMap responsePath := by
    rw [hes.mem_openedFiles, ← hadvanced.paths, ← hrank]
    constructor
    · intro hmem
      by_cases hempty : u.tracker.currentFile rank = []
      · exact Or.inr (hempty ▸ hmem)
      · exact Or.inl hempty
    · rintro (hne | hmem)
      · exact (hlocated rank).resolve_left hne
      · rcases hlocated rank with hempty | hin
        · rwa [hempty]
        · exact hin
  rw [scrollsSafe_iff hes', LeavesNoScroll, ← hown]
  constructor
  · intro hall hqueued
    apply hall rank
    rw [hadvanced.idle]
    exact hqueued.imp id fun hq => ⟨rfl, hq⟩
  · intro hleft q hq
    by_cases hqr : q = rank
    · subst hqr
      apply hleft
      exact ((hadvanced.idle q).mp hq).imp id fun hboth => hboth.2
    · rw [hothers q hqr, hadvanced.paths]
      refine Or.inl (hsafe q ?_)
      exact ((hadvanced.idle q).mp hq).resolve_right fun hboth => hqr hboth.1

theorem toOption_eq_some {α : Type} {x : Except Fault α} {a : α} (h : x.toOption = some a) :
    x = .ok a := by
  cases x with
  | error e => cases h
  | ok b => exact congrArg Except.ok (Option.some.inj h)

/-- One step. -/
theorem Located.step (h : w.Located) (hn : 0 < n) {a : ScrollAct n}
    (hstep : scrollNext w a = some u) :
    u.Located ∧ (w.ScrollsSafe → (u.ScrollsSafe ↔ LeavesNoScroll w a)) := by
  have hkeep (hkept : u.Located ∧ (w.ScrollsSafe → u.ScrollsSafe)) :
      u.Located ∧ (w.ScrollsSafe → (u.ScrollsSafe ↔ True)) :=
    ⟨hkept.1, fun hsafe => iff_of_true (hkept.2 hsafe) trivial⟩
  obtain ⟨es, hes⟩ := h.1
  cases a with
  | chunk rank load responses =>
      have hu := toOption_eq_some hstep
      exact ⟨(h.handleResponses hn hu).1, h.chunk_safe_iff hn hu⟩
  | openFile fullpath file =>
      apply hkeep
      obtain ⟨v, es', hv, hes', hsame, hpages⟩ := appendSourceFile_ok hes hn fullpath file
      obtain rfl := Except.ok.inj ((toOption_eq_some hstep).symm.trans hv)
      refine h.keep ⟨es', hes'⟩ (by rw [hsame.tracker]) (fun _ hr => hsame.idle ▸ hr) ?_
      intro rank hmem
      have hpaths := congrArg (List.map Page.path) hpages
      rw [← hes'.pages, ← hes.pages] at hpaths
      change _ ∈ u.pages.map Page.path
      rw [hpaths]
      split
      · exact hmem
      · rw [List.map_append]
        exact List.mem_append_left _ hmem
  | openMissing pageNum content =>
      apply hkeep
      obtain ⟨views, v, hv, hredrawn⟩ := clickMissing_ok hes pageNum content
      obtain rfl := Except.ok.inj ((toOption_eq_some hstep).symm.trans hv)
      obtain ⟨es', -, hes'⟩ := hredrawn.shows es (hes.congr rfl rfl rfl rfl rfl)
      rw [hredrawn.frame] at hes' ⊢
      exact h.keep ⟨es', hes'⟩ rfl (fun _ hr => hr) fun _ hmem => hmem
  | setMarks view marks =>
      apply hkeep
      obtain rfl := Option.some.inj hstep
      exact h.keep ⟨es, hes.congr rfl rfl rfl rfl rfl⟩ rfl (fun _ hr => hr) fun _ hmem => hmem
  | setFollow followRank =>
      apply hkeep
      obtain rfl := Option.some.inj hstep
      exact h.keep ⟨es, hes.congr rfl rfl rfl rfl rfl⟩ rfl (fun _ hr => hr) fun _ hmem => hmem
  | closeUnusedTabs =>
      apply hkeep
      obtain rfl := Option.some.inj hstep
      obtain ⟨hclosed, hsame⟩ := hes.closeUnusedTabs
      refine h.keep ⟨_, hclosed⟩ (by rw [hsame.tracker]) (fun _ hr => hsame.idle ▸ hr) ?_
      intro rank hmem
      rw [hes.paths_eq] at hmem
      obtain ⟨e, he, hpath⟩ := List.mem_map.mp hmem
      rw [hclosed.paths_eq]
      refine List.mem_map.mpr ⟨e, List.mem_filter.mpr ⟨he, ?_⟩, hpath⟩
      simp only [uses, Bool.or_eq_true, List.any_eq_true]
      exact Or.inl ⟨rank, List.mem_finRange rank, decide_eq_true hpath.symm⟩
  | runIdle rank =>
      apply hkeep
      simp only [scrollNext] at hstep
      split at hstep
      · obtain ⟨target, -, rfl⟩ := Option.map_eq_some_iff.mp hstep
        exact h.keep ⟨es, hes.congr rfl rfl rfl rfl rfl⟩ rfl (fun _ hr => List.mem_of_mem_erase hr)
          fun _ hmem => hmem
      · cases hstep

/-- In every state of a run all queued scrolls find their file if and only if
no chunk of the run leaves a scroll behind. -/
theorem scroll_run_iff (hn : 0 < n) {tr : List (UIWindow n × ScrollAct n)}
    (run : Run (scrollSystem n) tr w) :
    ((∀ p ∈ tr, p.1.ScrollsSafe) ∧ w.ScrollsSafe) ↔ Meets LeavesNoScroll tr := by
  apply Run.meets_iff (J := Located) ?_ ?_ ?_ run
  · rintro s rfl
    exact ⟨scrollsSafe_initOverview, located_initOverview⟩
  · exact fun s a t hJ hstep => (hJ.step hn hstep).1
  · exact fun s a t hJ hI hstep => (hJ.step hn hstep).2 hI

/-- `*stopped,reason="end-stepping-range",frame={fullname=…,line=…}`. -/
def steppedRecord (fullpath : Bytes) (line : Nat) : MiOutput where
  tclass := .stopped
  c := [.const (some (ascii "reason")) (ascii "end-stepping-range"),
    .tuple (some (ascii "frame")) [.const (some (ascii "fullname")) fullpath,
      .const (some (ascii "line")) (natDigits line)]]

/-- `^running`. -/
def runningRecord : MiOutput where
  type := .resultRecord
  tclass := .running

instance (w : UIWindow n) (a : ScrollAct n) : Decidable (LeavesNoScroll w a) := by
  cases a <;> unfold LeavesNoScroll <;> infer_instance

/-- A stop, the scroll it queued, and a resumption. -/
def scrolledActs (rank : Fin n) : List (ScrollAct n) :=
  [.chunk rank missingFile [[steppedRecord (ascii "/src/a.c") 7]], .runIdle rank,
    .chunk rank missingFile [[runningRecord]]]

theorem scrolled_run_safe :
    (∀ p ∈ trace scrollNext (init 1).initOverview (scrolledActs 0), p.1.ScrollsSafe) ∧
      ∀ w, (scrolledActs 0).foldlM scrollNext (init 1).initOverview = some w →
        w.ScrollsSafe := by
  have hrun : ∃ w, (scrolledActs 0).foldlM scrollNext (init 1).initOverview = some w :=
    Option.isSome_iff_exists.mp rfl
  obtain ⟨w, hw⟩ := hrun
  have hall : (trace scrollNext (init 1).initOverview (scrolledActs 0)).all
      (fun p => decide (LeavesNoScroll p.1 p.2)) = true := rfl
  have hmeets : Meets LeavesNoScroll (trace scrollNext (init 1).initOverview (scrolledActs 0)) :=
    fun p hp => of_decide_eq_true (List.all_eq_true.mp hall p hp)
  have hstart : Run (scrollSystem 1) [] (init 1).initOverview := Run.start rfl
  obtain ⟨hvisited, hlast⟩ :=
    (scroll_run_iff (by decide) (hstart.trace (scrolledActs 0) hw)).mpr hmeets
  refine ⟨hvisited, fun w' hw' => ?_⟩
  obtain rfl := Option.some.inj (hw.symm.trans hw')
  exact hlast

/-- A chunk with a stop and the resumption after it: the scroll is queued, the
file is cleared. -/
def resumedActs (rank : Fin n) : List (ScrollAct n) :=
  [.chunk rank missingFile [[steppedRecord (ascii "/src/a.c") 7], [runningRecord]]]

/-- The idle handler runs `do_scroll` after such a chunk, and the lookup throws. -/
theorem resumed_scroll_throws :
    ∃ w : UIWindow 1, Reachable (scrollSystem 1) w ∧ 0 ∈ w.idle ∧
      w.tracker.currentFile 0 ∉ w.maps.path2View ∧ w.doScroll 0 = .error .outOfRange := by
  obtain ⟨w, hw, hp⟩ := (Reachable.start (M := scrollSystem 1) rfl).replay_any (resumedActs 0)
    (fun w => decide (0 ∈ w.idle) && (w.maps.path2View[w.tracker.currentFile 0]?).isNone) rfl
  simp only [Bool.and_eq_true, decide_eq_true_eq, Option.isNone_iff_eq_none] at hp
  obtain ⟨hidle, hview⟩ := hp
  refine ⟨w, hw, hidle, ?_, by rw [doScroll, hview]⟩
  rw [ExtTreeMap.mem_iff_isSome_getElem?, hview]
  simp

end Run

end UIWindow

end ParallelGdb
