import ParallelGdb.Tabs.Labels

/-!
# The overview tells the state of the ranks

What a correct overview says of a rank, and which chunks keep it correct. A
record that clears the file of a rank leaves its label standing, and
`check_overview` clears the labels of running and exited ranks only; so a chunk
that leaves its rank stopped has to leave it in the file it was drawn in last.
`open_missing` draws every rank where it counts as being, whatever its state.
-/

namespace ParallelGdb

open Library.CString Library.Overwrite Library.Transition Mi Std

namespace UIWindow

variable {n : Nat}

/-- The text of a label of a rank. -/
def textIn (w : UIWindow n) (rank : Fin n) (row : Int) : Option Bytes :=
  (w.labelAt (2 * (rank : Nat) + 2) row).map Label.text

/-- The overview says of a rank what is tracked of it. -/
structure TellsState (w : UIWindow n) (rank : Fin n) : Prop where
  running : w.textIn rank 2 =
    some (if w.tracker.targetState rank = .running then ascii "R" else [])
  exited : w.textIn rank 4 =
    some (if w.tracker.targetState rank = .exited then decimal (w.tracker.exitCode rank) else [])
  rows : ∀ path ∈ w.maps.openedFiles, ∃ row : Int, w.maps.path2Row[path]? = some row ∧
    w.textIn rank row =
      some (if w.tracker.targetState rank = .stopped ∧ w.tracker.currentFile rank = path then
        decimal (w.tracker.currentLine rank) else [])

def OverviewRight (w : UIWindow n) : Prop := ∀ rank, w.TellsState rank

/-- Where a rank has to be drawn. -/
def statedPlace (w : UIWindow n) (rank : Fin n) : Option (Bytes × Int) :=
  if w.tracker.targetState rank = .stopped then
    some (w.tracker.currentFile rank, w.tracker.currentLine rank)
  else
    none

/-- The state these responses leave a rank in. -/
def leftState (responses : List (List MiOutput)) (state : TargetState) : TargetState :=
  put (lastSome (fun first => (responseChanges first).targetState) responses) state

/-- The file these responses leave the label of a rank in. -/
def leftLabel (w : UIWindow n) (rank : Fin n) (responses : List (List MiOutput)) : Option Bytes :=
  (put (lastSome responsePlace responses) (w.statedPlace rank)).map Prod.fst

/-- A chunk that leaves its rank stopped leaves label and rank in one file, if
they are in an opened one. A tab for the empty path, in which the ranks that are
in no file count as being, is opened only while these are stopped. A missing file
is found only while all ranks are stopped that count as being in an opened one. -/
def LabelsFollow (w : UIWindow n) : ScrollAct n → Prop
  | .chunk rank _ responses =>
      (leftState responses (w.tracker.targetState rank) = .stopped →
        ∀ path, path ∈ w.maps.openedFiles ∨ path ∈ responses.filterMap responsePath →
          (w.leftLabel rank responses = some path ↔
            leftFile responses (w.tracker.currentFile rank) = path)) ∧
      ([] ∈ responses.filterMap responsePath → [] ∈ w.maps.openedFiles ∨
        ∀ q, q ≠ rank → w.tracker.currentFile q = [] → w.tracker.targetState q = .stopped)
  | .openFile fullpath _ =>
      fullpath = [] → [] ∈ w.maps.openedFiles ∨
        ∀ q, w.tracker.currentFile q = [] → w.tracker.targetState q = .stopped
  | .openMissing pageNum _ =>
      ∀ page, w.pages[pageNum]? = some page → (w.views page.view).missing = true →
        ∀ q, w.tracker.currentFile q ∈ w.maps.openedFiles → w.tracker.targetState q = .stopped
  | _ => True

section Texts

variable {w u : UIWindow n} {place : Fin n → Option (Bytes × Int)}

theorem textAt_statedPlace (w : UIWindow n) (rank : Fin n) (path : Bytes) :
    textAt (w.statedPlace rank) path =
      if w.tracker.targetState rank = .stopped ∧ w.tracker.currentFile rank = path then
        decimal (w.tracker.currentLine rank) else [] := by
  unfold statedPlace
  by_cases hstopped : w.tracker.targetState rank = .stopped
  · simp [hstopped, textAt_some]
  · simp [hstopped]

/-- The label of a rank in the row of a file. -/
theorem Drawn.textIn (h : w.Drawn place) {path : Bytes} (hpath : path ∈ w.maps.openedFiles) :
    ∃ row : Int, w.maps.path2Row[path]? = some row ∧
      ∀ q, w.textIn q row = some (textAt (place q) path) := by
  obtain ⟨es, hes, htexts⟩ := h
  rw [hes.mem_openedFiles, hes.paths_eq] at hpath
  obtain ⟨e, he, rfl⟩ := List.mem_map.mp hpath
  obtain ⟨row, hrow, hlines, -⟩ := hes.rowLabels he
  exact ⟨row, hrow, fun q => by rw [UIWindow.textIn, hlines, Option.map_some, htexts e he]⟩

/-- The overview is right if the ranks are drawn where they have to be. -/
theorem Drawn.overviewRight_iff (h : w.Drawn place) :
    w.OverviewRight ↔ (∀ q, w.headerText 2 q = some (runningText w.tracker q) ∧
      w.headerText 4 q = some (exitedText w.tracker q)) ∧
        ∀ path ∈ w.maps.openedFiles, ∀ q, textAt (place q) path = textAt (w.statedPlace q) path := by
  constructor
  · intro hright
    refine ⟨fun q => ⟨(hright q).running, (hright q).exited⟩, fun path hpath q => ?_⟩
    obtain ⟨row, hrow, htext⟩ := h.textIn hpath
    obtain ⟨row', hrow', htold⟩ := (hright q).rows path hpath
    obtain rfl : row = row' := Option.some.inj (hrow.symm.trans hrow')
    rw [← textAt_statedPlace, htext] at htold
    exact Option.some.inj htold
  · rintro ⟨hheader, htexts⟩ q
    refine ⟨(hheader q).1, (hheader q).2, fun path hpath => ?_⟩
    obtain ⟨row, hrow, htext⟩ := h.textIn hpath
    exact ⟨row, hrow, by rw [htext, htexts path hpath, textAt_statedPlace]⟩

/-- A right overview draws the ranks where they have to be. -/
theorem OverviewRight.drawn (h : w.OverviewRight) {es : List (Entry n)} (hes : w.Shows es) :
    w.Drawn w.statedPlace := by
  refine ⟨es, hes, fun e he q => ?_⟩
  have hpath : e.path ∈ w.maps.openedFiles := by
    rw [hes.mem_openedFiles, hes.paths_eq]
    exact List.mem_map_of_mem he
  obtain ⟨row, hrow, hlines, -⟩ := hes.rowLabels he
  obtain ⟨row', hrow', htold⟩ := (h q).rows e.path hpath
  obtain rfl : row = row' := Option.some.inj (hrow.symm.trans hrow')
  rw [UIWindow.textIn, hlines, ← textAt_statedPlace] at htold
  exact Option.some.inj htold

theorem ownPlace_statedPlace (w : UIWindow n) (q : Fin n) : w.OwnPlace w.statedPlace q := by
  unfold OwnPlace statedPlace
  split
  · exact Or.inr rfl
  · exact Or.inl rfl

/-- Two places look the same in these rows exactly if none of the rows tells
them apart by its path. -/
theorem textAt_congr_iff {paths : Bytes → Prop} {drawn : Option (Bytes × Int)} {file : Bytes}
    {line : Int} (hline : ∀ f l, drawn = some (f, l) → l = line) :
    (∀ path, paths path → textAt drawn path = textAt (some (file, line)) path) ↔
      ∀ path, paths path → (drawn.map Prod.fst = some path ↔ file = path) := by
  have htext : ∀ path, textAt drawn path =
      if drawn.map Prod.fst = some path then decimal line else [] := by
    intro path
    cases drawn with
    | none => simp
    | some position =>
        obtain ⟨f, l⟩ := position
        simp [textAt_some, hline f l rfl]
  refine forall₂_congr fun path _ => ?_
  rw [htext, textAt_some]
  have hne := decimal_ne_nil line
  by_cases hdrawn : drawn.map Prod.fst = some path <;> by_cases hfile : file = path <;>
    simp [hdrawn, hfile, hne, hne.symm]

/-- What the ranks do that are drawn in a new row. -/
theorem openedPlace_right_iff (q : Fin n) {reached : List Bytes} {paths : Bytes → Prop}
    (hreached : ∀ p ∈ reached, paths p) :
    (∀ path, paths path →
      textAt (w.openedPlace reached w.statedPlace q) path = textAt (w.statedPlace q) path) ↔
      (w.tracker.currentFile q ∉ w.paths → w.tracker.currentFile q ∈ reached →
        w.tracker.targetState q = .stopped) := by
  by_cases hstopped : w.tracker.targetState q = .stopped
  · have hsame : w.openedPlace reached w.statedPlace q = w.statedPlace q := by
      rw [openedPlace, statedPlace, if_pos hstopped]
      split <;> rfl
    simp [hsame, hstopped]
  · have hnone : w.statedPlace q = none := if_neg hstopped
    simp only [hnone, hstopped, openedPlace, imp_false]
    constructor
    · intro h hnew hmem
      have htext := h _ (hreached _ hmem)
      rw [if_pos ⟨hnew, hmem⟩, textAt_some, if_pos rfl, textAt_none] at htext
      exact decimal_ne_nil _ htext
    · intro h path _
      rw [if_neg fun hboth => h hboth.1 hboth.2]

/-- What a rank does that is drawn where it counts as being. -/
theorem currentPlace_right_iff (q : Fin n) (paths : Bytes → Prop) :
    (∀ path, paths path → textAt (w.currentPlace q) path = textAt (w.statedPlace q) path) ↔
      (paths (w.tracker.currentFile q) → w.tracker.targetState q = .stopped) := by
  by_cases hstopped : w.tracker.targetState q = .stopped
  · simp [statedPlace, currentPlace, hstopped]
  · have hnone : w.statedPlace q = none := if_neg hstopped
    simp only [hnone, hstopped, imp_false, textAt_none]
    constructor
    · intro h hopened
      have htext := h _ hopened
      rw [currentPlace, textAt_some, if_pos rfl] at htext
      exact decimal_ne_nil _ htext
    · intro h path hpath
      rw [currentPlace, textAt_some, if_neg]
      rintro rfl
      exact h hpath

/-- The ranks without a tab for their file are those without a file. -/
theorem Located.opened_iff (h : w.Located) (Q : Fin n → Prop) (reached : List Bytes) :
    (∀ q, Q q → w.tracker.currentFile q ∉ w.paths → w.tracker.currentFile q ∈ reached →
      w.tracker.targetState q = .stopped) ↔
      ([] ∈ reached → [] ∈ w.maps.openedFiles ∨
        ∀ q, Q q → w.tracker.currentFile q = [] → w.tracker.targetState q = .stopped) := by
  obtain ⟨⟨es, hes⟩, hfiles⟩ := h
  rw [hes.mem_openedFiles]
  constructor
  · intro hall hmem
    by_cases hopened : [] ∈ w.paths
    · exact Or.inl hopened
    · exact Or.inr fun q hq hfile => hall q hq (hfile ▸ hopened) (hfile ▸ hmem)
  · intro hempty q hq hnew hmem
    have hfile : w.tracker.currentFile q = [] := (hfiles q).resolve_right hnew
    rw [hfile] at hnew hmem
    exact (hempty hmem).resolve_left hnew q hq hfile

end Texts

section Steps

variable {w u : UIWindow n} {rank : Fin n} {load : Bytes → SourceFile}

/-- What is tracked after the responses of a chunk. -/
theorem foldResponses_status (h : ∃ es, w.Shows es) (hn : 0 < n)
    {responses : List (List MiOutput)}
    (hu : responses.foldlM (UIWindow.handleResponse rank load) w = .ok u) :
    u.tracker.status rank = (w.tracker.status rank).after responses ∧
      ∀ q, q ≠ rank → u.tracker.status q = w.tracker.status q := by
  induction responses generalizing w with
  | nil =>
      obtain rfl := Except.ok.inj hu
      exact ⟨rfl, fun q _ => rfl⟩
  | cons first rest ih =>
      rw [List.foldlM_cons] at hu
      cases hv : UIWindow.handleResponse rank load w first with
      | error e => simp [hv, bind, Except.bind] at hu
      | ok v =>
          simp only [hv, bind, Except.bind] at hu
          obtain ⟨es, hes⟩ := h
          obtain ⟨htracker, hadvanced⟩ := handleResponse_advances hes hn hv
          obtain ⟨hrank, hothers⟩ := ih hadvanced.shown hu
          refine ⟨?_, fun q hq => ?_⟩
          · rw [hrank, Tracker.status_handleResponse htracker]
            rfl
          · rw [hothers q hq, Tracker.status_handleResponse_of_ne hq htracker]

theorem statedPlace_congr {q : Fin n} (h : u.tracker.status q = w.tracker.status q) :
    u.statedPlace q = w.statedPlace q := by
  have hstate := congrArg Status.targetState h
  have hfile := congrArg Status.currentFile h
  have hline := congrArg Status.currentLine h
  simp only [Tracker.status] at hstate hfile hline
  simp only [statedPlace, hstate, hfile, hline]

theorem headerTexts_congr {t t' : Tracker n} {q : Fin n} (h : t.status q = t'.status q) :
    runningText t q = runningText t' q ∧ exitedText t q = exitedText t' q := by
  have hstate := congrArg Status.targetState h
  have hcode := congrArg Status.exitCode h
  simp only [Tracker.status] at hstate hcode
  simp only [runningText, exitedText, hstate, hcode, and_self]

/-- A step that leaves what is tracked and the header alone has only the rows to
keep right. -/
theorem Drawn.kept_right_iff (h : u.Drawn place) (hright : w.OverviewRight)
    (htracker : u.tracker = w.tracker) (h2 : u.header 2 = w.header 2)
    (h4 : u.header 4 = w.header 4) :
    u.OverviewRight ↔ ∀ path ∈ u.maps.openedFiles, ∀ q,
      textAt (place q) path = textAt (w.statedPlace q) path := by
  have hstated : u.statedPlace = w.statedPlace := by
    funext q
    exact statedPlace_congr (by rw [htracker])
  rw [h.overviewRight_iff, hstated]
  refine and_iff_right fun q => ?_
  rw [headerText, headerText, h2, h4, htracker]
  exact ⟨(hright q).running, (hright q).exited⟩

/-- Of the rank itself: its label is where its last stop has drawn it. -/
theorem own_right_iff {responses : List (List MiOutput)}
    (h : u.tracker.status rank = (w.tracker.status rank).after responses) (paths : Bytes → Prop) :
    (∀ path, paths path → textAt (checkedPlace u.tracker rank
      (put (lastSome responsePlace responses) (w.statedPlace rank))) path =
        textAt (u.statedPlace rank) path) ↔
      (leftState responses (w.tracker.targetState rank) = .stopped →
        ∀ path, paths path →
          (w.leftLabel rank responses = some path ↔ u.tracker.currentFile rank = path)) := by
  have hstate : u.tracker.targetState rank =
      leftState responses (w.tracker.targetState rank) := by
    have hafter := congrArg Status.targetState h
    rwa [targetState_after] at hafter
  rw [← hstate]
  by_cases hstopped : u.tracker.targetState rank = .stopped
  · have hchecked : checkedPlace u.tracker rank
        (put (lastSome responsePlace responses) (w.statedPlace rank)) =
          put (lastSome responsePlace responses) (w.statedPlace rank) := by
      rw [checkedPlace, hstopped, if_neg (by decide)]
    have hline : ∀ f l, put (lastSome responsePlace responses) (w.statedPlace rank) =
        some (f, l) → l = u.tracker.currentLine rank := by
      intro f l hplace
      have hafter := congrArg Status.currentLine h
      refine (place_after (fun file line hstart => ?_) responses f l hplace).trans hafter.symm
      unfold statedPlace at hstart
      split at hstart
      · exact (Prod.mk.inj (Option.some.inj hstart)).2.symm
      · cases hstart
    have hstated : u.statedPlace rank =
        some (u.tracker.currentFile rank, u.tracker.currentLine rank) := if_pos hstopped
    rw [hchecked, hstated, textAt_congr_iff hline, leftLabel]
    exact ⟨fun hall _ => hall, fun hall => hall hstopped⟩
  · have hstated : u.statedPlace rank = none := if_neg hstopped
    refine iff_of_true (fun path _ => ?_) fun hnot => absurd hnot hstopped
    rw [hstated, checkedPlace]
    split
    · rfl
    · -- Only a rank that has never stopped is left.
      have hunknown : u.tracker.targetState rank = .unknown := by
        cases hs : u.tracker.targetState rank <;> simp_all
      obtain ⟨hstart, hplace⟩ := lastSome_place_of_unknown (hstate.symm.trans hunknown)
      rw [hplace, put_none, statedPlace, hstart, if_neg (by decide)]

/-- A chunk keeps the overview right exactly if the labels follow. -/
theorem Located.chunk_right_iff (h : w.Located) (hn : 0 < n) {responses : List (List MiOutput)}
    (hu : w.handleResponses rank load responses = .ok u) (hright : w.OverviewRight) :
    u.OverviewRight ↔ LabelsFollow w (.chunk rank load responses) := by
  obtain ⟨hlocated, hadvanced, hfile, -⟩ := h.handleResponses hn hu
  obtain ⟨⟨es, hes⟩, h⟩ := h
  obtain ⟨⟨es', hes'⟩, -⟩ := hlocated
  have hdrawn := hright.drawn hes
  have hheaders := (hdrawn.overviewRight_iff.mp hright).1
  unfold UIWindow.handleResponses at hu
  cases hv : responses.foldlM (UIWindow.handleResponse rank load) w with
  | error e => simp [hv, bind, Except.bind] at hu
  | ok v =>
      simp only [hv, bind, Except.bind] at hu
      obtain ⟨hvdrawn, hv2, hv4⟩ :=
        hdrawn.foldResponses hn (fun q _ => w.ownPlace_statedPlace q) hv
      obtain ⟨hrank, hothers⟩ := foldResponses_status ⟨es, hes⟩ hn hv
      obtain ⟨u', hu', htracker, hudrawn, hu2, hu4⟩ := hvdrawn.checkOverview rank
      obtain rfl := Except.ok.inj (hu'.symm.trans hu)
      rw [← htracker] at hrank hothers hudrawn hu2 hu4
      rw [Function.update_idem, Function.update_self] at hudrawn
      have hheaders' : ∀ q, u'.headerText 2 q = some (runningText u'.tracker q) ∧
          u'.headerText 4 q = some (exitedText u'.tracker q) := by
        intro q
        rw [hu2, hu4]
        by_cases hq : q = rank
        · subst hq
          simp
        · obtain ⟨hrunning, hexited⟩ := headerTexts_congr (hothers q hq)
          rw [Function.update_of_ne hq, Function.update_of_ne hq, hrunning, hexited,
            ← (hheaders q).1, ← (hheaders q).2]
          exact ⟨by rw [headerText, headerText, hv2], by rw [headerText, headerText, hv4]⟩
      have hopened : ∀ path, path ∈ u'.maps.openedFiles ↔
          path ∈ w.maps.openedFiles ∨ path ∈ responses.filterMap responsePath := by
        intro path
        rw [hes'.mem_openedFiles, hes.mem_openedFiles, hadvanced.paths]
      have hreached : ∀ p ∈ responses.filterMap responsePath,
          p ∈ w.maps.openedFiles ∨ p ∈ responses.filterMap responsePath := fun p hp => Or.inr hp
      rw [hudrawn.overviewRight_iff, LabelsFollow, ← hfile, ← own_right_iff hrank,
        ← Located.opened_iff ⟨⟨es, hes⟩, h⟩ fun q => q ≠ rank]
      constructor
      · rintro ⟨-, htexts⟩
        refine ⟨fun path hpath => ?_, fun q hq => ?_⟩
        · simpa using htexts path ((hopened path).mpr hpath) rank
        · refine (openedPlace_right_iff q hreached).mp fun path hpath => ?_
          have htext := htexts path ((hopened path).mpr hpath) q
          rwa [Function.update_of_ne hq, statedPlace_congr (hothers q hq)] at htext
      · rintro ⟨hrankright, hothersright⟩
        refine ⟨hheaders', fun path hpath q => ?_⟩
        by_cases hq : q = rank
        · subst hq
          rw [Function.update_self]
          exact hrankright path ((hopened path).mp hpath)
        · rw [Function.update_of_ne hq, statedPlace_congr (hothers q hq)]
          exact (openedPlace_right_iff q hreached).mpr (hothersright q hq) path
            ((hopened path).mp hpath)

/-- Opening a tab draws the ranks that count as being in the file. -/
theorem Located.openFile_right_iff (h : w.Located) (hn : 0 < n) (hright : w.OverviewRight)
    {fullpath : Bytes} {file : SourceFile}
    (hu : w.appendSourceFile fullpath file = .ok u) :
    u.OverviewRight ↔ LabelsFollow w (.openFile fullpath file) := by
  obtain ⟨es, hes⟩ := h.1
  obtain ⟨v, hv, hvdrawn, hv2, hv4⟩ :=
    (hright.drawn hes).appendSourceFile hn fullpath file w.ownPlace_statedPlace
  obtain ⟨v', es', hv', hes', hsame, hpages⟩ := appendSourceFile_ok hes hn fullpath file
  obtain rfl := Except.ok.inj (hv'.symm.trans hv)
  obtain rfl := Except.ok.inj (hv.symm.trans hu)
  have hopened : fullpath ∈ v'.maps.openedFiles := by
    rw [hes'.mem_openedFiles, UIWindow.paths, hes'.pages, hpages]
    split
    · rwa [List.map_map]
    · simp [Entry.page, Page.path, openedEntry]
  have hreached : ∀ p ∈ [fullpath], p ∈ v'.maps.openedFiles := by simpa using hopened
  have hempty := h.opened_iff (fun _ => True) [fullpath]
  simp only [true_implies, List.mem_singleton, eq_comm (a := ([] : Bytes))] at hempty
  simp only [LabelsFollow]
  rw [hvdrawn.kept_right_iff hright hsame.tracker hv2 hv4, ← hempty]
  constructor
  · intro htexts q hnew hfile
    exact (openedPlace_right_iff q hreached).mp (fun path hpath => htexts path hpath q) hnew
      (List.mem_singleton.mpr hfile)
  · intro hall path hpath q
    exact (openedPlace_right_iff q hreached).mpr
      (fun hnew hfile => hall q hnew (List.mem_singleton.mp hfile)) path hpath

/-- Finding a missing file draws all ranks where they count as being. -/
theorem Located.openMissing_right_iff (h : w.Located) (hright : w.OverviewRight) {pageNum : Nat}
    {content : Int → Option Bytes} (hu : w.clickMissing pageNum content = .ok u) :
    u.OverviewRight ↔ LabelsFollow w (.openMissing pageNum content) := by
  obtain ⟨es, hes⟩ := h.1
  rw [LabelsFollow]
  obtain ⟨views, v, hv, hredrawn⟩ := clickMissing_ok hes pageNum content
  obtain rfl := Except.ok.inj (hv.symm.trans hu)
  cases hpage : w.pages[pageNum]? with
  | none =>
      simp only [clickMissing, hpage, Except.ok.injEq] at hu
      subst hu
      simp [hright]
  | some page =>
      by_cases hmissing : (w.views page.view).missing = true
      · obtain ⟨v', hv', hvdrawn, hv2, hv4⟩ :=
          (hright.drawn hes).openMissing (List.mem_of_getElem? hpage) content
        simp only [clickMissing, hpage, hmissing, if_true] at hu
        obtain rfl := Except.ok.inj (hv'.symm.trans hu)
        rw [hvdrawn.kept_right_iff hright hredrawn.tracker hv2 hv4, hredrawn.maps]
        simp only [Option.some.injEq]
        constructor
        · rintro htexts _ rfl _ q
          exact (currentPlace_right_iff q _).mp fun path hpath => htexts path hpath q
        · exact fun hall path hpath q =>
            (currentPlace_right_iff q _).mpr (hall page rfl hmissing q) path hpath
      · simp only [clickMissing, hpage, hmissing] at hu
        obtain rfl : w = v := by simpa using hu
        simp [hright, hmissing]

/-- One step. -/
theorem Located.step_right_iff (h : w.Located) (hn : 0 < n) (hright : w.OverviewRight)
    {a : ScrollAct n} (hstep : scrollNext w a = some u) :
    u.OverviewRight ↔ LabelsFollow w a := by
  cases a with
  | chunk rank load responses => exact h.chunk_right_iff hn (toOption_eq_some hstep) hright
  | openFile fullpath file => exact h.openFile_right_iff hn hright (toOption_eq_some hstep)
  | openMissing pageNum content => exact h.openMissing_right_iff hright (toOption_eq_some hstep)
  | setMarks view marks =>
      obtain rfl := Option.some.inj hstep
      exact iff_of_true (fun q => ⟨(hright q).running, (hright q).exited, (hright q).rows⟩) trivial
  | setFollow followRank =>
      obtain rfl := Option.some.inj hstep
      exact iff_of_true (fun q => ⟨(hright q).running, (hright q).exited, (hright q).rows⟩) trivial
  | closeUnusedTabs =>
      obtain rfl := Option.some.inj hstep
      obtain ⟨es, hes⟩ := h.1
      have hfirst := hes.firstRow
      have hheader : ∀ top < w.firstRowIdx, w.closeUnusedTabs.header top = w.header top := by
        intro top htop
        funext q
        rw [header, header, hes.labelAt_closeUnusedTabs _ htop]
      refine iff_of_true (((hright.drawn hes).closeUnusedTabs.kept_right_iff hright
        hes.closeUnusedTabs.2.tracker (hheader 2 ?_) (hheader 4 ?_)).mpr ?_) trivial
      · omega
      · omega
      · exact fun path _ q => rfl
  | runIdle rank =>
      simp only [scrollNext] at hstep
      split at hstep
      · obtain ⟨target, -, rfl⟩ := Option.map_eq_some_iff.mp hstep
        exact iff_of_true (fun q => ⟨(hright q).running, (hright q).exited, (hright q).rows⟩)
          trivial
      · cases hstep

end Steps

section Run

variable {w : UIWindow n}

theorem overviewRight_initOverview : (init n).initOverview.OverviewRight := by
  have hdrawn : (init n).initOverview.Drawn fun _ => none := ⟨[], shows_initOverview, by simp⟩
  have htracker : (init n).initOverview.tracker = Tracker.init n :=
    (sameRanks_initOverview _).tracker
  refine hdrawn.overviewRight_iff.mpr ⟨fun q => ?_, fun path _ q => ?_⟩
  · rw [headerText, headerText, header, header, labelAt_initOverview _ q (Or.inl rfl),
      labelAt_initOverview _ q (Or.inr rfl), htracker]
    exact ⟨rfl, rfl⟩
  · rw [statedPlace, htracker]
    rfl

/-- The overview is right in every state of a run, for every rank, if and only
if the labels follow in every chunk of the run. -/
theorem overview_run_iff (hn : 0 < n) {tr : List (UIWindow n × ScrollAct n)}
    (run : Run (scrollSystem n) tr w) :
    ((∀ p ∈ tr, p.1.OverviewRight) ∧ w.OverviewRight) ↔ Meets LabelsFollow tr := by
  apply Run.meets_iff (J := Located) ?_ ?_ ?_ run
  · rintro s rfl
    exact ⟨overviewRight_initOverview, located_initOverview⟩
  · exact fun s a t hJ hstep => (hJ.step hn hstep).1
  · exact fun s a t hJ hI hstep => hJ.step_right_iff hn hI hstep

/-- A rank stops in a file. -/
def stopChunk (rank : Fin n) : ScrollAct n :=
  .chunk rank missingFile [[steppedRecord (ascii "/src/a.c") 7]]

/-- A rank is resumed. -/
def resumeChunk (rank : Fin n) : ScrollAct n :=
  .chunk rank missingFile [[runningRecord]]

theorem resumed_overviewRight :
    ∃ v w : UIWindow 1, scrollNext (init 1).initOverview (stopChunk 0) = some v ∧
      scrollNext v (resumeChunk 0) = some w ∧ v.OverviewRight ∧ w.OverviewRight := by
  obtain ⟨v, hv⟩ : ∃ v, scrollNext (init 1).initOverview (stopChunk 0) = some v :=
    Option.isSome_iff_exists.mp rfl
  obtain ⟨w, hw⟩ : ∃ w, scrollNext v (resumeChunk 0) = some w := by
    have hboth : ([stopChunk 0, resumeChunk 0].foldlM scrollNext (init 1).initOverview).isSome =
        true := rfl
    rw [List.foldlM_cons, hv] at hboth
    exact Option.isSome_iff_exists.mp (by simpa using hboth)
  have hstart : Run (scrollSystem 1) [] (init 1).initOverview := Run.start rfl
  have hstop : LabelsFollow (init 1).initOverview (stopChunk 0) := by
    refine ⟨fun _ path _ => ?_, fun hempty => ?_⟩
    · have hlabel : (init 1).initOverview.leftLabel 0 [[steppedRecord (ascii "/src/a.c") 7]] =
          some (ascii "/src/a.c") := rfl
      have hfile : leftFile [[steppedRecord (ascii "/src/a.c") 7]]
          ((init 1).initOverview.tracker.currentFile 0) = ascii "/src/a.c" := rfl
      rw [hlabel, hfile, Option.some_inj]
    · exact absurd hempty (by decide)
  have hresume : LabelsFollow v (resumeChunk 0) := by
    refine ⟨fun hstopped => ?_, fun hempty => absurd hempty (by decide)⟩
    have hrunning : leftState [[runningRecord]] (v.tracker.targetState 0) = .running := rfl
    rw [hrunning] at hstopped
    cases hstopped
  have hmeets : Meets LabelsFollow
      (([] ++ [((init 1).initOverview, stopChunk 0)]) ++ [(v, resumeChunk 0)]) :=
    (meets_snoc _ _ _ _).mpr ⟨(meets_snoc _ _ _ _).mpr ⟨meets_nil _, hstop⟩, hresume⟩
  obtain ⟨hvisited, hlast⟩ :=
    (overview_run_iff (by decide) ((hstart.next hv).next hw)).mpr hmeets
  exact ⟨v, w, hv, hw, hvisited (v, resumeChunk 0) (by simp), hlast⟩

/-- `*stopped,reason="signal-received"` of a function without a source file. -/
def strayRecord : MiOutput where
  tclass := .stopped
  c := [.const (some (ascii "reason")) (ascii "signal-received")]

/-- A rank that is shown in a file is resumed and stops without a source file,
all in one chunk. -/
def strayedActs (rank : Fin n) : List (ScrollAct n) :=
  [stopChunk rank, .chunk rank missingFile [[runningRecord], [strayRecord]]]

/-- After such a chunk the label in the row of the file it has left still stands. -/
theorem strayed_label_stale :
    ∃ w : UIWindow 1, Reachable (scrollSystem 1) w ∧ w.tracker.targetState 0 = .stopped ∧
      w.tracker.currentFile 0 = [] ∧ ascii "/src/a.c" ∈ w.maps.openedFiles ∧
      (w.maps.path2Row[ascii "/src/a.c"]?).bind (w.textIn 0) = some (ascii "7") ∧
      ¬ w.TellsState 0 := by
  obtain ⟨w, hw, hp⟩ := (Reachable.start (M := scrollSystem 1) rfl).replay_any (strayedActs 0)
    (fun w => decide (w.tracker.targetState 0 = .stopped) &&
      decide (w.tracker.currentFile 0 = []) && decide (ascii "/src/a.c" ∈ w.maps.openedFiles) &&
      decide ((w.maps.path2Row[ascii "/src/a.c"]?).bind (w.textIn 0) = some (ascii "7"))) rfl
  simp only [Bool.and_eq_true, decide_eq_true_eq] at hp
  obtain ⟨⟨⟨hstate, hfile⟩, hopened⟩, htext⟩ := hp
  refine ⟨w, hw, hstate, hfile, hopened, htext, fun htells => ?_⟩
  obtain ⟨row, hrow, htold⟩ := htells.rows _ hopened
  rw [hrow, Option.bind_some, htold, hfile] at htext
  simp [ascii] at htext

end Run

end UIWindow

end ParallelGdb
