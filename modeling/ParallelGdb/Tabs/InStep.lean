import ParallelGdb.Library.Transition
import ParallelGdb.Tabs.Close

/-!
# Tabs and overview rows stay in step

Files are opened, missing ones are found, positions change, lines get and lose
their breakpoints, and unused tabs are closed, in any order. After each of these
the notebook, the lookup maps and the overview agree on the opened files,
however their indices were computed. What GLib takes as the name of a path is
not modelled; it is the same function throughout a run.
-/

namespace ParallelGdb

open Library.CString Library.Transition Mi Std

namespace UIWindow

variable {n : Nat}

/-- What changes the tabs, and what `close_unused_tabs` decides by. -/
inductive TabAct (n : Nat)
  /-- `append_source_file`, after a stop or from `open_file`. -/
  | append (fullpath : Bytes) (loaded : Bool) (content : Int → Option Bytes)
  /-- `open_missing`, after a click on the icon of a page. -/
  | openMissing (pageNum : Nat) (content : Int → Option Bytes)
  | setPosition (rank : Fin n) (fullpath : Bytes) (line : Int)
  /-- The rank runs or exits. -/
  | clearPosition (rank : Fin n)
  | setMarks (view : ViewId) (marks : Option (List Int))
  | closeUnusedTabs

/-- One operation; `pathGetBasename` is `Glib::path_get_basename`. -/
def perform (pathGetBasename : Bytes → Bytes) (w : UIWindow n) :
    TabAct n → Except Fault (UIWindow n)
  | .append fullpath loaded content =>
      w.appendSourceFile fullpath { basename := pathGetBasename fullpath, loaded, content }
  | .openMissing pageNum content => w.clickMissing pageNum content
  | .setPosition rank fullpath line => w.setPosition rank fullpath line
  | .clearPosition rank =>
      .ok { w with tracker := { w.tracker with
        currentFile := Function.update w.tracker.currentFile rank [] } }
  | .setMarks view marks =>
      .ok { w with views := Function.update w.views view { w.views view with marks } }
  | .closeUnusedTabs => .ok w.closeUnusedTabs

/-- All sequences of these operations after `init_overview`. -/
def tabSystem (n : Nat) (pathGetBasename : Bytes → Bytes) : System (UIWindow n) (TabAct n) :=
  System.ofNext (· = (init n).initOverview) fun w a => (w.perform pathGetBasename a).toOption

/-- `set_position` redraws the overview. -/
theorem setPosition_ok {w : UIWindow n} {es : List (Entry n)} (h : w.Shows es)
    (rank : Fin n) (fullpath : Bytes) (line : Int) :
    ∃ u, w.setPosition rank fullpath line = .ok u ∧
      Redrawn { w with tracker := w.tracker.moveTo rank fullpath line } u := by
  have hshows : Shows { w with tracker := w.tracker.moveTo rank fullpath line } es :=
    h.congr rfl rfl rfl rfl rfl
  exact updateOverview_ok hshows rank fullpath line

/-- The pages of these entries are named by this function. -/
def Named (pathGetBasename : Bytes → Bytes) (es : List (Entry n)) : Prop :=
  ∀ page ∈ es.map Entry.page, page.label.text = pathGetBasename page.path

/-- No operation fails, and a window that shows entries shows entries afterwards. -/
theorem perform_ok {w : UIWindow n} {es : List (Entry n)} (h : w.Shows es) (hn : 0 < n)
    {pathGetBasename : Bytes → Bytes} (hnamed : Named pathGetBasename es) (a : TabAct n) :
    ∃ u es', w.perform pathGetBasename a = .ok u ∧ u.Shows es' ∧ Named pathGetBasename es' := by
  cases a with
  | append fullpath loaded content =>
      obtain ⟨u, es', hu, hes', -, hpages⟩ := appendSourceFile_ok h hn fullpath
        { basename := pathGetBasename fullpath, loaded, content }
      refine ⟨u, es', hu, hes', fun page hpage => ?_⟩
      rw [hpages] at hpage
      split at hpage
      · exact hnamed page hpage
      · obtain hold | hnew := List.mem_append.mp hpage
        · exact hnamed page hold
        · rw [List.mem_singleton.mp hnew]
          rfl
  | openMissing pageNum content =>
      obtain ⟨views, u, hu, hredrawn⟩ := clickMissing_ok h pageNum content
      obtain ⟨es', hpages, hes'⟩ := hredrawn.shows es (h.congr rfl rfl rfl rfl rfl)
      exact ⟨u, es', hu, hes', by rwa [Named, hpages]⟩
  | setPosition rank fullpath line =>
      obtain ⟨u, hu, hredrawn⟩ := setPosition_ok h rank fullpath line
      obtain ⟨es', hpages, hes'⟩ := hredrawn.shows es (h.congr rfl rfl rfl rfl rfl)
      exact ⟨u, es', hu, hes', by rwa [Named, hpages]⟩
  | clearPosition rank => exact ⟨_, es, rfl, h.congr rfl rfl rfl rfl rfl, hnamed⟩
  | setMarks view marks => exact ⟨_, es, rfl, h.congr rfl rfl rfl rfl rfl, hnamed⟩
  | closeUnusedTabs =>
      refine ⟨_, _, rfl, h.closeUnusedTabs.1, fun page hpage => hnamed page ?_⟩
      exact List.map_subset _ (List.filter_subset_self es) hpage

/-- Notebook, lookup maps and overview agree on the opened files. -/
structure InStep (pathGetBasename : Bytes → Bytes) (w : UIWindow n) : Prop where
  /-- The set of opened files and the key sets are equal. -/
  keys : ∀ p : Bytes, (p ∈ w.maps.path2Pagenum ↔ p ∈ w.maps.openedFiles) ∧
    (p ∈ w.maps.path2View ↔ p ∈ w.maps.openedFiles) ∧
    (p ∈ w.maps.path2Row ↔ p ∈ w.maps.openedFiles)
  /-- Paths and page numbers correspond one to one. -/
  inverse : ∀ (p : Bytes) (k : Nat), w.maps.path2Pagenum[p]? = some k ↔ w.maps.pagenum2Path[k]? = some p
  numbers : ∀ k : Nat, k ∈ w.maps.pagenum2Path ↔ k < w.pages.length
  /-- A page shows its path in its view. -/
  shown : ∀ (k : Nat) (p : Bytes), w.maps.pagenum2Path[k]? = some p →
    ∃ page, w.pages[k]? = some page ∧ page.path = p ∧ w.maps.path2View[p]? = some page.view
  /-- A path has the row with its name and with one label for each rank. -/
  row : ∀ (p : Bytes) (k : Nat), w.maps.path2Pagenum[p]? = some k →
    ∃ row, w.maps.path2Row[p]? = some row ∧ row = w.firstRowIdx + 2 * k + 1 ∧
      w.labelAt 0 row = some { text := pathGetBasename p, tooltip := p } ∧
      ∀ rank : Fin n, (w.labelAt (2 * (rank : Nat) + 2) row).isSome
  lastRow : w.lastRowIdx = w.firstRowIdx + 2 * w.pages.length

theorem Shows.inStep {w : UIWindow n} {es : List (Entry n)} (h : w.Shows es)
    {pathGetBasename : Bytes → Bytes} (hnamed : Named pathGetBasename es) :
    InStep pathGetBasename w := by
  have hentry : ∀ (k : Nat) page, w.pages[k]? = some page →
      ∃ e : Entry n, es[k]? = some e ∧ e.page = page := by
    intro k page hpage
    rw [h.pages, List.getElem?_map] at hpage
    exact Option.map_eq_some_iff.mp hpage
  constructor
  · intro p
    rw [h.maps.opened, h.maps.pagenum.mem_iff, h.maps.view.mem_iff, h.maps.row.mem_iff,
      LookupMaps.paths_zipIdx, LookupMaps.paths_zipIdx, List.map_map]
    exact ⟨Iff.rfl, Iff.rfl, Iff.rfl⟩
  · intro p k
    rw [h.maps.getElem?_pagenum, h.maps.getElem?_path, Option.map_eq_some_iff]
  · intro k
    rw [ExtTreeMap.mem_iff_isSome_getElem?, h.maps.getElem?_path]
    simp
  · intro k p hp
    rw [h.maps.getElem?_path] at hp
    obtain ⟨page, hpage, rfl⟩ := Option.map_eq_some_iff.mp hp
    exact ⟨page, hpage, rfl, h.maps.getElem?_view_page (List.mem_of_getElem? hpage)⟩
  · intro p k hp
    obtain ⟨page, hpage, rfl⟩ := (h.maps.getElem?_pagenum p k).mp hp
    obtain ⟨e, he, rfl⟩ := hentry k page hpage
    have hlabel : e.page.label = { text := pathGetBasename e.path, tooltip := e.path } := by
      have hname : e.name = pathGetBasename e.path :=
        hnamed e.page (List.mem_map_of_mem (List.mem_of_getElem? he))
      rw [← hname]
      rfl
    refine ⟨rowOf w.firstRowIdx k, (h.maps.getElem?_row _ _).mpr ⟨e.page, k, ⟨hpage, rfl⟩, rfl⟩,
      rfl, labelAt_eq_some.mpr (hlabel ▸ (h.rows k e he).name), fun rank => ?_⟩
    have hline : w.labelAt (column rank) (rowOf w.firstRowIdx k) = some (e.lines rank) :=
      labelAt_eq_some.mpr ((h.rows k e he).line rank)
    exact Option.isSome_iff_exists.mpr ⟨_, hline⟩
  · rw [h.lastRow, h.pages, List.length_map]

/-- Whatever was opened, closed and updated before, tabs and overview agree, and
neither `update_overview` nor any of the operations fails. -/
theorem reachable_inStep (pathGetBasename : Bytes → Bytes) (hn : 0 < n) {w : UIWindow n}
    (hw : Reachable (tabSystem n pathGetBasename) w) :
    InStep pathGetBasename w ∧
      (∀ rank fullpath line, ∃ u, w.updateOverview rank fullpath line = .ok u) ∧
      ∀ a, ∃ u, w.perform pathGetBasename a = .ok u := by
  obtain ⟨es, hes, hnamed⟩ : ∃ es, w.Shows es ∧ Named pathGetBasename es := by
    apply hw.invariant (I := fun w => ∃ es, w.Shows es ∧ Named pathGetBasename es)
    · rintro s rfl
      exact ⟨[], shows_initOverview, fun page hpage => absurd hpage List.not_mem_nil⟩
    · rintro s a t ⟨es, hes, hnamed⟩ ht
      obtain ⟨u, es', hu, hes', hnamed'⟩ := perform_ok hes hn hnamed a
      have hsome : some u = some t := by
        rw [← show (s.perform pathGetBasename a).toOption = some u by rw [hu]; rfl]
        exact ht
      exact ⟨es', Option.some.inj hsome ▸ hes', hnamed'⟩
  refine ⟨hes.inStep hnamed, fun rank fullpath line => ?_, fun a => ?_⟩
  · obtain ⟨u, hu, -⟩ := updateOverview_ok hes rank fullpath line
    exact ⟨u, hu⟩
  · obtain ⟨u, es', hu, -⟩ := perform_ok hes hn hnamed a
    exact ⟨u, hu⟩

/-- The name of a path that does not end in a slash. -/
def lastPart (path : Bytes) : Bytes := (path.reverse.takeWhile (· ≠ code '/')).reverse

/-- The message `append_source_file` shows for a file it cannot load. -/
def couldNotLoad (fullpath : Bytes) (line : Int) : Option Bytes :=
  if line = 0 then some (ascii "Could not load file: " ++ fullpath)
  else if line = 1 then some []
  else if line = 2 then some (ascii "<- Click icon to open a file.")
  else none

/-- A file that cannot be loaded. -/
def missingFile (fullpath : Bytes) : SourceFile where
  basename := lastPart fullpath
  loaded := false
  content := couldNotLoad fullpath

/-- Two files are missing, a rank stops in the second, this is found, and the first
is closed. -/
theorem reachable_inStep_closed :
    ∃ w, w.pages.map Page.path = [ascii "/src/b.c"] ∧ InStep (n := 2) lastPart w := by
  obtain ⟨w, hw, hpages⟩ := (Reachable.start (M := tabSystem 2 lastPart) rfl).replay_any
    [.append (ascii "/src/a.c") false (couldNotLoad (ascii "/src/a.c")),
      .append (ascii "/src/b.c") false (couldNotLoad (ascii "/src/b.c")),
      .setPosition 1 (ascii "/src/b.c") 1,
      .openMissing 1 (fun line => if line = 0 then some (ascii "int main(void);") else none),
      .closeUnusedTabs]
    (fun w => decide (w.pages.map Page.path = [ascii "/src/b.c"])) rfl
  exact ⟨w, of_decide_eq_true hpages, (reachable_inStep lastPart (by decide) hw).1⟩

end UIWindow

end ParallelGdb
