import ParallelGdb.Tabs.Scroll

/-!
# What closing the unused tabs leaves

After any run `close_unused_tabs` takes out the pages nobody needs, and what the
others show is found again at their new rows.
-/

namespace ParallelGdb

open Library.CString Library.CellGrid Library.Transition Mi Std

namespace UIWindow

variable {n : Nat}

/-- No rank is in the file of a page, and no line of it has a breakpoint. -/
def Unused (w : UIWindow n) (page : Page) : Prop :=
  (∀ rank, w.tracker.currentFile rank ≠ page.path) ∧
    ((w.views page.view).marks = none ∨ (w.views page.view).marks = some [])

instance (w : UIWindow n) (page : Page) : Decidable (w.Unused page) := by
  unfold Unused
  infer_instance

/-- From `w` to `u` the unused pages are closed, and that is all. -/
structure ClosesUnused (w u : UIWindow n) : Prop where
  removed : ∀ page ∈ w.pages, page ∉ u.pages ↔ w.Unused page
  /-- The other pages are still in order. -/
  pages : u.pages = w.pages.filter fun page => ¬ w.Unused page
  views : u.views = w.views
  /-- The labels of a file have moved to its new row, its name with them. -/
  rows : ∀ page ∈ u.pages, ∃ row row' : Int, w.maps.path2Row[page.path]? = some row ∧
    u.maps.path2Row[page.path]? = some row' ∧
    (∀ rank : Fin n, ∃ shown, w.labelAt (2 * (rank : Nat) + 2) row = some shown ∧
      u.labelAt (2 * (rank : Nat) + 2) row' = some shown) ∧
    w.labelAt 0 row = some page.label ∧ u.labelAt 0 row' = some page.label
  tracker : u.tracker = w.tracker

theorem uses_iff {w : UIWindow n} (e : Entry n) : w.uses e = true ↔ ¬ w.Unused e.page := by
  have hmarks : ∀ view : View, view.hasMarks = true ↔
      ¬ (view.marks = none ∨ view.marks = some []) := by
    rintro ⟨lineText, marks⟩
    cases marks <;> simp [View.hasMarks]
  simp only [uses, Bool.or_eq_true, List.any_eq_true, List.mem_finRange, true_and,
    decide_eq_true_eq, hmarks, Unused, not_and_or, not_forall, not_not, Entry.path_page]
  rfl

/-- The row of an entry and its labels. -/
theorem Shows.rowLabels {w : UIWindow n} {es : List (Entry n)} (h : w.Shows es) {e : Entry n}
    (he : e ∈ es) : ∃ row : Int, w.maps.path2Row[e.path]? = some row ∧
      (∀ rank : Fin n, w.labelAt (2 * (rank : Nat) + 2) row = some (e.lines rank)) ∧
      w.labelAt 0 row = some e.page.label := by
  obtain ⟨k, hk⟩ := List.mem_iff_getElem?.mp he
  refine ⟨rowOf w.firstRowIdx k, (h.maps.getElem?_row _ _).mpr ⟨e.page, k, ⟨?_, rfl⟩, rfl⟩,
    fun rank => labelAt_eq_some.mpr ((h.rows k e hk).line rank),
    labelAt_eq_some.mpr (h.rows k e hk).name⟩
  rw [h.pages, List.getElem?_map, hk]
  rfl

theorem Shows.closesUnused {w : UIWindow n} {es : List (Entry n)} (h : w.Shows es) :
    ClosesUnused w w.closeUnusedTabs := by
  obtain ⟨hclosed, hsame⟩ := h.closeUnusedTabs
  have hpages : w.closeUnusedTabs.pages = w.pages.filter fun page => ¬ w.Unused page := by
    rw [hclosed.pages, h.pages, List.filter_map]
    congr 1
    apply List.filter_congr
    intro e _
    rw [Bool.eq_iff_iff, uses_iff]
    simp
  have hviews : w.closeUnusedTabs.views = w.views := by
    obtain ⟨pages, g, last, hframe⟩ := closePages_frame w.pagesToClose.reverse w
    unfold UIWindow.closeUnusedTabs
    rw [hframe]
  refine ⟨fun page hpage => ?_, hpages, hviews, fun page hpage => ?_, hsame.tracker⟩
  · rw [hpages, List.mem_filter]
    simp [hpage]
  · rw [hclosed.pages] at hpage
    obtain ⟨e, he, rfl⟩ := List.mem_map.mp hpage
    obtain ⟨row, hrow, hlines, hname⟩ := h.rowLabels (List.mem_of_mem_filter he)
    obtain ⟨row', hrow', hlines', hname'⟩ := hclosed.rowLabels he
    exact ⟨row, row', hrow, hrow', fun rank => ⟨e.lines rank, hlines rank, hlines' rank⟩, hname,
      hname'⟩

/-- What every run keeps besides. -/
theorem reachable_located (hn : 0 < n) {w : UIWindow n} (hw : Reachable (scrollSystem n) w) :
    w.Located := by
  apply hw.invariant
  · rintro s rfl
    exact located_initOverview
  · exact fun s a t hs hstep => (hs.step hn hstep).1

/-- In every reachable window `close_unused_tabs` closes the unused pages and
disturbs nothing else. -/
theorem reachable_closesUnused (hn : 0 < n) {w : UIWindow n} (hw : Reachable (scrollSystem n) w) :
    ClosesUnused w w.closeUnusedTabs := by
  obtain ⟨⟨es, hes⟩, -⟩ := reachable_located hn hw
  exact hes.closesUnused

/-- A rank has stopped in the second of three files. -/
def threeFiles (rank : Fin n) : List (ScrollAct n) :=
  [.openFile (ascii "/src/a.c") (missingFile (ascii "/src/a.c")),
    .chunk rank missingFile [[steppedRecord (ascii "/src/b.c") 7]],
    .openFile (ascii "/src/c.c") (missingFile (ascii "/src/c.c"))]

theorem threeFiles_closed :
    ∃ w : UIWindow 1, w.pages.map Page.path = [ascii "/src/a.c", ascii "/src/b.c", ascii "/src/c.c"] ∧
      w.closeUnusedTabs.pages.map Page.path = [ascii "/src/b.c"] ∧
      ClosesUnused w w.closeUnusedTabs := by
  obtain ⟨w, hw, hp⟩ := (Reachable.start (M := scrollSystem 1) rfl).replay_any (threeFiles 0)
    (fun w => decide (w.pages.map Page.path =
      [ascii "/src/a.c", ascii "/src/b.c", ascii "/src/c.c"]) &&
      decide (w.closeUnusedTabs.pages.map Page.path = [ascii "/src/b.c"])) rfl
  simp only [Bool.and_eq_true, decide_eq_true_eq] at hp
  exact ⟨w, hp.1, hp.2, reachable_closesUnused (by decide) hw⟩

end UIWindow

end ParallelGdb
