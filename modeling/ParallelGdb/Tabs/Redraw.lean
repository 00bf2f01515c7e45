import ParallelGdb.Tabs.Shows

/-!
# Redrawing the overview

`color_overview`, `update_overview`, `clear_labels_overview` and
`check_overview` write to labels they look up in the grid. While the window
shows its entries, all the labels are there, so none of them fails, and apart
from texts, tooltips and colours they leave the window as it is. So does
`open_missing`, but for the view that gets its content.
-/

namespace ParallelGdb

open Library.CString Library.CellGrid Library.RankLoop Library.Tabulate Mi Std

namespace UIWindow

variable {n : Nat}

/-- `u` is `w` with other labels in the rows of the entries. -/
structure Redrawn (w u : UIWindow n) : Prop where
  frame : u = { w with overviewGrid := u.overviewGrid }
  shows : ∀ es, w.Shows es → ∃ es' : List (Entry n), es'.map Entry.page = es.map Entry.page ∧
    u.Shows es'

namespace Redrawn

theorem refl (w : UIWindow n) : Redrawn w w where
  frame := rfl
  shows := fun es h => ⟨es, rfl, h⟩

theorem trans {w u v : UIWindow n} (h : Redrawn w u) (h' : Redrawn u v) : Redrawn w v where
  frame := by
    rw [h'.frame, h.frame]
  shows := by
    intro es hes
    obtain ⟨es', hpages, hes'⟩ := h.shows es hes
    obtain ⟨es'', hpages', hes''⟩ := h'.shows es' hes'
    exact ⟨es'', hpages'.trans hpages, hes''⟩

theorem maps {w u : UIWindow n} (h : Redrawn w u) : u.maps = w.maps := by
  rw [h.frame]

theorem tracker {w u : UIWindow n} (h : Redrawn w u) : u.tracker = w.tracker := by
  rw [h.frame]

end Redrawn

theorem redrawn_editLabel (w : UIWindow n) (rank : Fin n) (top : Int) (f : Label → Label) :
    Redrawn w (w.editLabel (column rank) top f) where
  frame := rfl
  shows := by
    intro es hes
    refine ⟨_, map_page_mapIdx es ?_, hes.editLabel rank top f⟩
    intro k e
    split <;> rfl

theorem withLabel_ok {w : UIWindow n} {rank : Fin n} {top : Int}
    (h : (w.labelAt (column rank) top).isSome) (fault : Fault) (f : Label → Label) :
    ∃ u, w.withLabel fault (column rank) top f = .ok u ∧ Redrawn w u := by
  obtain ⟨shown, hshown⟩ := Option.isSome_iff_exists.mp h
  refine ⟨w.editLabel (column rank) top f, ?_, redrawn_editLabel w rank top f⟩
  simp [withLabel, hshown]

/-- A row of the lookup map has a label for every rank. -/
theorem Shows.isSome_labelAt {w : UIWindow n} {es : List (Entry n)} (h : w.Shows es)
    {p : Bytes} {row : Int} (hrow : w.maps.path2Row[p]? = some row) (rank : Fin n) :
    (w.labelAt (column rank) row).isSome := by
  obtain ⟨page, k, ⟨hpage, -⟩, rfl⟩ := (h.maps.getElem?_row p row).mp hrow
  rw [h.pages, List.getElem?_map] at hpage
  obtain ⟨e, he, -⟩ := Option.map_eq_some_iff.mp hpage
  rw [labelAt_eq_some.mpr ((h.rows k e he).line rank)]
  rfl

section Rows

variable {w : UIWindow n} {es : List (Entry n)}

/-- The labels of a row are there whatever has been written to labels before. -/
theorem Redrawn.isSome_labelAt (h : w.Shows es) {u : UIWindow n} (hu : Redrawn w u)
    {entry : Bytes × Int} (hentry : entry ∈ w.maps.path2Row.toList) (rank : Fin n) :
    (u.labelAt (column rank) entry.2).isSome := by
  obtain ⟨es', -, hes'⟩ := hu.shows es h
  apply hes'.isSome_labelAt (p := entry.1)
  rw [hu.maps]
  exact ExtTreeMap.mem_toList_iff_getElem?_eq_some.mp hentry

theorem colorLabel_ok (h : w.Shows es) {entry : Bytes × Int}
    (hentry : entry ∈ w.maps.path2Row.toList) (s : Coloring n) (hs : Redrawn w s.window)
    (rank : Fin n) :
    ∃ t, colorLabel entry.1 entry.2 s rank = .ok t ∧ Redrawn w t.window := by
  obtain ⟨u, hu, hredrawn⟩ := withLabel_ok (hs.isSome_labelAt h hentry rank) .nullLabel
    fun shown => { shown with color := none }
  have hredrawn := hs.trans hredrawn
  unfold colorLabel
  simp only [hu, bind, Except.bind, pure, Except.pure]
  split_ifs
  all_goals refine ⟨_, rfl, ?_⟩
  all_goals first
    | exact hredrawn
    | exact hredrawn.trans (redrawn_editLabel _ rank _ _)

theorem colorRow_ok (h : w.Shows es) {entry : Bytes × Int}
    (hentry : entry ∈ w.maps.path2Row.toList) {u : UIWindow n} (hu : Redrawn w u) :
    ∃ v, colorRow u entry = .ok v ∧ Redrawn w v := by
  obtain ⟨s, hs, hredrawn⟩ := foldlM_ok (P := fun s : Coloring n => Redrawn w s.window)
    (List.finRange n) (fun s rank _ hs => colorLabel_ok h hentry s hs rank)
    (s := { window := u, line2Offset := ∅, colorOffset := 0 }) hu
  refine ⟨s.window, ?_, hredrawn⟩
  simp [colorRow, hs, bind, Except.bind, pure, Except.pure]

/-- `color_overview` finds all its labels. -/
theorem colorOverview_ok (h : w.Shows es) : ∃ u, w.colorOverview = .ok u ∧ Redrawn w u :=
  foldlM_ok w.maps.path2Row.toList (fun _ _ hentry hu => colorRow_ok h hentry hu) (.refl w)

/-- `update_overview` never throws "Invalid row.". -/
theorem updateOverview_ok (h : w.Shows es) (rank : Fin n) (fullpath : Bytes) (line : Int) :
    ∃ u, w.updateOverview rank fullpath line = .ok u ∧ Redrawn w u := by
  have hrow : ∀ v, ∀ entry ∈ w.maps.path2Row.toList, Redrawn w v →
      ∃ u, updateRow rank fullpath line v entry = .ok u ∧ Redrawn w u := by
    intro v entry hentry hv
    obtain ⟨u, hu, hredrawn⟩ := withLabel_ok (hv.isSome_labelAt h hentry rank) .invalidRow
      fun shown =>
        if fullpath ≠ entry.1 then { shown with text := [], tooltip := [] }
        else { shown with text := decimal line, tooltip := v.lineTooltip fullpath line }
    exact ⟨u, hu, hv.trans hredrawn⟩
  obtain ⟨u, hu, hredrawn⟩ := foldlM_ok w.maps.path2Row.toList hrow (.refl w)
  obtain ⟨es', -, hes'⟩ := hredrawn.shows es h
  obtain ⟨v, hv, hredrawn'⟩ := colorOverview_ok hes'
  refine ⟨v, ?_, hredrawn.trans hredrawn'⟩
  simp [updateOverview, hu, hv, bind, Except.bind]

/-- Nor when all ranks are drawn again. -/
theorem updateRanks_ok (h : w.Shows es) : ∃ u, w.updateRanks = .ok u ∧ Redrawn w u := by
  apply foldlM_ok (P := Redrawn w) (List.finRange n) ?_ (.refl w)
  intro v rank _ hv
  obtain ⟨es', -, hes'⟩ := hv.shows es h
  obtain ⟨u, hu, hredrawn⟩ := updateOverview_ok hes' rank _ _
  exact ⟨u, hu, hv.trans hredrawn⟩

/-- The view of a page is there to be filled. -/
theorem openMissing_ok (h : w.Shows es) {page : Page} (hpage : page ∈ w.pages)
    (content : Int → Option Bytes) :
    ∃ views u, w.openMissing page.path content = .ok u ∧ Redrawn { w with views } u := by
  have hshows (views : ViewId → View) : Shows { w with views } es :=
    h.congr rfl rfl rfl rfl rfl
  obtain ⟨u, hu, hredrawn⟩ := updateRanks_ok (hshows (Function.update w.views page.view
    { w.views page.view with lineText := content, missing := false }))
  refine ⟨_, u, ?_, hredrawn⟩
  rw [openMissing, h.maps.getElem?_view_page hpage]
  exact hu

/-- A click on an icon fills a view and draws the overview again, or does nothing. -/
theorem clickMissing_ok (h : w.Shows es) (pageNum : Nat) (content : Int → Option Bytes) :
    ∃ views u, w.clickMissing pageNum content = .ok u ∧ Redrawn { w with views } u := by
  unfold clickMissing
  split
  · rename_i page hpage
    split
    · exact openMissing_ok h (List.mem_of_getElem? hpage) content
    · exact ⟨w.views, w, rfl, .refl w⟩
  · exact ⟨w.views, w, rfl, .refl w⟩

end Rows

theorem redrawn_clearLabelsOverview (w : UIWindow n) (rank : Fin n) :
    Redrawn w (w.clearLabelsOverview rank) := by
  unfold clearLabelsOverview
  exact forEach_preserves (fun v entry hv => hv.trans (redrawn_editLabel v rank entry.2 _))
    w.maps.path2Row.toList (.refl w)

/-- `check_overview` finds the labels of the Running and the Exited row. -/
theorem checkOverview_ok {w : UIWindow n} {es : List (Entry n)} (h : w.Shows es)
    (rank : Fin n) : ∃ u, w.checkOverview rank = .ok u ∧ Redrawn w u := by
  let clear (shown : Label) : Label := { shown with text := [], tooltip := [] }
  have hrunning {v : UIWindow n} (hv : Redrawn w v) (f : Label → Label) :
      ∃ u, v.withLabel .nullLabel (column rank) 2 f = .ok u ∧ Redrawn w u := by
    obtain ⟨es', -, hes'⟩ := hv.shows es h
    obtain ⟨u, hu, hredrawn⟩ := withLabel_ok (hes'.running rank) .nullLabel f
    exact ⟨u, hu, hv.trans hredrawn⟩
  have hexited {v : UIWindow n} (hv : Redrawn w v) (f : Label → Label) :
      ∃ u, v.withLabel .nullLabel (column rank) 4 f = .ok u ∧ Redrawn w u := by
    obtain ⟨es', -, hes'⟩ := hv.shows es h
    obtain ⟨u, hu, hredrawn⟩ := withLabel_ok (hes'.exited rank) .nullLabel f
    exact ⟨u, hu, hv.trans hredrawn⟩
  obtain ⟨v, hv, hredrawn⟩ := hrunning (.refl w) clear
  obtain ⟨u, hu, hredrawn⟩ := hexited hredrawn clear
  have hcleared := hredrawn.trans (redrawn_clearLabelsOverview u rank)
  unfold checkOverview
  simp only [clear] at hv hu
  simp only [hv, hu, bind, Except.bind, pure, Except.pure]
  split
  · exact hrunning hcleared _
  · exact hexited hcleared _
  · exact ⟨u, rfl, hredrawn⟩

end UIWindow

end ParallelGdb
