import ParallelGdb.Library.Positions
import ParallelGdb.Tabs.Append

/-!
# Closing the unused tabs

Closing a page removes it with its two rows, and the rows below move up by two.
While `close_unused_tabs` goes from the last page to the first, the old lookup
maps still lead to the row of the page that is next. What remains is the list
of the used entries, from which the lookup maps are rebuilt.
-/

namespace ParallelGdb

open Library.CString Library.CellGrid Library.Positions Library.Tabulate Mi Std

namespace UIWindow

variable {n : Nat}

/-- Removing two rows moves what is below them up by two. -/
theorem itemAt_removeRows (g : Grid (Widget n)) (row l t : Int) :
    ((g.removeRow row).removeRow (row - 1)).itemAt l t =
      g.itemAt l (if t < row - 1 then t else t + 2) := by
  rw [Grid.itemAt_removeRow, Grid.itemAt_removeRow]
  congr 1
  split_ifs <;> omega

theorem placed_removeRow {g : Grid (Widget n)} (h : ∀ c ∈ g, Placed c) (position : Int) :
    ∀ c ∈ g.removeRow position, Placed c := by
  apply Grid.forall_removeRow h
  intro c hc hheight
  unfold Placed at hc ⊢
  simp only [Child.without] at hheight ⊢
  cases hitem : c.item with
  | separator => trivial
  | processSeparator rank =>
      rw [hitem] at hc
      exact hc
  | label shown =>
      rw [hitem] at hc
      refine ⟨hc.1, ?_⟩
      have := hc.2
      split_ifs at hheight ⊢ <;> omega

/-- The maps lead to the row of the page. -/
def LeadsToRow (w : UIWindow n) (pageNum : Nat) : Prop :=
  w.maps.path2Row.getD (w.maps.pagenum2Path.getD pageNum []) 0 = rowOf w.firstRowIdx pageNum

theorem itemAt_closePage {w : UIWindow n} {k : Nat} (hrow : w.LeadsToRow k) (l t : Int) :
    (w.closePage k).overviewGrid.itemAt l t =
      w.overviewGrid.itemAt l (if t < w.firstRowIdx + 2 * k then t else t + 2) := by
  have hrows := itemAt_removeRows w.overviewGrid (rowOf w.firstRowIdx k) l t
  rw [show rowOf w.firstRowIdx k - 1 = w.firstRowIdx + 2 * k by unfold rowOf; omega] at hrows
  rw [← hrows, UIWindow.closePage, hrow]
  simp [rowOf]

/-- What is above the rows of the files stays. -/
theorem labelAt_closePages {w : UIWindow n} {ks : List Nat} (hrows : ∀ k ∈ ks, w.LeadsToRow k)
    (l : Int) {t : Int} (ht : t < w.firstRowIdx) :
    (ks.foldl UIWindow.closePage w).labelAt l t = w.labelAt l t := by
  induction ks generalizing w with
  | nil => rfl
  | cons k rest ih =>
      obtain ⟨hrow, hrows⟩ := List.forall_mem_cons.mp hrows
      rw [List.foldl_cons]
      refine (ih (w := w.closePage k) hrows ht).trans ?_
      unfold labelAt
      rw [itemAt_closePage hrow, if_pos (by omega)]

/-- Closing one page, while the maps still lead to its row. -/
theorem Draws.closePage {w : UIWindow n} {es : List (Entry n)} (h : w.Draws es) {k : Nat}
    (hk : k < es.length) (hrow : w.LeadsToRow k) :
    (w.closePage k).Draws (es.eraseIdx k) := by
  have hcell := itemAt_closePage hrow
  have hfirst := h.firstRow
  have hlabel : ∀ l t, t < w.firstRowIdx →
      (w.closePage k).labelAt l t = w.labelAt l t := by
    intro l t ht
    unfold labelAt
    rw [hcell, if_pos (by omega)]
  have hlength : (es.eraseIdx k).length = es.length - 1 := List.length_eraseIdx_of_lt hk
  constructor
  · rw [UIWindow.closePage, h.pages, List.eraseIdx_map]
  · exact h.firstRow
  · have := h.lastRow
    rw [hlength]
    simp only [UIWindow.closePage]
    omega
  · exact placed_removeRow (placed_removeRow h.placed _) _
  · intro r
    rw [hlabel _ 2 (by omega)]
    exact h.running r
  · intro r
    rw [hlabel _ 4 (by omega)]
    exact h.exited r
  · intro j e he
    have hmoved : ∃ i, es[i]? = some e ∧ ∀ l,
        (w.closePage k).overviewGrid.itemAt l (rowOf w.firstRowIdx j) =
          w.overviewGrid.itemAt l (rowOf w.firstRowIdx i) := by
      rw [List.getElem?_eraseIdx] at he
      split at he
      · refine ⟨j, he, fun l => ?_⟩
        rw [hcell, if_pos (by unfold rowOf; omega)]
      · refine ⟨j + 1, he, fun l => ?_⟩
        rw [hcell, if_neg (by unfold rowOf; omega)]
        congr 1
        unfold rowOf
        omega
    obtain ⟨i, hi, hmoved⟩ := hmoved
    have hold := h.rows i e hi
    exact ⟨(hmoved 0).trans hold.name, fun r => (hmoved _).trans (hold.line r)⟩

/-- Closing pages from the last one on, none of them twice. -/
theorem Draws.closePages {w : UIWindow n} {es : List (Entry n)} (h : w.Draws es)
    {ks : List Nat} (hsorted : ks.Pairwise (· > ·)) (hks : ∀ k ∈ ks, k < es.length)
    (hrows : ∀ k ∈ ks, w.LeadsToRow k) :
    (ks.foldl UIWindow.closePage w).Draws (eraseEach es ks) := by
  induction ks generalizing w es with
  | nil => exact h
  | cons k rest ih =>
      obtain ⟨hgt, hrest⟩ := List.pairwise_cons.mp hsorted
      obtain ⟨hk, hks⟩ := List.forall_mem_cons.mp hks
      obtain ⟨hrow, hrows⟩ := List.forall_mem_cons.mp hrows
      apply ih (h.closePage hk hrow) hrest _ hrows
      intro j hj
      have := hgt j hj
      rw [List.length_eraseIdx_of_lt hk]
      omega

/-- A rank is in the file of the entry, or a line of it has a breakpoint. -/
def uses (w : UIWindow n) (e : Entry n) : Bool :=
  (List.finRange n).any (fun rank => w.tracker.currentFile rank = e.path) ||
    (w.views e.view).hasMarks

theorem Shows.pagesToClose {w : UIWindow n} {es : List (Entry n)} (h : w.Shows es) :
    w.pagesToClose = positions (fun e => !w.uses e) es := by
  unfold UIWindow.pagesToClose positions
  rw [h.pages, List.zipIdx_map, List.filter_map, List.map_map]
  congr 1
  apply List.filter_congr
  rintro ⟨e, k⟩ hmem
  have he : es[k]? = some e := List.mk_mem_zipIdx_iff_getElem?.mp hmem
  have hpath : w.maps.pagenum2Path.getD k [] = e.path := by
    rw [ExtTreeMap.getD_eq_getD_getElem?, h.maps.getElem?_path, h.pages, List.getElem?_map, he]
    rfl
  simp [isUsed, uses, hpath, Entry.page]

theorem closePages_frame (ks : List Nat) (w : UIWindow n) :
    ∃ pages g last, ks.foldl closePage w =
      { w with pages := pages, overviewGrid := g, lastRowIdx := last } := by
  induction ks generalizing w with
  | nil => exact ⟨w.pages, w.overviewGrid, w.lastRowIdx, rfl⟩
  | cons k rest ih =>
      obtain ⟨pages, g, last, hrest⟩ := ih (w.closePage k)
      exact ⟨pages, g, last, hrest⟩

theorem Shows.leadsToRow {w : UIWindow n} {es : List (Entry n)} (h : w.Shows es) {k : Nat}
    (hk : k ∈ w.pagesToClose) : w.LeadsToRow k := by
  rw [h.pagesToClose] at hk
  apply h.maps.rowOf_getD
  rw [h.pages, List.length_map]
  exact lt_length_of_mem_positions hk

/-- `close_unused_tabs` keeps the used entries as they are and drops the others. -/
theorem Shows.closeUnusedTabs {w : UIWindow n} {es : List (Entry n)} (h : w.Shows es) :
    w.closeUnusedTabs.Shows (es.filter w.uses) ∧ SameRanks w w.closeUnusedTabs := by
  have hdraws : (w.pagesToClose.reverse.foldl UIWindow.closePage w).Draws
      (eraseEach es w.pagesToClose.reverse) := by
    apply h.closePages
    · rw [h.pagesToClose, List.pairwise_reverse]
      exact positions_sorted _ es
    · intro k hk
      rw [h.pagesToClose, List.mem_reverse] at hk
      exact lt_length_of_mem_positions hk
    · exact fun k hk => h.leadsToRow (List.mem_reverse.mp hk)
  have hkept : eraseEach es w.pagesToClose.reverse = es.filter w.uses := by
    rw [h.pagesToClose, eraseEach_positions]
    simp
  rw [hkept] at hdraws
  obtain ⟨pages, g, last, hframe⟩ := closePages_frame w.pagesToClose.reverse w
  rw [hframe] at hdraws
  have hdistinct : ((es.filter w.uses).map Entry.path).Nodup :=
    h.distinct.sublist (List.filter_sublist.map _)
  have hclose : w.closeUnusedTabs =
      { w with
        pages := pages
        overviewGrid := g
        lastRowIdx := last
        maps := pages.zipIdx.foldl
          (fun maps p => maps.enter w.firstRowIdx p.1 p.2) LookupMaps.empty } := by
    unfold UIWindow.closeUnusedTabs
    rw [hframe]
  rw [hclose]
  refine ⟨⟨⟨hdraws.pages, hdraws.firstRow, hdraws.lastRow, hdraws.placed, hdraws.running,
    hdraws.exited, hdraws.rows⟩, hdistinct, ?_⟩, rfl, rfl, rfl⟩
  have hpages : pages = (es.filter w.uses).map Entry.page := hdraws.pages
  apply LookupMaps.lists_rebuild
  rw [hpages, List.map_map]
  exact hdistinct

/-- The header of the overview stays. -/
theorem Shows.labelAt_closeUnusedTabs {w : UIWindow n} {es : List (Entry n)} (h : w.Shows es)
    (l : Int) {t : Int} (ht : t < w.firstRowIdx) :
    w.closeUnusedTabs.labelAt l t = w.labelAt l t :=
  labelAt_closePages (fun _ hk => h.leadsToRow (List.mem_reverse.mp hk)) l ht

end UIWindow

end ParallelGdb
