import ParallelGdb.Library.RankLoop
import ParallelGdb.Library.Tabulate
import ParallelGdb.Tabs.Window

/-!
# What tabs and overview show

Seen from outside, the tabs are a list of entries: the source files in the
order of their pages, each with its view and with what its row of the overview
says about the ranks. The window shows such a list if notebook, lookup maps and
grid agree with it. Writing to a label changes what a row says and nothing else.
-/

namespace ParallelGdb

open Library.CString Library.CellGrid Library.Tabulate Mi Std

variable {n : Nat}

/-- The row of the overview that belongs to a page. -/
def rowOf (firstRowIdx : Int) (pageNum : Nat) : Int := firstRowIdx + 2 * pageNum + 1

section Maps

namespace LookupMaps

/-- The lookup maps belong to this notebook. -/
structure Lists (maps : LookupMaps) (firstRowIdx : Int) (pages : List Page) : Prop where
  opened : ∀ p, p ∈ maps.openedFiles ↔ p ∈ pages.map Page.path
  pagenum : Tabulates maps.path2Pagenum (pages.zipIdx.map fun p => (p.1.path, p.2))
  path : Tabulates maps.pagenum2Path (pages.zipIdx.map fun p => (p.2, p.1.path))
  view : Tabulates maps.path2View (pages.map fun page => (page.path, page.view))
  row : Tabulates maps.path2Row (pages.zipIdx.map fun p => (p.1.path, rowOf firstRowIdx p.2))

theorem lists_empty (firstRowIdx : Int) : LookupMaps.empty.Lists firstRowIdx [] where
  opened := by simp [empty]
  pagenum := tabulates_empty
  path := tabulates_empty
  view := tabulates_empty
  row := tabulates_empty

theorem zipIdx_snoc (pages : List Page) (page : Page) :
    (pages ++ [page]).zipIdx = pages.zipIdx ++ [(page, pages.length)] := by
  simp [List.zipIdx_append]

theorem paths_zipIdx {β : Type} (pages : List Page) (f : Page × Nat → β) :
    (pages.zipIdx.map fun p => (p.1.path, f p)).map Prod.fst = pages.map Page.path := by
  calc (pages.zipIdx.map fun p => (p.1.path, f p)).map Prod.fst
      = (pages.zipIdx.map Prod.fst).map Page.path := by rw [List.map_map, List.map_map]; rfl
    _ = pages.map Page.path := by rw [List.zipIdx_map_fst]

/-- A new page is entered behind the others. -/
theorem Lists.enter {maps : LookupMaps} {firstRowIdx : Int} {pages : List Page}
    (h : maps.Lists firstRowIdx pages) {page : Page} (hnew : page.path ∉ pages.map Page.path) :
    (maps.enter firstRowIdx page pages.length).Lists firstRowIdx (pages ++ [page]) where
  opened := by
    intro p
    have hinsert : p ∈ (maps.enter firstRowIdx page pages.length).openedFiles ↔
        page.path = p ∨ p ∈ maps.openedFiles := by
      simp [LookupMaps.enter, ExtTreeSet.mem_insert]
    rw [hinsert, h.opened, List.map_append, List.mem_append]
    simp [or_comm, eq_comm]
  pagenum := by
    rw [zipIdx_snoc, List.map_append]
    exact h.pagenum.insert _ (by rwa [paths_zipIdx])
  path := by
    rw [zipIdx_snoc, List.map_append]
    exact h.path.insert _ (by simp [List.mk_mem_zipIdx_iff_getElem?])
  view := by
    rw [List.map_append]
    apply h.view.insert
    rw [List.map_map]
    exact hnew
  row := by
    rw [zipIdx_snoc, List.map_append]
    exact h.row.insert _ (by rwa [paths_zipIdx])

/-- The loop that rebuilds the cleared lookup maps. -/
theorem lists_rebuild (firstRowIdx : Int) {pages : List Page}
    (hdistinct : (pages.map Page.path).Nodup) :
    (pages.zipIdx.foldl (fun maps p => maps.enter firstRowIdx p.1 p.2) LookupMaps.empty).Lists
      firstRowIdx pages := by
  induction pages using List.reverseRecOn with
  | nil => exact lists_empty firstRowIdx
  | append_singleton pages page ih =>
      rw [List.map_append, List.map_singleton] at hdistinct
      obtain ⟨hpages, -, hnew⟩ := List.nodup_append'.mp hdistinct
      rw [zipIdx_snoc, List.foldl_append]
      exact (ih hpages).enter fun hmem => hnew hmem (List.mem_singleton_self _)

namespace Lists

variable {maps : LookupMaps} {firstRowIdx : Int} {pages : List Page}

theorem getElem?_path (h : maps.Lists firstRowIdx pages) (k : Nat) :
    maps.pagenum2Path[k]? = pages[k]?.map Page.path := by
  apply Option.ext
  intro p
  rw [h.path]
  simp [List.mem_zipIdx_iff_getElem?]

theorem getElem?_pagenum (h : maps.Lists firstRowIdx pages) (p : Bytes) (k : Nat) :
    maps.path2Pagenum[p]? = some k ↔ ∃ page, pages[k]? = some page ∧ page.path = p := by
  rw [h.pagenum]
  simp [List.mem_zipIdx_iff_getElem?]

theorem getElem?_row (h : maps.Lists firstRowIdx pages) (p : Bytes) (row : Int) :
    maps.path2Row[p]? = some row ↔
      ∃ page k, (pages[k]? = some page ∧ page.path = p) ∧ rowOf firstRowIdx k = row := by
  rw [h.row]
  simp [List.mem_zipIdx_iff_getElem?, and_assoc]

theorem getElem?_view (h : maps.Lists firstRowIdx pages) (p : Bytes) (v : ViewId) :
    maps.path2View[p]? = some v ↔ ∃ page ∈ pages, page.path = p ∧ page.view = v := by
  rw [h.view]
  simp

/-- The view of a page is found by its path. -/
theorem getElem?_view_page (h : maps.Lists firstRowIdx pages) {page : Page}
    (hpage : page ∈ pages) : maps.path2View[page.path]? = some page.view :=
  (h.getElem?_view _ _).mpr ⟨page, hpage, rfl, rfl⟩

/-- The lookup maps lead from the page number to the row of the page. -/
theorem rowOf_getD (h : maps.Lists firstRowIdx pages) {k : Nat} (hk : k < pages.length) :
    maps.path2Row.getD (maps.pagenum2Path.getD k []) 0 = rowOf firstRowIdx k := by
  have hpath : maps.pagenum2Path.getD k [] = (pages[k]).path := by
    rw [ExtTreeMap.getD_eq_getD_getElem?, h.getElem?_path, List.getElem?_eq_getElem hk]
    rfl
  rw [hpath, ExtTreeMap.getD_eq_getD_getElem?]
  have hrow : maps.path2Row[(pages[k]).path]? = some (rowOf firstRowIdx k) :=
    (h.getElem?_row _ _).mpr ⟨pages[k], k, ⟨List.getElem?_eq_getElem hk, rfl⟩, rfl⟩
  rw [hrow, Option.getD_some]

end Lists

end LookupMaps

end Maps

/-- An opened source file. -/
structure Entry (n : Nat) where
  name : Bytes
  path : Bytes
  view : ViewId
  lines : Fin n → Label

namespace Entry

/-- The page of the file. -/
def page (e : Entry n) : Page where
  label := { text := e.name, tooltip := e.path }
  view := e.view

@[simp] theorem path_page (e : Entry n) : e.page.path = e.path := rfl

/-- The label of one rank changes. -/
def edit (e : Entry n) (rank : Fin n) (f : Label → Label) : Entry n :=
  { e with lines := Function.update e.lines rank (f (e.lines rank)) }

@[simp] theorem page_edit (e : Entry n) (rank : Fin n) (f : Label → Label) :
    (e.edit rank f).page = e.page := rfl

end Entry

section Overview

theorem column_inj {r s : Fin n} : column r = column s ↔ r = s := by
  unfold column
  omega

theorem zero_ne_column (r : Fin n) : (0 : Int) ≠ column r := by
  unfold column
  omega

/-- Labels fill one cell, and a process separator stays in its column. -/
def Placed (c : Child (Widget n)) : Prop :=
  match c.item with
  | .separator => True
  | .processSeparator rank => c.left = 2 * (rank : Nat) + 1 ∧ c.width = 1
  | .label _ => c.width = 1 ∧ c.height = 1

theorem Placed.of_label {c : Child (Widget n)} (h : Placed c) {shown : Label}
    (hitem : c.item = .label shown) : c.width = 1 ∧ c.height = 1 := by
  unfold Placed at h
  rwa [hitem] at h

/-- The row of the overview is the row of this entry. -/
structure ShowsRow (g : Grid (Widget n)) (row : Int) (e : Entry n) : Prop where
  name : g.itemAt 0 row = some (.label e.page.label)
  line : ∀ rank, g.itemAt (column rank) row = some (.label (e.lines rank))

end Overview

namespace UIWindow

/-- Notebook and grid show these entries. -/
structure Draws (w : UIWindow n) (es : List (Entry n)) : Prop where
  pages : w.pages = es.map Entry.page
  firstRow : w.firstRowIdx = 5
  lastRow : w.lastRowIdx = w.firstRowIdx + 2 * es.length
  placed : ∀ c ∈ w.overviewGrid, Placed c
  running : ∀ rank : Fin n, (w.labelAt (column rank) 2).isSome
  exited : ∀ rank : Fin n, (w.labelAt (column rank) 4).isSome
  rows : ∀ k e, es[k]? = some e → ShowsRow w.overviewGrid (rowOf w.firstRowIdx k) e

/-- The window shows these entries, and its lookup maps lead to them. -/
structure Shows (w : UIWindow n) (es : List (Entry n)) : Prop extends Draws w es where
  distinct : (es.map Entry.path).Nodup
  maps : w.maps.Lists w.firstRowIdx w.pages

/-- What a window shows is in its notebook, its lookup maps and its grid. -/
theorem Shows.congr {w u : UIWindow n} {es : List (Entry n)} (h : w.Shows es)
    (hpages : u.pages = w.pages) (hmaps : u.maps = w.maps) (hfirst : u.firstRowIdx = w.firstRowIdx)
    (hlast : u.lastRowIdx = w.lastRowIdx) (hgrid : u.overviewGrid = w.overviewGrid) :
    u.Shows es := by
  refine ⟨⟨?_, ?_, ?_, ?_, ?_, ?_, ?_⟩, h.distinct, ?_⟩
  · rw [hpages, h.pages]
  · rw [hfirst, h.firstRow]
  · rw [hlast, hfirst, h.lastRow]
  · rw [hgrid]
    exact h.placed
  · simpa only [labelAt, hgrid] using h.running
  · simpa only [labelAt, hgrid] using h.exited
  · rw [hgrid, hfirst]
    exact h.rows
  · rw [hmaps, hfirst, hpages]
    exact h.maps

theorem labelAt_eq_some {w : UIWindow n} {left top : Int} {shown : Label} :
    w.labelAt left top = some shown ↔ w.overviewGrid.itemAt left top = some (.label shown) := by
  unfold labelAt
  cases w.overviewGrid.itemAt left top with
  | none => simp
  | some widget => cases widget <;> simp [Widget.toLabel]

/-- Editing the label at a cell leaves the other cells alone. -/
theorem itemAt_editLabel {w : UIWindow n} (h : ∀ c ∈ w.overviewGrid, Placed c)
    (left top : Int) (f : Label → Label) (l t : Int) :
    (w.editLabel left top f).overviewGrid.itemAt l t =
      if l = left ∧ t = top then (w.overviewGrid.itemAt left top).map (Widget.setLabel f)
      else w.overviewGrid.itemAt l t := by
  apply Grid.itemAt_modifyAt
  intro c hc _
  cases hitem : c.item with
  | label shown => exact Or.inl ((h c hc).of_label hitem)
  | separator => exact Or.inr rfl
  | processSeparator rank => exact Or.inr rfl

theorem labelAt_editLabel {w : UIWindow n} (h : ∀ c ∈ w.overviewGrid, Placed c)
    (left top : Int) (f : Label → Label) (l t : Int) :
    (w.editLabel left top f).labelAt l t =
      if l = left ∧ t = top then (w.labelAt left top).map f else w.labelAt l t := by
  unfold labelAt
  rw [itemAt_editLabel h]
  by_cases hlt : l = left ∧ t = top
  · rw [if_pos hlt, if_pos hlt]
    cases w.overviewGrid.itemAt left top with
    | none => rfl
    | some widget => cases widget <;> rfl
  · rw [if_neg hlt, if_neg hlt]

theorem isSome_labelAt_editLabel {w : UIWindow n} (h : ∀ c ∈ w.overviewGrid, Placed c)
    (left top : Int) (f : Label → Label) (l t : Int) :
    ((w.editLabel left top f).labelAt l t).isSome = (w.labelAt l t).isSome := by
  rw [labelAt_editLabel h]
  by_cases hlt : l = left ∧ t = top
  · obtain ⟨rfl, rfl⟩ := hlt
    simp
  · rw [if_neg hlt]

theorem placed_editLabel {w : UIWindow n} (h : ∀ c ∈ w.overviewGrid, Placed c)
    (left top : Int) (f : Label → Label) :
    ∀ c ∈ (w.editLabel left top f).overviewGrid, Placed c := by
  apply Grid.forall_modifyAt h
  intro c hc
  unfold Placed at hc ⊢
  cases hitem : c.item <;> rw [hitem] at hc <;> exact hc

theorem map_page_mapIdx (es : List (Entry n)) {g : Nat → Entry n → Entry n}
    (hg : ∀ k e, (g k e).page = e.page) : (es.mapIdx g).map Entry.page = es.map Entry.page := by
  apply List.ext_getElem
  · simp
  · intro k _ _
    simp [hg]

theorem Shows.paths {w : UIWindow n} {es : List (Entry n)} (h : w.Shows es) :
    w.pages.map Page.path = es.map Entry.path := by
  rw [h.pages, List.map_map]
  rfl

/-- Writing to the label of a rank edits the entry whose row it is in. -/
theorem Shows.editLabel {w : UIWindow n} {es : List (Entry n)} (h : w.Shows es) (rank : Fin n)
    (top : Int) (f : Label → Label) :
    (w.editLabel (column rank) top f).Shows
      (es.mapIdx fun k e => if rowOf w.firstRowIdx k = top then e.edit rank f else e) := by
  have hpages : (es.mapIdx fun k e =>
      if rowOf w.firstRowIdx k = top then e.edit rank f else e).map Entry.page =
        es.map Entry.page := by
    apply map_page_mapIdx
    intro k e
    split <;> rfl
  have hpaths := congrArg (List.map Page.path) hpages
  rw [List.map_map, List.map_map] at hpaths
  refine ⟨⟨?_, ?_, ?_, ?_, ?_, ?_, ?_⟩, hpaths ▸ h.distinct, h.maps⟩
  · exact h.pages.trans hpages.symm
  · exact h.firstRow
  · rw [List.length_mapIdx]
    exact h.lastRow
  · exact placed_editLabel h.placed _ top f
  · intro r
    rw [isSome_labelAt_editLabel h.placed]
    exact h.running r
  · intro r
    rw [isSome_labelAt_editLabel h.placed]
    exact h.exited r
  · intro k e' he'
    rw [List.getElem?_mapIdx] at he'
    obtain ⟨e, he, rfl⟩ := Option.map_eq_some_iff.mp he'
    have hrow := h.rows k e he
    have hname := (itemAt_editLabel h.placed (column rank) top f 0 (rowOf w.firstRowIdx k)).trans
      (if_neg fun hcell => zero_ne_column rank hcell.1)
    have hline := fun r : Fin n =>
      itemAt_editLabel h.placed (column rank) top f (column r) (rowOf w.firstRowIdx k)
    by_cases htop : rowOf w.firstRowIdx k = top
    · rw [if_pos htop]
      constructor
      · exact hname.trans hrow.name
      · intro r
        refine (hline r).trans ?_
        by_cases hr : r = rank
        · subst hr
          rw [if_pos ⟨rfl, htop⟩, ← htop, hrow.line]
          simp [Entry.edit, Widget.setLabel]
        · rw [if_neg fun hcell => hr (column_inj.mp hcell.1), hrow.line]
          simp [Entry.edit, Function.update_of_ne hr]
    · rw [if_neg htop]
      constructor
      · exact hname.trans hrow.name
      · intro r
        exact (hline r).trans ((if_neg fun hcell => htop hcell.2).trans (hrow.line r))

end UIWindow

end ParallelGdb
