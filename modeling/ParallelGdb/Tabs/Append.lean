import ParallelGdb.Tabs.Redraw

/-!
# Opening a source file

`init_overview` leaves a window that shows no entry, and `append_source_file`
adds one entry behind the others: a page, its place in the lookup maps, and two
rows of the grid, drawn column by column.
-/

namespace ParallelGdb

open Library.CString Library.CellGrid Library.RankLoop Library.Tabulate Mi Std

namespace UIWindow

variable {n : Nat}

/-- What belongs to the ranks and not to the tabs. -/
structure SameRanks (w u : UIWindow n) : Prop where
  tracker : u.tracker = w.tracker
  followRank : u.followRank = w.followRank
  idle : u.idle = w.idle

theorem Redrawn.sameRanks {w u : UIWindow n} (h : Redrawn w u) : SameRanks w u := by
  rw [h.frame]
  exact ⟨rfl, rfl, rfl⟩

section Columns

/-- The columns of names and of labels, between the process separators. -/
def LabelColumn (n : Nat) (left : Int) : Prop := ∀ r : Fin n, left ≠ 2 * (r : Nat) + 1

theorem labelColumn_zero : LabelColumn n 0 := by
  intro r
  omega

theorem labelColumn_column (rank : Fin n) : LabelColumn n (column rank) := by
  intro r
  unfold column
  omega

theorem itemAt_attach_label {g : Grid (Widget n)} {shown : Label} (left top l t : Int) :
    (g.attach (.label shown) left top).itemAt l t =
      if l = left ∧ t = top then some (.label shown) else g.itemAt l t := by
  rw [Grid.itemAt_attach]
  congr 1
  rw [eq_iff_iff]
  omega

theorem itemAt_attach_processSeparator {g : Grid (Widget n)} {rank : Fin n} {l : Int}
    (hl : LabelColumn n l) (height t : Int) :
    (g.attach (.processSeparator rank) (2 * (rank : Nat) + 1) 0 1 height).itemAt l t =
      g.itemAt l t := by
  rw [Grid.itemAt_attach, if_neg]
  have := hl rank
  omega

theorem itemAt_detach_processSeparator {g : Grid (Widget n)} (hg : ∀ c ∈ g, Placed c)
    (rank : Fin n) {l : Int} (hl : LabelColumn n l) (t : Int) :
    (g.detach (Widget.isSeparatorOf rank)).itemAt l t = g.itemAt l t := by
  apply Grid.itemAt_detach
  intro c hc hcov
  rw [Child.covers_iff] at hcov
  have hplaced := hg c hc
  unfold Placed at hplaced
  cases hitem : c.item with
  | separator => rfl
  | label shown => rfl
  | processSeparator r =>
      rw [hitem] at hplaced
      have := hl r
      omega

end Columns

section Init

theorem placed_initColumn {w : UIWindow n} (h : ∀ c ∈ w.overviewGrid, Placed c)
    (rank : Fin n) : ∀ c ∈ (w.initColumn rank).overviewGrid, Placed c := by
  simp only [initColumn, Grid.attach, List.forall_mem_cons]
  refine ⟨?_, ?_, ?_, ?_, h⟩ <;> exact ⟨rfl, rfl⟩

/-- A rank's column gets an empty label in the Running and in the Exited row. -/
theorem labelAt_initColumn (w : UIWindow n) (rank r : Fin n) {top : Int}
    (htop : top = 2 ∨ top = 4) :
    (w.initColumn rank).labelAt (column r) top =
      if r = rank then some {} else w.labelAt (column r) top := by
  have hcell : (w.initColumn rank).overviewGrid.itemAt (column r) top =
      if r = rank then some (.label {}) else w.overviewGrid.itemAt (column r) top := by
    simp only [initColumn, itemAt_attach_label, column_inj,
      itemAt_attach_processSeparator (labelColumn_column r)]
    by_cases hr : r = rank
    · obtain rfl | rfl := htop <;> simp [hr]
    · simp [hr]
  unfold labelAt
  rw [hcell]
  split <;> rfl

theorem labelAt_initColumns (ranks : List (Fin n)) (w : UIWindow n) (r : Fin n) {top : Int}
    (htop : top = 2 ∨ top = 4) :
    (ranks.foldl initColumn w).labelAt (column r) top =
      if r ∈ ranks then some {} else w.labelAt (column r) top := by
  induction ranks generalizing w with
  | nil => simp
  | cons rank rest ih =>
      rw [List.foldl_cons, ih, labelAt_initColumn w rank r htop]
      by_cases hr : r = rank <;> simp [hr]

/-- The Running and the Exited row start with an empty label for each rank. -/
theorem labelAt_initOverview (w : UIWindow n) (r : Fin n) {top : Int} (htop : top = 2 ∨ top = 4) :
    w.initOverview.labelAt (column r) top = some {} :=
  (labelAt_initColumns (List.finRange n) _ r htop).trans (if_pos (List.mem_finRange r))

theorem initColumns_frame (ranks : List (Fin n)) (w : UIWindow n) :
    ∃ g, ranks.foldl initColumn w = { w with overviewGrid := g } := by
  induction ranks generalizing w with
  | nil => exact ⟨w.overviewGrid, rfl⟩
  | cons rank rest ih =>
      obtain ⟨g, hg⟩ := ih (w.initColumn rank)
      exact ⟨g, hg⟩

theorem sameRanks_initOverview (w : UIWindow n) : SameRanks w w.initOverview := by
  have hloop (grid : Grid (Widget n)) :
      SameRanks w ((List.finRange n).foldl initColumn { w with overviewGrid := grid }) :=
    forEach_preserves (fun u rank hu => ⟨hu.tracker, hu.followRank, hu.idle⟩) (List.finRange n)
      ⟨rfl, rfl, rfl⟩
  exact ⟨(hloop _).tracker, (hloop _).followRank, (hloop _).idle⟩

/-- The window after `init_overview` shows no entry. -/
theorem shows_initOverview : (init n).initOverview.Shows [] := by
  obtain ⟨grid, hgrid⟩ : ∃ grid : Grid (Widget n), grid =
      ((((Grid.attach [] (.label { text := ascii "Process" }) 0 0).attach .separator 0 1
        (2 * n + 1) 1).attach (.label { text := ascii "Running" }) 0 2).attach .separator 0 3
        (2 * n + 1) 1).attach (.label { text := ascii "Exited" }) 0 4 := ⟨_, rfl⟩
  have hplaced : ∀ c ∈ grid, Placed c := by
    rw [hgrid]
    simp only [Grid.attach, List.forall_mem_cons]
    exact ⟨⟨rfl, rfl⟩, trivial, ⟨rfl, rfl⟩, trivial, ⟨rfl, rfl⟩, by simp⟩
  have hinit : (init n).initOverview =
      { (List.finRange n).foldl initColumn { init n with overviewGrid := grid } with
        firstRowIdx := 5, lastRowIdx := 5 } := by
    rw [hgrid]
    rfl
  obtain ⟨g, hg⟩ := initColumns_frame (List.finRange n) { init n with overviewGrid := grid }
  have hlabel : ∀ (r : Fin n) (top : Int), top = 2 ∨ top = 4 →
      ((init n).initOverview.labelAt (column r) top).isSome := by
    intro r top htop
    rw [labelAt_initOverview _ r htop]
    rfl
  have hplaced' := forEach_preserves (P := fun w : UIWindow n => ∀ c ∈ w.overviewGrid, Placed c)
    (fun w rank h => placed_initColumn h rank) (List.finRange n)
    (s := { init n with overviewGrid := grid }) hplaced
  rw [forEach, hg] at hplaced'
  rw [hg] at hinit
  rw [hinit] at hlabel ⊢
  refine ⟨⟨?_, ?_, ?_, ?_, ?_, ?_, ?_⟩, List.nodup_nil, LookupMaps.lists_empty 5⟩
  · rfl
  · rfl
  · rfl
  · exact hplaced'
  · exact fun r => hlabel r 2 (Or.inl rfl)
  · exact fun r => hlabel r 4 (Or.inr rfl)
  · simp

end Init

section Append

/-- The label a rank gets in the row of a file that is opened. -/
def openedLabel (w : UIWindow n) (fullpath : Bytes) (rank : Fin n) : Label where
  text :=
    if fullpath = w.tracker.currentFile rank then decimal (w.tracker.currentLine rank) else []

theorem itemAt_appendColumn {w : UIWindow n} (h : ∀ c ∈ w.overviewGrid, Placed c)
    (fullpath : Bytes) (rank : Fin n) {l : Int} (hl : LabelColumn n l) (t : Int) :
    (appendColumn fullpath w rank).overviewGrid.itemAt l t =
      if l = column rank ∧ t = w.lastRowIdx then some (.label (w.openedLabel fullpath rank))
      else w.overviewGrid.itemAt l t := by
  have hplaced : ∀ c ∈ w.overviewGrid.attach (.label (w.openedLabel fullpath rank))
      (column rank) w.lastRowIdx, Placed c :=
    List.forall_mem_cons.mpr ⟨⟨rfl, rfl⟩, h⟩
  calc (appendColumn fullpath w rank).overviewGrid.itemAt l t
      = ((w.overviewGrid.attach (.label (w.openedLabel fullpath rank)) (column rank)
          w.lastRowIdx).detach (Widget.isSeparatorOf rank)).itemAt l t :=
        itemAt_attach_processSeparator hl _ t
    _ = (w.overviewGrid.attach (.label (w.openedLabel fullpath rank)) (column rank)
          w.lastRowIdx).itemAt l t := itemAt_detach_processSeparator hplaced rank hl t
    _ = _ := itemAt_attach_label _ _ l t

theorem placed_appendColumn {w : UIWindow n} (h : ∀ c ∈ w.overviewGrid, Placed c)
    (fullpath : Bytes) (rank : Fin n) :
    ∀ c ∈ (appendColumn fullpath w rank).overviewGrid, Placed c := by
  intro c hc
  obtain hc | hc := List.mem_cons.mp hc
  · rw [hc]
    exact ⟨rfl, rfl⟩
  · obtain hc | hc := List.mem_cons.mp (List.mem_of_mem_filter hc)
    · rw [hc]
      exact ⟨rfl, rfl⟩
    · exact h c hc

theorem lastRowIdx_appendColumn (fullpath : Bytes) (w : UIWindow n) (rank : Fin n) :
    (appendColumn fullpath w rank).lastRowIdx = w.lastRowIdx := rfl

theorem appendColumns_frame (fullpath : Bytes) (ranks : List (Fin n)) (w : UIWindow n) :
    ∃ g rows, ranks.foldl (appendColumn fullpath) w =
        { w with overviewGrid := g, maps := { w.maps with path2Row := rows } } ∧
      rows = ranks.foldl (fun d _ => d.insert fullpath w.lastRowIdx) w.maps.path2Row := by
  induction ranks generalizing w with
  | nil => exact ⟨w.overviewGrid, w.maps.path2Row, rfl, rfl⟩
  | cons rank rest ih =>
      obtain ⟨g, rows, hg, hrows⟩ := ih (appendColumn fullpath w rank)
      exact ⟨g, rows, hg, hrows⟩

/-- The loop draws the last row and leaves the cells above it alone. -/
theorem itemAt_appendColumns (fullpath : Bytes) (ranks : List (Fin n)) {w : UIWindow n}
    (h : ∀ c ∈ w.overviewGrid, Placed c) :
    (∀ c ∈ (ranks.foldl (appendColumn fullpath) w).overviewGrid, Placed c) ∧
    (∀ l t, LabelColumn n l → t ≠ w.lastRowIdx ∨ l = 0 →
      (ranks.foldl (appendColumn fullpath) w).overviewGrid.itemAt l t =
        w.overviewGrid.itemAt l t) ∧
    ∀ r, (ranks.foldl (appendColumn fullpath) w).overviewGrid.itemAt (column r) w.lastRowIdx =
      if r ∈ ranks then some (.label (w.openedLabel fullpath r))
      else w.overviewGrid.itemAt (column r) w.lastRowIdx := by
  induction ranks generalizing w with
  | nil => exact ⟨h, fun _ _ _ _ => rfl, fun r => by simp⟩
  | cons rank rest ih =>
      obtain ⟨hplaced, hframe, hrow⟩ := ih (placed_appendColumn h fullpath rank)
      refine ⟨hplaced, fun l t hl ht => ?_, fun r => ?_⟩
      · refine (hframe l t hl ht).trans ((itemAt_appendColumn h fullpath rank hl t).trans ?_)
        apply if_neg
        rintro ⟨rfl, rfl⟩
        obtain ht | ht := ht
        · exact ht rfl
        · exact zero_ne_column rank ht.symm
      · refine (hrow r).trans ?_
        by_cases hrest : r ∈ rest
        · rw [if_pos hrest, if_pos (List.mem_cons_of_mem rank hrest)]
          rfl
        · rw [if_neg hrest]
          refine (itemAt_appendColumn h fullpath rank (labelColumn_column r) _).trans ?_
          by_cases hr : r = rank
          · subst hr
            simp [lastRowIdx_appendColumn]
          · simp [hr, hrest, column_inj, lastRowIdx_appendColumn]

theorem foldl_insert {β : Type} (d : ExtTreeMap Bytes β) (p : Bytes) (v : β)
    {ranks : List (Fin n)} (h : ranks ≠ []) :
    ranks.foldl (fun d _ => d.insert p v) d = d.insert p v := by
  have hagain (d : ExtTreeMap Bytes β) : (d.insert p v).insert p v = d.insert p v := by
    apply ExtTreeMap.ext_getElem?
    intro q
    simp only [ExtTreeMap.getElem?_insert]
    split <;> rfl
  obtain ⟨rank, rest, rfl⟩ := List.exists_cons_of_ne_nil h
  rw [List.foldl_cons]
  induction rest with
  | nil => rfl
  | cons _ rest ih => rw [List.foldl_cons, hagain, ih (by simp)]

/-- The entry of a file that is opened. -/
def openedEntry (w : UIWindow n) (fullpath : Bytes) (file : SourceFile) : Entry n where
  name := file.basename
  path := fullpath
  view := w.nextView
  lines := w.openedLabel fullpath

/-- The window of `append_source_file` before `append_overview_row`. -/
def withPage (w : UIWindow n) (fullpath : Bytes) (file : SourceFile) : UIWindow n :=
  { w with
    pages := w.pages ++ [(w.openedEntry fullpath file).page]
    views := Function.update w.views w.nextView
      { lineText := file.content, missing := !file.loaded }
    nextView := w.nextView + 1
    maps := { w.maps with
      openedFiles := w.maps.openedFiles.insert fullpath
      path2Pagenum := w.maps.path2Pagenum.insert fullpath w.pages.length
      pagenum2Path := w.maps.pagenum2Path.insert w.pages.length fullpath
      path2View := w.maps.path2View.insert fullpath w.nextView } }

/-- An entry joins the others with its page, its place in the maps and its row. -/
theorem Shows.snoc {w u : UIWindow n} {es : List (Entry n)} {e : Entry n} (h : w.Shows es)
    (hnew : e.path ∉ es.map Entry.path) (hpages : u.pages = w.pages ++ [e.page])
    (hmaps : u.maps = w.maps.enter w.firstRowIdx e.page w.pages.length)
    (hfirst : u.firstRowIdx = w.firstRowIdx) (hlast : u.lastRowIdx = w.lastRowIdx + 2)
    (hplaced : ∀ c ∈ u.overviewGrid, Placed c)
    (habove : ∀ l t, LabelColumn n l → t < w.lastRowIdx →
      u.overviewGrid.itemAt l t = w.overviewGrid.itemAt l t)
    (hrow : ShowsRow u.overviewGrid (w.lastRowIdx + 1) e) : u.Shows (es ++ [e]) := by
  have hlength : w.pages.length = es.length := by
    rw [h.pages, List.length_map]
  have hlastRow := h.lastRow
  have hfirstRow := h.firstRow
  have hheader : ∀ r : Fin n, ∀ t < w.lastRowIdx,
      u.labelAt (column r) t = w.labelAt (column r) t := by
    intro r t ht
    unfold labelAt
    rw [habove _ t (labelColumn_column r) ht]
  refine ⟨⟨?_, ?_, ?_, hplaced, ?_, ?_, ?_⟩, ?_, ?_⟩
  · rw [hpages, h.pages, List.map_append, List.map_singleton]
  · exact hfirst.trans h.firstRow
  · rw [hfirst, hlast, List.length_append, List.length_singleton]
    push_cast
    omega
  · intro r
    rw [hheader r 2 (by omega)]
    exact h.running r
  · intro r
    rw [hheader r 4 (by omega)]
    exact h.exited r
  · intro k e' he'
    rw [hfirst]
    rw [List.getElem?_append] at he'
    split at he'
    · have hold := h.rows k e' he'
      have ht : rowOf w.firstRowIdx k < w.lastRowIdx := by
        unfold rowOf
        omega
      exact ⟨(habove 0 _ labelColumn_zero ht).trans hold.name,
        fun r => (habove _ _ (labelColumn_column r) ht).trans (hold.line r)⟩
    · rw [List.getElem?_singleton] at he'
      obtain ⟨hk, rfl⟩ : k - es.length = 0 ∧ e = e' := by simpa using he'
      have ht : rowOf w.firstRowIdx k = w.lastRowIdx + 1 := by
        unfold rowOf
        omega
      rw [ht]
      exact hrow
  · rw [List.map_append, List.map_singleton]
    exact List.Nodup.append h.distinct (List.nodup_singleton _)
      (List.disjoint_singleton.mpr hnew)
  · rw [hmaps, hfirst, hpages]
    apply h.maps.enter
    rw [h.paths]
    exact hnew

/-- `append_overview_row` adds the row of the new page below the others and colours
the overview. -/
theorem appendOverviewRow_eq {w : UIWindow n} {es : List (Entry n)} (h : w.Shows es)
    (hn : 0 < n) {fullpath : Bytes} (hnew : fullpath ∉ es.map Entry.path)
    (file : SourceFile) :
    ∃ u, appendOverviewRow (w.withPage fullpath file) file.basename fullpath =
        u.colorOverview ∧ u.Shows (es ++ [w.openedEntry fullpath file]) ∧ SameRanks w u ∧
      ∀ l t, LabelColumn n l → t < w.lastRowIdx →
        u.overviewGrid.itemAt l t = w.overviewGrid.itemAt l t := by
  obtain ⟨v, hv⟩ : ∃ v : UIWindow n, v = { w.withPage fullpath file with
      lastRowIdx := w.lastRowIdx + 1
      overviewGrid := (w.overviewGrid.attach .separator 0 w.lastRowIdx (2 * n + 1) 1).attach
        (.label (w.openedEntry fullpath file).page.label) 0 (w.lastRowIdx + 1) } := ⟨_, rfl⟩
  have hplaced : ∀ c ∈ v.overviewGrid, Placed c := by
    rw [hv]
    exact List.forall_mem_cons.mpr ⟨⟨rfl, rfl⟩, List.forall_mem_cons.mpr ⟨trivial, h.placed⟩⟩
  have hcell : ∀ l t, t ≠ w.lastRowIdx →
      v.overviewGrid.itemAt l t = if l = 0 ∧ t = w.lastRowIdx + 1
        then some (.label (w.openedEntry fullpath file).page.label)
        else w.overviewGrid.itemAt l t := by
    intro l t ht
    rw [hv]
    simp only
    rw [itemAt_attach_label, Grid.itemAt_attach, if_neg (c := 0 ≤ l ∧ _) (by omega)]
  obtain ⟨hplaced', hframe, hrow⟩ := itemAt_appendColumns fullpath (List.finRange n) hplaced
  obtain ⟨g, rows, hg, hrows⟩ := appendColumns_frame fullpath (List.finRange n) v
  rw [foldl_insert _ _ _ (by simpa [List.finRange_eq_nil_iff] using hn.ne')] at hrows
  rw [hg] at hplaced' hframe hrow
  have hlast : v.lastRowIdx = w.lastRowIdx + 1 := by rw [hv]
  have hshows : ({ v with
      lastRowIdx := v.lastRowIdx + 1
      overviewGrid := g
      maps := { v.maps with path2Row := rows } } : UIWindow n).Shows
        (es ++ [w.openedEntry fullpath file]) := by
    apply h.snoc hnew
    · rw [hv]
      rfl
    · have hrowOf : w.lastRowIdx + 1 = rowOf w.firstRowIdx w.pages.length := by
        have := h.lastRow
        rw [h.pages, List.length_map]
        unfold rowOf
        omega
      rw [hrows, hv]
      simp only [LookupMaps.enter, withPage, hrowOf]
      rfl
    · rw [hv]
      rfl
    · simp only
      omega
    · exact hplaced'
    · intro l t hl ht
      refine (hframe l t hl (Or.inl (by omega))).trans ?_
      rw [hcell l t (by omega), if_neg (by omega)]
    · constructor
      · refine (hframe 0 _ labelColumn_zero (Or.inr rfl)).trans ?_
        rw [hcell 0 _ (by omega), if_pos ⟨rfl, rfl⟩]
      · intro r
        rw [← hlast]
        refine (hrow r).trans ?_
        rw [if_pos (List.mem_finRange r), hv]
        rfl
  refine ⟨_, ?_, hshows, ?_, fun l t hl ht => ?_⟩
  · have hloop : appendOverviewRow (w.withPage fullpath file) file.basename
        fullpath = colorOverview { (List.finRange n).foldl (appendColumn fullpath) v with
          lastRowIdx := ((List.finRange n).foldl (appendColumn fullpath) v).lastRowIdx + 1 } := by
      rw [hv]
      rfl
    rw [hloop, hg]
  · rw [hv]
    exact ⟨rfl, rfl, rfl⟩
  · refine (hframe l t hl (Or.inl (by omega))).trans ?_
    rw [hcell l t (by omega), if_neg (by omega)]

/-- `append_overview_row` draws the row of the new page. -/
theorem appendOverviewRow_ok {w : UIWindow n} {es : List (Entry n)} (h : w.Shows es)
    (hn : 0 < n) {fullpath : Bytes} (hnew : fullpath ∉ es.map Entry.path)
    (file : SourceFile) :
    ∃ u es', appendOverviewRow (w.withPage fullpath file) file.basename
      fullpath = .ok u ∧ es'.map Entry.page = (es ++ [w.openedEntry fullpath file]).map Entry.page ∧
      u.Shows es' ∧ SameRanks w u := by
  obtain ⟨v, hv, hshows, hsame, -⟩ := appendOverviewRow_eq h hn hnew file
  obtain ⟨u, hu, hredrawn⟩ := colorOverview_ok hshows
  obtain ⟨es', hpages, hes'⟩ := hredrawn.shows _ hshows
  have hcolored := hredrawn.sameRanks
  exact ⟨u, es', hv.trans hu, hpages, hes', hcolored.tracker.trans hsame.tracker,
    hcolored.followRank.trans hsame.followRank, hcolored.idle.trans hsame.idle⟩

/-- `append_source_file` opens the file as the last entry unless it is open. -/
theorem appendSourceFile_ok {w : UIWindow n} {es : List (Entry n)} (h : w.Shows es)
    (hn : 0 < n) (fullpath : Bytes) (file : SourceFile) :
    ∃ u es', w.appendSourceFile fullpath file = .ok u ∧ u.Shows es' ∧ SameRanks w u ∧
      es'.map Entry.page = if fullpath ∈ es.map Entry.path then es.map Entry.page
        else es.map Entry.page ++ [(w.openedEntry fullpath file).page] := by
  have hopened : fullpath ∈ w.maps.openedFiles ↔ fullpath ∈ es.map Entry.path := by
    rw [h.maps.opened, h.paths]
  by_cases hmem : fullpath ∈ es.map Entry.path
  · refine ⟨w, es, ?_, h, ⟨rfl, rfl, rfl⟩, by rw [if_pos hmem]⟩
    rw [appendSourceFile, if_pos (hopened.mpr hmem)]
  · obtain ⟨u, es', hu, hpages, hes', hsame⟩ := appendOverviewRow_ok h hn hmem file
    refine ⟨u, es', ?_, hes', hsame, ?_⟩
    · rw [appendSourceFile, if_neg (mt hopened.mp hmem)]
      exact hu
    · rw [hpages, if_neg hmem, List.map_append, List.map_singleton]

end Append

end UIWindow

end ParallelGdb
