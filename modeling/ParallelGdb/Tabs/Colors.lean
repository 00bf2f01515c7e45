import ParallelGdb.Tabs.Paint

/-!
# Overview colours

The colour of a label tells which ranks of a file are on the same line. A rank
gets the colour of its line as long as no more lines than colours have come up
among the ranks before it; a line that comes up again later is not coloured any
more, even if its first rank was.
-/

namespace ParallelGdb

open Library.CString Library.FirstOccurrence Mi Std

namespace UIWindow

variable {n : Nat}

/-- The place of the line of a rank among the distinct lines in a file. -/
def linePlace (w : UIWindow n) (path : Bytes) (rank : Fin n) : Nat :=
  (firsts (w.linesIn path (List.finRange n))).idxOf (w.tracker.currentLine rank)

/-- The colour of a label in the overview. -/
def colorAt (w : UIWindow n) (rank : Fin n) (row : Int) : Option Nat :=
  (w.labelAt (2 * (rank : Nat) + 2) row).bind Label.color

/-- The colours of a row tell the lines of its ranks apart, as far as there are
colours. -/
structure RowColoured (w : UIWindow n) (path : Bytes) (row : Int) : Prop where
  /-- The first lines have a colour each; other lines and other ranks have none. -/
  colour : ∀ rank, w.colorAt rank row =
    if w.tracker.currentFile rank = path ∧ w.linePlace path rank < numColors then
      some (w.linePlace path rank)
    else none
  /-- Equal colours mean equal lines, where the line is one of the first. -/
  identifies : ∀ r s, w.tracker.currentFile r = path → w.tracker.currentFile s = path →
    w.linePlace path r < numColors →
    (w.colorAt r row = w.colorAt s row ↔ w.tracker.currentLine r = w.tracker.currentLine s)

/-- No rank on one of the first lines comes after a rank with which there are
more lines than colours. -/
def NoLateLine (w : UIWindow n) (path : Bytes) : Prop :=
  ∀ rank, w.tracker.currentFile rank = path → w.linePlace path rank < numColors →
    (firsts (w.linesIn path (upTo rank))).length ≤ numColors

section Places

variable {w : UIWindow n} {path : Bytes}

theorem mem_upTo (rank : Fin n) : rank ∈ upTo rank := by
  rw [upTo, List.mem_take_iff_getElem]
  exact ⟨rank, by simp, by simp⟩

theorem mem_linesIn {ranks : List (Fin n)} {rank : Fin n} (hrank : rank ∈ ranks)
    (h : w.tracker.currentFile rank = path) :
    w.tracker.currentLine rank ∈ w.linesIn path ranks :=
  List.mem_map_of_mem (List.mem_filter.mpr ⟨hrank, decide_eq_true h⟩)

/-- The place of a line is settled when its first rank has been met. -/
theorem linePlace_upTo {rank : Fin n} (h : w.tracker.currentFile rank = path) :
    (firsts (w.linesIn path (upTo rank))).idxOf (w.tracker.currentLine rank) =
      w.linePlace path rank := by
  have hsplit : w.linesIn path (List.finRange n) =
      w.linesIn path (upTo rank) ++ w.linesIn path ((List.finRange n).drop (rank + 1)) := by
    rw [linesIn, linesIn, linesIn, ← List.map_append, ← List.filter_append, upTo,
      List.take_append_drop]
  rw [linePlace, hsplit, idxOf_firsts_append (mem_linesIn (mem_upTo rank) h)]

theorem rankColor_eq {rank : Fin n} (h : w.tracker.currentFile rank = path) :
    w.rankColor path rank =
      if (firsts (w.linesIn path (upTo rank))).length ≤ numColors then
        some (w.linePlace path rank)
      else none := by
  simp only [rankColor, h, true_and, linePlace_upTo h]

theorem linePlace_lt {rank : Fin n} (h : w.tracker.currentFile rank = path) :
    w.linePlace path rank < (firsts (w.linesIn path (upTo rank))).length := by
  rw [← linePlace_upTo h]
  exact List.idxOf_lt_length_of_mem ((mem_firsts _ _).mpr (mem_linesIn (mem_upTo rank) h))

/-- Equal places, equal lines. -/
theorem linePlace_inj {r s : Fin n} (hr : w.tracker.currentFile r = path)
    (h : w.linePlace path r = w.linePlace path s) :
    w.tracker.currentLine r = w.tracker.currentLine s := by
  have hmem : w.tracker.currentLine r ∈ firsts (w.linesIn path (List.finRange n)) :=
    (mem_firsts _ _).mpr (mem_linesIn (List.mem_finRange r) hr)
  exact (List.idxOf_inj hmem).mp h

/-- The colours of a rank are those `s_colors` has. -/
theorem rankColor_lt {rank : Fin n} {c : Nat} (h : w.rankColor path rank = some c) :
    c < numColors := by
  simp only [rankColor] at h
  split at h
  · rename_i hboth
    obtain rfl := Option.some.inj h
    have hmem := mem_linesIn (w := w) (mem_upTo rank) hboth.1
    have hlt := List.idxOf_lt_length_of_mem ((mem_firsts _ _).mpr hmem)
    have hle := hboth.2
    omega
  · cases h

/-- The colours in use are right exactly if no line comes up late. -/
theorem rankColor_iff : (∀ rank, w.rankColor path rank =
    if w.tracker.currentFile rank = path ∧ w.linePlace path rank < numColors then
      some (w.linePlace path rank)
    else none) ↔ w.NoLateLine path := by
  constructor
  · intro h rank hfile hplace
    have hcolor := h rank
    by_contra hlate
    rw [rankColor_eq hfile, if_neg hlate, if_pos ⟨hfile, hplace⟩] at hcolor
    cases hcolor
  · intro h rank
    by_cases hfile : w.tracker.currentFile rank = path
    · rw [rankColor_eq hfile]
      by_cases hplace : w.linePlace path rank < numColors
      · rw [if_pos (h rank hfile hplace), if_pos ⟨hfile, hplace⟩]
      · have hlt := linePlace_lt hfile
        rw [if_neg (by omega), if_neg fun hboth => hplace hboth.2]
    · rw [rankColor, if_neg fun hboth => hfile hboth.1, if_neg fun hboth => hfile hboth.1]

end Places

/-- With the right colours equal colours mean equal lines. -/
theorem rowColoured_of_colour {w : UIWindow n} {path : Bytes} {row : Int}
    (h : ∀ rank, w.colorAt rank row =
      if w.tracker.currentFile rank = path ∧ w.linePlace path rank < numColors then
        some (w.linePlace path rank)
      else none) : w.RowColoured path row := by
  refine ⟨h, fun r s hr hs hplace => ?_⟩
  rw [h r, h s, if_pos ⟨hr, hplace⟩]
  constructor
  · intro hcolor
    split at hcolor
    · exact linePlace_inj hr (Option.some.inj hcolor)
    · cases hcolor
  · intro hline
    have hsame : w.linePlace path s = w.linePlace path r := by
      rw [linePlace, linePlace, hline]
    rw [if_pos ⟨hs, hsame ▸ hplace⟩, hsame]

/-- The colours `color_overview` leaves. -/
theorem colorOverview_colorAt {w : UIWindow n} (h : ∃ es, w.Shows es) :
    ∃ u, w.colorOverview = .ok u ∧ u.tracker = w.tracker ∧
      ∀ (path : Bytes) (row : Int), w.maps.path2Row[path]? = some row →
        ∀ rank, u.colorAt rank row = w.rankColor path rank := by
  obtain ⟨u, hu, hpaint⟩ := colorOverview_paints h
  obtain ⟨es, hes⟩ := h
  refine ⟨u, hu, hpaint.tracker, fun path row hrow rank => ?_⟩
  obtain ⟨page, k, ⟨hpage, rfl⟩, rfl⟩ := (hes.maps.getElem?_row path row).mp hrow
  rw [hes.pages, List.getElem?_map] at hpage
  obtain ⟨e, he, rfl⟩ := Option.map_eq_some_iff.mp hpage
  have hfirst : u.firstRowIdx = w.firstRowIdx := by rw [hpaint.frame]
  have hline := ((hpaint.shows es hes).rows k (w.paint e) (by simp [he])).line rank
  rw [hfirst] at hline
  have hlabel := labelAt_eq_some.mpr hline
  rw [colorAt, ← column, hlabel]
  rfl

/-- `color_overview` never leaves `s_colors`, and the colours of a row tell its
lines apart if and only if no line comes up late. -/
theorem colorOverview_coloured_iff {w : UIWindow n} (h : ∃ es, w.Shows es) :
    ∃ u, w.colorOverview = .ok u ∧ u.tracker = w.tracker ∧
      (∀ (path : Bytes) (row : Int), w.maps.path2Row[path]? = some row → ∀ rank c,
        u.colorAt rank row = some c → c < numColors) ∧
      ∀ (path : Bytes) (row : Int), w.maps.path2Row[path]? = some row →
        (u.RowColoured path row ↔ w.NoLateLine path) := by
  obtain ⟨u, hu, htracker, hcolor⟩ := colorOverview_colorAt h
  have hplace : ∀ path rank, u.linePlace path rank = w.linePlace path rank := by
    intro path rank
    simp only [linePlace, linesIn, htracker]
  refine ⟨u, hu, htracker, fun path row hrow rank c hc => ?_, fun path row hrow => ?_⟩
  · rw [hcolor path row hrow] at hc
    exact rankColor_lt hc
  · rw [← rankColor_iff]
    constructor
    · intro hcoloured rank
      rw [← hcolor path row hrow, hcoloured.colour rank, htracker, hplace]
    · intro hright
      apply rowColoured_of_colour
      intro rank
      rw [hcolor path row hrow, hright rank, htracker, hplace]

/-- The window of ranks that all are in one file, with its tab. -/
theorem exists_oneFile (hn : 0 < n) (fullpath : Bytes) (lines : Fin n → Int) :
    ∃ (w : UIWindow n) (row : Int), (∃ es, w.Shows es) ∧
      w.maps.path2Row[fullpath]? = some row ∧
      w.tracker.currentFile = (fun _ => fullpath) ∧ w.tracker.currentLine = lines := by
  have hstart : ({ (init n).initOverview with tracker := { Tracker.init n with
      currentFile := fun _ => fullpath, currentLine := lines } } : UIWindow n).Shows [] :=
    shows_initOverview.congr rfl rfl rfl rfl rfl
  obtain ⟨w, es, -, hes, hsame, hpages⟩ :=
    appendSourceFile_ok hstart hn fullpath (missingFile fullpath)
  have hpath : fullpath ∈ w.maps.path2Row := by
    rw [hes.maps.row.mem_iff, LookupMaps.paths_zipIdx, hes.pages, hpages]
    simp [openedEntry, Entry.page, Page.path]
  obtain ⟨row, hrow⟩ := Option.isSome_iff_exists.mp (ExtTreeMap.mem_iff_isSome_getElem?.mp hpath)
  exact ⟨w, row, ⟨es, hes⟩, hrow, by rw [hsame.tracker], by rw [hsame.tracker]⟩

theorem linesIn_oneFile {w : UIWindow n} {fullpath : Bytes}
    (h : w.tracker.currentFile = fun _ => fullpath) (ranks : List (Fin n)) :
    w.linesIn fullpath ranks = ranks.map w.tracker.currentLine := by
  simp [linesIn, h]

/-- Two ranks on one line. -/
theorem oneLine_coloured :
    ∃ (w u : UIWindow 2) (row : Int), w.colorOverview = .ok u ∧
      w.maps.path2Row[ascii "/src/a.c"]? = some row ∧ u.RowColoured (ascii "/src/a.c") row := by
  obtain ⟨w, row, hw, hrow, hfile, hline⟩ := exists_oneFile (n := 2) (by decide)
    (ascii "/src/a.c") fun _ => 7
  obtain ⟨u, hu, -, -, hiff⟩ := colorOverview_coloured_iff hw
  refine ⟨w, u, row, hu, hrow, (hiff _ row hrow).mpr ?_⟩
  have hfew : ∀ rank : Fin 2, (firsts ((upTo rank).map fun _ => (7 : Int))).length ≤ numColors := by
    decide
  intro rank _ _
  rw [linesIn_oneFile hfile, hline]
  exact hfew rank

/-- Nine ranks on different lines, and one more on the first of these. -/
def lateLines (rank : Fin 10) : Int := if rank.val = 9 then 1 else rank.val + 1

theorem lateLine_not_coloured :
    ∃ (w u : UIWindow 10) (row : Int), w.colorOverview = .ok u ∧
      w.maps.path2Row[ascii "/src/a.c"]? = some row ∧ w.linePlace (ascii "/src/a.c") 9 = 0 ∧
      u.colorAt 9 row = none ∧ ¬ u.RowColoured (ascii "/src/a.c") row := by
  obtain ⟨w, row, hw, hrow, hfile, hline⟩ := exists_oneFile (n := 10) (by decide)
    (ascii "/src/a.c") lateLines
  have hplace : w.linePlace (ascii "/src/a.c") 9 = 0 := by
    rw [linePlace, linesIn_oneFile hfile, hline]
    decide
  have hlate : ¬ (firsts (w.linesIn (ascii "/src/a.c") (upTo 9))).length ≤ numColors := by
    rw [linesIn_oneFile hfile, hline]
    decide
  obtain ⟨u, hu, htracker, hcolor⟩ := colorOverview_colorAt hw
  have hnone : u.colorAt 9 row = none := by
    rw [hcolor _ row hrow, rankColor_eq (congrFun hfile 9), if_neg hlate]
  refine ⟨w, u, row, hu, hrow, hplace, hnone, fun hcoloured => ?_⟩
  have hexpected := hcoloured.colour 9
  rw [hnone, htracker, hfile] at hexpected
  have hplace' : u.linePlace (ascii "/src/a.c") 9 = 0 := by
    rw [← hplace]
    simp only [linePlace, linesIn, htracker]
  simp [hplace', numColors] at hexpected

end UIWindow

end ParallelGdb
