import ParallelGdb.Library.CellGrid
import ParallelGdb.Window.Tracker

/-!
# Source tabs and the overview

The part of `UIWindow` that shows where the ranks are: the notebook with one
page for each source file, the grid of the overview with one row for each page,
the lookup maps between them, and the scrolls queued for the idle handler.

Of Gtk, a notebook is its list of pages and a grid its list of children. Which
page is shown, and how far it is scrolled, is not tracked.
-/

namespace ParallelGdb

open Library.CString Library.CellGrid Mi Std

/-- A `Gtk::Label`: its text, its tooltip and the index into `s_colors` of its
colour if one is set. -/
structure Label where
  text : Bytes := []
  tooltip : Bytes := []
  color : Option Nat := none
  deriving DecidableEq, Repr

/-- What hangs in the overview grid. -/
inductive Widget (n : Nat)
  | separator
  /-- `m_separators[rank]`. -/
  | processSeparator (rank : Fin n)
  | label (shown : Label)

namespace Widget

variable {n : Nat}

/-- Call setters of a label. -/
def setLabel (f : Label → Label) : Widget n → Widget n
  | .label shown => .label (f shown)
  | widget => widget

/-- `dynamic_cast<Gtk::Label *>`. -/
def toLabel : Widget n → Option Label
  | .label shown => some shown
  | _ => none

/-- The widget is `m_separators[rank]`. -/
def isSeparatorOf (rank : Fin n) : Widget n → Bool
  | .processSeparator r => r = rank
  | _ => false

end Widget

/-- A `Gsv::View *`. -/
abbrev ViewId := Nat

/-- The text buffer of a view: what `get_iter_at_line` finds at a zero-based
line, and the zero-based lines with a breakpoint that are kept as `marks_id`. -/
structure View where
  lineText : Int → Option Bytes
  marks : Option (List Int) := none
  /-- The file could not be loaded, and a click on the icon leads to `open_missing`. -/
  missing : Bool := false

/-- A line of the view has a breakpoint. -/
def View.hasMarks (view : View) : Bool :=
  match view.marks with
  | some marks => marks ≠ []
  | none => false

/-- What is given when a source file is opened. -/
structure SourceFile where
  /-- What `Glib::path_get_basename` returns for its path. -/
  basename : Bytes
  /-- `g_file_get_contents` has read it. -/
  loaded : Bool
  /-- The lines of the buffer: the content of the file, or the message that it
  could not be loaded. -/
  content : Int → Option Bytes

/-- A page of the notebook: its tab label and its view. -/
structure Page where
  label : Label
  view : ViewId

/-- The tooltip of its tab label tells which file a page shows. -/
def Page.path (page : Page) : Bytes := page.label.tooltip

/-- The set of opened files and the lookup maps. -/
structure LookupMaps where
  openedFiles : ExtTreeSet Bytes
  path2Pagenum : ExtTreeMap Bytes Nat
  pagenum2Path : ExtTreeMap Nat Bytes
  path2View : ExtTreeMap Bytes ViewId
  path2Row : ExtTreeMap Bytes Int

namespace LookupMaps

def empty : LookupMaps := ⟨∅, ∅, ∅, ∅, ∅⟩

/-- Enter a page, as the loop that rebuilds the lookup maps does. -/
def enter (maps : LookupMaps) (firstRowIdx : Int) (page : Page) (pageNum : Nat) : LookupMaps :=
  let fullpath := page.path
  { path2Pagenum := maps.path2Pagenum.insert fullpath pageNum
    path2Row := maps.path2Row.insert fullpath (firstRowIdx + 2 * pageNum + 1)
    pagenum2Path := maps.pagenum2Path.insert pageNum fullpath
    path2View := maps.path2View.insert fullpath page.view
    openedFiles := maps.openedFiles.insert fullpath }

end LookupMaps

structure UIWindow (n : Nat) where
  tracker : Tracker n
  followRank : Int
  maps : LookupMaps
  /-- The pages of `m_files_notebook`. -/
  pages : List Page
  views : ViewId → View
  /-- The identity the next new view gets. -/
  nextView : ViewId
  overviewGrid : Grid (Widget n)
  firstRowIdx : Int
  lastRowIdx : Int
  /-- The ranks `do_scroll` is queued for. -/
  idle : List (Fin n)

/-- `FOLLOW_ALL`. -/
def followAll : Int := -1

/-- `UIDrawingArea::NUM_COLORS`. -/
def numColors : Nat := 8

/-- The assignments of `set_position`. -/
def Tracker.moveTo {n : Nat} (t : Tracker n) (rank : Fin n) (fullpath : Bytes) (line : Int) :
    Tracker n :=
  { t with
    currentFile := Function.update t.currentFile rank fullpath
    currentLine := Function.update t.currentLine rank line }

/-- The column of the overview that belongs to a rank. -/
def column {n : Nat} (rank : Fin n) : Int := 2 * (rank : Nat) + 2

namespace UIWindow

variable {n : Nat}

/-- The members the constructor and Gtk leave empty. -/
def init (n : Nat) : UIWindow n where
  tracker := Tracker.init n
  followRank := followAll
  maps := .empty
  pages := []
  views := fun _ => { lineText := fun _ => none }
  nextView := 0
  overviewGrid := []
  firstRowIdx := 0
  lastRowIdx := 0
  idle := []

section Labels

/-- `dynamic_cast<Gtk::Label *>(m_overview_grid->get_child_at(left, top))`. -/
def labelAt (w : UIWindow n) (left top : Int) : Option Label :=
  (w.overviewGrid.itemAt left top).bind Widget.toLabel

/-- Change the label at a cell if there is one. -/
def editLabel (w : UIWindow n) (left top : Int) (f : Label → Label) : UIWindow n :=
  { w with overviewGrid := w.overviewGrid.modifyAt (Widget.setLabel f) left top }

/-- Change the label at a cell; without one the code fails. -/
def withLabel (fault : Fault) (w : UIWindow n) (left top : Int) (f : Label → Label) :
    Except Fault (UIWindow n) :=
  match w.labelAt left top with
  | none => .error fault
  | some _ => .ok (w.editLabel left top f)

end Labels

section Overview

/-- One column of `init_overview`. -/
def initColumn (w : UIWindow n) (rank : Fin n) : UIWindow n :=
  let grid := w.overviewGrid.attach (.processSeparator rank) (2 * (rank : Nat) + 1) 0 1 5
  let grid := grid.attach (.label { text := natDigits rank }) (column rank) 0
  let grid := grid.attach (.label {}) (column rank) 2
  { w with overviewGrid := grid.attach (.label {}) (column rank) 4 }

/-- `init_overview`. -/
def initOverview (w : UIWindow n) : UIWindow n :=
  let grid := w.overviewGrid.attach (.label { text := ascii "Process" }) 0 0
  let grid := grid.attach .separator 0 1 (2 * n + 1) 1
  let grid := grid.attach (.label { text := ascii "Running" }) 0 2
  let grid := grid.attach .separator 0 3 (2 * n + 1) 1
  let grid := grid.attach (.label { text := ascii "Exited" }) 0 4
  let w := (List.finRange n).foldl initColumn { w with overviewGrid := grid }
  { w with firstRowIdx := 5, lastRowIdx := 5 }

/-- The state of the loop over the ranks in `color_overview`. -/
structure Coloring (n : Nat) where
  window : UIWindow n
  line2Offset : ExtTreeMap Int Nat
  colorOffset : Nat

/-- One rank in `color_overview`. -/
def colorLabel (path : Bytes) (row : Int) (s : Coloring n) (rank : Fin n) :
    Except Fault (Coloring n) := do
  let line := s.window.tracker.currentLine rank
  let window ← s.window.withLabel .nullLabel (column rank) row fun label =>
    { label with color := none }
  if window.tracker.currentFile rank ≠ path then
    return { s with window }
  let s :=
    if line ∈ s.line2Offset then { s with window }
    else
      { window
        line2Offset := s.line2Offset.insert line s.colorOffset
        colorOffset := s.colorOffset + 1 }
  if s.colorOffset ≤ numColors then
    return { s with
      window := s.window.editLabel (column rank) row fun label =>
        { label with color := s.line2Offset[line]? } }
  return s

/-- One row in `color_overview`. -/
def colorRow (w : UIWindow n) (entry : Bytes × Int) : Except Fault (UIWindow n) := do
  let s ← (List.finRange n).foldlM (colorLabel entry.1 entry.2)
    { window := w, line2Offset := ∅, colorOffset := 0 }
  return s.window

/-- `color_overview`. -/
def colorOverview (w : UIWindow n) : Except Fault (UIWindow n) :=
  w.maps.path2Row.toList.foldlM colorRow w

/-- `clear_labels_overview`. -/
def clearLabelsOverview (w : UIWindow n) (rank : Fin n) : UIWindow n :=
  w.maps.path2Row.toList.foldl
    (fun w entry => w.editLabel (column rank) entry.2 fun label =>
      { label with text := [], tooltip := [] }) w

/-- `check_overview`. -/
def checkOverview (w : UIWindow n) (rank : Fin n) : Except Fault (UIWindow n) := do
  let clear (label : Label) : Label := { label with text := [], tooltip := [] }
  let w ← w.withLabel .nullLabel (column rank) 2 clear
  let w ← w.withLabel .nullLabel (column rank) 4 clear
  match w.tracker.targetState rank with
  | .running =>
      (w.clearLabelsOverview rank).withLabel .nullLabel (column rank) 2 fun label =>
        { label with text := ascii "R", tooltip := ascii "Running" }
  | .exited =>
      let exitCode := decimal (w.tracker.exitCode rank)
      (w.clearLabelsOverview rank).withLabel .nullLabel (column rank) 4 fun _ =>
        { text := exitCode
          tooltip := ascii "Exited with code: " ++ exitCode
          color := if w.tracker.exitCode rank ≠ 0 then some 0 else none }
  | _ => return w

/-- The tooltip of the label for a one-based line. -/
def lineTooltip (w : UIWindow n) (fullpath : Bytes) (line : Int) : Bytes :=
  match w.maps.path2View[fullpath]? with
  | some view => ((w.views view).lineText (line - 1)).getD (ascii "File not found.")
  | none => ascii "File not found."

/-- One row in `update_overview`. -/
def updateRow (rank : Fin n) (fullpath : Bytes) (line : Int) (w : UIWindow n)
    (entry : Bytes × Int) : Except Fault (UIWindow n) :=
  w.withLabel .invalidRow (column rank) entry.2 fun label =>
    if fullpath ≠ entry.1 then
      { label with text := [], tooltip := [] }
    else
      { label with text := decimal line, tooltip := w.lineTooltip fullpath line }

/-- `update_overview`. -/
def updateOverview (w : UIWindow n) (rank : Fin n) (fullpath : Bytes) (line : Int) :
    Except Fault (UIWindow n) := do
  let w ← w.maps.path2Row.toList.foldlM (updateRow rank fullpath line) w
  w.colorOverview

/-- One column of `append_overview_row`. -/
def appendColumn (fullpath : Bytes) (w : UIWindow n) (rank : Fin n) : UIWindow n :=
  let text :=
    if fullpath = w.tracker.currentFile rank then decimal (w.tracker.currentLine rank) else []
  let grid := w.overviewGrid.attach (.label { text }) (column rank) w.lastRowIdx
  let grid := grid.detach (Widget.isSeparatorOf rank)
  { w with
    maps := { w.maps with path2Row := w.maps.path2Row.insert fullpath w.lastRowIdx }
    overviewGrid :=
      grid.attach (.processSeparator rank) (2 * (rank : Nat) + 1) 0 1 (w.lastRowIdx + 1) }

/-- `append_overview_row`. -/
def appendOverviewRow (w : UIWindow n) (basename fullpath : Bytes) :
    Except Fault (UIWindow n) :=
  let grid := w.overviewGrid.attach .separator 0 w.lastRowIdx (2 * n + 1) 1
  let w := { w with lastRowIdx := w.lastRowIdx + 1 }
  let grid := grid.attach (.label { text := basename, tooltip := fullpath }) 0 w.lastRowIdx
  let w := (List.finRange n).foldl (appendColumn fullpath) { w with overviewGrid := grid }
  colorOverview { w with lastRowIdx := w.lastRowIdx + 1 }

end Overview

section Notebook

/-- `append_source_file`. -/
def appendSourceFile (w : UIWindow n) (fullpath : Bytes) (file : SourceFile) :
    Except Fault (UIWindow n) :=
  if fullpath ∈ w.maps.openedFiles then
    .ok w
  else
    let basename := file.basename
    let pageNum := w.pages.length
    appendOverviewRow
      { w with
        pages := w.pages ++
          [{ label := { text := basename, tooltip := fullpath }, view := w.nextView }]
        views := Function.update w.views w.nextView
          { lineText := file.content, missing := !file.loaded }
        nextView := w.nextView + 1
        maps := { w.maps with
          openedFiles := w.maps.openedFiles.insert fullpath
          path2Pagenum := w.maps.path2Pagenum.insert fullpath pageNum
          pagenum2Path := w.maps.pagenum2Path.insert pageNum fullpath
          path2View := w.maps.path2View.insert fullpath w.nextView } }
      basename fullpath

/-- The loop of `open_missing` over the ranks. -/
def updateRanks (w : UIWindow n) : Except Fault (UIWindow n) :=
  (List.finRange n).foldlM (fun w rank =>
    w.updateOverview rank (w.tracker.currentFile rank) (w.tracker.currentLine rank)) w

/-- `open_missing`, once the file selected for this path has been read. -/
def openMissing (w : UIWindow n) (fullpath : Bytes) (content : Int → Option Bytes) :
    Except Fault (UIWindow n) :=
  match w.maps.path2View[fullpath]? with
  | none => .error .nullView
  | some view =>
      updateRanks { w with
        views := Function.update w.views view
          { w.views view with lineText := content, missing := false } }

/-- A click on the icon of a page: it does something where the file is missing. -/
def clickMissing (w : UIWindow n) (pageNum : Nat) (content : Int → Option Bytes) :
    Except Fault (UIWindow n) :=
  match w.pages[pageNum]? with
  | some page =>
      if (w.views page.view).missing then w.openMissing page.path content else .ok w
  | none => .ok w

/-- The check of `close_unused_tabs` for one page: a rank is in the file, or a
line of it has a breakpoint. -/
def isUsed (w : UIWindow n) (pageNum : Nat) (page : Page) : Bool :=
  let fullpath := w.maps.pagenum2Path.getD pageNum []
  (List.finRange n).any (fun rank => w.tracker.currentFile rank = fullpath) ||
    (w.views page.view).hasMarks

/-- `pages_to_close`, in ascending order. -/
def pagesToClose (w : UIWindow n) : List Nat :=
  (w.pages.zipIdx.filter fun p => !w.isUsed p.2 p.1).map Prod.snd

/-- Remove a page and its two rows. -/
def closePage (w : UIWindow n) (pageNum : Nat) : UIWindow n :=
  let fullpath := w.maps.pagenum2Path.getD pageNum []
  let row := w.maps.path2Row.getD fullpath 0
  { w with
    pages := w.pages.eraseIdx pageNum
    overviewGrid := (w.overviewGrid.removeRow row).removeRow (row - 1)
    lastRowIdx := w.lastRowIdx - 2 }

/-- `close_unused_tabs`: pages go in reverse order to keep the page numbers valid. -/
def closeUnusedTabs (w : UIWindow n) : UIWindow n :=
  let w := w.pagesToClose.reverse.foldl closePage w
  { w with
    maps := w.pages.zipIdx.foldl
      (fun maps p => maps.enter w.firstRowIdx p.1 p.2) LookupMaps.empty }

end Notebook

section Position

/-- `set_position`. -/
def setPosition (w : UIWindow n) (rank : Fin n) (fullpath : Bytes) (line : Int) :
    Except Fault (UIWindow n) :=
  let w := { w with tracker := w.tracker.moveTo rank fullpath line }
  w.updateOverview rank fullpath line

/-- `do_scroll`: the view and the zero-based line it scrolls to, if the line exists. -/
def doScroll (w : UIWindow n) (rank : Fin n) : Except Fault (Option (ViewId × Int)) :=
  match w.maps.path2View[w.tracker.currentFile rank]? with
  | none => .error .outOfRange
  | some view =>
      let line := w.tracker.currentLine rank - 1
      .ok (((w.views view).lineText line).map fun _ => (view, line))

/-- The rank is the followed one, or all are followed. -/
def follows (w : UIWindow n) (rank : Fin n) : Bool :=
  ((rank : Nat) : Int) = w.followRank || followAll = w.followRank

/-- `scroll_to_line`. -/
def scrollToLine (w : UIWindow n) (rank : Fin n) : UIWindow n :=
  if w.follows rank then { w with idle := w.idle ++ [rank] } else w

end Position

end UIWindow

end ParallelGdb
