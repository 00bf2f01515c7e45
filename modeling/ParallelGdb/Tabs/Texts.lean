import ParallelGdb.Tabs.Paint
import ParallelGdb.Tabs.Scroll

/-!
# The texts of the overview

Of the labels of a rank at most one has a text: the line at the file where the
rank was drawn last. What the redrawing functions do to the texts is said by
where each rank is drawn.
-/

namespace ParallelGdb

open Library.CString Mi Std

/-- The text in the row of a file for a rank drawn there. -/
def textAt (place : Option (Bytes × Int)) (path : Bytes) : Bytes :=
  match place with
  | some (file, line) => if file = path then decimal line else []
  | none => []

@[simp] theorem textAt_none (path : Bytes) : textAt none path = [] := rfl

theorem textAt_some (file path : Bytes) (line : Int) :
    textAt (some (file, line)) path = if file = path then decimal line else [] := rfl

namespace UIWindow

variable {n : Nat}

/-- The rows of the overview show the ranks at these places. -/
def Drawn (w : UIWindow n) (place : Fin n → Option (Bytes × Int)) : Prop :=
  ∃ es, w.Shows es ∧ ∀ e ∈ es, ∀ q, (e.lines q).text = textAt (place q) e.path

section Effects

variable {w u : UIWindow n} {place : Fin n → Option (Bytes × Int)}

theorem Drawn.shown (h : w.Drawn place) : ∃ es, w.Shows es := by
  obtain ⟨es, hes, -⟩ := h
  exact ⟨es, hes⟩

theorem Drawn.withTracker (h : w.Drawn place) (t : Tracker n) :
    Drawn { w with tracker := t } place := by
  obtain ⟨es, hes, htexts⟩ := h
  exact ⟨es, hes.withTracker t, htexts⟩

/-- After a redraw the texts of the changed entries count. -/
theorem Drawn.repaint (h : w.Drawn place) {g : Entry n → Entry n} (hu : Repainted g w u)
    {place' : Fin n → Option (Bytes × Int)} (hpath : ∀ e, (g e).path = e.path)
    (htexts : ∀ e : Entry n, (∀ q, (e.lines q).text = textAt (place q) e.path) →
      ∀ q, ((g e).lines q).text = textAt (place' q) e.path) : u.Drawn place' := by
  obtain ⟨es, hes, hold⟩ := h
  refine ⟨es.map g, hu.shows es hes, fun e he q => ?_⟩
  obtain ⟨e', he', rfl⟩ := List.mem_map.mp he
  rw [hpath]
  exact htexts e' (hold e' he') q

theorem Drawn.clearLabels (h : w.Drawn place) (rank : Fin n) :
    (w.clearLabelsOverview rank).Drawn (Function.update place rank none) := by
  refine h.repaint (repainted_clearLabelsOverview h.shown rank) (fun e => rfl) fun e he q => ?_
  by_cases hq : q = rank
  · subst hq
    simp [Entry.edit]
  · simp [Entry.edit, hq, he q]

/-- `color_overview` leaves the texts alone. -/
theorem Drawn.colorOverview (h : w.Drawn place) :
    ∃ u, w.colorOverview = .ok u ∧ u.Drawn place ∧ u.header 2 = w.header 2 ∧
      u.header 4 = w.header 4 := by
  obtain ⟨u, hu, hpaint⟩ := colorOverview_paints h.shown
  exact ⟨u, hu, h.repaint hpaint (fun e => rfl) fun e he q => he q, hpaint.running h.shown,
    hpaint.exited h.shown⟩

/-- `update_overview` draws the rank at its new place. -/
theorem Drawn.updateOverview (h : w.Drawn place) (rank : Fin n) (fullpath : Bytes) (line : Int) :
    ∃ u, w.updateOverview rank fullpath line = .ok u ∧
      u.Drawn (Function.update place rank (some (fullpath, line))) ∧
      u.header 2 = w.header 2 ∧ u.header 4 = w.header 4 := by
  let f (e : Entry n) : Entry n := e.edit rank fun shown =>
    if fullpath ≠ e.path then { shown with text := [], tooltip := [] }
    else { shown with text := decimal line, tooltip := w.lineTooltip fullpath line }
  obtain ⟨v, hv, hrows⟩ : ∃ v, w.maps.path2Row.toList.foldlM (updateRow rank fullpath line) w =
      .ok v ∧ Repainted f w v := by
    refine repainted_rows h.shown ?_ fun v entry hentry hframe hshows => ?_
    · exact fun e => rfl
    have hentry' : entry ∈ v.maps.path2Row.toList := by
      rw [hframe]
      exact hentry
    obtain ⟨u, hu, hedit⟩ := withLabel_row hshows hentry' rank .invalidRow fun shown =>
      if fullpath ≠ entry.1 then { shown with text := [], tooltip := [] }
      else { shown with text := decimal line, tooltip := v.lineTooltip fullpath line }
    have htooltip : v.lineTooltip fullpath line = w.lineTooltip fullpath line := by
      rw [hframe]
      rfl
    refine ⟨u, hu, hedit.congr fun e => ?_⟩
    by_cases he : e.path = entry.1
    · rw [if_pos he, if_pos he, htooltip, ← he]
    · rw [if_neg he, if_neg he]
  have hdrawn : v.Drawn (Function.update place rank (some (fullpath, line))) := by
    refine h.repaint hrows (fun e => rfl) fun e he q => ?_
    by_cases hq : q = rank
    · subst hq
      by_cases hpath : fullpath = e.path <;> simp [f, Entry.edit, textAt_some, hpath]
    · simp [f, Entry.edit, hq, he q]
  obtain ⟨u, hu, hcolored, hrunning, hexited⟩ := hdrawn.colorOverview
  refine ⟨u, ?_, hcolored, hrunning.trans (hrows.running h.shown),
    hexited.trans (hrows.exited h.shown)⟩
  rw [UIWindow.updateOverview, hv]
  exact hu

theorem Drawn.setPosition (h : w.Drawn place) (rank : Fin n) (fullpath : Bytes) (line : Int) :
    ∃ u, w.setPosition rank fullpath line = .ok u ∧
      u.Drawn (Function.update place rank (some (fullpath, line))) ∧
      u.header 2 = w.header 2 ∧ u.header 4 = w.header 4 :=
  (h.withTracker (w.tracker.moveTo rank fullpath line)).updateOverview rank fullpath line

/-- Where a rank counts as being. -/
def currentPlace (w : UIWindow n) (q : Fin n) : Option (Bytes × Int) :=
  some (w.tracker.currentFile q, w.tracker.currentLine q)

/-- The ranks of the list have been drawn where they count as being. -/
theorem Drawn.foldRanks (h : w.Drawn place) (ranks : List (Fin n)) :
    ∃ u, ranks.foldlM (fun w rank =>
        w.updateOverview rank (w.tracker.currentFile rank) (w.tracker.currentLine rank)) w = .ok u ∧
      u.Drawn (fun q => if q ∈ ranks then w.currentPlace q else place q) ∧
      u.header 2 = w.header 2 ∧ u.header 4 = w.header 4 := by
  induction ranks generalizing w place with
  | nil => exact ⟨w, rfl, by simpa using h, rfl, rfl⟩
  | cons rank rest ih =>
      obtain ⟨v, hv, hvdrawn, hv2, hv4⟩ := h.updateOverview rank (w.tracker.currentFile rank)
        (w.tracker.currentLine rank)
      obtain ⟨es, hes⟩ := h.shown
      obtain ⟨v', hv', hredrawn⟩ := updateOverview_ok hes rank (w.tracker.currentFile rank)
        (w.tracker.currentLine rank)
      obtain rfl := Except.ok.inj (hv'.symm.trans hv)
      obtain ⟨u, hu, hudrawn, hu2, hu4⟩ := ih hvdrawn
      have hsame : (fun q => if q ∈ rest then v'.currentPlace q
          else Function.update place rank (w.currentPlace rank) q) =
          fun q => if q ∈ rank :: rest then w.currentPlace q else place q := by
        funext q
        rw [currentPlace, hredrawn.tracker]
        by_cases hq : q = rank
        · subst hq
          simp [currentPlace]
        · simp [currentPlace, hq]
      refine ⟨u, ?_, hsame ▸ hudrawn, hu2.trans hv2, hu4.trans hv4⟩
      rw [List.foldlM_cons, hv]
      exact hu

/-- `open_missing` draws all ranks where they count as being. -/
theorem Drawn.openMissing (h : w.Drawn place) {page : Page} (hpage : page ∈ w.pages)
    (content : Int → Option Bytes) :
    ∃ u, w.openMissing page.path content = .ok u ∧ u.Drawn w.currentPlace ∧
      u.header 2 = w.header 2 ∧ u.header 4 = w.header 4 := by
  obtain ⟨es, hes, htexts⟩ := h
  have hfilled (views : ViewId → View) : Drawn { w with views } place :=
    ⟨es, hes.congr rfl rfl rfl rfl rfl, htexts⟩
  obtain ⟨u, hu, hdrawn, hu2, hu4⟩ := (hfilled (Function.update w.views page.view
    { w.views page.view with lineText := content, missing := false })).foldRanks (List.finRange n)
  refine ⟨u, ?_, ?_, hu2, hu4⟩
  · rw [UIWindow.openMissing, hes.maps.getElem?_view_page hpage]
    exact hu
  · simp only [List.mem_finRange, if_true] at hdrawn
    exact hdrawn

theorem Drawn.closeUnusedTabs (h : w.Drawn place) : w.closeUnusedTabs.Drawn place := by
  obtain ⟨es, hes, htexts⟩ := h
  exact ⟨_, hes.closeUnusedTabs.1, fun e he => htexts e (List.mem_of_mem_filter he)⟩

/-- The ranks that are in one of these files are drawn there if the file had no
tab before. -/
def openedPlace (w : UIWindow n) (reached : List Bytes) (place : Fin n → Option (Bytes × Int))
    (q : Fin n) : Option (Bytes × Int) :=
  if w.tracker.currentFile q ∉ w.paths ∧ w.tracker.currentFile q ∈ reached then
    some (w.tracker.currentFile q, w.tracker.currentLine q)
  else
    place q

/-- A rank is drawn nowhere else than where it is. -/
def OwnPlace (w : UIWindow n) (place : Fin n → Option (Bytes × Int)) (q : Fin n) : Prop :=
  place q = none ∨ place q = some (w.tracker.currentFile q, w.tracker.currentLine q)

/-- `append_source_file` draws the ranks that are in a file without a tab. -/
theorem Drawn.appendSourceFile (h : w.Drawn place) (hn : 0 < n) (fullpath : Bytes)
    (file : SourceFile) (hplace : ∀ q, w.OwnPlace place q) :
    ∃ u, w.appendSourceFile fullpath file = .ok u ∧
      u.Drawn (w.openedPlace [fullpath] place) ∧
      u.header 2 = w.header 2 ∧ u.header 4 = w.header 4 := by
  obtain ⟨es, hes, htexts⟩ := h
  have hopened : fullpath ∈ w.maps.openedFiles ↔ fullpath ∈ w.paths := hes.maps.opened fullpath
  by_cases hmem : fullpath ∈ w.paths
  · have hsame : w.openedPlace [fullpath] place = place := by
      funext q
      rw [openedPlace, if_neg]
      rintro ⟨hnew, hfile⟩
      exact hnew (List.mem_singleton.mp hfile ▸ hmem)
    rw [hsame]
    refine ⟨w, ?_, ⟨es, hes, htexts⟩, rfl, rfl⟩
    rw [UIWindow.appendSourceFile, if_pos (hopened.mpr hmem)]
  · obtain ⟨v, hv, hshows, -, habove⟩ :=
      appendOverviewRow_eq hes hn (hes.paths_eq ▸ hmem) file
    have hdrawn : v.Drawn (w.openedPlace [fullpath] place) := by
      refine ⟨_, hshows, fun e he q => ?_⟩
      rcases List.mem_append.mp he with he | he
      · -- A rank that is drawn in the new row has no text in the others.
        have hpath : e.path ∈ w.paths := hes.paths_eq ▸ List.mem_map_of_mem he
        rw [htexts e he q, openedPlace]
        split
        · rename_i hfile
          rcases hplace q with hq | hq
          · rw [hq, textAt_none, textAt_some, if_neg]
            exact fun heq => hfile.1 (heq ▸ hpath)
          · rw [hq]
        · rfl
      · obtain rfl := List.mem_singleton.mp he
        change (if fullpath = w.tracker.currentFile q then decimal (w.tracker.currentLine q)
          else []) = textAt (w.openedPlace [fullpath] place q) fullpath
        by_cases hfile : fullpath = w.tracker.currentFile q
        · rw [if_pos hfile, openedPlace,
            if_pos ⟨hfile ▸ hmem, List.mem_singleton.mpr hfile.symm⟩, textAt_some,
            if_pos hfile.symm]
        · rw [if_neg hfile, openedPlace,
            if_neg fun hboth => hfile (List.mem_singleton.mp hboth.2).symm]
          rcases hplace q with hq | hq
          · rw [hq, textAt_none]
          · rw [hq, textAt_some, if_neg fun heq => hfile heq.symm]
    have hheader : ∀ top < w.lastRowIdx, v.header top = w.header top := by
      intro top htop
      funext q
      rw [header, header, labelAt, labelAt, habove _ _ (labelColumn_column q) htop]
    have hfirst := hes.firstRow
    have hlast := hes.lastRow
    obtain ⟨u, hu, hdrawn', hrunning, hexited⟩ := hdrawn.colorOverview
    refine ⟨u, ?_, hdrawn', hrunning.trans (hheader 2 (by omega)),
      hexited.trans (hheader 4 (by omega))⟩
    rw [UIWindow.appendSourceFile, if_neg (mt hopened.mp hmem)]
    exact hv.trans hu

/-- The text of a rank in the Running or in the Exited row. -/
def headerText (w : UIWindow n) (top : Int) (rank : Fin n) : Option Bytes :=
  (w.header top rank).map Label.text

/-- Writing a text to the Running or the Exited row. -/
theorem Drawn.writeHeader (h : w.Drawn place) (rank : Fin n) {top : Int}
    (htop : top = 2 ∨ top = 4) (f : Label → Label) (text : Bytes)
    (hf : ∀ shown, (f shown).text = text) :
    ∃ u, w.withLabel .nullLabel (column rank) top f = .ok u ∧ u.Drawn place ∧
      u = { w with overviewGrid := u.overviewGrid } ∧
      u.headerText top = Function.update (w.headerText top) rank (some text) ∧
      ∀ other, other ≠ top → u.headerText other = w.headerText other := by
  obtain ⟨es, hes, htexts⟩ := h
  have hsome : (w.header top rank).isSome := by
    rcases htop with rfl | rfl
    · exact hes.running rank
    · exact hes.exited rank
  obtain ⟨shown, hshown⟩ := Option.isSome_iff_exists.mp hsome
  have hshows := hes.editLabel rank top f
  have hsame : (es.mapIdx fun k e => if rowOf w.firstRowIdx k = top then e.edit rank f else e) =
      es := by
    have hfirst := hes.firstRow
    apply List.ext_getElem
    · simp
    · intro k _ _
      rw [List.getElem_mapIdx, if_neg]
      unfold rowOf
      omega
  rw [hsame] at hshows
  refine ⟨w.editLabel (column rank) top f, ?_, ⟨es, hshows, htexts⟩, rfl, ?_, ?_⟩
  · rw [header] at hshown
    simp [withLabel, hshown]
  · funext q
    rw [headerText, header, labelAt_editLabel hes.placed]
    by_cases hq : q = rank
    · subst hq
      rw [header] at hshown
      simp [hshown, hf]
    · rw [if_neg fun hcell => hq (column_inj.mp hcell.1), Function.update_of_ne hq]
      rfl
  · intro other hother
    funext q
    rw [headerText, headerText, header_editLabel hes rank q hother f]

/-- What `check_overview` writes for a rank in this state. -/
def runningText (t : Tracker n) (rank : Fin n) : Bytes :=
  if t.targetState rank = .running then ascii "R" else []

def exitedText (t : Tracker n) (rank : Fin n) : Bytes :=
  if t.targetState rank = .exited then decimal (t.exitCode rank) else []

/-- Running and exited ranks are drawn nowhere. -/
def checkedPlace (t : Tracker n) (rank : Fin n) (place : Option (Bytes × Int)) :
    Option (Bytes × Int) :=
  if t.targetState rank = .running ∨ t.targetState rank = .exited then none else place

/-- Where a rank runs or has exited, its labels go and its row gets a text. -/
theorem Drawn.clearAndWrite (h : w.Drawn place) (rank : Fin n) {top : Int}
    (htop : top = 2 ∨ top = 4) (f : Label → Label) (text : Bytes)
    (hf : ∀ shown, (f shown).text = text) :
    ∃ u, (w.clearLabelsOverview rank).withLabel .nullLabel (column rank) top f = .ok u ∧
      u.tracker = w.tracker ∧ u.Drawn (Function.update place rank none) ∧
      u.headerText top = Function.update (w.headerText top) rank (some text) ∧
      ∀ other, other = 2 ∨ other = 4 → other ≠ top →
        u.headerText other = w.headerText other := by
  have hclear := repainted_clearLabelsOverview h.shown rank
  have hkept : ∀ other, other = 2 ∨ other = 4 →
      (w.clearLabelsOverview rank).headerText other = w.headerText other := by
    rintro other (rfl | rfl) <;> funext q
    · rw [headerText, headerText, hclear.running h.shown]
    · rw [headerText, headerText, hclear.exited h.shown]
  obtain ⟨u, hu, hudrawn, huframe, htext, hrest⟩ :=
    (h.clearLabels rank).writeHeader rank htop f text hf
  refine ⟨u, hu, ?_, hudrawn, ?_, fun other hmem hne => ?_⟩
  · rw [huframe, hclear.tracker]
  · rw [htext, hkept top htop]
  · rw [hrest other hne, hkept other hmem]

/-- `check_overview` writes the Running and the Exited row of its rank, and clears
the others where the rank runs or has exited. -/
theorem Drawn.checkOverview (h : w.Drawn place) (rank : Fin n) :
    ∃ u, w.checkOverview rank = .ok u ∧ u.tracker = w.tracker ∧
      u.Drawn (Function.update place rank (checkedPlace w.tracker rank (place rank))) ∧
      u.headerText 2 = Function.update (w.headerText 2) rank
        (some (runningText w.tracker rank)) ∧
      u.headerText 4 = Function.update (w.headerText 4) rank
        (some (exitedText w.tracker rank)) := by
  let clear (shown : Label) : Label := { shown with text := [], tooltip := [] }
  obtain ⟨v, hv, hvdrawn, hvframe, hv2, hvother⟩ :=
    h.writeHeader rank (Or.inl rfl) clear [] fun _ => rfl
  obtain ⟨v', hv', hdrawn, hframe, hv4, hother⟩ :=
    hvdrawn.writeHeader rank (Or.inr rfl) clear [] fun _ => rfl
  have htracker : v'.tracker = w.tracker := by rw [hframe, hvframe]
  have h2 : v'.headerText 2 = Function.update (w.headerText 2) rank (some []) := by
    rw [hother 2 (by decide), hv2]
  have h4 : v'.headerText 4 = Function.update (w.headerText 4) rank (some []) := by
    rw [hv4, hvother 4 (by decide)]
  unfold UIWindow.checkOverview
  simp only [bind, Except.bind]
  rw [hv]
  simp only
  rw [hv']
  simp only [htracker]
  cases hstate : w.tracker.targetState rank with
  | running =>
      obtain ⟨u, hu, hut, hudrawn, htext, hrest⟩ := hdrawn.clearAndWrite rank (Or.inl rfl)
        (fun shown => { shown with text := ascii "R", tooltip := ascii "Running" }) (ascii "R")
        fun _ => rfl
      refine ⟨u, hu, hut.trans htracker, ?_, ?_, ?_⟩
      · simpa [checkedPlace, hstate] using hudrawn
      · rw [htext, h2, Function.update_idem, runningText, if_pos hstate]
      · rw [hrest 4 (Or.inr rfl) (by decide), h4, exitedText, if_neg (by rw [hstate]; decide)]
  | exited =>
      let exitCode := decimal (w.tracker.exitCode rank)
      obtain ⟨u, hu, hut, hudrawn, htext, hrest⟩ := hdrawn.clearAndWrite rank (Or.inr rfl)
        (fun _ => {
          text := exitCode
          tooltip := ascii "Exited with code: " ++ exitCode
          color := if w.tracker.exitCode rank ≠ 0 then some 0 else none }) exitCode
        fun _ => rfl
      refine ⟨u, hu, hut.trans htracker, ?_, ?_, ?_⟩
      · simpa [checkedPlace, hstate] using hudrawn
      · rw [hrest 2 (Or.inl rfl) (by decide), h2, runningText, if_neg (by rw [hstate]; decide)]
      · rw [htext, h4, Function.update_idem, exitedText, if_pos hstate]
  | unknown =>
      refine ⟨v', rfl, htracker, ?_, ?_, ?_⟩
      · simpa [checkedPlace, hstate] using hdrawn
      · rw [h2, runningText, if_neg (by rw [hstate]; decide)]
      · rw [h4, exitedText, if_neg (by rw [hstate]; decide)]
  | stopped =>
      refine ⟨v', rfl, htracker, ?_, ?_, ?_⟩
      · simpa [checkedPlace, hstate] using hdrawn
      · rw [h2, runningText, if_neg (by rw [hstate]; decide)]
      · rw [h4, exitedText, if_neg (by rw [hstate]; decide)]

end Effects

end UIWindow

end ParallelGdb
