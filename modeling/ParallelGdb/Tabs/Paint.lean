import ParallelGdb.Library.FirstOccurrence
import ParallelGdb.Tabs.InStep

/-!
# What a redraw writes

The functions that redraw the overview, label by label: each of them applies one
function to the entries the window shows, and leaves the Running and the Exited
row alone unless it is about them.
-/

namespace ParallelGdb

open Library.CString Library.CellGrid Library.FirstOccurrence Library.RankLoop Library.Tabulate Mi
open Std

namespace UIWindow

variable {n : Nat}

/-- A cell of the Running or of the Exited row. -/
def header (w : UIWindow n) (top : Int) (rank : Fin n) : Option Label := w.labelAt (column rank) top

/-- `u` is `w` with `g` applied to the entries it shows. -/
structure Repainted (g : Entry n → Entry n) (w u : UIWindow n) : Prop where
  frame : u = { w with overviewGrid := u.overviewGrid }
  shows : ∀ es, w.Shows es → u.Shows (es.map g)
  running : (∃ es, w.Shows es) → u.header 2 = w.header 2
  exited : (∃ es, w.Shows es) → u.header 4 = w.header 4

namespace Repainted

variable {g g' : Entry n → Entry n} {w u v : UIWindow n}

theorem refl (w : UIWindow n) : Repainted id w w where
  frame := rfl
  shows := fun es h => by rwa [List.map_id]
  running := fun _ => rfl
  exited := fun _ => rfl

theorem trans (h : Repainted g w u) (h' : Repainted g' u v) : Repainted (g' ∘ g) w v where
  frame := by
    rw [h'.frame, h.frame]
  shows := fun es hes => by
    rw [← List.map_map]
    exact h'.shows _ (h.shows es hes)
  running := fun ⟨es, hes⟩ => (h'.running ⟨_, h.shows es hes⟩).trans (h.running ⟨es, hes⟩)
  exited := fun ⟨es, hes⟩ => (h'.exited ⟨_, h.shows es hes⟩).trans (h.exited ⟨es, hes⟩)

theorem congr (h : Repainted g w u) (hg : ∀ e, g e = g' e) : Repainted g' w u := by
  obtain rfl : g = g' := funext hg
  exact h

theorem maps (h : Repainted g w u) : u.maps = w.maps := by
  rw [h.frame]

theorem tracker (h : Repainted g w u) : u.tracker = w.tracker := by
  rw [h.frame]

end Repainted

section Rows

variable {w : UIWindow n} {es : List (Entry n)}

/-- The row of a path is below the header. -/
theorem Shows.row_gt (h : w.Shows es) {p : Bytes} {row : Int}
    (hrow : w.maps.path2Row[p]? = some row) : 5 < row := by
  obtain ⟨page, k, -, rfl⟩ := (h.maps.getElem?_row p row).mp hrow
  have := h.firstRow
  unfold rowOf
  omega

/-- Writing to the label of a rank in the row of a file. -/
theorem Shows.editRow (h : w.Shows es) (rank : Fin n) {p : Bytes} {row : Int}
    (hrow : w.maps.path2Row[p]? = some row) (f : Label → Label) :
    (w.editLabel (column rank) row f).Shows
      (es.map fun e => if e.path = p then e.edit rank f else e) := by
  obtain ⟨page, k, ⟨hpage, hpath⟩, rfl⟩ := (h.maps.getElem?_row p row).mp hrow
  have hmap : (es.mapIdx fun j e =>
      if rowOf w.firstRowIdx j = rowOf w.firstRowIdx k then e.edit rank f else e) =
        es.map fun e => if e.path = p then e.edit rank f else e := by
    apply List.ext_getElem
    · simp
    · intro j hj _
      have hj : j < es.length := by simpa using hj
      rw [h.pages, List.getElem?_map] at hpage
      obtain ⟨e, he, rfl⟩ := Option.map_eq_some_iff.mp hpage
      obtain ⟨hk, rfl⟩ := List.getElem?_eq_some_iff.mp he
      have hiff : rowOf w.firstRowIdx j = rowOf w.firstRowIdx k ↔ es[j].path = p := by
        rw [← hpath, Entry.path_page]
        constructor
        · intro hrows
          have : j = k := by
            unfold rowOf at hrows
            omega
          subst this
          rfl
        · intro hpaths
          have hentries : es[j] = es[k] := List.inj_on_of_nodup_map h.distinct
            (List.getElem_mem hj) (List.getElem_mem hk) hpaths
          have hjk : j = k := (List.Nodup.getElem_inj_iff (h.distinct.of_map _)).mp hentries
          rw [hjk]
      rw [List.getElem_mapIdx, List.getElem_map]
      simp only [hiff]
  rw [← hmap]
  exact h.editLabel rank _ f

theorem header_editLabel (h : w.Shows es) (rank q : Fin n) {top row : Int} (hne : top ≠ row)
    (f : Label → Label) : (w.editLabel (column rank) row f).header top q = w.header top q := by
  rw [header, labelAt_editLabel h.placed, if_neg fun hcell => hne hcell.2]
  rfl

/-- One write in the row of a file. -/
theorem repainted_editRow (w : UIWindow n) (rank : Fin n) {p : Bytes} {row : Int}
    (hrow : w.maps.path2Row[p]? = some row) (f : Label → Label) :
    Repainted (fun e => if e.path = p then e.edit rank f else e) w
      (w.editLabel (column rank) row f) where
  frame := rfl
  shows := fun es h => h.editRow rank hrow f
  running := by
    rintro ⟨es, hes⟩
    have := hes.row_gt hrow
    exact funext fun q => header_editLabel hes rank q (by omega) f
  exited := by
    rintro ⟨es, hes⟩
    have := hes.row_gt hrow
    exact funext fun q => header_editLabel hes rank q (by omega) f

end Rows

section Loops

variable {w : UIWindow n}

theorem nodup_rows (w : UIWindow n) : (w.maps.path2Row.toList.map Prod.fst).Nodup := by
  rw [ExtTreeMap.map_fst_toList_eq_keys]
  exact ExtTreeMap.nodup_keys

/-- A loop over the rows that applies `f` to the entry of each. -/
theorem repainted_rows (hw : ∃ es, w.Shows es) {f : Entry n → Entry n}
    (hpath : ∀ e, (f e).path = e.path)
    {body : UIWindow n → Bytes × Int → Except Fault (UIWindow n)}
    (hbody : ∀ v, ∀ entry ∈ w.maps.path2Row.toList, v = { w with overviewGrid := v.overviewGrid } →
      (∃ es, v.Shows es) → ∃ u, body v entry = .ok u ∧
        Repainted (fun e => if e.path = entry.1 then f e else e) v u) :
    ∃ u, w.maps.path2Row.toList.foldlM body w = .ok u ∧ Repainted f w u := by
  have hloop : ∀ items : List (Bytes × Int), (∀ entry ∈ items, entry ∈ w.maps.path2Row.toList) →
      (items.map Prod.fst).Nodup → ∀ v, v = { w with overviewGrid := v.overviewGrid } →
      (∃ es, v.Shows es) → ∃ u, items.foldlM body v = .ok u ∧
        Repainted (fun e => if e.path ∈ items.map Prod.fst then f e else e) v u := by
    intro items
    induction items with
    | nil => exact fun _ _ v _ _ => ⟨v, rfl, (Repainted.refl v).congr fun e => by simp⟩
    | cons entry rest ih =>
        intro hmem hnodup v hframe hshows
        obtain ⟨hnew, hnodup⟩ := List.nodup_cons.mp hnodup
        obtain ⟨u, hu, hfirst⟩ := hbody v entry (hmem entry (by simp)) hframe hshows
        obtain ⟨es, hes⟩ := hshows
        have hframe' : u = { w with overviewGrid := u.overviewGrid } := by
          rw [hfirst.frame, hframe]
        obtain ⟨t, ht, hrest⟩ := ih (fun e he => hmem e (by simp [he])) hnodup u hframe'
          ⟨_, hfirst.shows es hes⟩
        refine ⟨t, ?_, (hfirst.trans hrest).congr fun e => ?_⟩
        · rw [List.foldlM_cons, hu]
          exact ht
        · by_cases he : e.path = entry.1
          · have hnew' : (f e).path ∉ rest.map Prod.fst := by rwa [hpath, he]
            simp only [Function.comp_apply]
            rw [if_pos he, if_neg hnew', if_pos (by simp [he])]
          · have hmem : e.path ∈ (entry :: rest).map Prod.fst ↔ e.path ∈ rest.map Prod.fst := by
              simp [he]
            simp only [Function.comp_apply, if_neg he, hmem]
  obtain ⟨u, hu, hall⟩ := hloop w.maps.path2Row.toList (fun _ h => h) (nodup_rows w) w rfl hw
  refine ⟨u, hu, hall.frame, fun es hes => ?_, hall.running, hall.exited⟩
  have hmap : es.map (fun e => if e.path ∈ w.maps.path2Row.toList.map Prod.fst then f e else e) =
      es.map f := by
    apply List.map_congr_left
    intro e he
    have hrow : e.path ∈ w.maps.path2Row := by
      rw [hes.maps.row.mem_iff, LookupMaps.paths_zipIdx, hes.paths]
      exact List.mem_map_of_mem he
    rw [if_pos]
    rwa [ExtTreeMap.map_fst_toList_eq_keys, ExtTreeMap.mem_keys]
  rw [← hmap]
  exact hall.shows es hes

theorem row_of_mem {entry : Bytes × Int} (h : entry ∈ w.maps.path2Row.toList) :
    w.maps.path2Row[entry.1]? = some entry.2 := ExtTreeMap.mem_toList_iff_getElem?_eq_some.mp h

/-- A write to a label of a row finds the label. -/
theorem withLabel_row (hw : ∃ es, w.Shows es) {entry : Bytes × Int}
    (hentry : entry ∈ w.maps.path2Row.toList) (rank : Fin n) (fault : Fault) (f : Label → Label) :
    ∃ u, w.withLabel fault (column rank) entry.2 f = .ok u ∧
      Repainted (fun e => if e.path = entry.1 then e.edit rank f else e) w u := by
  obtain ⟨es, hes⟩ := hw
  have hrow := row_of_mem hentry
  obtain ⟨shown, hshown⟩ := Option.isSome_iff_exists.mp (hes.isSome_labelAt hrow rank)
  refine ⟨w.editLabel (column rank) entry.2 f, ?_, repainted_editRow w rank hrow f⟩
  simp [withLabel, hshown]

/-- `clear_labels_overview` empties the labels of the rank. -/
theorem repainted_clearLabelsOverview (hw : ∃ es, w.Shows es) (rank : Fin n) :
    Repainted (fun e => e.edit rank fun shown => { shown with text := [], tooltip := [] }) w
      (w.clearLabelsOverview rank) := by
  let clear (shown : Label) : Label := { shown with text := [], tooltip := [] }
  obtain ⟨u, hu, hall⟩ : ∃ u : UIWindow n, w.maps.path2Row.toList.foldlM
      (fun v entry => Except.ok (v.editLabel (column rank) entry.2 clear)) w =
        (.ok u : Except Fault (UIWindow n)) ∧ Repainted (fun e => e.edit rank clear) w u := by
    refine repainted_rows hw ?_ fun v entry hentry hframe _ => ?_
    · exact fun e => rfl
    · refine ⟨_, rfl, repainted_editRow v rank ?_ clear⟩
      rw [hframe]
      exact row_of_mem hentry
  have hfold : w.maps.path2Row.toList.foldlM
      (fun v entry => Except.ok (v.editLabel (column rank) entry.2 clear)) w =
        (.ok (w.clearLabelsOverview rank) : Except Fault (UIWindow n)) := List.foldlM_pure
  obtain rfl := Except.ok.inj (hfold.symm.trans hu)
  exact hall

end Loops

section Colors

variable {w : UIWindow n}

/-- The lines in a file of those of the ranks that are in it. -/
def linesIn (w : UIWindow n) (path : Bytes) (ranks : List (Fin n)) : List Int :=
  (ranks.filter fun r => w.tracker.currentFile r = path).map w.tracker.currentLine

/-- The ranks up to this one. -/
def upTo (rank : Fin n) : List (Fin n) := (List.finRange n).take (rank + 1)

/-- The colour of a rank in the row of a file: the place of its line among the
distinct lines, unless more lines than colours have come up by then. -/
def rankColor (w : UIWindow n) (path : Bytes) (rank : Fin n) : Option Nat :=
  let seen := firsts (w.linesIn path (upTo rank))
  if w.tracker.currentFile rank = path ∧ seen.length ≤ numColors then
    some (seen.idxOf (w.tracker.currentLine rank))
  else
    none

/-- The labels of these ranks get their colours. -/
def recolor (w : UIWindow n) (ranks : List (Fin n)) (e : Entry n) : Entry n :=
  { e with lines := fun q =>
      if q ∈ ranks then { e.lines q with color := w.rankColor e.path q } else e.lines q }

/-- What the loop over the ranks has noted after some of them. -/
structure Noted (w : UIWindow n) (path : Bytes) (done : List (Fin n)) (s : Coloring n) : Prop where
  frame : s.window = { w with overviewGrid := s.window.overviewGrid }
  shows : ∃ es, s.window.Shows es
  offset : s.colorOffset = (firsts (w.linesIn path done)).length
  places : ∀ line : Int, s.line2Offset[line]? =
    if line ∈ firsts (w.linesIn path done) then some ((firsts (w.linesIn path done)).idxOf line)
    else none

theorem upTo_eq {done rest : List (Fin n)} {rank : Fin n}
    (h : List.finRange n = done ++ rank :: rest) : upTo rank = done ++ [rank] := by
  have hlength : done.length = rank := by
    have hget : (List.finRange n)[done.length]? = some rank := by rw [h]; simp
    rw [List.getElem?_eq_some_iff] at hget
    obtain ⟨hlt, hrank⟩ := hget
    rw [← hrank, List.getElem_finRange]
    rfl
  rw [upTo, h, ← hlength, List.take_append]
  simp

theorem linesIn_concat_of_ne {path : Bytes} {done : List (Fin n)} {rank : Fin n}
    (h : w.tracker.currentFile rank ≠ path) :
    w.linesIn path (done ++ [rank]) = w.linesIn path done := by
  simp [linesIn, h]

theorem firsts_linesIn_concat {path : Bytes} {done : List (Fin n)} {rank : Fin n}
    (h : w.tracker.currentFile rank = path) :
    firsts (w.linesIn path (done ++ [rank])) =
      note (firsts (w.linesIn path done)) (w.tracker.currentLine rank) := by
  have hlines : w.linesIn path (done ++ [rank]) =
      w.linesIn path done ++ [w.tracker.currentLine rank] := by
    simp [linesIn, h]
  rw [hlines, firsts_concat]

/-- A rank of the row notes its line. -/
theorem Noted.concat {path : Bytes} {done : List (Fin n)} {rank : Fin n} {s t : Coloring n}
    (h : Noted w path done s) (hfile : w.tracker.currentFile rank = path)
    (hwindow : t.window = { w with overviewGrid := t.window.overviewGrid })
    (hshows : ∃ es, t.window.Shows es)
    (ht : if w.tracker.currentLine rank ∈ s.line2Offset then
        t.line2Offset = s.line2Offset ∧ t.colorOffset = s.colorOffset
      else
        t.line2Offset = s.line2Offset.insert (w.tracker.currentLine rank) s.colorOffset ∧
          t.colorOffset = s.colorOffset + 1) :
    Noted w path (done ++ [rank]) t := by
  have hmem : w.tracker.currentLine rank ∈ s.line2Offset ↔
      w.tracker.currentLine rank ∈ firsts (w.linesIn path done) := by
    rw [ExtTreeMap.mem_iff_isSome_getElem?, h.places]
    split
    · rename_i hline
      exact iff_of_true rfl hline
    · rename_i hline
      exact iff_of_false (by simp) hline
  rw [if_congr hmem rfl rfl] at ht
  by_cases hline : w.tracker.currentLine rank ∈ firsts (w.linesIn path done)
  · rw [if_pos hline] at ht
    have hseen : note (firsts (w.linesIn path done)) (w.tracker.currentLine rank) =
        firsts (w.linesIn path done) := if_pos hline
    refine ⟨hwindow, hshows, ?_, ?_⟩
    · rw [ht.2, h.offset, firsts_linesIn_concat hfile, hseen]
    · intro line
      rw [ht.1, h.places, firsts_linesIn_concat hfile, hseen]
  · rw [if_neg hline] at ht
    have hseen : note (firsts (w.linesIn path done)) (w.tracker.currentLine rank) =
        firsts (w.linesIn path done) ++ [w.tracker.currentLine rank] := if_neg hline
    refine ⟨hwindow, hshows, ?_, ?_⟩
    · rw [ht.2, h.offset, firsts_linesIn_concat hfile, hseen, List.length_append,
        List.length_singleton]
    · intro line
      rw [ht.1, ExtTreeMap.getElem?_insert, h.places, h.offset, firsts_linesIn_concat hfile, hseen]
      by_cases heq : w.tracker.currentLine rank = line
      · subst heq
        simp [List.idxOf_append_of_notMem hline]
      · by_cases hold : line ∈ firsts (w.linesIn path done)
        · simp [heq, hold, List.idxOf_append_of_mem hold]
        · simp [heq, hold, Ne.symm heq]

/-- One rank of a row. -/
theorem colorLabel_paints {entry : Bytes × Int} (hentry : entry ∈ w.maps.path2Row.toList)
    {done rest : List (Fin n)} {rank : Fin n} (hranks : List.finRange n = done ++ rank :: rest)
    {s : Coloring n} (h : Noted w entry.1 done s) :
    ∃ t, colorLabel entry.1 entry.2 s rank = .ok t ∧ Noted w entry.1 (done ++ [rank]) t ∧
      Repainted (fun e => if e.path = entry.1 then w.recolor [rank] e else e) s.window t.window := by
  have htracker : s.window.tracker = w.tracker := by rw [h.frame]
  have hentry' : entry ∈ s.window.maps.path2Row.toList := by
    rw [h.frame]
    exact hentry
  obtain ⟨u, hu, hunset⟩ := withLabel_row h.shows hentry' rank .nullLabel
    fun shown => { shown with color := none }
  obtain ⟨es, hes⟩ := h.shows
  have hframe : u = { w with overviewGrid := u.overviewGrid } := by
    rw [hunset.frame, h.frame]
  have hshows : ∃ es, u.Shows es := ⟨_, hunset.shows es hes⟩
  have hutracker : u.tracker = w.tracker := by rw [hframe]
  -- What the label of the rank is in the end decides the whole step.
  have hpaint : ∀ {t : UIWindow n} {color : Option Nat}, w.rankColor entry.1 rank = color →
      Repainted (fun e => if e.path = entry.1 then
        e.edit rank fun shown => { shown with color := color } else e) s.window t →
      Repainted (fun e => if e.path = entry.1 then w.recolor [rank] e else e) s.window t := by
    intro t color hcolor ht
    refine ht.congr fun e => ?_
    split
    · rename_i hpath
      simp only [Entry.edit, recolor, Entry.mk.injEq, true_and]
      funext q
      by_cases hq : q = rank
      · subst hq
        simp [hpath, hcolor]
      · simp [hq]
    · rfl
  unfold colorLabel
  simp only [hu, bind, Except.bind, pure, Except.pure, hutracker]
  by_cases hfile : w.tracker.currentFile rank = entry.1
  · rw [if_neg (not_not_intro hfile), htracker]
    obtain ⟨t, ht⟩ : ∃ t : Coloring n, t =
        if w.tracker.currentLine rank ∈ s.line2Offset then { s with window := u }
        else
          { window := u
            line2Offset := s.line2Offset.insert (w.tracker.currentLine rank) s.colorOffset
            colorOffset := s.colorOffset + 1 } := ⟨_, rfl⟩
    rw [← ht]
    have hwindow : t.window = u := by
      rw [ht]
      split <;> rfl
    have hnoted : Noted w entry.1 (done ++ [rank]) t := by
      apply h.concat hfile (hwindow ▸ hframe) (hwindow ▸ hshows)
      rw [ht]
      split <;> exact ⟨rfl, rfl⟩
    have hmem : w.tracker.currentLine rank ∈ firsts (w.linesIn entry.1 (done ++ [rank])) := by
      rw [firsts_linesIn_concat hfile, mem_note]
      exact Or.inr rfl
    by_cases hcolors : t.colorOffset ≤ numColors
    · have hentry'' : entry ∈ t.window.maps.path2Row.toList := by
        rw [hwindow, hframe]
        exact hentry
      have hset := repainted_editRow t.window rank (row_of_mem hentry'') fun shown =>
        { shown with color := t.line2Offset[w.tracker.currentLine rank]? }
      obtain ⟨es', hes'⟩ := hshows
      rw [if_pos hcolors]
      refine ⟨_, rfl, ⟨?_, ⟨_, hset.shows es' (hwindow ▸ hes')⟩, hnoted.offset, hnoted.places⟩,
        hpaint rfl ?_⟩
      · rw [hset.frame, hwindow, hframe]
      · have hcolor : w.rankColor entry.1 rank = t.line2Offset[w.tracker.currentLine rank]? := by
          rw [rankColor, upTo_eq hranks, ← hnoted.offset, if_pos ⟨hfile, hcolors⟩, hnoted.places,
            if_pos hmem]
        rw [hwindow] at hset ⊢
        refine (hunset.trans hset).congr fun e => ?_
        simp only [Function.comp_apply]
        by_cases he : e.path = entry.1
        · have hedit : (e.edit rank fun shown => { shown with color := none }).path = entry.1 := he
          rw [if_pos he, if_pos hedit, if_pos he, hcolor]
          simp only [Entry.edit, Function.update_idem, Function.update_self]
        · rw [if_neg he, if_neg he, if_neg he]
    · rw [if_neg hcolors]
      refine ⟨t, rfl, hnoted, hpaint ?_ (hwindow ▸ hunset)⟩
      rw [rankColor, upTo_eq hranks, ← hnoted.offset, if_neg fun hboth => hcolors hboth.2]
  · rw [if_pos hfile]
    refine ⟨_, rfl, ⟨hframe, hshows, ?_, ?_⟩, hpaint ?_ hunset⟩
    · rw [linesIn_concat_of_ne hfile]
      exact h.offset
    · rw [linesIn_concat_of_ne hfile]
      exact h.places
    · rw [rankColor, if_neg fun hboth => hfile hboth.1]

/-- A row is painted rank by rank. -/
theorem colorRow_paints {entry : Bytes × Int} (hentry : entry ∈ w.maps.path2Row.toList)
    {v : UIWindow n} (hframe : v = { w with overviewGrid := v.overviewGrid })
    (hshows : ∃ es, v.Shows es) :
    ∃ u, colorRow v entry = .ok u ∧
      Repainted (fun e => if e.path = entry.1 then w.recolor (List.finRange n) e else e) v u := by
  have hloop : ∀ (rest done : List (Fin n)), List.finRange n = done ++ rest → ∀ s : Coloring n,
      Noted w entry.1 done s → ∃ t, rest.foldlM (colorLabel entry.1 entry.2) s = .ok t ∧
        Repainted (fun e => if e.path = entry.1 then w.recolor rest e else e) s.window
          t.window := by
    intro rest
    induction rest with
    | nil =>
        intro done _ s _
        refine ⟨s, rfl, (Repainted.refl _).congr fun e => ?_⟩
        split <;> simp [recolor]
    | cons rank rest ih =>
        intro done hranks s hs
        obtain ⟨t, ht, hnoted, hfirst⟩ := colorLabel_paints hentry hranks hs
        obtain ⟨u, hu, hrest⟩ := ih (done ++ [rank]) (by simpa using hranks) t hnoted
        refine ⟨u, ?_, (hfirst.trans hrest).congr fun e => ?_⟩
        · rw [List.foldlM_cons, ht]
          exact hu
        · simp only [Function.comp_apply]
          by_cases he : e.path = entry.1
          · have hfirst : (w.recolor [rank] e).path = entry.1 := he
            rw [if_pos he, if_pos hfirst, if_pos he]
            simp only [recolor, Entry.mk.injEq, true_and]
            funext q
            by_cases hq : q = rank
            · subst hq
              split <;> simp
            · simp [hq]
          · rw [if_neg he, if_neg he, if_neg he]
  obtain ⟨t, ht, hall⟩ := hloop (List.finRange n) [] rfl
    { window := v, line2Offset := ∅, colorOffset := 0 }
    ⟨hframe, hshows, rfl, fun line => by simp [linesIn]⟩
  refine ⟨t.window, ?_, hall⟩
  rw [colorRow, ht]
  rfl

/-- All ranks of an entry get their colours. -/
def paint (w : UIWindow n) (e : Entry n) : Entry n :=
  { e with lines := fun q => { e.lines q with color := w.rankColor e.path q } }

/-- `color_overview` gives every label the colour of its rank. -/
theorem colorOverview_paints (hw : ∃ es, w.Shows es) :
    ∃ u, w.colorOverview = .ok u ∧ Repainted w.paint w u := by
  have hrows := repainted_rows hw (f := w.recolor (List.finRange n)) (fun e => rfl)
    fun v entry hentry hframe hshows => colorRow_paints hentry hframe hshows
  obtain ⟨u, hu, hall⟩ := hrows
  exact ⟨u, hu, hall.congr fun e => by simp [recolor, paint]⟩

end Colors

end UIWindow

end ParallelGdb
