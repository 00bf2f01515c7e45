import ParallelGdb.Library.CString
import ParallelGdb.Library.CellGrid
import ParallelGdb.Library.RankLoop

/-!
# Grids of check buttons

A grid has one check button for each rank, in rows of the same length. Every loop
computes the cell of a rank again to find its button, and follows a null pointer where
the cell is empty. Seen from outside, a grid is one flag for each rank.
-/

namespace ParallelGdb

open Library.CString Library.CellGrid Library.RankLoop

structure CheckButton where
  label : Bytes
  active : Bool
  deriving DecidableEq

/-- `m_max_buttons_per_row`, as `UIWindow::init` sets it. -/
def maxButtonsPerRow (numProcesses : Nat) : Nat :=
  let perRow := if numProcesses % 10 = 0 then 10 else 8
  if numProcesses > 32 then perRow * 2 else perRow

namespace CheckGrid

variable {n : Nat}

/-- The column and the row of a rank. -/
def cell (perRow : Nat) (rank : Fin n) : Int × Int :=
  (((rank : Nat) % perRow : Nat), ((rank : Nat) / perRow : Nat))

/-- The loop that fills a grid, in `init_grid` and in the dialogs. -/
def fill (perRow : Nat) (active : Fin n → Bool) : Grid CheckButton :=
  forEach (fun grid (rank : Fin n) =>
    grid.attach ⟨decimal (rank : Nat), active rank⟩ (cell perRow rank).1 (cell perRow rank).2)
    (List.finRange n) []

/-- `init_grid`. -/
def initGrid (perRow n : Nat) : Grid CheckButton := fill perRow fun _ : Fin n => true

/-- `get_child_at` for the cell of a rank. -/
def buttonOf (perRow : Nat) (grid : Grid CheckButton) (rank : Fin n) : Option CheckButton :=
  grid.itemAt (cell perRow rank).1 (cell perRow rank).2

/-- The user clicks on the button in a cell, if there is one. -/
def click (left top : Int) (grid : Grid CheckButton) : Grid CheckButton :=
  grid.modifyAt (fun button => { button with active := !button.active }) left top

/-- The loop of `toggle_all` that looks for an active button. -/
def oneChecked (perRow : Nat) (grid : Grid CheckButton) : List (Fin n) → Option Bool
  | [] => some false
  | rank :: rest => do
      let button ← buttonOf perRow grid rank
      if button.active then return true
      oneChecked perRow grid rest

/-- A round of the loop of `toggle_all` that sets all buttons. -/
def setActive (perRow : Nat) (state : Bool) (grid : Grid CheckButton) (rank : Fin n) :
    Option (Grid CheckButton) :=
  (buttonOf perRow grid rank).map fun _ =>
    grid.modifyAt (fun button => { button with active := state }) (cell perRow rank).1
      (cell perRow rank).2

/-- `toggle_all`, in the window and in the BreakpointDialog. -/
def toggleAll (perRow n : Nat) (grid : Grid CheckButton) : Option (Grid CheckButton) := do
  let one ← oneChecked perRow grid (List.finRange n)
  (List.finRange n).foldlM (setActive perRow !one) grid

/-- The loop that reads the flags of all buttons. -/
def buttonStates (perRow n : Nat) (grid : Grid CheckButton) : Option (Fin n → Bool) :=
  (List.finRange n).foldlM (fun states rank =>
    (buttonOf perRow grid rank).map fun button => Function.update states rank button.active)
    fun _ => false

section Cells

variable {perRow : Nat} {left top : Int}

theorem cell_injective (perRow : Nat) : Function.Injective (cell perRow : Fin n → Int × Int) := by
  intro r q h
  obtain ⟨hmod, hdiv⟩ := Prod.mk.inj h
  have hmod : (r : Nat) % perRow = (q : Nat) % perRow := by exact_mod_cast hmod
  have hdiv : (r : Nat) / perRow = (q : Nat) / perRow := by exact_mod_cast hdiv
  apply Fin.ext
  rw [← Nat.div_add_mod r perRow, ← Nat.div_add_mod q perRow, hmod, hdiv]

theorem cell_of_find {items : List (Fin n)} {rank : Fin n}
    (h : (items.find? fun rank => cell perRow rank = (left, top)) = some rank) :
    cell perRow rank = (left, top) := by
  have hfound := List.find?_some h
  exact of_decide_eq_true hfound

/-- The rank whose button stands in a cell. -/
def rankAt (perRow n : Nat) (left top : Int) : Option (Fin n) :=
  (List.finRange n).find? fun rank => cell perRow rank = (left, top)

theorem rankAt_eq_some (rank : Fin n) :
    rankAt perRow n left top = some rank ↔ cell perRow rank = (left, top) := by
  unfold rankAt
  constructor
  · intro h
    exact cell_of_find h
  · intro h
    cases hfind : (List.finRange n).find? fun rank => cell perRow rank = (left, top) with
    | none =>
        have hnone := List.find?_eq_none.mp hfind rank (List.mem_finRange rank)
        exact absurd h (by simpa using hnone)
    | some other =>
        rw [cell_injective perRow ((cell_of_find hfind).trans h.symm)]

theorem rankAt_cell (rank : Fin n) :
    rankAt perRow n (cell perRow rank).1 (cell perRow rank).2 = some rank :=
  (rankAt_eq_some rank).mpr rfl

end Cells

/-- The grid shows these flags: in the cell of a rank its button, under its label, and
no button elsewhere. -/
structure Holds (perRow : Nat) (flags : Fin n → Bool) (grid : Grid CheckButton) : Prop where
  single : ∀ c ∈ grid, c.width = 1 ∧ c.height = 1
  itemAt : ∀ left top, grid.itemAt left top =
    (rankAt perRow n left top).map fun rank => ⟨decimal (rank : Nat), flags rank⟩

section Holds

variable {perRow : Nat} {flags : Fin n → Bool} {grid : Grid CheckButton}

theorem Holds.buttonOf (h : Holds perRow flags grid) (rank : Fin n) :
    buttonOf perRow grid rank = some ⟨decimal (rank : Nat), flags rank⟩ := by
  rw [CheckGrid.buttonOf, h.itemAt, rankAt_cell, Option.map_some]

/-- The buttons of some ranks are attached. -/
structure Attached (perRow : Nat) (done : List (Fin n)) (flags : Fin n → Bool)
    (grid : Grid CheckButton) : Prop where
  single : ∀ c ∈ grid, c.width = 1 ∧ c.height = 1
  itemAt : ∀ left top, grid.itemAt left top =
    ((rankAt perRow n left top).filter fun rank => decide (rank ∈ done)).map
      fun rank => ⟨decimal (rank : Nat), flags rank⟩

theorem Attached.nil (perRow : Nat) (flags : Fin n → Bool) : Attached perRow [] flags [] := by
  refine ⟨nofun, fun left top => ?_⟩
  cases rankAt perRow n left top <;> rfl

theorem Attached.attach {done : List (Fin n)} (h : Attached perRow done flags grid)
    (rank : Fin n) :
    Attached perRow (rank :: done) flags
      (grid.attach ⟨decimal (rank : Nat), flags rank⟩ (cell perRow rank).1
        (cell perRow rank).2) := by
  refine ⟨fun c hc => ?_, fun left top => ?_⟩
  · rcases List.mem_cons.mp hc with rfl | hc
    · exact ⟨rfl, rfl⟩
    · exact h.single c hc
  · have hcovers : ((cell perRow rank).1 ≤ left ∧ left < (cell perRow rank).1 + 1 ∧
        (cell perRow rank).2 ≤ top ∧ top < (cell perRow rank).2 + 1) ↔
        rankAt perRow n left top = some rank := by
      rw [rankAt_eq_some, Prod.ext_iff]
      omega
    rw [Grid.itemAt_attach, h.itemAt]
    simp only [hcovers]
    cases rankAt perRow n left top with
    | none => rfl
    | some other =>
        by_cases hother : other = rank
        · simp [hother]
        · simp [hother, Option.filter]

theorem Attached.congr {done : List (Fin n)} (flags' : Fin n → Bool)
    (h : Attached perRow done flags grid) (heq : ∀ rank ∈ done, flags rank = flags' rank) :
    Attached perRow done flags' grid := by
  refine ⟨h.single, fun left top => ?_⟩
  rw [h.itemAt]
  cases rankAt perRow n left top with
  | none => rfl
  | some rank =>
      by_cases hrank : rank ∈ done
      · simp [Option.filter, hrank, heq rank hrank]
      · simp [Option.filter, hrank]

/-- With the buttons of all ranks the grid shows the flags. -/
theorem Attached.holds {done : List (Fin n)} (h : Attached perRow done flags grid)
    (hall : ∀ rank, rank ∈ done) : Holds perRow flags grid := by
  refine ⟨h.single, fun left top => ?_⟩
  rw [h.itemAt]
  cases rankAt perRow n left top with
  | none => rfl
  | some rank => simp [hall rank]

theorem Holds.attached (h : Holds perRow flags grid) :
    Attached perRow (List.finRange n) flags grid := by
  refine ⟨h.single, fun left top => ?_⟩
  rw [h.itemAt]
  cases rankAt perRow n left top with
  | none => rfl
  | some rank => simp

/-- A new grid shows the flags its buttons were set to. -/
theorem holds_fill (perRow : Nat) (active : Fin n → Bool) :
    Holds perRow active (fill perRow active) := by
  have hloop (items done : List (Fin n)) {grid : Grid CheckButton}
      (h : Attached perRow done active grid) :
      Attached perRow (items.reverse ++ done) active
        (forEach (fun grid (rank : Fin n) =>
          grid.attach ⟨decimal (rank : Nat), active rank⟩ (cell perRow rank).1 (cell perRow rank).2)
          items grid) := by
    induction items generalizing done grid with
    | nil => exact h
    | cons rank rest ih =>
        rw [List.reverse_cons, List.append_assoc]
        exact ih (rank :: done) (h.attach rank)
  exact (hloop (List.finRange n) [] (.nil perRow active)).holds (by simp)

/-- A change of the button of a rank is a change of its flag. -/
theorem Holds.modifyAt (h : Holds perRow flags grid) (f : Bool → Bool) (rank : Fin n) :
    Holds perRow (Function.update flags rank (f (flags rank)))
      (grid.modifyAt (fun button => { button with active := f button.active })
        (cell perRow rank).1 (cell perRow rank).2) := by
  refine ⟨Grid.forall_modifyAt h.single (fun c hc => hc) _ _, fun left top => ?_⟩
  rw [Grid.itemAt_modifyAt fun c hc _ => Or.inl (h.single c hc), h.itemAt left top,
    h.itemAt, rankAt_cell]
  by_cases hcell : left = (cell perRow rank).1 ∧ top = (cell perRow rank).2
  · obtain ⟨rfl, rfl⟩ := hcell
    rw [if_pos ⟨rfl, rfl⟩, rankAt_cell]
    simp
  · rw [if_neg hcell]
    cases hrank : rankAt perRow n left top with
    | none => rfl
    | some other =>
        have hother := (rankAt_eq_some other).mp hrank
        have hne : other ≠ rank := by
          rintro rfl
          rw [hother] at hcell
          exact hcell ⟨rfl, rfl⟩
        rw [Option.map_some, Option.map_some, Function.update_of_ne hne]

/-- A click inverts the flag of the rank whose button it hits. -/
theorem Holds.click (h : Holds perRow flags grid) (left top : Int) :
    Holds perRow ((rankAt perRow n left top).elim flags fun rank =>
      Function.update flags rank !flags rank) (click left top grid) := by
  cases hrank : rankAt perRow n left top with
  | some rank =>
      have hcell := (rankAt_eq_some rank).mp hrank
      have hmodify := h.modifyAt (!·) rank
      rw [hcell] at hmodify
      exact hmodify
  | none =>
      have hnone : grid.itemAt left top = none := by rw [h.itemAt, hrank, Option.map_none]
      refine ⟨Grid.forall_modifyAt h.single (fun c hc => hc) _ _, fun l t => ?_⟩
      rw [CheckGrid.click, Grid.itemAt_modifyAt fun c hc _ => Or.inl (h.single c hc)]
      split
      · rename_i heq
        rw [hnone, heq.1, heq.2, hrank]
        rfl
      · exact h.itemAt l t

theorem Holds.oneChecked (h : Holds perRow flags grid) (items : List (Fin n)) :
    oneChecked perRow grid items = some (items.any flags) := by
  induction items with
  | nil => rfl
  | cons rank rest ih =>
      rw [CheckGrid.oneChecked, h.buttonOf]
      cases hflag : flags rank with
      | true => simp [hflag]
      | false => simp [hflag, ih]

theorem Holds.setActive (h : Holds perRow flags grid) (state : Bool) (items : List (Fin n)) :
    ∃ grid', items.foldlM (setActive perRow state) grid = some grid' ∧
      Holds perRow (fun rank => if rank ∈ items then state else flags rank) grid' := by
  induction items generalizing grid flags with
  | nil => exact ⟨grid, rfl, by simpa using h⟩
  | cons rank rest ih =>
      obtain ⟨grid', hgrid, hholds⟩ := ih (h.modifyAt (fun _ => state) rank)
      refine ⟨grid', ?_, ?_⟩
      · rw [List.foldlM_cons, CheckGrid.setActive, h.buttonOf]
        exact hgrid
      · convert hholds using 2 with other
        by_cases hother : other = rank
        · simp [hother]
        · simp [hother]

/-- All buttons are turned off if one is active, and on otherwise. -/
theorem Holds.toggleAll (h : Holds perRow flags grid) :
    ∃ grid', toggleAll perRow n grid = some grid' ∧
      Holds perRow (fun _ : Fin n => !(List.finRange n).any flags) grid' := by
  obtain ⟨grid', hgrid, hholds⟩ := h.setActive (!(List.finRange n).any flags) (List.finRange n)
  refine ⟨grid', ?_, by simpa using hholds⟩
  rw [CheckGrid.toggleAll, h.oneChecked]
  exact hgrid

theorem Holds.buttonStates (h : Holds perRow flags grid) :
    buttonStates perRow n grid = some flags := by
  have hloop (items : List (Fin n)) (states : Fin n → Bool) :
      items.foldlM (fun states rank => (CheckGrid.buttonOf perRow grid rank).map fun button =>
        Function.update states rank button.active) states =
      some fun rank => if rank ∈ items then flags rank else states rank := by
    induction items generalizing states with
    | nil => simp
    | cons rank rest ih =>
        rw [List.foldlM_cons, h.buttonOf, Option.map_some]
        refine (ih (Function.update states rank (flags rank))).trans (congrArg some ?_)
        funext other
        by_cases hother : other = rank
        · simp [hother]
        · simp [hother]
  rw [CheckGrid.buttonStates, hloop]
  simp

end Holds

end CheckGrid

end ParallelGdb
