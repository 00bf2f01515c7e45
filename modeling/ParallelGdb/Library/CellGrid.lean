import Mathlib

/-!
# A grid of children that may span cells

The children of a grid are kept in the order in which a cell is searched: the
one attached last comes first. A cell shows the first child that covers it.
Removing a row takes one row away from every child that spans it, drops the
children of which nothing is left, and moves the children below up.
-/

namespace Library.CellGrid

variable {α : Type*}

structure Child (α : Type*) where
  left : Int
  top : Int
  width : Int
  height : Int
  item : α

namespace Child

def covers (c : Child α) (left top : Int) : Bool :=
  c.left ≤ left && left < c.left + c.width && c.top ≤ top && top < c.top + c.height

/-- What a child keeps of its place when a row is removed. -/
def without (position : Int) (c : Child α) : Child α :=
  { c with
    top := if position < c.top then c.top - 1 else c.top
    height :=
      if c.top ≤ position && position < c.top + c.height then c.height - 1 else c.height }

theorem covers_iff (c : Child α) (left top : Int) :
    c.covers left top = true ↔
      c.left ≤ left ∧ left < c.left + c.width ∧ c.top ≤ top ∧ top < c.top + c.height := by
  simp [covers, and_assoc]

/-- The cells below the removed row have moved up. -/
theorem covers_without (c : Child α) (position left top : Int) :
    (c.without position).covers left top =
      c.covers left (if top < position then top else top + 1) := by
  rw [Bool.eq_iff_iff, covers_iff, covers_iff]
  simp only [without, Bool.and_eq_true, decide_eq_true_eq]
  split_ifs <;> omega

end Child

/-- A grid is its list of children. -/
abbrev Grid (α : Type*) := List (Child α)

namespace Grid

/-- The item a cell shows. -/
def itemAt (g : Grid α) (left top : Int) : Option α :=
  (g.find? fun c => c.covers left top).map Child.item

def attach (g : Grid α) (item : α) (left top : Int) (width height : Int := 1) : Grid α :=
  { left, top, width, height, item } :: g

/-- Take the children with such an item out. -/
def detach (g : Grid α) (p : α → Bool) : Grid α := g.filter fun c => !p c.item

/-- Change the item a cell shows in place. -/
def modifyAt (f : α → α) (left top : Int) : Grid α → Grid α
  | [] => []
  | c :: rest =>
      if c.covers left top then { c with item := f c.item } :: rest
      else c :: modifyAt f left top rest

/-- Change the items of all children in place. -/
def mapItems (f : α → α) (g : Grid α) : Grid α := g.map fun c => { c with item := f c.item }

def removeRow (g : Grid α) (position : Int) : Grid α :=
  (g.map (Child.without position)).filter fun c => 0 < c.height

theorem itemAt_nil (left top : Int) : itemAt ([] : Grid α) left top = none := rfl

theorem itemAt_cons (c : Child α) (g : Grid α) (left top : Int) :
    itemAt (c :: g) left top = if c.covers left top then some c.item else g.itemAt left top := by
  unfold itemAt
  by_cases h : c.covers left top = true
  · simp [h]
  · simp [h]

/-- An attached child hides what its cells showed before. -/
theorem itemAt_attach (g : Grid α) (item : α) (left top width height l t : Int) :
    (g.attach item left top width height).itemAt l t =
      if left ≤ l ∧ l < left + width ∧ top ≤ t ∧ t < top + height then some item
      else g.itemAt l t := by
  rw [attach, itemAt_cons]
  simp only [Child.covers_iff]

/-- Children that do not cover a cell can be taken out. -/
theorem itemAt_filter {g : Grid α} {keep : Child α → Bool} {l t : Int}
    (h : ∀ c ∈ g, c.covers l t = true → keep c = true) :
    itemAt (g.filter keep) l t = g.itemAt l t := by
  induction g with
  | nil => rfl
  | cons c rest ih =>
      have ih := ih fun d hd => h d (List.mem_cons_of_mem c hd)
      have hc := h c List.mem_cons_self
      cases hkeep : keep c with
      | true => simp [hkeep, itemAt_cons, ih]
      | false =>
          have hcov : c.covers l t = false := by
            rw [← Bool.not_eq_true]
            exact fun hcov => by simp [hc hcov] at hkeep
          simp [hkeep, itemAt_cons, hcov, ih]

theorem itemAt_detach {g : Grid α} {p : α → Bool} {l t : Int}
    (h : ∀ c ∈ g, c.covers l t = true → p c.item = false) :
    (g.detach p).itemAt l t = g.itemAt l t :=
  itemAt_filter fun c hc hcov => by simp [h c hc hcov]

/-- Where a cell shows a child that covers nothing else, or one that stays as
it is, changing its item changes this cell only. -/
theorem itemAt_modifyAt {g : Grid α} {f : α → α} {left top : Int}
    (h : ∀ c ∈ g, g.itemAt left top = some c.item →
      c.width = 1 ∧ c.height = 1 ∨ f c.item = c.item) (l t : Int) :
    (g.modifyAt f left top).itemAt l t =
      if l = left ∧ t = top then (g.itemAt left top).map f else g.itemAt l t := by
  induction g with
  | nil => simp [modifyAt, itemAt_nil]
  | cons c rest ih =>
      cases hcov : c.covers left top with
      | true =>
          rw [modifyAt, if_pos hcov, itemAt_cons, itemAt_cons, itemAt_cons]
          have hcovers : Child.covers { c with item := f c.item } l t = c.covers l t := rfl
          rw [hcovers]
          obtain hsingle | hsame := h c List.mem_cons_self (by simp [itemAt_cons, hcov])
          · have hiff : c.covers l t = true ↔ l = left ∧ t = top := by
              rw [Child.covers_iff] at hcov ⊢
              omega
            by_cases hlt : l = left ∧ t = top
            · simp [hcov, hlt]
            · simp [hlt, mt hiff.mp hlt]
          · by_cases hlt : l = left ∧ t = top
            · simp [hcov, hlt]
            · simp [hlt, hsame]
      | false =>
          have ih := ih fun d hd hitem =>
            h d (List.mem_cons_of_mem _ hd) (by simp [itemAt_cons, hcov, hitem])
          have hne : c.covers l t = true → ¬(l = left ∧ t = top) := by
            rintro hlt ⟨rfl, rfl⟩
            simp [hcov] at hlt
          rw [modifyAt, if_neg (by simp [hcov]), itemAt_cons, itemAt_cons, itemAt_cons, ih]
          cases hlt : c.covers l t with
          | true => simp [hne hlt]
          | false => simp [hcov]

theorem itemAt_mapItems (f : α → α) (g : Grid α) (l t : Int) :
    (g.mapItems f).itemAt l t = (g.itemAt l t).map f := by
  induction g with
  | nil => rfl
  | cons c rest ih =>
      have hcovers : Child.covers { c with item := f c.item } l t = c.covers l t := rfl
      rw [itemAt_cons, mapItems, List.map_cons, itemAt_cons, hcovers]
      split
      · rfl
      · exact ih

section Everywhere

variable {P : Child α → Prop}

/-- What holds of every child after a change in place. -/
theorem forall_modifyAt {g : Grid α} {f : α → α} (h : ∀ c ∈ g, P c)
    (hf : ∀ c, P c → P { c with item := f c.item }) (left top : Int) :
    ∀ c ∈ g.modifyAt f left top, P c := by
  induction g with
  | nil => simp [modifyAt]
  | cons d rest ih =>
      obtain ⟨hd, hrest⟩ := List.forall_mem_cons.mp h
      rw [modifyAt]
      split
      · exact List.forall_mem_cons.mpr ⟨hf d hd, hrest⟩
      · exact List.forall_mem_cons.mpr ⟨hd, ih hrest⟩

theorem forall_removeRow {g : Grid α} {position : Int} (h : ∀ c ∈ g, P c)
    (hP : ∀ c, P c → 0 < (c.without position).height → P (c.without position)) :
    ∀ c ∈ g.removeRow position, P c := by
  intro c hc
  obtain ⟨hmem, hheight⟩ := List.mem_filter.mp hc
  obtain ⟨d, hd, rfl⟩ := List.mem_map.mp hmem
  exact hP d (h d hd) (of_decide_eq_true hheight)

end Everywhere

/-- The rows below the removed one have moved up. -/
theorem itemAt_removeRow (g : Grid α) (position l t : Int) :
    (g.removeRow position).itemAt l t =
      g.itemAt l (if t < position then t else t + 1) := by
  unfold removeRow
  rw [itemAt_filter]
  · induction g with
    | nil => rfl
    | cons c rest ih =>
        rw [List.map_cons, itemAt_cons, itemAt_cons, Child.covers_without, ih]
        rfl
  · intro c _ hcov
    rw [Child.covers_iff] at hcov
    simp only [decide_eq_true_eq]
    omega

end Grid

end Library.CellGrid
