import ParallelGdb.Breakpoint.Class

/-!
# What the Breakpoint loops do at each rank

`update_breakpoints` and `delete_breakpoints` run over the ranks and decide at
each one between inserting, deleting and doing nothing, where a refused command
leaves an error state. Both loops are the same choice of operation, with the
buttons of the second one all released.
-/

namespace ParallelGdb

open Library.CString Library.RankLoop

/-- Commands to this rank's GDB get through. -/
def Tracker.canSend {n : Nat} (t : Tracker n) (r : Fin n) : Bool :=
  t.targetState r = .stopped && t.connsGdb r

namespace Breakpoint

/-- What the loop body does at one rank. -/
inductive RankOp
  | keep
  | insert
  | refusedInsert
  | delete
  | refusedDelete
  deriving DecidableEq, Repr

/-- The operation a button asks for, given the rank's state and whether
commands get through. -/
def rankOp (button : Bool) (state : BreakpointState) (canSend : Bool) : RankOp :=
  if button = decide (state = .created) then .keep
  else if button then (if canSend then .insert else .refusedInsert)
  else (if canSend then .delete else .refusedDelete)

def RankOp.state : RankOp → BreakpointState → BreakpointState
  | .keep, s => s
  | .insert, _ => .created
  | .refusedInsert, _ => .errorCreating
  | .delete, _ => .notExisting
  | .refusedDelete, _ => .errorDeleting

def RankOp.slot (this : BkptId) : RankOp → Option BkptId → Option BkptId
  | .insert, _ => some this
  | _, slot => slot

variable {n : Nat}

def RankOp.sent (this : BkptId) (bp : Breakpoint n) (r : Fin n) :
    RankOp → List (BkptId × Command)
  | .insert => [(this, .breakInsert bp.fullPath bp.line)]
  | .delete => [(this, .breakDelete (bp.numbers r))]
  | _ => []

/-- The operation the update loop performs at a rank. -/
def updateOp (buttonStates : Fin n → Bool) (s : Breakpoint n × Tracker n) (r : Fin n) : RankOp :=
  rankOp (buttonStates r) (s.1.state r) (s.2.canSend r)

/-- The object after operations chosen rank by rank. -/
def afterOps (bp : Breakpoint n) (op : Fin n → RankOp) : Breakpoint n :=
  { bp with state := fun r => (op r).state (bp.state r) }

end Breakpoint

open Breakpoint in
/-- The window after operations chosen rank by rank. -/
def Tracker.afterOps {n : Nat} (t : Tracker n) (this : BkptId) (bp : Breakpoint n)
    (op : Fin n → RankOp) : Tracker n :=
  { t with
    breakpoints := fun r => (op r).slot this (t.breakpoints r)
    sentGdb := fun r => t.sentGdb r ++ (op r).sent this bp r }

namespace Breakpoint

variable {n : Nat}

theorem createBreakpoint_sent (this : BkptId) (r : Fin n) (bp : Breakpoint n) (t : Tracker n)
    (h : t.canSend r = true) :
    createBreakpoint this r (bp, t) =
      (true, bp.setState r .created,
        { t with
          breakpoints := Function.update t.breakpoints r (some this)
          sentGdb := Function.update t.sentGdb r
            (t.sentGdb r ++ [(this, .breakInsert bp.fullPath bp.line)]) }) := by
  simp only [Tracker.canSend, Bool.and_eq_true, decide_eq_true_eq] at h
  simp [createBreakpoint, setState, Tracker.sendGdb, Tracker.setBreakpoint, h.1, h.2]

theorem createBreakpoint_refused (this : BkptId) (r : Fin n) (bp : Breakpoint n)
    (t : Tracker n) (h : t.canSend r = false) :
    createBreakpoint this r (bp, t) = (false, bp.setState r .errorCreating, t) := by
  simp only [Tracker.canSend, Bool.and_eq_false_iff, decide_eq_false_iff_not] at h
  by_cases hstop : t.targetState r = .stopped
  · have hconn : t.connsGdb r = false := h.resolve_left (not_not_intro hstop)
    simp [createBreakpoint, Tracker.sendGdb, hstop, hconn]
  · simp [createBreakpoint, hstop]

theorem deleteBreakpoint_sent (this : BkptId) (r : Fin n) (bp : Breakpoint n) (t : Tracker n)
    (h : t.canSend r = true) :
    deleteBreakpoint this r (bp, t) =
      (true, bp.setState r .notExisting,
        { t with
          sentGdb := Function.update t.sentGdb r
            (t.sentGdb r ++ [(this, .breakDelete (bp.numbers r))]) }) := by
  simp only [Tracker.canSend, Bool.and_eq_true, decide_eq_true_eq] at h
  simp [deleteBreakpoint, setState, Tracker.sendGdb, h.1, h.2]

theorem deleteBreakpoint_refused (this : BkptId) (r : Fin n) (bp : Breakpoint n)
    (t : Tracker n) (h : t.canSend r = false) :
    deleteBreakpoint this r (bp, t) = (false, bp.setState r .errorDeleting, t) := by
  simp only [Tracker.canSend, Bool.and_eq_false_iff, decide_eq_false_iff_not] at h
  by_cases hstop : t.targetState r = .stopped
  · have hconn : t.connsGdb r = false := h.resolve_left (not_not_intro hstop)
    simp [deleteBreakpoint, Tracker.sendGdb, hstop, hconn]
  · simp [deleteBreakpoint, hstop]

/-- One round of the update loop performs the operation of its rank there. -/
theorem updateStep_eq (this : BkptId) (buttonStates : Fin n → Bool) (bp : Breakpoint n)
    (t : Tracker n) (r : Fin n) :
    updateStep this buttonStates (bp, t) r =
      (bp.setState r ((updateOp buttonStates (bp, t) r).state (bp.state r)),
        { t with
          breakpoints := Function.update t.breakpoints r
            ((updateOp buttonStates (bp, t) r).slot this (t.breakpoints r))
          sentGdb := Function.update t.sentGdb r
            (t.sentGdb r ++ (updateOp buttonStates (bp, t) r).sent this bp r) }) := by
  by_cases hb : buttonStates r = true <;> by_cases hc : bp.state r = .created <;>
    cases hs : t.canSend r
  all_goals
    simp [updateStep, updateOp, rankOp, hb, hc, hs, RankOp.state, RankOp.slot, RankOp.sent,
      createBreakpoint_sent, createBreakpoint_refused, deleteBreakpoint_sent,
      deleteBreakpoint_refused, setState, Function.update_eq_self]
  all_goals
    rw [← hc, Function.update_eq_self]

/-- The object and the window with another state, slot and sent commands at
each rank. -/
def withColumns (bp : Breakpoint n) (t : Tracker n)
    (column : Fin n → BreakpointState × Option BkptId × List (BkptId × Command)) :
    Breakpoint n × Tracker n :=
  ({ bp with state := fun r => (column r).1 },
    { t with breakpoints := fun r => (column r).2.1, sentGdb := fun r => (column r).2.2 })

/-- What one round makes of the column of its rank. -/
def updateColumn (this : BkptId) (buttonStates : Fin n → Bool) (bp : Breakpoint n)
    (t : Tracker n) (r : Fin n) (c : BreakpointState × Option BkptId × List (BkptId × Command)) :
    BreakpointState × Option BkptId × List (BkptId × Command) :=
  let op := rankOp (buttonStates r) c.1 (t.canSend r)
  (op.state c.1, op.slot this c.2.1, c.2.2 ++ op.sent this bp r)

theorem updateStep_withColumns (this : BkptId) (buttonStates : Fin n → Bool) (bp : Breakpoint n)
    (t : Tracker n) (column : Fin n → BreakpointState × Option BkptId × List (BkptId × Command))
    (r : Fin n) :
    updateStep this buttonStates (withColumns bp t column) r =
      withColumns bp t
        (Function.update column r (updateColumn this buttonStates bp t r (column r))) := by
  have hsent : ∀ (o : RankOp) (state : Fin n → BreakpointState),
      o.sent this { bp with state := state } r = o.sent this bp r := by
    intro o state
    cases o <;> rfl
  rw [withColumns, updateStep_eq, hsent]
  simp only [withColumns, setState, Prod.mk.injEq, Breakpoint.mk.injEq, Tracker.mk.injEq,
    true_and, and_true]
  refine ⟨?_, ?_, ?_⟩ <;>
  · funext q
    by_cases hq : q = r
    · subst hq
      simp [updateColumn, updateOp, Tracker.canSend]
    · simp [Function.update_of_ne hq]

/-- The loop leaves each rank as the operation chosen for it does. -/
theorem updateLoop_eq (this : BkptId) (buttonStates : Fin n → Bool) (bp : Breakpoint n)
    (t : Tracker n) :
    updateLoop this buttonStates (bp, t) =
      (bp.afterOps (updateOp buttonStates (bp, t)),
        t.afterOps this bp (updateOp buttonStates (bp, t))) :=
  forEach_finRange (updateStep_withColumns this buttonStates bp t)
    fun r => (bp.state r, t.breakpoints r, t.sentGdb r)

/-- Both loops are one: deleting everywhere is updating with no button pressed. -/
theorem deleteLoop_snd (this : BkptId) (s : Breakpoint n × Tracker n) :
    (deleteLoop this s).2 = updateLoop this (fun _ => false) s := by
  suffices h : ∀ (items : List (Fin n)) (acc : Bool × Breakpoint n × Tracker n),
      (forEach (fun acc r =>
        if acc.2.1.state r = .created then
          let out := deleteBreakpoint this r acc.2
          (acc.1 && out.1, out.2)
        else
          acc) items acc).2 = forEach (updateStep this fun _ => false) items acc.2 from
    h (List.finRange n) (true, s)
  intro items
  induction items with
  | nil => intro acc; rfl
  | cons r rest ih =>
      intro acc
      rw [forEach_cons, forEach_cons, ih]
      congr 1
      by_cases hc : acc.2.1.state r = .created <;> simp [updateStep, hc]

/-- `delete_breakpoints` reports success exactly when its loop left no rank in
the error state the dialog lists. -/
theorem deleteLoop_fst (this : BkptId) (bp : Breakpoint n) (t : Tracker n)
    (h : ∀ r, bp.state r ≠ .errorDeleting) :
    (deleteLoop this (bp, t)).1 = true ↔
      ∀ r, (deleteLoop this (bp, t)).2.1.state r ≠ .errorDeleting := by
  let P : Bool × Breakpoint n × Tracker n → Prop := fun acc =>
    acc.1 = true ↔ ∀ r, acc.2.1.state r ≠ .errorDeleting
  refine forEach_preserves (P := P) ?_ (List.finRange n) (by simpa [P] using h)
  rintro ⟨ok, bp', t'⟩ r hP
  by_cases hc : bp'.state r = .created
  · cases hs : t'.canSend r with
    | true =>
        simp only [P, hc, if_true, deleteBreakpoint_sent this r bp' t' hs, Bool.and_true,
          setState] at hP ⊢
        rw [hP]
        refine forall_congr' fun q => ?_
        by_cases hq : q = r
        · subst hq
          simp [hc]
        · simp [Function.update_of_ne hq]
    | false =>
        simp only [P, hc, if_true, deleteBreakpoint_refused this r bp' t' hs, Bool.and_false,
          setState]
        refine iff_of_false (by simp) fun hall => ?_
        exact hall r (by simp)
  · simpa only [P, hc, if_false] using hP

theorem getList_eq_nil (bp : Breakpoint n) (state : BreakpointState) :
    bp.getList state = [] ↔ ∀ r, bp.state r ≠ state := by
  suffices h : ∀ (items : List (Fin n)) (str : Bytes),
      forEach (fun str r =>
        if bp.state r = state then
          (if str = [] then str else str ++ ascii ", ") ++ decimal (r : Nat)
        else
          str) items str = [] ↔ str = [] ∧ ∀ r ∈ items, bp.state r ≠ state by
    simpa [getList] using h (List.finRange n) []
  intro items
  induction items with
  | nil => simp
  | cons r rest ih =>
      intro str
      rw [forEach_cons, ih]
      by_cases hr : bp.state r = state
      · have hne : decimal (r : Nat) ≠ [] := natDigits_ne_nil r
        simp [hr, hne]
      · simp [hr]

/-- `update_breakpoints` shows its dialog exactly if a rank is in an error state. -/
theorem updateMessage_eq_none (loop folded : Breakpoint n) :
    updateMessage loop folded = none ↔
      ∀ r, loop.state r ≠ .errorCreating ∧ loop.state r ≠ .errorDeleting := by
  simp only [updateMessage]
  split
  · rename_i h
    rw [getList_eq_nil, getList_eq_nil] at h
    exact iff_of_true rfl fun r => ⟨h.1 r, h.2 r⟩
  · rename_i h
    rw [getList_eq_nil, getList_eq_nil] at h
    exact iff_of_false (by simp) fun hall => h ⟨fun r => (hall r).1, fun r => (hall r).2⟩

theorem oneCreated_eq_false (bp : Breakpoint n) :
    bp.oneCreated = false ↔ ∀ r, bp.state r ≠ .created := by
  simp [oneCreated, isCreated]

end Breakpoint

end ParallelGdb
