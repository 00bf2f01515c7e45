import ParallelGdb.Breakpoint.Loops

/-!
# What the dialog asks for, rank by rank

The window keeps the commands that were sent. A refused command is not among
them, so the loops are run once more with a record of what they hand to
`send_data`. Outside its methods a Breakpoint is in no error state; from there
both methods leave each rank as its button asks, as far as commands get through.
-/

namespace ParallelGdb

open Library.CString Library.RankLoop

namespace Breakpoint

variable {n : Nat}

/-- The command `create_breakpoint` hands to `send_data`, if it gets that far. -/
def createCommand (r : Fin n) (s : Breakpoint n × Tracker n) : Option Command :=
  if s.2.targetState r ≠ .stopped then none else some (.breakInsert s.1.fullPath s.1.line)

/-- The command `delete_breakpoint` hands to `send_data`. -/
def deleteCommand (r : Fin n) (s : Breakpoint n × Tracker n) : Option Command :=
  if s.2.targetState r ≠ .stopped then none else some (.breakDelete (s.1.numbers r))

/-- It is all that goes to `send_data`, whose answer decides. -/
theorem createBreakpoint_command (this : BkptId) (r : Fin n) (s : Breakpoint n × Tracker n) :
    createBreakpoint this r s =
      match (createCommand r s).map (s.2.sendGdb r this) with
      | some (true, t) => (true, s.1.setState r .created, t.setBreakpoint r (some this))
      | some (false, t) => (false, s.1.setState r .errorCreating, t)
      | none => (false, s.1.setState r .errorCreating, s.2) := by
  unfold createBreakpoint createCommand
  split
  · rfl
  · simp only [Option.map_some, setState, Function.update_idem]
    obtain ⟨sent, t⟩ := s.2.sendGdb r this (.breakInsert s.1.fullPath s.1.line)
    cases sent <;> rfl

theorem deleteBreakpoint_command (this : BkptId) (r : Fin n) (s : Breakpoint n × Tracker n) :
    deleteBreakpoint this r s =
      match (deleteCommand r s).map (s.2.sendGdb r this) with
      | some (true, t) => (true, s.1.setState r .notExisting, t)
      | some (false, t) => (false, s.1.setState r .errorDeleting, t)
      | none => (false, s.1.setState r .errorDeleting, s.2) := by
  unfold deleteBreakpoint deleteCommand
  split
  · rfl
  · simp only [Option.map_some, setState, Function.update_idem]
    obtain ⟨sent, t⟩ := s.2.sendGdb r this (.breakDelete (s.1.numbers r))
    cases sent <;> rfl

/-- Note a command for a rank, if there is one. -/
def attempt (attempts : Fin n → List Command) (r : Fin n) (cmd : Option Command) :
    Fin n → List Command :=
  Function.update attempts r (attempts r ++ cmd.toList)

/-- `updateStep` with the commands handed to `send_data`. -/
def tracedUpdateStep (this : BkptId) (buttonStates : Fin n → Bool)
    (s : (Fin n → List Command) × Breakpoint n × Tracker n) (r : Fin n) :
    (Fin n → List Command) × Breakpoint n × Tracker n :=
  let s :=
    if !buttonStates r && s.2.1.state r = .created then
      (attempt s.1 r (deleteCommand r s.2), (deleteBreakpoint this r s.2).2)
    else
      s
  if buttonStates r && s.2.1.state r ≠ .created then
    (attempt s.1 r (createCommand r s.2), (createBreakpoint this r s.2).2)
  else
    s

/-- The commands `update_breakpoints` hands to `send_data`. -/
def updateAttempts (this : BkptId) (buttonStates : Fin n → Bool)
    (s : Breakpoint n × Tracker n) : Fin n → List Command :=
  (forEach (tracedUpdateStep this buttonStates) (List.finRange n) (fun _ => [], s)).1

/-- One round of the loop of `delete_breakpoints`, with these commands. -/
def tracedDeleteStep (this : BkptId) (acc : (Fin n → List Command) × Bool × Breakpoint n × Tracker n)
    (r : Fin n) : (Fin n → List Command) × Bool × Breakpoint n × Tracker n :=
  if acc.2.2.1.state r = .created then
    let out := deleteBreakpoint this r acc.2.2
    (attempt acc.1 r (deleteCommand r acc.2.2), acc.2.1 && out.1, out.2)
  else
    acc

/-- The commands `delete_breakpoints` hands to `send_data`. -/
def deleteAttempts (this : BkptId) (s : Breakpoint n × Tracker n) : Fin n → List Command :=
  (forEach (tracedDeleteStep this) (List.finRange n) (fun _ => [], true, s)).1

/-- `delete_breakpoints`, when nothing happens while its dialog is open. -/
def deleteBreakpoints (this : BkptId) (s : Breakpoint n × Tracker n) :
    Bool × Breakpoint n × Tracker n :=
  let out := deleteLoop this s
  (out.1, out.2.1.updateStates, out.2.2)

/-- What a button makes of its rank: one command if the rank is stopped and not
yet as the button asks. -/
def attempted (button : Bool) (state : BreakpointState) (bp : Breakpoint n) (t : Tracker n)
    (r : Fin n) : List Command :=
  if t.targetState r = .stopped ∧ button ≠ decide (state = .created) then
    [if button then .breakInsert bp.fullPath bp.line else .breakDelete (bp.numbers r)]
  else
    []

section Traces

theorem tracedUpdateStep_eq (this : BkptId) (buttonStates : Fin n → Bool)
    (attempts : Fin n → List Command) (bp : Breakpoint n) (t : Tracker n) (r : Fin n) :
    tracedUpdateStep this buttonStates (attempts, bp, t) r =
      (Function.update attempts r
        (attempts r ++ attempted (buttonStates r) (bp.state r) bp t r),
        updateStep this buttonStates (bp, t) r) := by
  by_cases hb : buttonStates r = true <;> by_cases hc : bp.state r = .created <;>
    by_cases hs : t.targetState r = .stopped <;>
    simp [tracedUpdateStep, updateStep, attempted, attempt, createCommand, deleteCommand, hb, hc,
      hs]

/-- The rounds leave in each rank's record what its button asks for. -/
theorem forEach_tracedUpdateStep (this : BkptId) (buttonStates : Fin n → Bool) (bp : Breakpoint n)
    (t : Tracker n) :
    forEach (tracedUpdateStep this buttonStates) (List.finRange n) (fun _ => [], bp, t) =
      (fun r => attempted (buttonStates r) (bp.state r) bp t r,
        updateLoop this buttonStates (bp, t)) := by
  let build : (Fin n → List Command × BreakpointState × Option BkptId ×
      List (BkptId × Command)) → (Fin n → List Command) × Breakpoint n × Tracker n := fun column =>
    (fun r => (column r).1, withColumns bp t fun r => (column r).2)
  let g : Fin n → List Command × BreakpointState × Option BkptId × List (BkptId × Command) →
      List Command × BreakpointState × Option BkptId × List (BkptId × Command) := fun r c =>
    (c.1 ++ attempted (buttonStates r) c.2.1 bp t r, updateColumn this buttonStates bp t r c.2)
  have hbody : ∀ column r, tracedUpdateStep this buttonStates (build column) r =
      build (Function.update column r (g r (column r))) := by
    intro column r
    have hpair : build column = (fun r => (column r).1,
        (withColumns bp t fun r => (column r).2).1, (withColumns bp t fun r => (column r).2).2) :=
      rfl
    rw [hpair, tracedUpdateStep_eq, Prod.mk.eta, updateStep_withColumns]
    refine Prod.ext (funext fun q => ?_) ?_
    · by_cases hq : q = r
      · subst hq
        simp only [Function.update_self, build]
        rfl
      · simp [hq, build]
    · simp only [build]
      congr 1
      funext q
      by_cases hq : q = r
      · subst hq
        simp [g]
      · simp [hq]
  rw [updateLoop_eq]
  exact forEach_finRange hbody fun r => ([], bp.state r, t.breakpoints r, t.sentGdb r)

/-- Deleting everywhere makes the attempts of an update with no button pressed. -/
theorem deleteAttempts_eq (this : BkptId) (s : Breakpoint n × Tracker n) :
    deleteAttempts this s = updateAttempts this (fun _ => false) s := by
  suffices h : ∀ (items : List (Fin n)) (acc : (Fin n → List Command) × Bool × Breakpoint n ×
      Tracker n), (forEach (tracedDeleteStep this) items acc).1 =
        (forEach (tracedUpdateStep this fun _ => false) items (acc.1, acc.2.2)).1 from
    h (List.finRange n) (fun _ => [], true, s)
  intro items
  induction items with
  | nil => exact fun acc => rfl
  | cons r rest ih =>
      intro acc
      rw [forEach_cons, forEach_cons, ih]
      congr 2
      by_cases hc : acc.2.2.1.state r = .created <;> simp [tracedDeleteStep, tracedUpdateStep, hc]

/-- The record does not disturb what is recorded. -/
theorem forEach_tracedDeleteStep_snd (this : BkptId) (s : Breakpoint n × Tracker n) :
    (forEach (tracedDeleteStep this) (List.finRange n) (fun _ => [], true, s)).2 =
      deleteLoop this s := by
  suffices h : ∀ (items : List (Fin n)) (acc : (Fin n → List Command) × Bool × Breakpoint n ×
      Tracker n), (forEach (tracedDeleteStep this) items acc).2 = forEach (fun acc r =>
        if acc.2.1.state r = .created then
          let out := deleteBreakpoint this r acc.2
          (acc.1 && out.1, out.2)
        else
          acc) items acc.2 from h (List.finRange n) (fun _ => [], true, s)
  intro items
  induction items with
  | nil => exact fun acc => rfl
  | cons r rest ih =>
      intro acc
      rw [forEach_cons, forEach_cons, ih]
      congr 1
      by_cases hc : acc.2.2.1.state r = .created <;> simp [tracedDeleteStep, hc]

end Traces

/-- No rank is in an error state, as it is outside the methods. -/
def Settled (bp : Breakpoint n) : Prop :=
  ∀ r, bp.state r = .notExisting ∨ bp.state r = .created

/-- From `(bp, t)` to `(bp', t')` each rank does what its button asks. -/
structure AsAsked (this : BkptId) (buttonStates : Fin n → Bool) (bp : Breakpoint n) (t : Tracker n)
    (attempts : Fin n → List Command) (bp' : Breakpoint n) (t' : Tracker n) : Prop where
  state : ∀ r, bp'.state r =
    if (buttonStates r ∧ (bp.state r = .created ∨ t.targetState r = .stopped ∧ t.connsGdb r)) ∨
        (¬ buttonStates r ∧ bp.state r = .created ∧
          ¬ (t.targetState r = .stopped ∧ t.connsGdb r)) then
      .created
    else
      .notExisting
  /-- One command is attempted where a stopped rank is not as asked, none elsewhere. -/
  asked : ∀ r, attempts r =
    if t.targetState r = .stopped ∧ ¬ (buttonStates r = true ↔ bp.state r = .created) then
      [if buttonStates r then .breakInsert bp.fullPath bp.line else .breakDelete (bp.numbers r)]
    else
      []
  /-- What was attempted is sent if there is a socket. -/
  sent : ∀ r, t'.sentGdb r =
    t.sentGdb r ++ if t.connsGdb r then (attempts r).map fun cmd => (this, cmd) else []
  /-- The pending slot is taken by an insert that was sent. -/
  slot : ∀ r, t'.breakpoints r =
    if buttonStates r ∧ bp.state r ≠ .created ∧ t.targetState r = .stopped ∧ t.connsGdb r then
      some this
    else
      t.breakpoints r
  object : bp' = { bp with state := bp'.state }
  window : t' = { t with breakpoints := t'.breakpoints, sentGdb := t'.sentGdb }

section Methods

variable {this : BkptId} {buttonStates : Fin n → Bool} {bp : Breakpoint n} {t : Tracker n}

theorem settled_updateStates (bp : Breakpoint n) : bp.updateStates.Settled := by
  intro r
  cases hs : bp.state r <;> simp [updateStates, hs]

/-- The states after the loop and the folding of the error states. -/
theorem state_updateBreakpoints (h : bp.Settled) (r : Fin n) :
    (updateBreakpoints this buttonStates (bp, t)).2.1.state r =
      if (buttonStates r ∧ (bp.state r = .created ∨ t.targetState r = .stopped ∧ t.connsGdb r)) ∨
          (¬ buttonStates r ∧ bp.state r = .created ∧
            ¬ (t.targetState r = .stopped ∧ t.connsGdb r)) then
        .created
      else
        .notExisting := by
  have hsend : t.canSend r = true ↔ t.targetState r = .stopped ∧ t.connsGdb r = true := by
    simp [Tracker.canSend]
  simp only [updateBreakpoints, updateLoop_eq, updateStates, afterOps, updateOp, rankOp, ← hsend]
  rcases h r with hs | hs <;> by_cases hb : buttonStates r = true <;> cases hc : t.canSend r <;>
    simp [hs, hb, RankOp.state]

theorem updateBreakpoints_asAsked (h : bp.Settled) :
    AsAsked this buttonStates bp t (updateAttempts this buttonStates (bp, t))
      (updateBreakpoints this buttonStates (bp, t)).2.1
      (updateBreakpoints this buttonStates (bp, t)).2.2 where
  state := state_updateBreakpoints h
  asked := by
    intro r
    rw [updateAttempts, forEach_tracedUpdateStep]
    simp only [attempted]
    congr 1
    by_cases hb : buttonStates r = true <;> by_cases hc : bp.state r = .created <;> simp [hb, hc]
  sent := by
    intro r
    rw [updateAttempts, forEach_tracedUpdateStep]
    simp only [updateBreakpoints, updateLoop_eq, Tracker.afterOps, updateOp, rankOp, attempted,
      Tracker.canSend]
    by_cases hb : buttonStates r = true <;> by_cases hc : bp.state r = .created <;>
      by_cases hs : t.targetState r = .stopped <;> by_cases hconn : t.connsGdb r = true <;>
      simp [hb, hc, hs, hconn, RankOp.sent]
  slot := by
    intro r
    simp only [updateBreakpoints, updateLoop_eq, Tracker.afterOps, updateOp, rankOp,
      Tracker.canSend]
    by_cases hb : buttonStates r = true <;> by_cases hc : bp.state r = .created <;>
      by_cases hs : t.targetState r = .stopped <;> by_cases hconn : t.connsGdb r = true <;>
      simp [hb, hc, hs, hconn, RankOp.slot]
  object := by
    simp only [updateBreakpoints, updateLoop_eq]
    rfl
  window := by
    simp only [updateBreakpoints, updateLoop_eq]
    rfl

/-- A second update refuses again what the first one refused, and finds the
rest done. -/
theorem updateLoop_again (h : bp.Settled) :
    updateLoop this buttonStates (updateBreakpoints this buttonStates (bp, t)).2 =
      updateLoop this buttonStates (bp, t) := by
  have hout : (updateBreakpoints this buttonStates (bp, t)).2 =
      ((bp.afterOps (updateOp buttonStates (bp, t))).updateStates,
        t.afterOps this bp (updateOp buttonStates (bp, t))) := by
    simp only [updateBreakpoints, updateLoop_eq]
  generalize hfolded : (bp.afterOps (updateOp buttonStates (bp, t))).updateStates = folded at hout
  generalize hwindow : t.afterOps this bp (updateOp buttonStates (bp, t)) = t' at hout
  have hrank : ∀ r, (updateOp buttonStates (folded, t') r).state (folded.state r) =
      (updateOp buttonStates (bp, t) r).state (bp.state r) ∧
        (updateOp buttonStates (folded, t') r).slot this (t'.breakpoints r) = t'.breakpoints r ∧
          (updateOp buttonStates (folded, t') r).sent this folded r = [] := by
    intro r
    have hsend : t'.canSend r = t.canSend r := by rw [← hwindow]; rfl
    have hstate : folded.state r =
        ((bp.afterOps (updateOp buttonStates (bp, t))).updateStates).state r := by rw [hfolded]
    simp only [updateStates, afterOps, updateOp] at hstate
    simp only [updateOp, hsend, hstate]
    rcases h r with hs | hs <;> cases hb : buttonStates r <;> cases hc : t.canSend r <;>
      simp [hs, rankOp, RankOp.state, RankOp.slot, RankOp.sent]
  rw [hout, updateLoop_eq, updateLoop_eq, hwindow]
  refine Prod.ext ?_ ?_
  · simp only [afterOps, hrank]
    rw [← hfolded]
    rfl
  · simp only [Tracker.afterOps, hrank, List.append_nil]

/-- `delete_breakpoints` is `update_breakpoints` with no button pressed. -/
theorem deleteBreakpoints_snd (this : BkptId) (s : Breakpoint n × Tracker n) :
    (deleteBreakpoints this s).2 = (updateBreakpoints this (fun _ => false) s).2 := by
  simp only [deleteBreakpoints, deleteLoop_snd, updateBreakpoints]

/-- It returns `true` exactly if no rank has the Breakpoint any more. -/
theorem deleteBreakpoints_fst (h : bp.Settled) :
    (deleteBreakpoints this (bp, t)).1 = true ↔
      ∀ r, (deleteBreakpoints this (bp, t)).2.1.state r ≠ .created := by
  have hstart : ∀ r, bp.state r ≠ .errorDeleting := by
    intro r
    rcases h r with hs | hs <;> simp [hs]
  have hloop : ∀ r, (deleteLoop this (bp, t)).2.1.state r ≠ .created := by
    intro r
    rw [deleteLoop_snd, updateLoop_eq]
    simp only [afterOps, updateOp, rankOp]
    rcases h r with hs | hs <;> cases t.canSend r <;> simp [hs, RankOp.state]
  rw [deleteBreakpoints, deleteLoop_fst this bp t hstart]
  refine forall_congr' fun r => not_congr ?_
  have hne := hloop r
  simp only [updateStates]
  cases hs : (deleteLoop this (bp, t)).2.1.state r <;> simp [hs] at hne ⊢

theorem settled_updateBreakpoints (this : BkptId) (buttonStates : Fin n → Bool)
    (s : Breakpoint n × Tracker n) : (updateBreakpoints this buttonStates s).2.1.Settled := by
  simp only [updateBreakpoints]
  exact settled_updateStates _

theorem updateBreakpoints_again (h : bp.Settled) :
    updateBreakpoints this buttonStates (updateBreakpoints this buttonStates (bp, t)).2 =
      updateBreakpoints this buttonStates (bp, t) := by
  simp only [updateBreakpoints]
  have hloop : updateLoop this buttonStates (updateBreakpoints this buttonStates (bp, t)).2 =
      updateLoop this buttonStates (bp, t) := updateLoop_again h
  simp only [updateBreakpoints] at hloop
  rw [hloop]

theorem deleteBreakpoints_again (h : bp.Settled) :
    deleteBreakpoints this (deleteBreakpoints this (bp, t)).2 =
      deleteBreakpoints this (bp, t) := by
  have hsnd : (deleteBreakpoints this (deleteBreakpoints this (bp, t)).2).2 =
      (deleteBreakpoints this (bp, t)).2 := by
    rw [deleteBreakpoints_snd, deleteBreakpoints_snd, updateBreakpoints_again h]
  refine Prod.ext (Bool.eq_iff_iff.mpr ?_) hsnd
  have hsettled : (deleteBreakpoints this (bp, t)).2.1.Settled := by
    rw [deleteBreakpoints_snd]
    exact settled_updateBreakpoints this _ _
  have hagain : (deleteBreakpoints this (deleteBreakpoints this (bp, t)).2).1 = true ↔ ∀ r,
      (deleteBreakpoints this (deleteBreakpoints this (bp, t)).2).2.1.state r ≠ .created :=
    deleteBreakpoints_fst hsettled
  rw [hsnd] at hagain
  rw [hagain, deleteBreakpoints_fst h]

/-- Both methods do what is asked, rank by rank, and doing it twice is doing it
once. -/
theorem breakpoints_asAsked (this : BkptId) (buttonStates : Fin n → Bool) (bp : Breakpoint n)
    (t : Tracker n) (h : bp.Settled) :
    AsAsked this buttonStates bp t (updateAttempts this buttonStates (bp, t))
        (updateBreakpoints this buttonStates (bp, t)).2.1
        (updateBreakpoints this buttonStates (bp, t)).2.2 ∧
      ((deleteBreakpoints this (bp, t)).2 = (updateBreakpoints this (fun _ => false) (bp, t)).2 ∧
        deleteAttempts this (bp, t) = updateAttempts this (fun _ => false) (bp, t) ∧
        ((deleteBreakpoints this (bp, t)).1 = true ↔
          ∀ r, (deleteBreakpoints this (bp, t)).2.1.state r ≠ .created)) ∧
      updateBreakpoints this buttonStates (updateBreakpoints this buttonStates (bp, t)).2 =
        updateBreakpoints this buttonStates (bp, t) ∧
      deleteBreakpoints this (deleteBreakpoints this (bp, t)).2 = deleteBreakpoints this (bp, t) :=
  ⟨updateBreakpoints_asAsked h,
    ⟨deleteBreakpoints_snd this _, deleteAttempts_eq this _, deleteBreakpoints_fst h⟩,
    updateBreakpoints_again h, deleteBreakpoints_again h⟩

/-- A Breakpoint that the first of two ranks has, which is stopped while the
second one runs. -/
def firstRankOnly : Breakpoint 2 :=
  { Breakpoint.new 2 7 (ascii "/src/a.c") with state := ![.created, .notExisting] }

def firstStopped : Tracker 2 :=
  { Tracker.init 2 with targetState := ![.stopped, .running], connsGdb := fun _ => true }

/-- Both ranks are to change; one can. -/
theorem firstRankOnly_asAsked :
    (updateBreakpoints 0 ![false, true] (firstRankOnly, firstStopped)).2.1.state =
        ![.notExisting, .notExisting] ∧
      AsAsked 0 ![false, true] firstRankOnly firstStopped
        (updateAttempts 0 ![false, true] (firstRankOnly, firstStopped))
        (updateBreakpoints 0 ![false, true] (firstRankOnly, firstStopped)).2.1
        (updateBreakpoints 0 ![false, true] (firstRankOnly, firstStopped)).2.2 := by
  refine ⟨by decide, (breakpoints_asAsked 0 ![false, true] firstRankOnly firstStopped ?_).1⟩
  unfold Settled
  decide

end Methods

end Breakpoint

end ParallelGdb
