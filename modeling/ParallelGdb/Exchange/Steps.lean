import ParallelGdb.Exchange.System

/-!
# What one step of the exchange can do

Every call of the user is one choice of operation for each rank, whether it
came from `create_breakpoint`, `delete_breakpoint` or one of the loops. The
lemmas below state once what each label changes; the invariants cite them and
look at no definition of a method again.
-/

namespace ParallelGdb

open Library.CString Library.Transition Mi Breakpoint

section Answers

theorem miResBkpt_inserted {number : Nat} (h : number < 2 ^ 31) :
    miResBkpt (Answer.inserted number).records = .ok (some (number : Int)) := by
  have hval : miGetBkpt [.const (some (ascii "number")) (natDigits number)] = number := by
    simp [miGetBkpt, atoi_natDigits h]
  rw [← hval]
  rfl

theorem miResBkpt_other (answer : Answer) (h : ∀ number, answer ≠ .inserted number) :
    miResBkpt answer.records = .ok none := by
  cases answer with
  | inserted number => exact absurd rfl (h number)
  | rejected => rfl
  | deleted => rfl
  | noSuchNumber => rfl

end Answers

namespace Tracker

variable {n : Nat}

/-- An answer without a breakpoint, or one nobody waits for, changes nothing. -/
theorem parseBreakpoint_idle (t : Tracker n) (r : Fin n) (answer : Answer)
    (h : t.breakpoints r = none ∨ ∀ number, answer ≠ .inserted number) :
    t.parseBreakpoint answer.records r = .ok t := by
  unfold parseBreakpoint
  cases hslot : t.breakpoints r with
  | none => rfl
  | some b =>
      have hother := h.resolve_left (by simp [hslot])
      simp only [miResBkpt_other answer hother]
      rfl

/-- The number of an accepted insert is registered for whoever holds the slot. -/
theorem parseBreakpoint_inserted (t : Tracker n) (r : Fin n) {number : Nat}
    (hnum : number < 2 ^ 31) {b : BkptId} (hslot : t.breakpoints r = some b)
    {bp : Breakpoint n} (hobj : t.objects b = some bp) :
    t.parseBreakpoint (Answer.inserted number).records r =
      .ok (t.registerBreakpoint r b bp number) := by
  simp only [parseBreakpoint, hslot, miResBkpt_inserted hnum]
  simp only [bind, Except.bind, hobj]
  rfl

end Tracker

namespace Breakpoint

variable {n : Nat}

/-- An operation at one rank and none elsewhere. -/
def single (r : Fin n) (o : RankOp) : Fin n → RankOp := Function.update (fun _ => .keep) r o

theorem afterOps_single (bp : Breakpoint n) (r : Fin n) (o : RankOp) :
    bp.afterOps (single r o) = bp.setState r (o.state (bp.state r)) := by
  simp only [afterOps, setState, single, Breakpoint.mk.injEq, true_and]
  funext q
  by_cases hq : q = r
  · subst hq
    simp
  · simp [Function.update_of_ne hq, RankOp.state]

theorem tracker_afterOps_single (t : Tracker n) (b : BkptId) (bp : Breakpoint n) (r : Fin n)
    (o : RankOp) :
    t.afterOps b bp (single r o) =
      { t with
        breakpoints := Function.update t.breakpoints r (o.slot b (t.breakpoints r))
        sentGdb := Function.update t.sentGdb r (t.sentGdb r ++ o.sent b bp r) } := by
  simp only [Tracker.afterOps, single, Tracker.mk.injEq, true_and, and_true]
  constructor
  · funext q
    by_cases hq : q = r
    · subst hq
      simp
    · simp [Function.update_of_ne hq, RankOp.slot]
  · funext q
    by_cases hq : q = r
    · subst hq
      simp
    · simp [Function.update_of_ne hq, RankOp.sent]

theorem createBreakpoint_eq (b : BkptId) (r : Fin n) (bp : Breakpoint n) (t : Tracker n) :
    (createBreakpoint b r (bp, t)).2 =
      let op := single r (if t.canSend r then .insert else .refusedInsert)
      (bp.afterOps op, t.afterOps b bp op) := by
  cases hs : t.canSend r with
  | true =>
      simp [createBreakpoint_sent b r bp t hs, afterOps_single, tracker_afterOps_single,
        RankOp.state, RankOp.slot, RankOp.sent]
  | false =>
      simp [createBreakpoint_refused b r bp t hs, afterOps_single, tracker_afterOps_single,
        RankOp.state, RankOp.slot, RankOp.sent]

theorem deleteBreakpoint_eq (b : BkptId) (r : Fin n) (bp : Breakpoint n) (t : Tracker n) :
    (deleteBreakpoint b r (bp, t)).2 =
      let op := single r (if t.canSend r then .delete else .refusedDelete)
      (bp.afterOps op, t.afterOps b bp op) := by
  cases hs : t.canSend r with
  | true =>
      simp [deleteBreakpoint_sent b r bp t hs, afterOps_single, tracker_afterOps_single,
        RankOp.state, RankOp.slot, RankOp.sent]
  | false =>
      simp [deleteBreakpoint_refused b r bp t hs, afterOps_single, tracker_afterOps_single,
        RankOp.state, RankOp.slot, RankOp.sent]

end Breakpoint

namespace Exchange

variable {n : Nat}

/-- The Breakpoint a user label works on and what it does at each rank. -/
def operation (s : Exchange n) : Label n → Option (BkptId × (Fin n → RankOp))
  | .create b r =>
      some (b, single r (if s.window.canSend r then .insert else .refusedInsert))
  | .delete b r =>
      some (b, single r (if s.window.canSend r then .delete else .refusedDelete))
  | .update b buttonStates =>
      (s.window.objects b).map fun bp => (b, updateOp buttonStates (bp, s.window))
  | .deleteAll b =>
      (s.window.objects b).map fun bp => (b, updateOp (fun _ => false) (bp, s.window))
  | _ => none

/-- The calls end with `update_states`, the methods for one rank do not. -/
def Label.fold : Label n → Breakpoint n → Breakpoint n
  | .update _ _ => updateStates
  | .deleteAll _ => updateStates
  | _ => id

/-- The state after an operation of the user. -/
def operated (s : Exchange n) (a : Label n) (b : BkptId) (bp : Breakpoint n)
    (op : Fin n → RankOp) : Exchange n where
  window := (s.window.afterOps b bp op).store b (a.fold (bp.afterOps op))
  gdb := fun r => ((op r).sent b bp r).foldl Gdb.receive (s.gdb r)

theorem deliver_afterOps (s : Exchange n) (b : BkptId) (bp bp' : Breakpoint n)
    (op : Fin n → RankOp) :
    s.deliver ((s.window.afterOps b bp op).store b bp') =
      { window := (s.window.afterOps b bp op).store b bp'
        gdb := fun r => ((op r).sent b bp r).foldl Gdb.receive (s.gdb r) } := by
  simp [deliver, Tracker.store, Tracker.afterOps]

theorem perform_eq (s : Exchange n) (b : BkptId) {bp : Breakpoint n}
    (hobj : s.window.objects b = some bp)
    (method : Breakpoint n × Tracker n → Breakpoint n × Tracker n) :
    s.perform b method =
      some (s.deliver ((method (bp, s.window)).2.store b (method (bp, s.window)).1)) := by
  simp [perform, hobj]

theorem perform_some {s t : Exchange n} {b : BkptId}
    {method : Breakpoint n × Tracker n → Breakpoint n × Tracker n}
    (h : s.perform b method = some t) : ∃ bp, s.window.objects b = some bp := by
  cases hobj : s.window.objects b with
  | none => simp [perform, hobj] at h
  | some bp => exact ⟨bp, rfl⟩

/-- Every operation of the user is its choice of operations, rank by rank. -/
theorem next_operation {s t : Exchange n} {a : Label n} {b : BkptId}
    {op : Fin n → RankOp} (hop : s.operation a = some (b, op)) (h : s.next a = some t) :
    ∃ bp, s.window.objects b = some bp ∧ t = s.operated a b bp op := by
  cases a with
  | create b' r =>
      obtain ⟨rfl, rfl⟩ : b' = b ∧ _ = op := by simpa [operation] using hop
      simp only [next, Option.ite_none_right_eq_some] at h
      obtain ⟨bp, hobj⟩ := perform_some h.2
      refine ⟨bp, hobj, ?_⟩
      rw [perform_eq s b' hobj, createBreakpoint_eq, deliver_afterOps] at h
      exact (Option.some.inj h.2).symm
  | delete b' r =>
      obtain ⟨rfl, rfl⟩ : b' = b ∧ _ = op := by simpa [operation] using hop
      simp only [next, Option.ite_none_right_eq_some] at h
      obtain ⟨bp, hobj⟩ := perform_some h.2
      refine ⟨bp, hobj, ?_⟩
      rw [perform_eq s b' hobj, deleteBreakpoint_eq, deliver_afterOps] at h
      exact (Option.some.inj h.2).symm
  | update b' buttonStates =>
      rw [next] at h
      obtain ⟨bp, hobj⟩ := perform_some h
      obtain ⟨rfl, rfl⟩ : b' = b ∧ _ = op := by simpa [operation, hobj] using hop
      refine ⟨bp, hobj, ?_⟩
      rw [perform_eq s b' hobj] at h
      simp only [updateBreakpoints, updateLoop_eq, deliver_afterOps] at h
      exact (Option.some.inj h).symm
  | deleteAll b' =>
      rw [next] at h
      obtain ⟨bp, hobj⟩ := perform_some h
      obtain ⟨rfl, rfl⟩ : b' = b ∧ _ = op := by simpa [operation, hobj] using hop
      refine ⟨bp, hobj, ?_⟩
      rw [perform_eq s b' hobj] at h
      simp only [deleteLoop_snd, updateLoop_eq, deliver_afterOps] at h
      exact (Option.some.inj h).symm
  | target r state => simp [operation] at hop
  | accept r number => simp [operation] at hop
  | reject r => simp [operation] at hop
  | remove r => simp [operation] at hop
  | handle r => simp [operation] at hop

theorem readCommand_some {s t : Exchange n} {r : Fin n} {run : Sent → List Sent → Option Gdb}
    (h : s.readCommand r run = some t) :
    ∃ sent rest g, (s.gdb r).commands = sent :: rest ∧ run sent rest = some g ∧
      t = s.setGdb r g := by
  unfold readCommand at h
  cases hc : (s.gdb r).commands with
  | nil => simp [hc] at h
  | cons sent rest =>
      simp only [hc, Option.map_eq_some_iff] at h
      obtain ⟨g, hrun, rfl⟩ := h
      exact ⟨sent, rest, g, rfl, hrun, rfl⟩

/-- Everything a step can do. -/
inductive Step (s : Exchange n) : Label n → Exchange n → Prop
  | operate {a : Label n} {b : BkptId} {op : Fin n → RankOp} {bp : Breakpoint n}
      (hop : s.operation a = some (b, op)) (hobj : s.window.objects b = some bp) :
      Step s a (s.operated a b bp op)
  | target (r : Fin n) (state : TargetState) :
      Step s (.target r state) { s with window :=
        { s.window with targetState := Function.update s.window.targetState r state } }
  | accept {r : Fin n} {number : Nat} {sent : Sent} {rest : List Sent} {fullPath : Bytes}
      {line : Int} (hc : (s.gdb r).commands = sent :: rest)
      (hcmd : sent.cmd = .breakInsert fullPath line)
      (hfresh : fresh (s.gdb r) number = true) :
      Step s (.accept r number) (s.setGdb r ((s.gdb r).accept sent rest number))
  | reject {r : Fin n} {sent : Sent} {rest : List Sent} {fullPath : Bytes} {line : Int}
      (hc : (s.gdb r).commands = sent :: rest)
      (hcmd : sent.cmd = .breakInsert fullPath line) :
      Step s (.reject r) (s.setGdb r ((s.gdb r).reject sent rest))
  | remove {r : Fin n} {sent : Sent} {rest : List Sent} {number : Int}
      (hc : (s.gdb r).commands = sent :: rest) (hcmd : sent.cmd = .breakDelete number) :
      Step s (.remove r) (s.setGdb r ((s.gdb r).remove sent rest number))
  | handle {r : Fin n} {reply : Reply} {rest : List Reply} {w : Tracker n}
      (ha : (s.gdb r).answers = reply :: rest)
      (hp : s.window.parseBreakpoint reply.answer.records r = .ok w) :
      Step s (.handle r) { s.setGdb r { s.gdb r with answers := rest } with window := w }

theorem next_step {s t : Exchange n} {a : Label n} (h : s.next a = some t) : s.Step a t := by
  have hoperate : (∃ b op, s.operation a = some (b, op)) → s.Step a t := by
    rintro ⟨b, op, hop⟩
    obtain ⟨bp, hobj, rfl⟩ := next_operation hop h
    exact .operate hop hobj
  cases a with
  | create b r => exact hoperate ⟨b, _, rfl⟩
  | delete b r => exact hoperate ⟨b, _, rfl⟩
  | update b buttonStates =>
      have hperform := h
      rw [next] at hperform
      obtain ⟨bp, hobj⟩ := perform_some hperform
      exact hoperate ⟨b, updateOp buttonStates (bp, s.window), by simp [operation, hobj]⟩
  | deleteAll b =>
      have hperform := h
      rw [next] at hperform
      obtain ⟨bp, hobj⟩ := perform_some hperform
      exact hoperate ⟨b, updateOp (fun _ => false) (bp, s.window), by simp [operation, hobj]⟩
  | target r state =>
      obtain rfl := Option.some.inj h
      exact .target r state
  | accept r number =>
      obtain ⟨sent, rest, g, hc, hrun, rfl⟩ := readCommand_some h
      cases hcmd : sent.cmd with
      | breakInsert fullPath line =>
          simp only [hcmd, Option.ite_none_right_eq_some, Option.some.injEq] at hrun
          obtain ⟨hfresh, rfl⟩ := hrun
          exact .accept hc hcmd hfresh
      | breakDelete number => simp [hcmd] at hrun
  | reject r =>
      obtain ⟨sent, rest, g, hc, hrun, rfl⟩ := readCommand_some h
      cases hcmd : sent.cmd with
      | breakInsert fullPath line =>
          simp only [hcmd, Option.some.injEq] at hrun
          subst hrun
          exact .reject hc hcmd
      | breakDelete number => simp [hcmd] at hrun
  | remove r =>
      obtain ⟨sent, rest, g, hc, hrun, rfl⟩ := readCommand_some h
      cases hcmd : sent.cmd with
      | breakInsert fullPath line => simp [hcmd] at hrun
      | breakDelete number =>
          simp only [hcmd, Option.some.injEq] at hrun
          subst hrun
          exact .remove hc hcmd
  | handle r =>
      cases ha : (s.gdb r).answers with
      | nil => simp [next, ha] at h
      | cons reply rest =>
          simp only [next, ha] at h
          cases hp : s.window.parseBreakpoint reply.answer.records r with
          | error e => simp [hp] at h
          | ok w =>
              simp only [hp, Option.some.injEq] at h
              subst h
              exact .handle ha hp

end Exchange

end ParallelGdb
