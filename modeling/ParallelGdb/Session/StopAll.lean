import ParallelGdb.Session.Steps

/-!
# Which ranks a stop-all breakpoint interrupts

A rank is due when it runs, has no interrupt pending, is connected, and the last
command the Breakpoint sent it is an insert. `stop_all` asks `is_created`
instead, which differs while the error dialog of `delete_breakpoints` is open:
that method folds the error states back only after its dialog.
-/

namespace ParallelGdb

open Library.CString Library.Transition Mi Breakpoint

namespace Tracker

variable {n : Nat}

/-- The rank is to be interrupted when `b` is hit with its stop-all flag set. -/
def due (t : Tracker n) (b : BkptId) (r : Fin n) : Bool :=
  t.targetState r = .running && !t.sentStop r && t.connsTrgt r && t.held b r

/-- From `t` to `u`, `^C` is sent to every rank that is due, and nothing else. -/
def InterruptsDue (t : Tracker n) (b : BkptId) (u : Tracker n) : Prop :=
  ∀ r, u.sentTrgt r = t.sentTrgt r ++ if t.due b r then [[3]] else []

/-- With a live Breakpoint whose flag is set, the bytes `parse_stop_record`
sends are those of `stop_all`. -/
theorem parseStopRecord_stopAll {first : List MiOutput} {q : Fin n} {t : Tracker n}
    {stop : MiStop} {b : BkptId} {bp : Breakpoint n}
    (hstop : miResStop first = .ok (some stop)) (hno : stop.haveBkptno = true)
    (hgt : 1 < stop.bkptno) (hreg : t.bkptno2Bkpt q stop.bkptno = some b)
    (hobj : t.objects b = some bp) (hflag : bp.stopAll = true) :
    ∃ u, t.parseStopRecord first q = .ok u ∧ u.sentTrgt = (t.stopAll bp).sentTrgt := by
  have hnamed : stopBreakpoint stop q t = some b := by
    simp [stopBreakpoint, hno, hgt, hreg]
  have hhit : t.hitBreakpoint stop q = .ok (t.stopAll bp) := by
    simp [hitBreakpoint, hnamed, hobj, hflag]
  refine ⟨((t.stopAll bp).recordExit stop q).recordPosition stop q, ?_, ?_⟩
  · simp only [parseStopRecord, hstop, bind, Except.bind, applyStop, hhit, pure, Except.pure]
  · unfold recordPosition recordExit
    split <;> split <;> rfl

end Tracker

namespace Session

variable {n : Nat}

theorem inv_reachable {s : Session n} (hs : Reachable (system n) s) : Inv s := by
  apply hs.invariant
  · rintro s rfl
    exact Inv.init
  · exact fun s a t h hstep => h.step hstep

/-- `is_created` misses exactly what the open error dialog of the Breakpoint hides. -/
theorem isCreated_eq {s : Session n} (h : Inv s) {b : BkptId} {bp : Breakpoint n}
    (hobj : s.window.objects b = some bp) (r : Fin n) :
    bp.isCreated r = (s.window.held b r && !s.isDeleting b) := by
  rw [isCreated, h.states b bp hobj r, shown]
  cases s.window.held b r <;> cases s.isDeleting b <;> rfl

/-- A stop record of a stop-all breakpoint interrupts exactly the ranks that are
due if and only if the error dialog of this Breakpoint is not open with a rank
due. -/
theorem stop_record_interrupts_iff {s : Session n} (hs : Reachable (system n) s)
    {first : List MiOutput} {q : Fin n} {stop : MiStop} {b : BkptId} {bp : Breakpoint n}
    (hstop : miResStop first = .ok (some stop)) (hno : stop.haveBkptno = true)
    (hgt : 1 < stop.bkptno) (hreg : s.window.bkptno2Bkpt q stop.bkptno = some b)
    (hobj : s.window.objects b = some bp) (hflag : bp.stopAll = true) :
    (∃ u, (s.window.parseTargetState first q).parseStopRecord first q = .ok u ∧
        (s.window.parseTargetState first q).InterruptsDue b u) ↔
      ¬ (s.isDeleting b = true ∧ ∃ r, (s.window.parseTargetState first q).due b r = true) := by
  have hlinks := Tracker.sameLinks_parseTargetState first q s.window
  generalize s.window.parseTargetState first q = t at hlinks ⊢
  rw [← hlinks.bkptno2Bkpt] at hreg
  obtain ⟨u, hu, hsent⟩ := Tracker.parseStopRecord_stopAll hstop hno hgt hreg
    (hlinks.objects ▸ hobj) hflag
  have hstops : ∀ r, t.stops bp r = (t.due b r && !s.isDeleting b) := by
    intro r
    rw [Tracker.stops, Tracker.due, isCreated_eq (inv_reachable hs) hobj r, hlinks.held b r]
    cases s.isDeleting b <;> cases s.window.held b r <;> cases t.connsTrgt r <;> simp
  have hinterrupts : t.InterruptsDue b u ↔ ∀ r, t.due b r = true → s.isDeleting b = false := by
    simp only [Tracker.InterruptsDue, hsent, Tracker.stopAll_eq, List.append_cancel_left_eq,
      hstops]
    refine forall_congr' fun r => ?_
    cases t.due b r <;> cases s.isDeleting b <;> simp
  constructor
  · rintro ⟨v, hv, hdue⟩ ⟨hdialog, r, hr⟩
    obtain rfl := Except.ok.inj (hu.symm.trans hv)
    have hclosed := hinterrupts.mp hdue r hr
    rw [hdialog] at hclosed
    exact absurd hclosed (by decide)
  · intro hcond
    refine ⟨u, hu, hinterrupts.mpr fun r hr => ?_⟩
    cases hdialog : s.isDeleting b with
    | false => rfl
    | true => exact absurd ⟨hdialog, r, hr⟩ hcond

/-- Two ranks stop, get a stop-all breakpoint with number 2 each, and run on. -/
def runningActs (q r : Fin n) : List (Act n) :=
  [.connect q true true, .connect r true true,
    .response [{ tclass := .stopped }] q, .response [{ tclass := .stopped }] r,
    .click false (ascii "/a.c") 4, .accept (fun _ => true) true,
    .response [insertedRecord 2] q, .response [insertedRecord 2] r,
    .response [{ type := .resultRecord, tclass := .running }] q,
    .response [{ type := .resultRecord, tclass := .running }] r]

theorem stop_record_interrupts_running :
    ∃ s : Session 2, Reachable (system 2) s ∧
      (s.window.parseTargetState [hitRecord 2] 0).due 0 1 = true ∧
      ∃ u, (s.window.parseTargetState [hitRecord 2] 0).parseStopRecord [hitRecord 2] 0 = .ok u ∧
        (s.window.parseTargetState [hitRecord 2] 0).InterruptsDue 0 u := by
  obtain ⟨s, hs, hp⟩ := (Reachable.start (M := system 2) rfl).replay_any (runningActs 0 1)
    (fun s => decide (s.window.bkptno2Bkpt 0 2 = some 0) &&
      (s.window.objects 0).any (fun bp => bp.stopAll) && !s.isDeleting 0 &&
      (s.window.parseTargetState [hitRecord 2] 0).due 0 1) (by decide)
  simp only [Bool.and_eq_true, decide_eq_true_eq, Bool.not_eq_true'] at hp
  obtain ⟨⟨⟨hreg, hlive⟩, hclosed⟩, hdue⟩ := hp
  obtain ⟨bp, hobj, hflag⟩ := (Option.any_eq_true _ _).mp hlive
  refine ⟨s, hs, hdue, ?_⟩
  apply (stop_record_interrupts_iff hs miResStop_hitRecord rfl (by decide) hreg hobj hflag).mpr
  rw [hclosed]
  exact fun h => absurd h.1 (by decide)

/-- Both ranks run when the mark is clicked, so the error dialog opens; then one
of them hits the breakpoint, and the other is not interrupted. -/
theorem stop_record_in_dialog_misses :
    ∃ s : Session 2, Reachable (system 2) s ∧ ∃ bp, s.window.objects 0 = some bp ∧
      bp.stopAll = true ∧ s.window.bkptno2Bkpt 0 2 = some 0 ∧
      ¬ ∃ u, (s.window.parseTargetState [hitRecord 2] 0).parseStopRecord [hitRecord 2] 0 = .ok u ∧
        (s.window.parseTargetState [hitRecord 2] 0).InterruptsDue 0 u := by
  obtain ⟨s, hs, hp⟩ := (Reachable.start (M := system 2) rfl).replay_any
    (runningActs 0 1 ++ [.click false (ascii "/a.c") 4])
    (fun s => decide (s.window.bkptno2Bkpt 0 2 = some 0) &&
      (s.window.objects 0).any (fun bp => bp.stopAll) &&
      (s.window.parseTargetState [hitRecord 2] 0).due 0 1 &&
      ((s.window.parseTargetState [hitRecord 2] 0).parseStopRecord [hitRecord 2] 0).toOption.any
        fun u => u.sentTrgt 1 = (s.window.parseTargetState [hitRecord 2] 0).sentTrgt 1)
    (by decide)
  simp only [Bool.and_eq_true, decide_eq_true_eq] at hp
  obtain ⟨⟨⟨hreg, hlive⟩, hdue⟩, hsame⟩ := hp
  obtain ⟨bp, hobj, hflag⟩ := (Option.any_eq_true _ _).mp hlive
  refine ⟨s, hs, bp, hobj, hflag, hreg, ?_⟩
  rintro ⟨u, hu, hinterrupts⟩
  have hone := hinterrupts 1
  rw [hu] at hsame
  simp only [Except.toOption, Option.any_some, decide_eq_true_eq] at hsame
  rw [hsame, hdue] at hone
  simp at hone

end Session

end ParallelGdb
