import ParallelGdb.Window.Parse

/-!
# What a response can change

Of the Breakpoint objects, the slots and the registry a response changes only
what `parse_breakpoint` changes, and the only bytes it makes the window send are
those of `stop_all`.
-/

namespace ParallelGdb

open Library.CString Library.RankLoop Mi

namespace Tracker

variable {n : Nat}

/-- `u` has the objects, references, connections and unfinished responses of `t`. -/
structure SameLinks (t u : Tracker n) : Prop where
  objects : u.objects = t.objects
  breakpoints : u.breakpoints = t.breakpoints
  bkptno2Bkpt : u.bkptno2Bkpt = t.bkptno2Bkpt
  sentGdb : u.sentGdb = t.sentGdb
  connsGdb : u.connsGdb = t.connsGdb
  connsTrgt : u.connsTrgt = t.connsTrgt
  gdbHandle : u.gdbHandle = t.gdbHandle

namespace SameLinks

theorem refl (t : Tracker n) : SameLinks t t := by
  constructor <;> rfl

theorem trans {t u v : Tracker n} (h : SameLinks t u) (h' : SameLinks u v) : SameLinks t v where
  objects := h'.objects.trans h.objects
  breakpoints := h'.breakpoints.trans h.breakpoints
  bkptno2Bkpt := h'.bkptno2Bkpt.trans h.bkptno2Bkpt
  sentGdb := h'.sentGdb.trans h.sentGdb
  connsGdb := h'.connsGdb.trans h.connsGdb
  connsTrgt := h'.connsTrgt.trans h.connsTrgt
  gdbHandle := h'.gdbHandle.trans h.gdbHandle

end SameLinks

theorem sameLinks_applyClass (t : Tracker n) (r : Fin n) (tclass : MiClass) :
    SameLinks t (t.applyClass r tclass) := by
  cases tclass <;> constructor <;> rfl

theorem sameLinks_applyStream (t : Tracker n) (r : Fin n) (o : MiOutput) :
    SameLinks t (t.applyStream r o) := by
  unfold applyStream
  split
  · split
    · constructor <;> rfl
    · exact .refl t
  · exact .refl t

theorem sameLinks_parseTargetState (first : List MiOutput) (r : Fin n) (t : Tracker n) :
    SameLinks t (t.parseTargetState first r) := by
  unfold parseTargetState
  induction first generalizing t with
  | nil => exact .refl t
  | cons o rest ih =>
      have hstep : SameLinks t (parseTargetStateStep r t o) :=
        (sameLinks_applyClass t r o.tclass).trans (sameLinks_applyStream _ r o)
      exact hstep.trans (ih _)

/-- `stop_all` interrupts this rank. -/
def stops (bp : Breakpoint n) (t : Tracker n) (r : Fin n) : Bool :=
  t.targetState r = .running && !t.sentStop r && bp.isCreated r && t.connsTrgt r

theorem stopAllStep_eq (bp : Breakpoint n) (t : Tracker n) (r : Fin n) :
    stopAllStep bp t r =
      { t with
        sentTrgt := Function.update t.sentTrgt r
          (t.sentTrgt r ++ if t.stops bp r then [[3]] else [])
        sentStop := Function.update t.sentStop r (t.sentStop r || t.stops bp r) } := by
  by_cases hrun : t.targetState r = .running <;> cases hsent : t.sentStop r <;>
    cases hbp : bp.isCreated r <;> cases hconn : t.connsTrgt r
  all_goals
    simp [stopAllStep, stops, sendTrgt, hrun, hsent, hbp, hconn, Function.update_eq_self]
  all_goals
    rw [← hsent, Function.update_eq_self]

/-- `stop_all` treats each rank by itself. -/
theorem stopAll_eq (bp : Breakpoint n) (t : Tracker n) :
    t.stopAll bp =
      { t with
        sentTrgt := fun r => t.sentTrgt r ++ if t.stops bp r then [[3]] else []
        sentStop := fun r => t.sentStop r || t.stops bp r } := by
  let build : (Fin n → List Bytes × Bool) → Tracker n := fun column =>
    { t with sentTrgt := fun r => (column r).1, sentStop := fun r => (column r).2 }
  let g : Fin n → List Bytes × Bool → List Bytes × Bool := fun r c =>
    let stop := t.targetState r = .running && !c.2 && bp.isCreated r && t.connsTrgt r
    (c.1 ++ if stop then [[3]] else [], c.2 || stop)
  have hbody : ∀ column r,
      stopAllStep bp (build column) r = build (Function.update column r (g r (column r))) := by
    intro column r
    rw [stopAllStep_eq]
    simp only [build, Tracker.mk.injEq, true_and]
    constructor <;>
    · funext q
      by_cases hq : q = r
      · subst hq
        simp [g, stops]
      · simp [Function.update_of_ne hq]
  exact forEach_finRange hbody fun r => (t.sentTrgt r, t.sentStop r)

theorem sameLinks_stopAll (bp : Breakpoint n) (t : Tracker n) : SameLinks t (t.stopAll bp) := by
  rw [stopAll_eq]
  constructor <;> rfl

theorem sameLinks_recordExit (stop : MiStop) (r : Fin n) (t : Tracker n) :
    SameLinks t (t.recordExit stop r) := by
  unfold recordExit
  split
  · constructor <;> rfl
  · exact .refl t

theorem sameLinks_recordPosition (stop : MiStop) (r : Fin n) (t : Tracker n) :
    SameLinks t (t.recordPosition stop r) := by
  unfold recordPosition
  split
  · constructor <;> rfl
  · exact .refl t

/-- The first part of `parse_stop_record` is a `stop_all`, where the stop names
a breakpoint, or nothing. -/
theorem hitBreakpoint_cases {stop : MiStop} {r : Fin n} {t v : Tracker n}
    (h : t.hitBreakpoint stop r = .ok v) :
    v = t ∨ stop.haveBkptno = true ∧ ∃ bp, v = t.stopAll bp := by
  unfold hitBreakpoint at h
  cases hb : stopBreakpoint stop r t with
  | none =>
      rw [hb] at h
      exact Or.inl (Except.ok.inj h).symm
  | some b =>
      have hno : stop.haveBkptno = true := by
        by_contra hno
        simp [stopBreakpoint, hno] at hb
      cases hobj : t.objects b with
      | none => simp [hb, hobj] at h
      | some bp =>
          simp only [hb, hobj] at h
          obtain rfl := Except.ok.inj h
          split
          · exact Or.inr ⟨hno, bp, rfl⟩
          · exact Or.inl rfl

/-- `parse_stop_record` either runs `stop_all` or leaves the connections alone,
and then records what the stop reports. -/
theorem applyStop_cases {stop : MiStop} {r : Fin n} {t u : Tracker n}
    (h : t.applyStop stop r = .ok u) :
    ∃ v, (v = t ∨ ∃ bp, v = t.stopAll bp) ∧ u = (v.recordExit stop r).recordPosition stop r := by
  unfold applyStop at h
  cases hhit : t.hitBreakpoint stop r with
  | error e => simp [hhit, bind, Except.bind] at h
  | ok v =>
      simp only [hhit, bind, Except.bind, pure, Except.pure, Except.ok.injEq] at h
      exact ⟨v, (hitBreakpoint_cases hhit).imp_right And.right, h.symm⟩

theorem sameLinks_applyStop {stop : MiStop} {r : Fin n} {t u : Tracker n}
    (h : t.applyStop stop r = .ok u) : SameLinks t u := by
  obtain ⟨v, hv, rfl⟩ := applyStop_cases h
  have hlinks : SameLinks t v := by
    rcases hv with rfl | ⟨bp, rfl⟩
    · exact .refl v
    · exact sameLinks_stopAll bp t
  exact hlinks.trans ((sameLinks_recordExit stop r v).trans (sameLinks_recordPosition stop r _))

/-- What `parse_stop_record` found: no stop record, or the first one. -/
theorem parseStopRecord_cases {first : List MiOutput} {r : Fin n} {t u : Tracker n}
    (h : t.parseStopRecord first r = .ok u) :
    (miGetStopRecord first = none ∧ u = t) ∨
      ∃ o stop, miGetStopRecord first = some o ∧ miGetStopped o.c = .ok stop ∧
        t.applyStop stop r = .ok u := by
  unfold parseStopRecord miResStop at h
  cases hsr : miGetStopRecord first with
  | none =>
      simp only [hsr, bind, Except.bind, pure, Except.pure, Except.ok.injEq] at h
      exact Or.inl ⟨rfl, h.symm⟩
  | some o =>
      cases hstop : miGetStopped o.c with
      | error e => simp [hsr, hstop, bind, Except.bind] at h
      | ok stop =>
          simp only [hsr, hstop, bind, Except.bind, pure, Except.pure] at h
          exact Or.inr ⟨o, stop, rfl, hstop, h⟩

theorem sameLinks_parseStopRecord {first : List MiOutput} {r : Fin n} {t u : Tracker n}
    (h : t.parseStopRecord first r = .ok u) : SameLinks t u := by
  obtain ⟨-, rfl⟩ | ⟨o, stop, -, -, hu⟩ := parseStopRecord_cases h
  · exact .refl u
  · exact sameLinks_applyStop hu

/-- A response goes through its three passes. -/
theorem handleResponse_passes {first : List MiOutput} {r : Fin n} {t w : Tracker n}
    (h : t.handleResponse first r = .ok w) :
    ∃ u, (t.parseTargetState first r).parseStopRecord first r = .ok u ∧
      u.parseBreakpoint first r = .ok w := by
  unfold handleResponse at h
  cases hstop : (t.parseTargetState first r).parseStopRecord first r with
  | error e => simp [hstop, bind, Except.bind] at h
  | ok u =>
      simp only [hstop, bind, Except.bind] at h
      exact ⟨u, rfl, h⟩

/-- All a response can change of objects and references: one number is
registered for the Breakpoint in the slot. -/
theorem handleResponse_cases {first : List MiOutput} {r : Fin n} {t w : Tracker n}
    (h : t.handleResponse first r = .ok w) :
    ∃ u, SameLinks t u ∧ (w = u ∨ ∃ b bp number, t.breakpoints r = some b ∧
      t.objects b = some bp ∧ w = u.registerBreakpoint r b bp number) := by
  obtain ⟨u, hstop, hw⟩ := handleResponse_passes h
  have hu : SameLinks t u :=
    (sameLinks_parseTargetState first r t).trans (sameLinks_parseStopRecord hstop)
  refine ⟨u, hu, ?_⟩
  obtain rfl | ⟨b, bp, number, hslot, hobj, hw⟩ := parseBreakpoint_cases hw
  · exact Or.inl rfl
  · rw [hu.breakpoints] at hslot
    rw [hu.objects] at hobj
    exact Or.inr ⟨b, bp, number, hslot, hobj, hw⟩

end Tracker

end ParallelGdb
