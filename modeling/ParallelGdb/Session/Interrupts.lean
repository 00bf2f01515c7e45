import ParallelGdb.Session.StopAll
import ParallelGdb.Window.Status

/-!
# Interrupts and their flags

`stop_all` sets the flag of a rank it interrupts, and the class `stopped` of a record
clears the flag before the stop is looked at, whatever kind of record has it. So the
flag stands from one `^C` until the rank has reported such a record, and only while
the rank runs: what ends a running state clears the flag in the same response.
-/

namespace ParallelGdb

open Library.CString Library.Transition Mi Breakpoint

/-- A record of class `stopped` is among these, be it a `*stopped` or another one. -/
def hasStopped (first : List MiOutput) : Bool := first.any fun o => o.tclass = .stopped

/-- No stop with an exit reason carries a breakpoint number. -/
def ExitsUnnumbered (first : List MiOutput) : Prop :=
  ∀ o ∈ first, ∀ stop, stopOf o = some stop → stop.reason.isExit = true → stop.haveBkptno = false

instance (first : List MiOutput) : Decidable (ExitsUnnumbered first) :=
  decidable_of_iff (∀ o ∈ first, ((stopOf o).all fun stop =>
    !(stop.reason.isExit && stop.haveBkptno)) = true) (by
      refine forall₂_congr fun o _ => ?_
      cases stopOf o with
      | none => simp
      | some stop =>
          simp only [Option.all_some, Option.some_inj, forall_eq']
          cases stop.reason.isExit <;> simp)

namespace Tracker

variable {n : Nat}

/-- A flag is set only while its rank runs. -/
def FlagsRunning (t : Tracker n) : Prop :=
  ∀ r, t.sentStop r = true → t.targetState r = .running

section Passes

variable {t u : Tracker n} {r : Fin n} {first : List MiOutput}

theorem parseTargetState_cons (o : MiOutput) (rest : List MiOutput) (r : Fin n) (t : Tracker n) :
    t.parseTargetState (o :: rest) r = (parseTargetStateStep r t o).parseTargetState rest r := rfl

/-- Text that goes to a view changes no flag. -/
theorem flags_applyStream (t : Tracker n) (r : Fin n) (o : MiOutput) :
    (t.applyStream r o).sentStop = t.sentStop ∧ (t.applyStream r o).sentTrgt = t.sentTrgt ∧
      (t.applyStream r o).targetState = t.targetState := by
  unfold applyStream
  split
  · split <;> exact ⟨rfl, rfl, rfl⟩
  · exact ⟨rfl, rfl, rfl⟩

/-- The first pass clears the flag of a rank that reports a stop. -/
theorem flags_parseTargetState (first : List MiOutput) (r : Fin n) (t : Tracker n) :
    (t.parseTargetState first r).sentStop =
        Function.update t.sentStop r (t.sentStop r && !hasStopped first) ∧
      (t.parseTargetState first r).sentTrgt = t.sentTrgt := by
  induction first generalizing t with
  | nil => exact ⟨by simp [parseTargetState, hasStopped], rfl⟩
  | cons o rest ih =>
      have hstep : (parseTargetStateStep r t o).sentStop =
          Function.update t.sentStop r (t.sentStop r && !decide (o.tclass = .stopped)) ∧
            (parseTargetStateStep r t o).sentTrgt = t.sentTrgt := by
        obtain ⟨hstop, hsent, -⟩ := flags_applyStream (t.applyClass r o.tclass) r o
        rw [parseTargetStateStep, hstop, hsent]
        cases hclass : o.tclass <;> simp [applyClass]
      obtain ⟨hrest, hsent⟩ := ih (parseTargetStateStep r t o)
      refine ⟨?_, hsent.trans hstep.2⟩
      rw [parseTargetState_cons, hrest, hstep.1, Function.update_idem, Function.update_self]
      congr 1
      simp [hasStopped, Bool.and_assoc]

/-- A record that ends a running state clears the flag. -/
theorem FlagsRunning.parseTargetState (h : t.FlagsRunning) (first : List MiOutput) (r : Fin n) :
    (t.parseTargetState first r).FlagsRunning := by
  induction first generalizing t with
  | nil => exact h
  | cons o rest ih =>
      apply ih
      intro q hq
      obtain ⟨hstop, -, hstate⟩ := flags_applyStream (t.applyClass r o.tclass) r o
      rw [parseTargetStateStep] at hq ⊢
      rw [hstop] at hq
      rw [hstate]
      have hold := h q
      cases hclass : o.tclass <;> by_cases hqr : q = r <;> simp_all [applyClass]

/-- `stop_all` sets flags of running ranks. -/
theorem FlagsRunning.stopAll (h : t.FlagsRunning) (bp : Breakpoint n) :
    (t.stopAll bp).FlagsRunning := by
  intro q hq
  rw [stopAll_eq] at hq ⊢
  simp only [Bool.or_eq_true] at hq
  rcases hq with hq | hq
  · exact h q hq
  · simp only [stops, Bool.and_eq_true, decide_eq_true_eq] at hq
    exact hq.1.1.1

theorem flags_registerBreakpoint (t : Tracker n) (r : Fin n) (b : BkptId) (bp : Breakpoint n)
    (number : Int) : (t.registerBreakpoint r b bp number).sentStop = t.sentStop ∧
      (t.registerBreakpoint r b bp number).sentTrgt = t.sentTrgt ∧
      (t.registerBreakpoint r b bp number).targetState = t.targetState := ⟨rfl, rfl, rfl⟩

theorem flags_recordPosition (stop : MiStop) (r : Fin n) (t : Tracker n) :
    (t.recordPosition stop r).sentStop = t.sentStop ∧
      (t.recordPosition stop r).sentTrgt = t.sentTrgt ∧
      (t.recordPosition stop r).targetState = t.targetState := by
  unfold recordPosition
  split <;> exact ⟨rfl, rfl, rfl⟩

/-- What a response does to the flags: the first pass, a `stop_all` where a stop
names a breakpoint, and the end of a target whose flag is clear. -/
theorem handleResponse_flags (h : t.handleResponse first r = .ok u) :
    ∃ v, (v = t.parseTargetState first r ∨
        ∃ bp, v = (t.parseTargetState first r).stopAll bp) ∧
      u.sentStop = v.sentStop ∧ u.sentTrgt = v.sentTrgt ∧
      (u.targetState = v.targetState ∨ ∃ o ∈ first, ∃ stop, stopOf o = some stop ∧
        stop.reason.isExit = true ∧ u.targetState = Function.update v.targetState r .exited ∧
          (stop.haveBkptno = false → v = t.parseTargetState first r)) := by
  obtain ⟨w, hw, hu⟩ := handleResponse_passes h
  have hlast : u.sentStop = w.sentStop ∧ u.sentTrgt = w.sentTrgt ∧
      u.targetState = w.targetState := by
    obtain rfl | ⟨b, bp, number, -, -, rfl⟩ := parseBreakpoint_cases hu
    · exact ⟨rfl, rfl, rfl⟩
    · exact flags_registerBreakpoint w r b bp number
  rw [hlast.1, hlast.2.1, hlast.2.2]
  obtain ⟨-, rfl⟩ | ⟨o, stop, hfirst, hstop, hw⟩ := parseStopRecord_cases hw
  · exact ⟨_, Or.inl rfl, rfl, rfl, Or.inl rfl⟩
  · unfold applyStop at hw
    cases hhit : (t.parseTargetState first r).hitBreakpoint stop r with
    | error e => simp [hhit, bind, Except.bind] at hw
    | ok v =>
        simp only [hhit, bind, Except.bind, pure, Except.pure, Except.ok.injEq] at hw
        subst hw
        have hcases := hitBreakpoint_cases hhit
        obtain ⟨hflag, hsent, hstate⟩ := flags_recordPosition stop r (v.recordExit stop r)
        rw [hflag, hsent, hstate]
        have ho : o.isStop = true := List.find?_some hfirst
        refine ⟨v, hcases.imp_right And.right, ?_⟩
        unfold recordExit
        split
        · rename_i hexit
          refine ⟨rfl, rfl, Or.inr ⟨o, List.mem_of_find?_eq_some hfirst, stop, ?_, hexit, rfl, ?_⟩⟩
          · simp [stopOf, ho, hstop, Except.toOption]
          · intro hno
            exact hcases.resolve_right fun hboth => by simp [hno] at hboth
        · exact ⟨rfl, rfl, Or.inl rfl⟩

theorem FlagsRunning.handleResponse (h : t.FlagsRunning) (hexits : ExitsUnnumbered first)
    (hu : t.handleResponse first r = .ok u) : u.FlagsRunning := by
  obtain ⟨v, hv, hflag, -, hstate⟩ := handleResponse_flags hu
  have hvflags : v.FlagsRunning := by
    rcases hv with rfl | ⟨bp, rfl⟩
    · exact h.parseTargetState first r
    · exact (h.parseTargetState first r).stopAll bp
  intro q hq
  rw [hflag] at hq
  rcases hstate with hstate | ⟨o, ho, stop, hstop, hexit, hstate, hsame⟩
  · rw [hstate]
    exact hvflags q hq
  · have hv := hsame (hexits o ho stop hstop hexit)
    by_cases hqr : q = r
    · -- The stop has cleared the flag, and without a number nothing sets it again.
      subst hqr
      have hisStop : o.isStop = true := by
        by_contra hnot
        simp [stopOf, hnot] at hstop
      have hhas : hasStopped first = true := by
        simp only [MiOutput.isStop, Bool.and_eq_true] at hisStop
        exact List.any_eq_true.mpr ⟨o, ho, hisStop.2⟩
      rw [hv, (flags_parseTargetState first q t).1, Function.update_self, hhas] at hq
      simp at hq
    · rw [hstate, Function.update_of_ne hqr]
      exact hvflags q hq

/-- A rank is interrupted at most once by a response, and only while its flag is
clear; the flag is set then, and only a stop of the rank clears it. -/
theorem handleResponse_interrupts (hu : t.handleResponse first r = .ok u) (q : Fin n) :
    (u.sentTrgt q = t.sentTrgt q ∧
        (t.sentStop q = true → ¬ (q = r ∧ hasStopped first = true) → u.sentStop q = true)) ∨
      (u.sentTrgt q = t.sentTrgt q ++ [[3]] ∧ u.sentStop q = true ∧
        (t.sentStop q = false ∨ q = r ∧ hasStopped first = true)) := by
  obtain ⟨v, hv, hflag, hsent, -⟩ := handleResponse_flags hu
  obtain ⟨hclear, hkept⟩ := flags_parseTargetState first r t
  have hpass : (t.parseTargetState first r).sentStop q =
      (t.sentStop q && !decide (q = r ∧ hasStopped first = true)) := by
    rw [hclear]
    by_cases hqr : q = r
    · subst hqr
      cases hhas : hasStopped first <;> simp
    · simp [hqr]
  rw [hflag, hsent]
  rcases hv with rfl | ⟨bp, rfl⟩
  · left
    rw [hkept, hpass]
    exact ⟨rfl, fun hset hno => by simp [hset, hno]⟩
  · rw [stopAll_eq]
    simp only [hkept, hpass]
    cases hstops : (t.parseTargetState first r).stops bp q with
    | false =>
        left
        exact ⟨by simp, fun hset hno => by simp [hset, hno]⟩
    | true =>
        right
        have hclearflag : (t.parseTargetState first r).sentStop q = false := by
          simp only [stops, Bool.and_eq_true, Bool.not_eq_true'] at hstops
          exact hstops.1.1.2
        rw [hpass] at hclearflag
        refine ⟨by simp, by simp, ?_⟩
        cases hset : t.sentStop q with
        | false => exact Or.inl rfl
        | true => exact Or.inr (by simpa [hset] using hclearflag)

end Passes

end Tracker

namespace Session

variable {n : Nat}

/-- A step sends `^C` to this rank. -/
def Interrupts (r : Fin n) (p : Session n × Act n) : Prop :=
  ∃ t, p.1.next p.2 = some t ∧ t.window.sentTrgt r = p.1.window.sentTrgt r ++ [[3]]

/-- A step handles a record of class `stopped` of this rank. -/
def HandlesStopped (r : Fin n) : Act n → Prop
  | .response first q => q = r ∧ hasStopped first = true
  | _ => False

/-- A step handles a `*stopped` record of this rank. -/
def HandlesStop (r : Fin n) : Act n → Prop
  | .response first q => q = r ∧ (first.any fun o => o.isStop) = true
  | _ => False

instance (r : Fin n) (a : Act n) : Decidable (HandlesStop r a) := by
  cases a <;> unfold HandlesStop <;> infer_instance

/-- The assumption about the responses of a run. -/
def Act.ExitsUnnumbered : Act n → Prop
  | .response first _ => ParallelGdb.ExitsUnnumbered first
  | _ => True

instance (a : Act n) : Decidable a.ExitsUnnumbered := by
  cases a <;> unfold Act.ExitsUnnumbered <;> infer_instance

section Steps

variable {s t : Session n} {a : Act n}

theorem window_finish (s : Session n) (b : BkptId) (isNew : Bool) (bp : Breakpoint n) :
    (s.finish b isNew bp).window = s.window ∨ (s.finish b isNew bp).window = s.window.free b := by
  unfold finish endCreate endEdit clearMark
  cases isNew <;> cases bp.oneCreated <;> simp

/-- Clicks and dialogs send nothing to a target. -/
theorem next_flags (h : s.next a = some t) (ha : ∀ first r, a ≠ .response first r) :
    t.window.sentStop = s.window.sentStop ∧ t.window.sentTrgt = s.window.sentTrgt ∧
      t.window.targetState = s.window.targetState := by
  cases next_step h with
  | nothing hd hm => exact ⟨rfl, rfl, rfl⟩
  | create hd hm => exact ⟨rfl, rfl, rfl⟩
  | edit hd hm => exact ⟨rfl, rfl, rfl⟩
  | @delete fullpath line b bp hd hm hobj =>
      have hloop : (deleteLoop b (bp, s.window)).2.2 = s.window.afterOps b bp (s.deleteOp bp) := by
        rw [deleteLoop_snd, updateLoop_eq]
      simp only [deleteMark, hloop]
      split <;> exact ⟨rfl, rfl, rfl⟩
  | cancel hd => exact ⟨rfl, rfl, rfl⟩
  | @accept b isNew bp buttonStates stopAll hd hobj =>
      simp only [applyDialog, updateBreakpoints, updateLoop_eq]
      split
      · exact ⟨rfl, rfl, rfl⟩
      · rename_i hmessage
        obtain hwindow | hwindow := window_finish _ b isNew _ <;> rw [hwindow] <;>
          exact ⟨rfl, rfl, rfl⟩
  | @updated b isNew message bp hd hobj =>
      obtain hwindow | hwindow := window_finish { s with dialog := none } b isNew bp <;>
        rw [hwindow] <;> exact ⟨rfl, rfl, rfl⟩
  | deleting hd hobj => exact ⟨rfl, rfl, rfl⟩
  | @response first r t ht => exact absurd rfl (ha first r)
  | connect => exact ⟨rfl, rfl, rfl⟩

/-- A step interrupts a rank at most once, and only while its flag is clear. -/
theorem next_interrupts (h : s.next a = some t) (r : Fin n) :
    (t.window.sentTrgt r = s.window.sentTrgt r ∧
        (s.window.sentStop r = true → ¬ HandlesStopped r a → t.window.sentStop r = true)) ∨
      (t.window.sentTrgt r = s.window.sentTrgt r ++ [[3]] ∧ t.window.sentStop r = true ∧
        (s.window.sentStop r = false ∨ HandlesStopped r a)) := by
  by_cases ha : ∀ first q, a ≠ .response first q
  · obtain ⟨hflag, hsent, -⟩ := next_flags h ha
    rw [hflag, hsent]
    exact Or.inl ⟨rfl, fun hset _ => hset⟩
  · simp only [not_forall, not_not] at ha
    obtain ⟨first, q, rfl⟩ := ha
    cases next_step h with
    | response ht =>
        have hcases := Tracker.handleResponse_interrupts ht r
        simpa only [HandlesStopped, eq_comm (a := r)] using hcases

theorem next_flagsRunning (h : s.next a = some t) (hexits : a.ExitsUnnumbered)
    (hs : s.window.FlagsRunning) : t.window.FlagsRunning := by
  by_cases ha : ∀ first q, a ≠ .response first q
  · obtain ⟨hflag, -, hstate⟩ := next_flags h ha
    intro r hr
    rw [hflag] at hr
    rw [hstate]
    exact hs r hr
  · simp only [not_forall, not_not] at ha
    obtain ⟨first, q, rfl⟩ := ha
    cases next_step h with
    | response ht => exact hs.handleResponse hexits ht

end Steps

section Run

variable {s : Session n} {tr : List (Session n × Act n)}

/-- A rank has been interrupted, and has reported no record of class `stopped` since. -/
def Pending (r : Fin n) (tr : List (Session n × Act n)) : Prop :=
  ∃ pre p mid, tr = pre ++ p :: mid ∧ Interrupts r p ∧ ∀ q ∈ mid, ¬ HandlesStopped r q.2

/-- The flag of such a rank is set. -/
theorem sentStop_of_pending (run : Run (system n) tr s) {r : Fin n} (h : Pending r tr) :
    s.window.sentStop r = true := by
  induction run with
  | start hinit =>
      obtain ⟨pre, p, mid, htr, -⟩ := h
      simp at htr
  | @next tr s a t run hstep ih =>
      obtain ⟨pre, p, mid, htr, hp, hmid⟩ := h
      have hcases := next_interrupts hstep r
      obtain rfl | ⟨mid, q, rfl⟩ := mid.eq_nil_or_concat
      · obtain ⟨-, hlast⟩ := List.append_inj' htr rfl
        obtain rfl := List.singleton_inj.mp hlast
        obtain ⟨t', ht', hsent⟩ := hp
        obtain rfl := Option.some.inj (ht'.symm.trans hstep)
        rcases hcases with ⟨hsame, -⟩ | ⟨-, hset, -⟩
        · simp [hsent] at hsame
        · exact hset
      · rw [List.concat_eq_append] at htr hmid
        rw [← List.cons_append, ← List.append_assoc] at htr
        obtain ⟨rfl, hlast⟩ := List.append_inj' htr rfl
        obtain rfl := List.singleton_inj.mp hlast
        have hset := ih ⟨pre, p, mid, rfl, hp, fun q hq => hmid q (by simp [hq])⟩
        rcases hcases with ⟨-, hkept⟩ | ⟨-, hset', -⟩
        · exact hkept hset (hmid (s, a) (by simp))
        · exact hset'

theorem flagsRunning_of_run (run : Run (system n) tr s)
    (hexits : Meets (fun _ a => a.ExitsUnnumbered) tr) : s.window.FlagsRunning := by
  refine run.guarded (I := fun s => s.window.FlagsRunning)
    ?_ (fun s a t hs ha hstep => next_flagsRunning hstep ha hs) hexits
  rintro s rfl r hr
  cases hr

/-- In every run each step interrupts a rank at most once, between two interrupts of a
rank the rank has reported a record of class `stopped`, and flags are set only while
their ranks run. -/
theorem stopAll_interrupts (run : Run (system n) tr s)
    (hexits : Meets (fun _ a => a.ExitsUnnumbered) tr) :
    (∀ p ∈ tr, ∀ t, p.1.next p.2 = some t → ∀ r,
        t.window.sentTrgt r = p.1.window.sentTrgt r ∨ Interrupts r p) ∧
      (∀ r pre p mid q post, tr = pre ++ p :: mid ++ q :: post → Interrupts r p →
        Interrupts r q → ∃ x ∈ mid ++ [q], HandlesStopped r x.2) ∧
      (∀ p ∈ tr, p.1.window.FlagsRunning) ∧ s.window.FlagsRunning := by
  refine ⟨fun p _ t ht r => ?_, fun r pre p mid q post htr hp hq => ?_, fun p hp => ?_,
    flagsRunning_of_run run hexits⟩
  · rcases next_interrupts ht r with ⟨hsame, -⟩ | ⟨hsent, -⟩
    · exact Or.inl hsame
    · exact Or.inr ⟨t, ht, hsent⟩
  · rw [htr] at run
    obtain ⟨hrun, -⟩ := run.split
    by_contra hnone
    have hset := sentStop_of_pending hrun
      ⟨pre, p, mid, rfl, hp, fun x hx hstop => hnone ⟨x, by simp [hx], hstop⟩⟩
    obtain ⟨t, ht, hsent⟩ := hq
    rcases next_interrupts ht r with ⟨hsame, -⟩ | ⟨-, -, hclear | hstop⟩
    · simp [hsent] at hsame
    · rw [hset] at hclear
      cases hclear
    · exact hnone ⟨q, by simp, hstop⟩
  · obtain ⟨pre, hpre, hmeets⟩ := run.of_mem hexits hp
    exact flagsRunning_of_run hpre hmeets

/-- A stop-all breakpoint is hit, the interrupted rank stops, both run on, and
it is hit again. -/
def hitTwiceActs (q r : Fin n) : List (Act n) :=
  runningActs q r ++ [.response [hitRecord 2] q, .response [{ tclass := .stopped }] r,
    .response [{ type := .resultRecord, tclass := .running }] q,
    .response [{ type := .resultRecord, tclass := .running }] r, .response [hitRecord 2] q]

theorem hitTwice_interrupts :
    ∃ (tr : List (Session 2 × Act 2)) (s : Session 2), Run (system 2) tr s ∧
      s.window.sentTrgt 1 = [[3], [3]] ∧ s.window.sentStop 1 = true ∧
      s.window.FlagsRunning := by
  obtain ⟨s, hs⟩ : ∃ s, (hitTwiceActs 0 1).foldlM next (Session.init 2) = some s :=
    Option.isSome_iff_exists.mp (by decide)
  have hsent : ((hitTwiceActs 0 1).foldlM next (Session.init 2)).any
      (fun s => decide (s.window.sentTrgt 1 = [[3], [3]]) && s.window.sentStop 1) = true := by
    decide
  rw [hs, Option.any_some, Bool.and_eq_true, decide_eq_true_eq] at hsent
  have hstart : Run (system 2) [] (Session.init 2) := Run.start rfl
  have hall : (trace next (Session.init 2) (hitTwiceActs 0 1)).all
      (fun p => decide p.2.ExitsUnnumbered) = true := by decide
  have hmeets : Meets (fun _ a => a.ExitsUnnumbered)
      (trace next (Session.init 2) (hitTwiceActs 0 1)) :=
    fun p hp => of_decide_eq_true (List.all_eq_true.mp hall p hp)
  exact ⟨_, s, hstart.trace _ hs, hsent.1, hsent.2,
    (stopAll_interrupts (hstart.trace _ hs) hmeets).2.2.2⟩

/-- The interrupted rank does not stop: it writes a `=stopped`, and the ranks run on. -/
def notifiedActs (q r : Fin n) : List (Act n) :=
  [.response [{ sstype := .notify, tclass := .stopped }] r,
    .response [{ type := .resultRecord, tclass := .running }] q,
    .response [{ type := .resultRecord, tclass := .running }] r]

/-- A rank can be interrupted twice with no `*stopped` of it in between. -/
theorem notified_interrupts :
    ∃ (pre mid : List (Session 2 × Act 2)) (p q : Session 2 × Act 2) (s : Session 2),
      Run (system 2) (pre ++ p :: mid ++ [q]) s ∧
      Meets (fun _ a => a.ExitsUnnumbered) (pre ++ p :: mid ++ [q]) ∧
      Interrupts 1 p ∧ Interrupts 1 q ∧ ∀ x ∈ mid ++ [q], ¬ HandlesStop 1 x.2 := by
  have hrun : ((runningActs 0 1).foldlM next (Session.init 2)).any (fun s =>
      (s.next (.response [hitRecord 2] 0)).any fun t =>
        decide (t.window.sentTrgt 1 = s.window.sentTrgt 1 ++ [[3]]) &&
        ((notifiedActs 0 1).foldlM next t).any fun u =>
          (u.next (.response [hitRecord 2] 0)).any fun v =>
            decide (v.window.sentTrgt 1 = u.window.sentTrgt 1 ++ [[3]])) = true := by decide
  simp only [Option.any_eq_true, Bool.and_eq_true, decide_eq_true_eq] at hrun
  obtain ⟨s, hs, t, ht, hsent, u, hu, v, hv, hsent'⟩ := hrun
  have hstart : Run (system 2) [] (Session.init 2) := Run.start rfl
  have hhit : Run (system 2) (trace next (Session.init 2) (runningActs 0 1) ++
      [(s, .response [hitRecord 2] 0)]) t := (hstart.trace _ hs).next ht
  have hlast := (hhit.trace _ hu).next hv
  rw [List.append_assoc (trace next (Session.init 2) (runningActs 0 1)),
    List.singleton_append] at hlast
  have hunnumbered : (∀ a ∈ (runningActs 0 1 : List (Act 2)), a.ExitsUnnumbered) ∧
      (∀ a ∈ (notifiedActs 0 1 : List (Act 2)), a.ExitsUnnumbered) ∧
      Act.ExitsUnnumbered (.response [hitRecord 2] (0 : Fin 2)) := by decide
  have hnostop : (∀ a ∈ (notifiedActs 0 1 : List (Act 2)), ¬ HandlesStop 1 a) ∧
      ¬ HandlesStop 1 (.response [hitRecord 2] (0 : Fin 2)) := by decide
  refine ⟨_, _, _, _, v, hlast, fun x hx => ?_, ⟨t, ht, hsent⟩, ⟨v, hv, hsent'⟩,
    fun x hx => ?_⟩
  · simp only [List.mem_append, List.mem_cons, List.not_mem_nil, or_false] at hx
    rcases hx with (hx | rfl | hx) | rfl
    · exact hunnumbered.1 _ (label_mem_of_mem_trace hx)
    · exact hunnumbered.2.2
    · exact hunnumbered.2.1 _ (label_mem_of_mem_trace hx)
    · exact hunnumbered.2.2
  · simp only [List.mem_append, List.mem_singleton] at hx
    rcases hx with hx | rfl
    · exact hnostop.1 _ (label_mem_of_mem_trace hx)
    · exact hnostop.2

end Run

end Session

end ParallelGdb
