import ParallelGdb.Master.Connections
import ParallelGdb.Session.StopAll

/-!
# The master runs a session

A session knows clicks, whole responses and connections that come and go. The master
knows threads, ports, a queue and pieces of text. Forgetting the records that wait for
the end of their response, every run of the master is a run of a session, so what holds
of every session holds in the master under every interleaving.
-/

namespace ParallelGdb

open Library.CString Library.RankLoop Library.Transition Mi Breakpoint Target

variable {n : Nat}

/-- The window with other unfinished responses. -/
def Tracker.withHandles (t : Tracker n) (handles : Fin n → List MiOutput) : Tracker n :=
  { t with gdbHandle := handles }

/-- The session without its unfinished responses. -/
def Session.settled (s : Session n) : Session n :=
  { s with window := s.window.withHandles fun _ => [] }

namespace Tracker

variable (t : Tracker n) (handles : Fin n → List MiOutput) (first : List MiOutput) (r : Fin n)

/-- No pass over a response reads the handles. -/
theorem parseTargetState_withHandles :
    (t.withHandles handles).parseTargetState first r =
      (t.parseTargetState first r).withHandles handles := by
  unfold parseTargetState
  refine List.foldl_hom (fun t => Tracker.withHandles t handles) fun t o => ?_
  have hclass : (t.withHandles handles).applyClass r o.tclass =
      (t.applyClass r o.tclass).withHandles handles := by
    cases o.tclass <;> rfl
  unfold parseTargetStateStep applyStream
  rw [hclass]
  split
  · cases getCstr o <;> rfl
  · rfl

theorem hitBreakpoint_withHandles (stop : MiStop) :
    (t.withHandles handles).hitBreakpoint stop r =
      (t.hitBreakpoint stop r).map fun u => u.withHandles handles := by
  have hsame : stopBreakpoint stop r (t.withHandles handles) = stopBreakpoint stop r t := rfl
  unfold hitBreakpoint
  rw [hsame]
  cases stopBreakpoint stop r t with
  | none => rfl
  | some b =>
      have hobjects : (t.withHandles handles).objects = t.objects := rfl
      simp only [hobjects]
      cases t.objects b with
      | none => rfl
      | some bp =>
          simp only [stopAll_eq]
          split <;> rfl

theorem parseStopRecord_withHandles :
    (t.withHandles handles).parseStopRecord first r =
      (t.parseStopRecord first r).map fun u => u.withHandles handles := by
  unfold parseStopRecord
  cases miResStop first with
  | error e => rfl
  | ok found =>
      cases found with
      | none => rfl
      | some stop =>
          have hrecord : ∀ v : Tracker n, ((v.withHandles handles).recordExit stop r).recordPosition
              stop r = ((v.recordExit stop r).recordPosition stop r).withHandles handles := by
            intro v
            unfold recordExit recordPosition
            cases stop.reason.isExit <;> cases stopPosition stop <;> rfl
          simp only [bind, Except.bind, applyStop, hitBreakpoint_withHandles]
          cases t.hitBreakpoint stop r with
          | error e => rfl
          | ok v => exact congrArg Except.ok (hrecord v)

theorem parseBreakpoint_withHandles :
    (t.withHandles handles).parseBreakpoint first r =
      (t.parseBreakpoint first r).map fun u => u.withHandles handles := by
  have hslots : (t.withHandles handles).breakpoints = t.breakpoints := rfl
  have hobjects : (t.withHandles handles).objects = t.objects := rfl
  unfold parseBreakpoint
  rw [hslots]
  cases t.breakpoints r with
  | none => rfl
  | some b =>
      cases miResBkpt first with
      | error e => rfl
      | ok found =>
          cases found with
          | none => rfl
          | some number =>
              simp only [bind, Except.bind, hobjects]
              cases t.objects b <;> rfl

theorem handleResponse_withHandles :
    (t.withHandles handles).handleResponse first r =
      (t.handleResponse first r).map fun u => u.withHandles handles := by
  unfold handleResponse
  rw [parseTargetState_withHandles]
  dsimp only
  rw [parseStopRecord_withHandles]
  cases (t.parseTargetState first r).parseStopRecord first r with
  | error e => rfl
  | ok u => exact parseBreakpoint_withHandles u handles first r

end Tracker

namespace Session

variable {s t : Session n}

theorem finish_settled (s : Session n) (b : BkptId) (isNew : Bool) (bp : Breakpoint n) :
    s.settled.finish b isNew bp = (s.finish b isNew bp).settled := by
  unfold finish endCreate endEdit
  cases isNew <;> cases bp.oneCreated <;> rfl

/-- What the user does does not read the handles. -/
theorem next_settled {a : Act n} (ha : a.isUser = true) (h : s.next a = some t) :
    s.settled.next a = some t.settled := by
  have hdelete : ∀ (b : BkptId) (bp : Breakpoint n),
      deleteLoop b (bp, s.settled.window) =
        ((deleteLoop b (bp, s.window)).1, (deleteLoop b (bp, s.window)).2.1,
          (deleteLoop b (bp, s.window)).2.2.withHandles fun _ => []) := by
    intro b bp
    let forget : Bool × Breakpoint n × Tracker n → Bool × Breakpoint n × Tracker n :=
      fun acc => (acc.1, acc.2.1, acc.2.2.withHandles fun _ => [])
    refine @List.foldl_hom _ _ _ forget _ _ _ (true, bp, s.window) fun acc r => ?_
    obtain ⟨ok, bp, w⟩ := acc
    by_cases hcreated : bp.state r = .created
    · by_cases hstopped : w.targetState r = .stopped <;> cases hconn : w.connsGdb r <;>
        simp [forget, hcreated, deleteBreakpoint, Tracker.sendGdb, Tracker.withHandles, hstopped,
          hconn]
    · simp [forget, hcreated]
  cases next_step h with
  | nothing hd hm =>
      have hm' : s.settled.markAt _ _ = none := hm
      simp [next, hm', show s.settled.dialog = none from hd]
  | create hd hm =>
      have hm' : s.settled.markAt _ _ = none := hm
      simp [next, hm', show s.settled.dialog = none from hd]
      rfl
  | edit hd hm =>
      have hm' : s.settled.markAt _ _ = some _ := hm
      simp [next, hm', show s.settled.dialog = none from hd]
      rfl
  | @delete fullpath line b bp hd hm hobj =>
      have hm' : s.settled.markAt _ _ = some _ := hm
      have hobj' : s.settled.window.objects b = some bp := hobj
      simp only [next, hm', show s.settled.dialog = none from hd, if_true, Bool.false_eq_true,
        if_false, hobj', Option.map_some, deleteMark, hdelete]
      split
      · rw [hd]
        rfl
      · rfl
  | cancel hd =>
      simp only [next, show s.settled.dialog = some (.config _ _) from hd]
      rfl
  | @accept b isNew bp buttonStates stopAll hd hobj =>
      have hobj' : s.settled.window.objects b = some bp := hobj
      simp only [next, show s.settled.dialog = some (.config _ _) from hd, hobj', Option.map_some,
        applyDialog, updateBreakpoints, updateLoop_eq]
      have hops : updateOp buttonStates ({ bp with stopAll := stopAll }, s.settled.window) =
          updateOp buttonStates ({ bp with stopAll := stopAll }, s.window) := rfl
      rw [hops]
      congr 1
      split
      · rfl
      · let bp' : Breakpoint n := { bp with stopAll := stopAll }
        let op := updateOp buttonStates (bp', s.window)
        exact finish_settled { s with
          window := (s.window.afterOps b bp' op).store b (bp'.afterOps op).updateStates
          dialog := none } b isNew _
  | @updated b isNew message bp hd hobj =>
      have hobj' : s.settled.window.objects b = some bp := hobj
      simp only [next, show s.settled.dialog = some (.updated _ _ _) from hd, hobj',
        Option.map_some]
      exact congrArg some (finish_settled { s with dialog := none } b isNew bp)
  | @deleting b message bp hd hobj =>
      have hobj' : s.settled.window.objects b = some bp := hobj
      simp only [next, show s.settled.dialog = some (.deleting _ _) from hd, hobj',
        Option.map_some]
      rfl
  | response ht => cases ha
  | connect => cases ha

/-- A chunk is a number of responses, possibly none. -/
theorem handleDataGdb_settled (hs : Reachable (system n) s.settled) {r : Fin n} {data : Bytes}
    {u : Tracker n} (hu : s.window.handleDataGdb r data = .ok u) :
    Reachable (system n) (settled { s with window := u }) := by
  unfold Tracker.handleDataGdb at hu
  generalize strtok [] (cstr data) = tokens at hu
  induction tokens generalizing s with
  | nil =>
      obtain rfl := Except.ok.inj hu
      exact hs
  | cons token rest ih =>
      rw [List.foldlM_cons] at hu
      obtain ⟨v, hv, hrest⟩ := bind_eq_ok.mp hu
      obtain ⟨response, -, hv⟩ := bind_eq_ok.mp hv
      suffices hreach : Reachable (system n) (settled { s with window := v }) from
        ih (s := { s with window := v }) hreach hrest
      unfold Tracker.respond at hv
      split at hv
      · have hforget := Tracker.handleResponse_withHandles
          (s.window.withHandles (Function.update s.window.gdbHandle r [])) (fun _ => [])
          response.2 r
        have hv' : (s.window.withHandles (Function.update s.window.gdbHandle r [])).handleResponse
            response.2 r = .ok v := hv
        rw [hv'] at hforget
        have hstep : s.settled.next (.response response.2 r) =
            some (settled { s with window := v }) := by
          have hwindow : s.settled.window.handleResponse response.2 r =
              .ok (v.withHandles fun _ => []) := hforget
          simp only [next, hwindow]
          rfl
        exact hs.next hstep
      · obtain rfl := Except.ok.inj hv
        exact hs

/-- A rank's flags are set. -/
theorem connect_settled (hs : Reachable (system n) s.settled) (r : Fin n) (gdb trgt : Bool) :
    Reachable (system n) (settled { s with window := { s.window with
      connsGdb := Function.update s.window.connsGdb r gdb
      connsTrgt := Function.update s.window.connsTrgt r trgt } }) := by
  have hstep : s.settled.next (.connect r gdb trgt) = some (settled { s with window :=
      { s.window with
        connsGdb := Function.update s.window.connsGdb r gdb
        connsTrgt := Function.update s.window.connsTrgt r trgt } }) := rfl
  exact hs.next hstep

end Session

namespace Master

variable {base : Int} {m m' : Master n} {a : Act n}

theorem setConns_settled (hs : Reachable (Session.system n) m.session.settled) (c : Source n)
    (socket : Option (Fin (2 * n))) :
    Reachable (Session.system n) (m.setConns c socket).session.settled := by
  cases c with
  | gdb r =>
      have hreach := Session.connect_settled hs r socket.isSome (m.session.window.connsTrgt r)
      rwa [Function.update_eq_self] at hreach
  | trgt r =>
      have hreach := Session.connect_settled hs r (m.session.window.connsGdb r) socket.isSome
      rwa [Function.update_eq_self] at hreach

/-- Every step of the master is a number of steps of its session. -/
theorem effect_settled (heffect : m.Effect base a m')
    (hs : Reachable (Session.system n) m.session.settled) :
    Reachable (Session.system n) m'.session.settled := by
  cases heffect with
  | @register k c hk hc => exact setConns_settled hs c (some k)
  | @readEof k c hk hc => exact setConns_settled hs c none
  | gdb hidle hc hwindow => exact Session.handleDataGdb_settled hs hwindow
  | user hphase ha hnext => exact hs.next (Session.next_settled ha hnext)
  | accept hk => exact hs
  | leave hk => exact hs
  | readSome hk => exact hs
  | readError hk => exact hs
  | trgt hidle hc => exact hs
  | waited hphase hall => exact hs
  | waits hphase hall => exact hs
  | cancelWait hphase => exact hs
  | quit hphase => exact hs

/-- The master starts with a session that starts. -/
theorem init_settled (hm : (system n base).init m) :
    Reachable (Session.system n) m.session.settled := by
  obtain ⟨memory, rfl⟩ := hm
  exact .start rfl

theorem reachable_settled (hm : Reachable (system n base) m) :
    Reachable (Session.system n) m.session.settled :=
  hm.invariant (I := fun m => Reachable (Session.system n) m.session.settled)
    (fun _ hinit => init_settled hinit)
    fun _ _ _ hs hstep => effect_settled (next_effect hstep).2 hs

/-- Every run of the threads, the idle handler and the user is a run of the session. -/
theorem session_reachable (hm : Reachable (system n base) m) :
    Reachable (Session.system n) m.session.settled :=
  reachable_settled hm

theorem oneSlave_session : ∃ m : Master 1, m.phase = .running ∧
    Reachable (Session.system 1) m.session.settled := by
  obtain ⟨m, hm, -, hrunning, -⟩ := oneSlave_reachable
  exact ⟨m, hrunning, session_reachable hm⟩

/-- A Breakpoint counts as created on a rank exactly if the last command it sent there
is an insert and its error dialog is not open. -/
theorem isCreated_eq_held (hm : Reachable (system n base) m) {b : BkptId} {bp : Breakpoint n}
    (hobj : m.session.window.objects b = some bp) (r : Fin n) :
    bp.isCreated r = (m.session.window.held b r && !m.session.isDeleting b) :=
  Session.isCreated_eq (s := m.session.settled) (Session.inv_reachable (reachable_settled hm))
    hobj r

/-- GDB reports a stop. -/
def stopMessage : Message where
  bytes := ascii "*stopped\n(gdb)\n"
  nonempty := by decide
  fits := by decide

/-- The user sets a breakpoint on the rank that has stopped. -/
def breakpointActs : List (Act 1) :=
  oneSlave ++ [.readSome gdbPort stopMessage, .runIdle, .user (.click false (ascii "/a.c") 4),
    .user (.accept (fun _ => true) false)]

theorem breakpointActs_created : ∃ (m : Master 1) (bp : Breakpoint 1),
    m.session.window.objects 0 = some bp ∧ m.session.window.held 0 0 = true ∧
      bp.isCreated 0 = (m.session.window.held 0 0 && !m.session.isDeleting 0) := by
  have hinit : Reachable (system 1 32768) (init (emptyMemory 1)) := .start ⟨_, rfl⟩
  obtain ⟨m, hm, hp⟩ := hinit.replay_any breakpointActs
    (fun m => (m.session.window.objects 0).isSome && m.session.window.held 0 0)
    (by decide +kernel)
  simp only [Bool.and_eq_true, Option.isSome_iff_exists] at hp
  obtain ⟨⟨bp, hobj⟩, hheld⟩ := hp
  exact ⟨m, bp, hobj, hheld, isCreated_eq_held hm hobj 0⟩

end Master

end ParallelGdb
