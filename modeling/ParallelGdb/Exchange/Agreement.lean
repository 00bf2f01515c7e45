import ParallelGdb.Exchange.Ledger

/-!
# Does the displayed state agree with GDB

A Breakpoint counts as created from the moment its insert is sent. While GDB
rejects no insert and every delete carries the number of its sender's most
recent insert, each rank's GDB will hold exactly what the window shows, and does
so as soon as nothing is under way.
-/

namespace ParallelGdb

open Library.CString Library.Transition Mi Breakpoint

/-- Between two calls a Breakpoint is created at a rank or not, and it is
exactly if the rank's GDB will hold it. -/
structure Mirrors {n : Nat} (t : Tracker n) (r : Fin n) (g : Gdb) : Prop where
  ledger : Ledger g
  settled : ∀ b bp, t.objects b = some bp →
    bp.state r = .created ∨ bp.state r = .notExisting
  agrees : ∀ b bp, t.objects b = some bp → (bp.state r = .created ↔ g.Holds b)

namespace Mirrors

variable {n : Nat} {t t' : Tracker n} {r : Fin n} {g g' : Gdb}

/-- Only the states of the rank matter on the window's side, and only what it
will hold on the side of GDB. -/
theorem congr (h : Mirrors t r g) (hledger : Ledger g') (hholds : ∀ b, g'.Holds b ↔ g.Holds b)
    (hobj : ∀ b bp', t'.objects b = some bp' →
      ∃ bp, t.objects b = some bp ∧ bp'.state r = bp.state r) : Mirrors t' r g' where
  ledger := hledger
  settled := by
    intro b bp' hb'
    obtain ⟨bp, hb, hstate⟩ := hobj b bp' hb'
    rw [hstate]
    exact h.settled b bp hb
  agrees := by
    intro b bp' hb'
    obtain ⟨bp, hb, hstate⟩ := hobj b bp' hb'
    rw [hstate, hholds]
    exact h.agrees b bp hb

/-- The same GDB-side step with an unchanged window. -/
theorem of_gdb (h : Mirrors t r g) (hledger : Ledger g')
    (hholds : ∀ b, g'.Holds b ↔ g.Holds b) : Mirrors t r g' :=
  h.congr hledger hholds fun _ bp hb => ⟨bp, hb, rfl⟩

/-- One Breakpoint changed its state at the rank, and GDB will follow. -/
theorem update (h : Mirrors t r g) {b : BkptId} {bp' : Breakpoint n}
    (hobj : ∀ c, t'.objects c = Function.update t.objects b (some bp') c)
    (hledger : Ledger g') (hstate : bp'.state r = .created ∨ bp'.state r = .notExisting)
    (hself : bp'.state r = .created ↔ g'.Holds b)
    (hother : ∀ c, c ≠ b → (g'.Holds c ↔ g.Holds c)) : Mirrors t' r g' where
  ledger := hledger
  settled := by
    intro c bpc hc
    rw [hobj, Function.update_apply] at hc
    split at hc
    · obtain rfl := Option.some.inj hc
      exact hstate
    · exact h.settled c bpc hc
  agrees := by
    intro c bpc hc
    rw [hobj, Function.update_apply] at hc
    split at hc
    · rename_i hcb
      obtain rfl := Option.some.inj hc
      rw [hcb]
      exact hself
    · rename_i hcb
      rw [hother c hcb]
      exact h.agrees c bpc hc

end Mirrors

namespace Breakpoint

variable {n : Nat}

/-- The state of a rank after a whole call. -/
def RankOp.settled : RankOp → BreakpointState → BreakpointState
  | .insert, _ => .created
  | .delete, _ => .notExisting
  | _, state => state

/-- `update_states` takes a refused operation back. -/
theorem updateStates_afterOps {bp : Breakpoint n} {op : Fin n → RankOp} {r : Fin n}
    {button canSend : Bool} (hop : op r = rankOp button (bp.state r) canSend)
    (h : bp.state r = .created ∨ bp.state r = .notExisting) :
    (bp.afterOps op).updateStates.state r = (op r).settled (bp.state r) := by
  simp only [updateStates, afterOps, hop]
  rcases h with h | h <;> rw [h] <;> cases button <;> cases canSend <;> rfl

theorem rankOp_insert {button canSend : Bool} {state : BreakpointState}
    (h : rankOp button state canSend = .insert) : state ≠ .created := by
  rintro rfl
  revert h
  cases button <;> cases canSend <;> decide

end Breakpoint

namespace Exchange

variable {n : Nat}

/-- The labels other than the methods for one rank. -/
def Label.isCall : Label n → Bool
  | .create _ _ => false
  | .delete _ _ => false
  | _ => true

/-- A step whose user operations are whole calls. -/
def nextCall (s : Exchange n) (a : Label n) : Option (Exchange n) :=
  if a.isCall then s.next a else none

/-- All interleavings of calls, the GDBs and the window. -/
def calls (n : Nat) : System (Exchange n) (Label n) := System.ofNext Initial nextCall

/-- Where nothing is under way, a Breakpoint counts as created exactly if GDB
holds a breakpoint it inserted. -/
def Agrees (s : Exchange n) : Prop :=
  ∀ r, (s.gdb r).commands = [] → (s.gdb r).answers = [] →
    ∀ b bp, s.window.objects b = some bp →
      (bp.isCreated r = true ↔ ∃ k, (s.gdb r).table k = some b)

def Label.isReject : Label n → Bool
  | .reject _ => true
  | _ => false

/-- GDB does not reject an insert, and a delete carries the number GDB gave to
the most recent insert of its sender. -/
def accurate (s : Exchange n) (a : Label n) : Bool :=
  !a.isReject &&
    match s.operation a with
    | none => true
    | some (b, op) => (List.finRange n).all fun r =>
        match op r, s.window.objects b with
        | .delete, some bp => (s.gdb r).assignedLast b (bp.numbers r)
        | _, _ => true

/-- The steps of a history were all accurate. -/
abbrev Accurate (s : Exchange n) (a : Label n) : Prop := s.accurate a = true

theorem accurate_reject {s : Exchange n} {r : Fin n} : ¬ s.Accurate (.reject r) := by
  simp [Accurate, accurate, Label.isReject]

theorem accurate_delete {s : Exchange n} {a : Label n} (hacc : s.Accurate a) {b : BkptId}
    {op : Fin n → RankOp} (hop : s.operation a = some (b, op)) {bp : Breakpoint n}
    (hobj : s.window.objects b = some bp) {r : Fin n} (hr : op r = .delete) :
    (s.gdb r).assignedLast b (bp.numbers r) = true := by
  simp only [Accurate, accurate, hop, Bool.and_eq_true, List.all_eq_true] at hacc
  have := hacc.2 r (List.mem_finRange r)
  simpa [hr, hobj] using this

/-- A call is a choice of button for each rank, folded back at the end. -/
theorem call_operation {s : Exchange n} {a : Label n} (hcall : a.isCall = true) {b : BkptId}
    {op : Fin n → RankOp} (hop : s.operation a = some (b, op)) {bp : Breakpoint n}
    (hobj : s.window.objects b = some bp) :
    a.fold = updateStates ∧
      ∀ r, ∃ button, op r = rankOp button (bp.state r) (s.window.canSend r) := by
  cases a with
  | update b' buttonStates =>
      simp only [operation, Option.map_eq_some_iff, Prod.mk.injEq] at hop
      obtain ⟨bp', hobj', rfl, rfl⟩ := hop
      obtain rfl := Option.some.inj (hobj.symm.trans hobj')
      exact ⟨rfl, fun r => ⟨buttonStates r, rfl⟩⟩
  | deleteAll b' =>
      simp only [operation, Option.map_eq_some_iff, Prod.mk.injEq] at hop
      obtain ⟨bp', hobj', rfl, rfl⟩ := hop
      obtain rfl := Option.some.inj (hobj.symm.trans hobj')
      exact ⟨rfl, fun r => ⟨false, rfl⟩⟩
  | create b' r => simp [Label.isCall] at hcall
  | delete b' r => simp [Label.isCall] at hcall
  | target r state => simp [operation] at hop
  | accept r number => simp [operation] at hop
  | reject r => simp [operation] at hop
  | remove r => simp [operation] at hop
  | handle r => simp [operation] at hop

/-- Every rank's GDB is mirrored. -/
def AllMirrored (s : Exchange n) : Prop := ∀ r, Mirrors s.window r (s.gdb r)

theorem allMirrored_initial {s : Exchange n} (h : Initial s) : s.AllMirrored := by
  obtain ⟨hobj, -, -, -, hgdb⟩ := h
  intro r
  have hnew : ∀ b bp, s.window.objects b = some bp → bp.state r = .notExisting := by
    intro b bp hb
    rw [hobj b bp hb]
    rfl
  rw [hgdb r]
  constructor
  · exact Ledger.init
  · exact fun b bp hb => Or.inr (hnew b bp hb)
  · intro b bp hb
    simp [hnew b bp hb, Gdb.Holds, Gdb.init]

theorem allMirrored_setGdb {s : Exchange n} (h : s.AllMirrored) {r : Fin n} {g : Gdb}
    (hg : Mirrors s.window r g) : (s.setGdb r g).AllMirrored := by
  intro q
  by_cases hq : q = r
  · subst hq
    simpa [setGdb] using hg
  · simpa [setGdb, Function.update_of_ne hq] using h q

/-- A call changes window and GDB alike. -/
theorem allMirrored_operated {s : Exchange n} (h : s.AllMirrored) {a : Label n}
    (hcall : a.isCall = true) (hacc : s.Accurate a) {b : BkptId} {bp : Breakpoint n}
    {op : Fin n → RankOp} (hop : s.operation a = some (b, op))
    (hobj : s.window.objects b = some bp) : (s.operated a b bp op).AllMirrored := by
  obtain ⟨hfold, hrank⟩ := call_operation hcall hop hobj
  intro r
  obtain ⟨button, hbutton⟩ := hrank r
  have hsettled := (h r).settled b bp hobj
  have hafter : (a.fold (bp.afterOps op)).state r = (op r).settled (bp.state r) := by
    rw [hfold]
    exact updateStates_afterOps hbutton hsettled
  have hgdb : (s.operated a b bp op).gdb r =
      ((op r).sent b bp r).foldl Gdb.receive (s.gdb r) := rfl
  have hobjs : ∀ c, (s.operated a b bp op).window.objects c =
      Function.update s.window.objects b (some (a.fold (bp.afterOps op))) c := fun _ => rfl
  -- a rank at which nothing is sent keeps its state and its GDB
  have hquiet : (op r).sent b bp r = [] → (op r).settled (bp.state r) = bp.state r →
      Mirrors (s.operated a b bp op).window r ((s.operated a b bp op).gdb r) := by
    intro hsent hkeep
    rw [hgdb, hsent]
    rw [hkeep] at hafter
    refine (h r).update hobjs (h r).ledger (hafter ▸ hsettled) ?_ fun _ _ => Iff.rfl
    rw [hafter]
    exact (h r).agrees b bp hobj
  cases hr : op r with
  | keep => exact hquiet (by rw [hr]; rfl) (by rw [hr]; rfl)
  | refusedInsert => exact hquiet (by rw [hr]; rfl) (by rw [hr]; rfl)
  | refusedDelete => exact hquiet (by rw [hr]; rfl) (by rw [hr]; rfl)
  | insert =>
      have hnot : ¬ (s.gdb r).Holds b := fun hb =>
        rankOp_insert (hbutton.symm.trans hr) (((h r).agrees b bp hobj).mpr hb)
      rw [hr] at hafter
      rw [hgdb, hr]
      refine (h r).update hobjs ((h r).ledger.receive_insert hnot bp.fullPath bp.line)
        (Or.inl hafter) ?_ fun c hcb => ?_
      · refine iff_of_true hafter ?_
        exact (Ledger.holds_receive_insert _ b bp.fullPath bp.line b).mpr (Or.inl rfl)
      · rw [RankOp.sent, List.foldl_cons, List.foldl_nil, Ledger.holds_receive_insert]
        simp [hcb]
  | delete =>
      obtain ⟨i, m, hlast, hm, hnumber⟩ :=
        (Gdb.assignedLast_iff _ _ _).mp (accurate_delete hacc hop hobj hr)
      rw [hr] at hafter
      rw [hgdb, hr, RankOp.sent, hnumber, List.foldl_cons, List.foldl_nil]
      refine (h r).update hobjs ((h r).ledger.receive_delete b hm)
        (Or.inr hafter) ?_ fun c hcb => ?_
      · rw [(h r).ledger.holds_receive_delete hlast hm]
        refine iff_of_false ?_ fun hb => hb.1 rfl
        rw [hafter]
        simp [RankOp.settled]
      · rw [(h r).ledger.holds_receive_delete hlast hm]
        simp [hcb]

theorem fresh_unassigned {g : Gdb} {number : Nat} (h : fresh g number = true) (i : Nat) :
    (i, number) ∉ g.assigned := by
  intro hmem
  simp only [fresh, Bool.and_eq_true, List.all_eq_true] at h
  simpa using h.2 (i, number) hmem

theorem allMirrored_step {s t : Exchange n} {a : Label n} (h : s.AllMirrored)
    (hacc : s.Accurate a) (hstep : s.nextCall a = some t) : t.AllMirrored := by
  obtain ⟨hcall, hnext⟩ := Option.ite_none_right_eq_some.mp hstep
  cases next_step hnext with
  | operate hop hobj => exact allMirrored_operated h hcall hacc hop hobj
  | target r state =>
      intro q
      exact (h q).congr (h q).ledger (fun _ => Iff.rfl) fun b bp hb => ⟨bp, hb, rfl⟩
  | @accept r number sent rest fullPath line hcmds hcmd hfresh =>
      apply allMirrored_setGdb h
      exact (h r).of_gdb ((h r).ledger.accept hcmds hcmd (fresh_unassigned hfresh))
        ((h r).ledger.holds_accept hcmds hcmd (fresh_unassigned hfresh))
  | reject hcmds hcmd => exact absurd hacc accurate_reject
  | @remove r sent rest number hcmds hcmd =>
      apply allMirrored_setGdb h
      exact (h r).of_gdb ((h r).ledger.remove hcmds hcmd) ((h r).ledger.holds_remove hcmds hcmd)
  | @handle r reply rest w ha hp =>
      have hstates : ∀ q b bp', w.objects b = some bp' →
          ∃ bp, s.window.objects b = some bp ∧ bp'.state q = bp.state q := by
        intro q b bp' hb'
        obtain rfl | ⟨c, bp, number, -, hobj, rfl⟩ := Tracker.parseBreakpoint_cases hp
        · exact ⟨bp', hb', rfl⟩
        · simp only [Tracker.registerBreakpoint, Tracker.store, Function.update_apply] at hb'
          split at hb'
          · rename_i heq
            obtain rfl := Option.some.inj hb'
            exact ⟨bp, heq ▸ hobj, rfl⟩
          · exact ⟨bp', hb', rfl⟩
      intro q
      by_cases hq : q = r
      · subst hq
        have hanswered := (h q).congr ((h q).ledger.setAnswers rest) (fun _ => Iff.rfl)
          (hstates q)
        simpa [setGdb] using hanswered
      · have hother := (h q).congr (h q).ledger (fun _ => Iff.rfl) (hstates q)
        simpa [setGdb, Function.update_of_ne hq] using hother

/-- With nothing under way, what GDB will hold is what it holds. -/
theorem agrees_of_mirrored {s : Exchange n} (h : s.AllMirrored) : s.Agrees := by
  intro r hcmds _ b bp hobj
  have hb := (h r).agrees b bp hobj
  simp only [Gdb.Holds, hcmds, List.not_mem_nil, false_and, exists_false, false_or,
    false_imp_iff, implies_true, and_true] at hb
  simpa [isCreated] using hb

/-- In a run of calls whose steps are all accurate, every state agrees with GDB
wherever nothing is under way. -/
theorem accurate_calls_agree {tr : List (Exchange n × Label n)} {s : Exchange n}
    (run : Run (calls n) tr s) (hacc : Meets Accurate tr) :
    (∀ p ∈ tr, p.1.Agrees) ∧ s.Agrees := by
  have hmirrored : ∀ {pre u}, Run (calls n) pre u → Meets Accurate pre → u.AllMirrored := by
    intro pre u prefixRun hpre
    exact prefixRun.guarded (I := AllMirrored) (fun s h => allMirrored_initial h)
      (fun s a t hI ha hstep => allMirrored_step hI ha hstep) hpre
  constructor
  · intro p hp
    obtain ⟨pre, prefixRun, hpre⟩ := run.of_mem hacc hp
    exact agrees_of_mirrored (hmirrored prefixRun hpre)
  · exact agrees_of_mirrored (hmirrored run hacc)

/-- A call inserts, GDB accepts, and a second call deletes. -/
def acceptedLabels (r : Fin n) : List (Label n) :=
  [.target r .stopped, .update 0 (fun _ => true), .accept r 2, .handle r, .deleteAll 0,
    .remove r, .handle r]

theorem accepted_calls_agree :
    (∀ p ∈ trace nextCall (start 1) (acceptedLabels 0), p.1.Agrees) ∧
      ∀ t, (acceptedLabels 0).foldlM nextCall (start 1) = some t → t.Agrees := by
  have hrun : ∃ t, (acceptedLabels 0).foldlM nextCall (start 1) = some t :=
    Option.isSome_iff_exists.mp (by decide)
  have hall : (trace nextCall (start 1) (acceptedLabels 0)).all
      (fun p => p.1.accurate p.2) = true := by decide
  obtain ⟨t, ht⟩ := hrun
  obtain ⟨hvisited, hlast⟩ := accurate_calls_agree
    ((Run.start (initial_start 1)).trace (acceptedLabels 0) ht)
    fun p hp => List.all_eq_true.mp hall p hp
  refine ⟨hvisited, fun t' ht' => ?_⟩
  obtain rfl := Option.some.inj (ht.symm.trans ht')
  exact hlast

/-- A call inserts and GDB rejects. -/
def rejectedLabels (r : Fin n) : List (Label n) :=
  [.target r .stopped, .update 0 (fun _ => true), .reject r, .handle r]

/-- GDB rejects the insert, which still counts as created. -/
theorem rejected_insert_disagrees : ∃ s, Reachable (calls 1) s ∧ ¬ s.Agrees := by
  have hrun : ((rejectedLabels 0).foldlM nextCall (start 1)).isSome := by decide
  have hcreated : ((((rejectedLabels 0).foldlM nextCall (start 1)).get hrun).window.objects 0).any
      (fun bp => bp.isCreated 0) = true := rfl
  refine ⟨((rejectedLabels 0).foldlM nextCall (start 1)).get hrun, ?_, fun hagrees => ?_⟩
  · exact (Reachable.start (initial_start 1)).replay (rejectedLabels 0) (Option.some_get hrun).symm
  · obtain ⟨bp, hobj, hbp⟩ := (Option.any_eq_true _ _).mp hcreated
    obtain ⟨k, hk⟩ := (hagrees 0 rfl rfl 0 bp hobj).mp hbp
    have htable :
        ((((rejectedLabels 0).foldlM nextCall (start 1)).get hrun).gdb 0).table k = none :=
      rfl
    exact absurd (htable.symm.trans hk) (by simp)

end Exchange

end ParallelGdb
