import ParallelGdb.Session.System

/-!
# What one step of a session can do

Besides the form of each step, this module shows what the display of a
Breakpoint means while a session runs: a rank counts as created exactly if the
last command the Breakpoint sent there is an insert, except that the error
dialog of `delete_breakpoints` still shows the error states of its Breakpoint.
-/

namespace ParallelGdb

open Library.CString Library.Transition Mi Breakpoint

def Command.isInsert : Command → Bool
  | .breakInsert _ _ => true
  | .breakDelete _ => false

namespace Tracker

variable {n : Nat}

/-- The last command the Breakpoint sent to the rank is an insert. -/
def held (t : Tracker n) (b : BkptId) (r : Fin n) : Bool :=
  (t.sentGdb r).foldl (fun held p => if p.1 = b then p.2.isInsert else held) false

theorem held_of_not_sent {t : Tracker n} {b : BkptId} {r : Fin n}
    (h : ∀ p ∈ t.sentGdb r, p.1 ≠ b) : t.held b r = false := by
  unfold held
  generalize t.sentGdb r = sent at h ⊢
  induction sent with
  | nil => rfl
  | cons p rest ih =>
      rw [List.foldl_cons, if_neg (h p (by simp))]
      exact ih fun q hq => h q (by simp [hq])

/-- What an operation makes of the last command. -/
def heldAfter : RankOp → Bool → Bool
  | .insert, _ => true
  | .delete, _ => false
  | _, held => held

theorem held_afterOps_self (t : Tracker n) (b : BkptId) (bp : Breakpoint n)
    (op : Fin n → RankOp) (r : Fin n) :
    (t.afterOps b bp op).held b r = heldAfter (op r) (t.held b r) := by
  simp only [held, afterOps, List.foldl_append]
  cases op r <;> simp [RankOp.sent, heldAfter, Command.isInsert]

theorem held_afterOps_other (t : Tracker n) {b c : BkptId} (hcb : c ≠ b) (bp : Breakpoint n)
    (op : Fin n → RankOp) (r : Fin n) :
    (t.afterOps b bp op).held c r = t.held c r := by
  simp only [held, afterOps, List.foldl_append]
  cases op r <;> simp [RankOp.sent, hcb.symm]

theorem SameLinks.held {t u : Tracker n} (h : SameLinks t u) (b : BkptId) (r : Fin n) :
    u.held b r = t.held b r := by
  simp only [Tracker.held, h.sentGdb]

end Tracker

namespace Session

variable {n : Nat}

/-- Every step has one of these forms. -/
inductive Step (s : Session n) : Act n → Session n → Prop
  | nothing {fullpath : Bytes} {line : Nat} (hd : s.dialog = none)
      (hm : s.markAt fullpath line = none) : Step s (.click true fullpath line) s
  | create {fullpath : Bytes} {line : Nat} (hd : s.dialog = none)
      (hm : s.markAt fullpath line = none) :
      Step s (.click false fullpath line) (s.createMark fullpath line)
  | edit {fullpath : Bytes} {line : Nat} {b : BkptId} (hd : s.dialog = none)
      (hm : s.markAt fullpath line = some b) :
      Step s (.click true fullpath line) (s.editMark b)
  | delete {fullpath : Bytes} {line : Nat} {b : BkptId} {bp : Breakpoint n}
      (hd : s.dialog = none) (hm : s.markAt fullpath line = some b)
      (hobj : s.window.objects b = some bp) :
      Step s (.click false fullpath line) (s.deleteMark b bp)
  | cancel {b : BkptId} {isNew : Bool} (hd : s.dialog = some (.config b isNew)) :
      Step s .cancel { s with dialog := none }
  | accept {b : BkptId} {isNew : Bool} {bp : Breakpoint n} {buttonStates : Fin n → Bool}
      {stopAll : Bool} (hd : s.dialog = some (.config b isNew))
      (hobj : s.window.objects b = some bp) :
      Step s (.accept buttonStates stopAll) (s.applyDialog b isNew bp buttonStates stopAll)
  | updated {b : BkptId} {isNew : Bool} {message : Bytes} {bp : Breakpoint n}
      (hd : s.dialog = some (.updated b isNew message)) (hobj : s.window.objects b = some bp) :
      Step s .dismiss (Session.finish { s with dialog := none } b isNew bp)
  | deleting {b : BkptId} {message : Bytes} {bp : Breakpoint n}
      (hd : s.dialog = some (.deleting b message)) (hobj : s.window.objects b = some bp) :
      Step s .dismiss { s with window := s.window.store b bp.updateStates, dialog := none }
  | response {first : List MiOutput} {r : Fin n} {t : Tracker n}
      (h : s.window.handleResponse first r = .ok t) :
      Step s (.response first r) { s with window := t }
  | connect {r : Fin n} {gdb trgt : Bool} :
      Step s (.connect r gdb trgt) { s with window := { s.window with
        connsGdb := Function.update s.window.connsGdb r gdb
        connsTrgt := Function.update s.window.connsTrgt r trgt } }

theorem next_step {s t : Session n} {a : Act n} (h : s.next a = some t) : s.Step a t := by
  cases a with
  | click secondary fullpath line =>
      obtain ⟨hd, h⟩ := Option.ite_none_right_eq_some.mp h
      cases hm : s.markAt fullpath line with
      | none =>
          simp only [hm, Option.some.injEq] at h
          subst h
          cases secondary with
          | true => exact .nothing hd hm
          | false => exact .create hd hm
      | some b =>
          simp only [hm] at h
          cases secondary with
          | true =>
              obtain rfl := Option.some.inj h
              exact .edit hd hm
          | false =>
              obtain ⟨bp, hobj, rfl⟩ := Option.map_eq_some_iff.mp h
              exact .delete hd hm hobj
  | cancel =>
      simp only [next] at h
      split at h
      · rename_i hd
        obtain rfl := Option.some.inj h
        exact .cancel hd
      · simp at h
  | accept buttonStates stopAll =>
      simp only [next] at h
      split at h
      · rename_i hd
        obtain ⟨bp, hobj, rfl⟩ := Option.map_eq_some_iff.mp h
        exact .accept hd hobj
      · simp at h
  | dismiss =>
      simp only [next] at h
      split at h
      · rename_i hd
        obtain ⟨bp, hobj, rfl⟩ := Option.map_eq_some_iff.mp h
        exact .updated hd hobj
      · rename_i hd
        obtain ⟨bp, hobj, rfl⟩ := Option.map_eq_some_iff.mp h
        exact .deleting hd hobj
      · simp at h
  | response first r =>
      simp only [next] at h
      split at h
      · rename_i ht
        obtain rfl := Option.some.inj h
        exact .response ht
      · simp at h
  | connect r gdb trgt =>
      obtain rfl := Option.some.inj h
      exact .connect

/-- The error dialog of `delete_breakpoints` is open for this Breakpoint. -/
def isDeleting (s : Session n) (b : BkptId) : Bool :=
  match s.dialog with
  | some (.deleting c _) => c = b
  | _ => false

/-- The state a rank of a live Breakpoint is in, given its last command. -/
def shown (s : Session n) (b : BkptId) (held : Bool) : BreakpointState :=
  if held then (if s.isDeleting b then .errorDeleting else .created) else .notExisting

/-- The ranks at which the Breakpoint is created all take commands. -/
def deletable (t : Tracker n) (bp : Breakpoint n) : Bool :=
  (List.finRange n).all fun r => !bp.isCreated r || t.canSend r

/-- What every session keeps. -/
structure Inv (s : Session n) : Prop where
  objects_lt : ∀ b, (s.window.objects b).isSome → b < s.nextId
  refers_lt : ∀ b, s.window.Refers b → b < s.nextId
  senders_lt : ∀ r, ∀ p ∈ s.window.sentGdb r, p.1 < s.nextId
  states : ∀ b bp, s.window.objects b = some bp →
    ∀ r, bp.state r = s.shown b (s.window.held b r)

namespace Inv

variable {s s' : Session n}

theorem init : Inv (Session.init n) := by
  constructor
  · simp [Session.init, Tracker.init]
  · rintro b (⟨r, hr⟩ | ⟨r, k, hk⟩)
    · simp [Session.init, Tracker.init] at hr
    · simp [Session.init, Tracker.init] at hk
  · simp [Session.init, Tracker.init]
  · simp [Session.init, Tracker.init]

/-- Marks do not matter, and of the dialog only which deletion it belongs to. -/
theorem congr (h : Inv s) (hwindow : s'.window = s.window) (hnext : s'.nextId = s.nextId)
    (hdialog : ∀ b, s'.isDeleting b = s.isDeleting b) : Inv s' where
  objects_lt := by
    rw [hwindow, hnext]
    exact h.objects_lt
  refers_lt := by
    rw [hwindow, hnext]
    exact h.refers_lt
  senders_lt := by
    rw [hwindow, hnext]
    exact h.senders_lt
  states := by
    simp only [hwindow, shown, hdialog]
    exact h.states

/-- Deleting an object leaves the others as they are. -/
theorem free (h : Inv s) (b : BkptId) :
    Inv { s with window := s.window.free b } := by
  have hobjects : ∀ c bp, (s.window.free b).objects c = some bp →
      s.window.objects c = some bp := by
    intro c bp hc
    simp only [Tracker.free, Function.update_apply] at hc
    split at hc
    · simp at hc
    · exact hc
  constructor
  · intro c hc
    obtain ⟨bp, hbp⟩ := Option.isSome_iff_exists.mp hc
    exact h.objects_lt c (by simp [hobjects c bp hbp])
  · exact h.refers_lt
  · exact h.senders_lt
  · exact fun c bp hc => h.states c bp (hobjects c bp hc)

/-- An operation of a live Breakpoint, after which its states say what its last
commands were. -/
theorem operate (h : Inv s) {b : BkptId} {bp bp' : Breakpoint n} {op : Fin n → RankOp}
    (hobj : (s.window.objects b).isSome)
    (hwindow : s'.window = (s.window.afterOps b bp op).store b bp')
    (hnext : s'.nextId = s.nextId) (hother : ∀ c, c ≠ b → s'.isDeleting c = s.isDeleting c)
    (hstate : ∀ r, bp'.state r =
      s'.shown b (Tracker.heldAfter (op r) (s.window.held b r))) : Inv s' := by
  have hb := h.objects_lt b hobj
  constructor
  · intro c hc
    rw [hnext]
    simp only [hwindow, Tracker.store, Function.update_apply] at hc
    split at hc
    · rename_i hcb
      exact hcb ▸ hb
    · exact h.objects_lt c hc
  · intro c hc
    rw [hnext]
    rw [hwindow] at hc
    have hafter : (s.window.afterOps b bp op).Refers c := hc
    rcases Tracker.refers_afterOps hafter with hc | ⟨rfl, -⟩
    · exact h.refers_lt c hc
    · exact hb
  · intro r p hp
    rw [hnext]
    rw [hwindow] at hp
    rcases List.mem_append.mp hp with hp | hp
    · exact h.senders_lt r p hp
    · have hpb : p.1 = b := by
        revert hp
        cases op r <;> simp +contextual [RankOp.sent]
      exact hpb ▸ hb
  · intro c bpc hc r
    have hheld : s'.window.held c r = (s.window.afterOps b bp op).held c r := by
      rw [hwindow]
      rfl
    simp only [hwindow, Tracker.store, Function.update_apply] at hc
    split at hc
    · rename_i hcb
      obtain rfl := Option.some.inj hc
      rw [hheld, hcb, Tracker.held_afterOps_self]
      exact hstate r
    · rename_i hcb
      rw [hheld, Tracker.held_afterOps_other _ hcb, h.states c bpc hc r, shown, shown,
        hother c hcb]

/-- A response keeps states and last commands. -/
theorem response (h : Inv s) {first : List MiOutput} {r : Fin n} {t : Tracker n}
    (ht : s.window.handleResponse first r = .ok t) : Inv { s with window := t } := by
  obtain ⟨u, hu, rfl | ⟨b, bp, number, hslot, hobj, rfl⟩⟩ := Tracker.handleResponse_cases ht
  · constructor
    · exact fun b hb => h.objects_lt b (hu.objects ▸ hb)
    · exact fun b hb => h.refers_lt b ((hu.refers b).mp hb)
    · exact fun q p hp => h.senders_lt q p (hu.sentGdb ▸ hp)
    · intro b bp hb q
      rw [hu.held]
      exact h.states b bp (hu.objects ▸ hb) q
  · have hobjects : ∀ c bpc, (u.registerBreakpoint r b bp number).objects c = some bpc →
        ∃ bpc', s.window.objects c = some bpc' ∧ bpc.state = bpc'.state := by
      intro c bpc hc
      simp only [Tracker.registerBreakpoint, Tracker.store, Function.update_apply] at hc
      split at hc
      · rename_i hcb
        obtain rfl := Option.some.inj hc
        exact ⟨bp, hcb ▸ hobj, rfl⟩
      · exact ⟨bpc, hu.objects ▸ hc, rfl⟩
    constructor
    · intro c hc
      obtain ⟨bpc, hbpc⟩ := Option.isSome_iff_exists.mp hc
      obtain ⟨bpc', hbpc', -⟩ := hobjects c bpc hbpc
      exact h.objects_lt c (by simp [hbpc'])
    · intro c hc
      have := Tracker.refers_registerBreakpoint (hu.breakpoints ▸ hslot) hc
      exact h.refers_lt c ((hu.refers c).mp this)
    · exact fun q p hp => h.senders_lt q p (hu.sentGdb ▸ hp)
    · intro c bpc hc q
      obtain ⟨bpc', hbpc', hstate⟩ := hobjects c bpc hc
      have hheld : (u.registerBreakpoint r b bp number).held c q = u.held c q := rfl
      rw [hstate, hheld, hu.held]
      exact h.states c bpc' hbpc' q

/-- With no deletion under way a rank shows no error state. -/
theorem settled (h : Inv s) {b : BkptId} {bp : Breakpoint n} (hobj : s.window.objects b = some bp)
    (hd : s.isDeleting b = false) (r : Fin n) :
    bp.state r = if s.window.held b r then .created else .notExisting := by
  rw [h.states b bp hobj r, shown, hd]
  simp

/-- A call for a Breakpoint folds its error states back at the end. -/
theorem fold_states (h : Inv s) {b : BkptId} {bp bp' : Breakpoint n}
    (hobj : s.window.objects b = some bp) (hd : s.isDeleting b = false)
    (hstate : bp'.state = bp.state) (buttonStates : Fin n → Bool) (r : Fin n) :
    (bp'.afterOps (updateOp buttonStates (bp', s.window))).updateStates.state r =
      if Tracker.heldAfter (updateOp buttonStates (bp', s.window) r) (s.window.held b r)
      then .created else .notExisting := by
  have hs := h.settled hobj hd r
  simp only [updateStates, afterOps, updateOp, hstate, hs]
  cases s.window.held b r <;> cases buttonStates r <;> cases s.window.canSend r <;> rfl

end Inv

/-- The session after the loop of a call, the object being stored as `bp'`. -/
def operated (s : Session n) (b : BkptId) (bp bp' : Breakpoint n) (op : Fin n → RankOp) :
    Session n :=
  { s with window := (s.window.afterOps b bp op).store b bp' }

/-- The operations of `delete_breakpoints`. -/
abbrev deleteOp (s : Session n) (bp : Breakpoint n) : Fin n → RankOp :=
  updateOp (fun _ => false) (bp, s.window)

/-- `delete_mark` succeeds exactly where every created rank takes commands. -/
theorem deleteMark_eq {s : Session n} (b : BkptId) {bp : Breakpoint n}
    (hsettled : ∀ r, bp.state r = .created ∨ bp.state r = .notExisting) :
    s.deleteMark b bp =
      let loop := bp.afterOps (s.deleteOp bp)
      if deletable s.window bp then (s.operated b bp loop.updateStates (s.deleteOp bp)).clearMark b
      else
        { s.operated b bp loop (s.deleteOp bp) with
          dialog := some (.deleting b (deleteMessage loop)) } := by
  have hloop : (deleteLoop b (bp, s.window)).2 =
      (bp.afterOps (s.deleteOp bp), s.window.afterOps b bp (s.deleteOp bp)) := by
    rw [deleteLoop_snd, updateLoop_eq]
  have hno : ∀ r, bp.state r ≠ .errorDeleting := by
    intro r
    rcases hsettled r with hr | hr <;> rw [hr] <;> decide
  have hfst : (deleteLoop b (bp, s.window)).1 = deletable s.window bp := by
    rw [Bool.eq_iff_iff, deleteLoop_fst b bp s.window hno, hloop, deletable, List.all_eq_true]
    simp only [List.mem_finRange, true_imp_iff]
    refine forall_congr' fun r => ?_
    rcases hsettled r with hr | hr <;>
    · simp only [afterOps, updateOp, rankOp, isCreated, hr]
      cases s.window.canSend r <;> decide
  simp only [deleteMark, hfst, hloop]
  rfl

/-- OK in the BreakpointDialog performs one operation per rank and folds. -/
theorem applyDialog_eq (s : Session n) (b : BkptId) (isNew : Bool) {bp bp' : Breakpoint n}
    (buttonStates : Fin n → Bool) {stopAll : Bool} (hbp : bp' = { bp with stopAll := stopAll }) :
    s.applyDialog b isNew bp buttonStates stopAll =
      let op := updateOp buttonStates (bp', s.window)
      let folded := (bp'.afterOps op).updateStates
      let closed := { s.operated b bp' folded op with dialog := none }
      match updateMessage (bp'.afterOps op) folded with
      | some message => { closed with dialog := some (.updated b isNew message) }
      | none => closed.finish b isNew folded := by
  subst hbp
  simp only [applyDialog, updateBreakpoints, updateLoop_eq]
  rfl

/-- Before a click, with no dialog open, no deletion is under way. -/
theorem isDeleting_of_dialog {s : Session n} {b : BkptId}
    (h : ∀ message, s.dialog ≠ some (.deleting b message)) : s.isDeleting b = false := by
  unfold isDeleting
  split
  · rename_i c message hd
    rw [decide_eq_false_iff_not]
    rintro rfl
    exact h message hd
  · rfl

/-- A new Breakpoint is created nowhere and has sent nothing. -/
theorem Inv.create {s : Session n} (h : Inv s) (hclosed : ∀ b, s.isDeleting b = false)
    {fullpath : Bytes} {line : Nat} : Inv (s.createMark fullpath line) where
  objects_lt := by
    intro c hc
    simp only [createMark, Tracker.store, Function.update_apply] at hc ⊢
    split at hc
    · rename_i hcb
      exact hcb ▸ Nat.lt_succ_self _
    · exact Nat.lt_succ_of_lt (h.objects_lt c hc)
  refers_lt := fun c hc => Nat.lt_succ_of_lt (h.refers_lt c hc)
  senders_lt := fun r p hp => Nat.lt_succ_of_lt (h.senders_lt r p hp)
  states := by
    intro c bp hc r
    have hopen : (s.createMark fullpath line).isDeleting c = s.isDeleting c := by
      rw [hclosed c]
      rfl
    simp only [createMark, Tracker.store, Function.update_apply] at hc
    rw [shown, hopen]
    split at hc
    · rename_i hcb
      obtain rfl := Option.some.inj hc
      have hfresh : s.window.held c r = false := by
        apply Tracker.held_of_not_sent
        intro p hp
        exact hcb ▸ Nat.ne_of_lt (h.senders_lt r p hp)
      have hheld : (s.createMark fullpath line).window.held c r = false := hfresh
      rw [hheld]
      rfl
    · exact h.states c bp hc r

theorem Inv.finish {s : Session n} (h : Inv s) (b : BkptId) (isNew : Bool)
    (bp : Breakpoint n) : Inv (s.finish b isNew bp) := by
  unfold Session.finish endCreate endEdit clearMark
  split
  · split
    · exact h.congr rfl rfl fun _ => rfl
    · exact h.free b
  · split
    · exact h
    · exact (h.free b).congr rfl rfl fun _ => rfl

theorem Inv.step {s t : Session n} {a : Act n} (h : Inv s) (hstep : s.next a = some t) :
    Inv t := by
  cases next_step hstep with
  | nothing hd hm => exact h
  | create hd hm => exact h.create fun b => isDeleting_of_dialog (by simp [hd])
  | edit hd hm =>
      refine h.congr rfl rfl fun b => ?_
      simp [isDeleting, editMark, hd]
  | @delete fullpath line b bp hd hm hobj =>
      have hclosed : ∀ c, s.isDeleting c = false := fun c => isDeleting_of_dialog (by simp [hd])
      have hsettled := h.settled hobj (hclosed b)
      rw [deleteMark_eq b fun r => by rw [hsettled r]; cases s.window.held b r <;> simp]
      simp only
      split
      · have hoperated : Inv
            (s.operated b bp (bp.afterOps (s.deleteOp bp)).updateStates (s.deleteOp bp)) := by
          refine h.operate (by simp [hobj]) rfl rfl (fun _ _ => rfl) fun r => ?_
          rw [h.fold_states hobj (hclosed b) rfl]
          simp [shown, isDeleting, operated, hd]
        exact (hoperated.free b).congr rfl rfl fun _ => rfl
      · refine h.operate (by simp [hobj]) rfl rfl (fun c hcb => ?_) fun r => ?_
        · simp [isDeleting, hd, hcb.symm]
        · simp only [afterOps, updateOp, hsettled r, shown, isDeleting, decide_true, if_true]
          cases s.window.held b r <;> cases s.window.canSend r <;> rfl
  | cancel hd =>
      refine h.congr rfl rfl fun b => ?_
      simp [isDeleting, hd]
  | @accept b isNew bp buttonStates stopAll hd hobj =>
      have hclosed : ∀ c, s.isDeleting c = false := fun c => isDeleting_of_dialog (by simp [hd])
      obtain ⟨bp', hflag⟩ : ∃ bp', bp' = { bp with stopAll := stopAll } := ⟨_, rfl⟩
      have hsame : bp'.state = bp.state := by rw [hflag]
      have hfold := h.fold_states hobj (hclosed b) hsame buttonStates
      rw [applyDialog_eq s b isNew buttonStates hflag]
      simp only
      split
      · refine h.operate (by simp [hobj]) rfl rfl (fun c _ => ?_) fun r => ?_
        · simp [isDeleting, hd]
        · rw [hfold]
          simp [shown, isDeleting]
      · apply Inv.finish
        refine h.operate (by simp [hobj]) rfl rfl (fun c _ => ?_) fun r => ?_
        · simp [isDeleting, hd]
        · rw [hfold]
          simp [shown, isDeleting]
  | updated hd hobj =>
      apply Inv.finish
      refine h.congr rfl rfl fun b => ?_
      simp [isDeleting, hd]
  | @deleting b message bp hd hobj =>
      have hkeep : s.window.store b bp.updateStates =
          (s.window.afterOps b bp fun _ => .keep).store b bp.updateStates := by
        simp [Tracker.afterOps, Tracker.store, RankOp.slot, RankOp.sent]
      refine h.operate (by simp [hobj]) hkeep rfl (fun c hcb => ?_) fun r => ?_
      · simp [isDeleting, hd, hcb.symm]
      · have hs := h.states b bp hobj r
        simp only [updateStates, hs, shown, isDeleting, hd, decide_true, if_true,
          Tracker.heldAfter]
        cases s.window.held b r <;> rfl
  | response ht => exact h.response ht
  | connect => exact ⟨h.objects_lt, h.refers_lt, h.senders_lt, h.states⟩

end Session

end ParallelGdb
