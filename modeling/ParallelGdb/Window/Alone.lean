import ParallelGdb.Mi.Extent
import ParallelGdb.Window.Chunk
import ParallelGdb.Window.Status

/-!
# A rank by itself

What a GDB writes tells the window about its own rank, and of the window's state it
reads the part that came from the same GDB. So a rank is shown as it would be by a
window of its own, without other ranks and without Breakpoints.
-/

namespace ParallelGdb

open Library.CString Mi

/-- What the output of its GDB makes of a rank. -/
structure Output where
  gdbHandle : List MiOutput
  status : Status
  textBufferGdb : Bytes

/-- What a record of the stream adds to a text buffer. -/
def streamText (text : Bytes) (o : MiOutput) : Bytes :=
  if o.type = .outOfBand && o.stype = .stream then
    match getCstr o with
    | some s => insertText text s
    | none => text
  else text

namespace Tracker

variable {n : Nat}

def output (t : Tracker n) (r : Fin n) : Output where
  gdbHandle := t.gdbHandle r
  status := t.status r
  textBufferGdb := t.textBuffersGdb r

/-- No Breakpoint was ever inserted. -/
structure NoBreakpoints (t : Tracker n) : Prop where
  bkptno2Bkpt : t.bkptno2Bkpt = fun _ _ => none
  breakpoints : t.breakpoints = fun _ => none

theorem NoBreakpoints.init : NoBreakpoints (Tracker.init n) := ⟨rfl, rfl⟩

theorem NoBreakpoints.sameLinks {t u : Tracker n} (h : NoBreakpoints t) (hu : SameLinks t u) :
    NoBreakpoints u :=
  ⟨hu.bkptno2Bkpt.trans h.bkptno2Bkpt, hu.breakpoints.trans h.breakpoints⟩

section Text

theorem text_parseTargetState (first : List MiOutput) (r : Fin n) (t : Tracker n) :
    (t.parseTargetState first r).textBuffersGdb r = first.foldl streamText (t.textBuffersGdb r) := by
  have hstep : ∀ (t : Tracker n) (o : MiOutput),
      (parseTargetStateStep r t o).textBuffersGdb r = streamText (t.textBuffersGdb r) o := by
    intro t o
    have hclass : (t.applyClass r o.tclass).textBuffersGdb = t.textBuffersGdb := by
      cases o.tclass <;> rfl
    unfold parseTargetStateStep applyStream streamText
    rw [hclass]
    split
    · cases getCstr o <;> simp [hclass]
    · rw [hclass]
  unfold parseTargetState
  induction first generalizing t with
  | nil => rfl
  | cons o rest ih => rw [List.foldl_cons, List.foldl_cons, ih, hstep]

theorem text_parseTargetState_of_ne {q r : Fin n} (h : q ≠ r) (first : List MiOutput)
    (t : Tracker n) : (t.parseTargetState first r).textBuffersGdb q = t.textBuffersGdb q := by
  have hstep : ∀ (t : Tracker n) (o : MiOutput),
      (parseTargetStateStep r t o).textBuffersGdb q = t.textBuffersGdb q := by
    intro t o
    have hclass : (t.applyClass r o.tclass).textBuffersGdb = t.textBuffersGdb := by
      cases o.tclass <;> rfl
    unfold parseTargetStateStep applyStream
    split
    · cases getCstr o <;> simp [hclass, Function.update_of_ne h]
    · rw [hclass]
  unfold parseTargetState
  induction first generalizing t with
  | nil => rfl
  | cons o rest ih => rw [List.foldl_cons, ih, hstep]

theorem text_parseStopRecord {first : List MiOutput} {r : Fin n} {t u : Tracker n}
    (h : t.parseStopRecord first r = .ok u) : u.textBuffersGdb = t.textBuffersGdb := by
  obtain ⟨-, rfl⟩ | ⟨o, stop, -, -, hu⟩ := parseStopRecord_cases h
  · rfl
  · obtain ⟨v, hv, rfl⟩ := applyStop_cases hu
    have hexit : (v.recordExit stop r).textBuffersGdb = v.textBuffersGdb := by
      unfold recordExit
      split <;> rfl
    have hposition : ((v.recordExit stop r).recordPosition stop r).textBuffersGdb =
        (v.recordExit stop r).textBuffersGdb := by
      unfold recordPosition
      split <;> rfl
    rw [hposition, hexit]
    rcases hv with rfl | ⟨bp, rfl⟩
    · rfl
    · rw [stopAll_eq]

theorem text_handleResponse {first : List MiOutput} {r : Fin n} {t u : Tracker n}
    (h : t.handleResponse first r = .ok u) :
    u.textBuffersGdb = (t.parseTargetState first r).textBuffersGdb := by
  obtain ⟨v, hv, hu⟩ := handleResponse_passes h
  rw [← text_parseStopRecord hv]
  obtain rfl | ⟨b, bp, number, -, -, rfl⟩ := parseBreakpoint_cases hu
  · rfl
  · rfl

end Text

section Others

variable {q r : Fin n} {t u : Tracker n}

theorem output_respond_of_ne (h : q ≠ r) {response : Bool × List MiOutput}
    (hu : t.respond r response = .ok u) : u.output q = t.output q := by
  unfold respond at hu
  split at hu
  · have hhandle := congrFun (gdbHandle_handleResponse hu) q
    have hstatus := status_handleResponse_of_ne h hu
    have htext := congrFun (text_handleResponse hu) q
    rw [text_parseTargetState_of_ne h] at htext
    simp only [Function.update_of_ne h] at hhandle
    simp only [output, hhandle, hstatus, htext]
    rfl
  · obtain rfl := Except.ok.inj hu
    simp only [output, Function.update_of_ne h]
    rfl

/-- What one GDB writes changes nothing of the other ranks. -/
theorem output_handleDataGdb_of_ne (h : q ≠ r) {data : Bytes}
    (hu : t.handleDataGdb r data = .ok u) : u.output q = t.output q := by
  unfold handleDataGdb at hu
  generalize strtok [] (cstr data) = tokens at hu
  induction tokens generalizing t with
  | nil =>
      obtain rfl := Except.ok.inj hu
      rfl
  | cons token rest ih =>
      rw [List.foldlM_cons] at hu
      obtain ⟨v, hv, hrest⟩ := bind_eq_ok.mp hu
      obtain ⟨response, -, hv⟩ := bind_eq_ok.mp hv
      rw [ih hrest, output_respond_of_ne h hv]

end Others

section Alone

variable {r : Fin n} {t u : Tracker n} {t₁ : Tracker 1}

/-- Where the stop record of a response can be read, a window without Breakpoints
handles it. -/
theorem NoBreakpoints.handleResponse_ok (h : NoBreakpoints t₁) {first : List MiOutput}
    {found : Option MiStop} (hfound : miResStop first = .ok found) :
    ∃ u₁, t₁.handleResponse first 0 = .ok u₁ := by
  have hpass : NoBreakpoints (t₁.parseTargetState first 0) :=
    h.sameLinks (sameLinks_parseTargetState first 0 t₁)
  have hstop : ∃ v, (t₁.parseTargetState first 0).parseStopRecord first 0 = .ok v ∧
      v.breakpoints 0 = none := by
    unfold parseStopRecord
    rw [hfound]
    cases found with
    | none => exact ⟨_, rfl, by rw [hpass.breakpoints]⟩
    | some stop =>
        have hnone : stopBreakpoint stop 0 (t₁.parseTargetState first 0) = none := by
          unfold stopBreakpoint
          rw [hpass.bkptno2Bkpt]
          split <;> rfl
        have happly : (t₁.parseTargetState first 0).applyStop stop 0 =
            .ok (((t₁.parseTargetState first 0).recordExit stop 0).recordPosition stop 0) := by
          simp [applyStop, hitBreakpoint, hnone, bind, Except.bind, pure, Except.pure]
        refine ⟨_, happly, ?_⟩
        rw [(sameLinks_applyStop happly).breakpoints, hpass.breakpoints]
  obtain ⟨v, hv, hslot⟩ := hstop
  refine ⟨v, ?_⟩
  simp [handleResponse, hv, parseBreakpoint, hslot, bind, Except.bind]

/-- What a window of many ranks makes of a response, a window of one rank does. -/
theorem handleResponse_alone (h : NoBreakpoints t₁) (hsame : t.output r = t₁.output 0)
    {first : List MiOutput} (hu : t.handleResponse first r = .ok u) :
    ∃ u₁, t₁.handleResponse first 0 = .ok u₁ ∧ NoBreakpoints u₁ ∧ u.output r = u₁.output 0 := by
  have hfound : ∃ found, miResStop first = .ok found := by
    obtain ⟨v, hv, -⟩ := handleResponse_passes hu
    obtain ⟨found, hfound, -⟩ := bind_eq_ok.mp hv
    exact ⟨found, hfound⟩
  obtain ⟨found, hfound⟩ := hfound
  obtain ⟨u₁, hu₁⟩ := h.handleResponse_ok hfound
  have hno : NoBreakpoints u₁ := by
    obtain ⟨v, hlinks, rfl | ⟨b, bp, number, hslot, -, -⟩⟩ := handleResponse_cases hu₁
    · exact h.sameLinks hlinks
    · rw [h.breakpoints] at hslot
      cases hslot
  refine ⟨u₁, hu₁, hno, ?_⟩
  obtain ⟨hhandle, hstatus, htext⟩ := Output.mk.inj hsame
  have hresult := status_handleResponse hu
  have hresult₁ := status_handleResponse hu₁
  rw [hstatus, ← hresult₁] at hresult
  have hwritten := congrFun (text_handleResponse hu) r
  have hwritten₁ := congrFun (text_handleResponse hu₁) 0
  rw [text_parseTargetState, htext, ← text_parseTargetState, ← hwritten₁] at hwritten
  simp only [output, gdbHandle_handleResponse hu, gdbHandle_handleResponse hu₁, hhandle, hresult,
    hwritten]

theorem respond_alone (h : NoBreakpoints t₁) (hsame : t.output r = t₁.output 0)
    {response : Bool × List MiOutput} (hu : t.respond r response = .ok u) :
    ∃ u₁, t₁.respond 0 response = .ok u₁ ∧ NoBreakpoints u₁ ∧ u.output r = u₁.output 0 := by
  unfold respond at hu ⊢
  obtain ⟨hhandle, hstatus, htext⟩ := Output.mk.inj hsame
  split at hu
  · rename_i hcomplete
    rw [if_pos hcomplete]
    have hno : NoBreakpoints { t₁ with gdbHandle := Function.update t₁.gdbHandle 0 [] } :=
      ⟨h.bkptno2Bkpt, h.breakpoints⟩
    refine handleResponse_alone hno ?_ hu
    simp only [output, Function.update_self, htext]
    exact congrArg (fun status => Output.mk [] status _) hstatus
  · rename_i hcomplete
    rw [if_neg hcomplete]
    obtain rfl := Except.ok.inj hu
    refine ⟨_, rfl, ⟨h.bkptno2Bkpt, h.breakpoints⟩, ?_⟩
    simp only [output, Function.update_self, htext]
    exact congrArg (fun status => Output.mk response.2 status _) hstatus

/-- What a window of many ranks makes of a chunk, a window of one rank does. -/
theorem handleDataGdb_alone (h : NoBreakpoints t₁) (hsame : t.output r = t₁.output 0)
    {data : Bytes} (hu : t.handleDataGdb r data = .ok u) :
    ∃ u₁, t₁.handleDataGdb 0 data = .ok u₁ ∧ NoBreakpoints u₁ ∧ u.output r = u₁.output 0 := by
  unfold handleDataGdb at hu ⊢
  generalize strtok [] (cstr data) = tokens at hu ⊢
  induction tokens generalizing t t₁ with
  | nil =>
      obtain rfl := Except.ok.inj hu
      exact ⟨t₁, rfl, h, hsame⟩
  | cons token rest ih =>
      rw [List.foldlM_cons] at hu
      obtain ⟨v, hv, hrest⟩ := bind_eq_ok.mp hu
      obtain ⟨response, hresponse, hv⟩ := bind_eq_ok.mp hv
      obtain ⟨v₁, hv₁, hno, hsame'⟩ := respond_alone h hsame hv
      obtain ⟨u₁, hu₁, hno', hsame''⟩ := ih hno hsame' hrest
      refine ⟨u₁, ?_, hno', hsame''⟩
      have hhandle : t.gdbHandle r = t₁.gdbHandle 0 := congrArg Output.gdbHandle hsame
      rw [hhandle] at hresponse
      rw [List.foldlM_cons]
      refine bind_eq_ok.mpr ⟨v₁, bind_eq_ok.mpr ⟨response, hresponse, hv₁⟩, hu₁⟩

end Alone

end Tracker

end ParallelGdb
