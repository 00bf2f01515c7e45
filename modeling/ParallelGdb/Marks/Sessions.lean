import ParallelGdb.Marks.Correspondence
import ParallelGdb.Session.System

/-!
# Sessions are runs of the line marks

A session keeps the Breakpoints that have a line mark and handles responses; the model
of the line marks keeps the buffers of the pages and leaves open what goes on around
the calls. Every run of a session is a run of the line marks with the same window, so
what holds of the marks holds in every session.
-/

namespace ParallelGdb

open Library.CString Library.Transition Breakpoint

variable {n : Nat}

namespace Session

/-- The window is the same, and the marks hold the same Breakpoints. -/
structure SameMarks (s : Session n) (e : Editor n) : Prop where
  window : e.window = s.window
  nextId : e.nextId = s.nextId
  marks : ∀ b, b ∈ s.marks ↔ ∃ path, ∃ mark ∈ (e.buffers path).marks, mark.breakpoint = b

/-- The same call waits in the same dialog. -/
inductive SameDialog : Option Dialog → Option MarkDialog → Prop
  | closed : SameDialog none none
  | config (call : MarkCall) :
      SameDialog (some (.config call.breakpoint call.op.isNew)) (some (.config call))
  | updated (call : MarkCall) (message : Bytes) :
      SameDialog (some (.updated call.breakpoint call.op.isNew message)) (some (.updated call))
  | deleting (call : MarkCall) (message : Bytes) :
      SameDialog (some (.deleting call.breakpoint message)) (some (.deleting call))

structure Agrees (s : Session n) (e : Editor n) : Prop where
  same : SameMarks s e
  dialog : SameDialog s.dialog e.dialog

section Calls

variable {s : Session n} {e : Editor n} {x : Option BkptId} {b : BkptId} {bp : Breakpoint n}

/-- A click finds the Breakpoint of the mark it finds. -/
theorem SameMarks.markAt (h : SameMarks s e) (hmarked : e.Marked x) (path : Bytes) (line : Nat) :
    s.markAt path line = (e.markAt path line).map LineMark.breakpoint := by
  -- The Breakpoint that is found belongs to a mark of this line.
  have hfound {b : BkptId} (hb : s.markAt path line = some b) :
      ∃ mark, e.markAt path line = some mark ∧ mark.breakpoint = b := by
    have hp := List.find?_some hb
    obtain ⟨path', mark, hm, rfl⟩ := (h.marks b).mp (List.mem_of_find?_eq_some hb)
    obtain ⟨bp, hobj, hpath, hline, -⟩ := hmarked.holds path' mark hm
    rw [h.window] at hobj
    simp only [hobj, Bool.and_eq_true, decide_eq_true_eq] at hp
    obtain rfl : path' = path := hpath.symm.trans hp.1
    have hsame : mark.line = line := by omega
    exact ⟨mark, hsame ▸ hmarked.markAt hm, rfl⟩
  cases hsession : s.markAt path line with
  | some b =>
      obtain ⟨mark, hmark, rfl⟩ := hfound hsession
      rw [hmark, Option.map_some]
  | none =>
      cases hmark : e.markAt path line with
      | none => rfl
      | some mark =>
          obtain ⟨hm, rfl⟩ := Editor.markAt_eq_some hmark
          obtain ⟨bp, hobj, hpath, hline, -⟩ := hmarked.holds path mark hm
          have hnone := List.find?_eq_none.mp hsession mark.breakpoint
            ((h.marks _).mpr ⟨path, mark, hm, rfl⟩)
          rw [← h.window] at hnone
          simp [hobj, hpath, hline] at hnone

/-- `clear_mark` takes the same mark away. -/
theorem SameMarks.clearMark (h : SameMarks s e) (hmarked : e.Marked x) {path : Bytes}
    {mark : LineMark} (hm : mark ∈ (e.buffers path).marks) {u : Editor n}
    (hu : e.clearMark path mark mark.breakpoint = some u) :
    SameMarks (s.clearMark mark.breakpoint) u ∧ u.dialog = e.dialog := by
  obtain ⟨bp, hobj, hu⟩ := Option.bind_eq_some_iff.mp hu
  obtain ⟨lines, hlines, hu⟩ := Option.bind_eq_some_iff.mp hu
  obtain rfl := Option.some.inj hu
  obtain ⟨hmem, -⟩ := (hmarked.buffers path).delete hm
  refine ⟨⟨congrArg (Tracker.free · mark.breakpoint) h.window, h.nextId, fun b => ?_⟩, rfl⟩
  rw [Session.clearMark, List.mem_filter, decide_eq_true_eq, h.marks]
  constructor
  · rintro ⟨⟨path', other, ho, rfl⟩, hne⟩
    refine ⟨path', other, ?_, rfl⟩
    by_cases hp : path' = path
    · subst hp
      simp only [Editor.setBuffer, Function.update_self]
      exact (hmem other).mpr ⟨ho, fun heq => hne (congrArg LineMark.breakpoint heq)⟩
    · simp only [Editor.setBuffer, Function.update_of_ne hp]
      exact ho
  · rintro ⟨path', other, ho, rfl⟩
    by_cases hp : path' = path
    · subst hp
      simp only [Editor.setBuffer, Function.update_self] at ho
      obtain ⟨ho, hne⟩ := (hmem other).mp ho
      exact ⟨⟨path', other, ho, rfl⟩, fun hb => hne (hmarked.eq_of_breakpoint ho hm hb).2⟩
    · simp only [Editor.setBuffer, Function.update_of_ne hp] at ho
      exact ⟨⟨path', other, ho, rfl⟩, fun hb => hp (hmarked.eq_of_breakpoint ho hm hb).1⟩

/-- A new mark. -/
theorem SameMarks.place (h : SameMarks s e) (hmarked : e.Marked x) {path : Bytes} {line : Nat}
    (hfree : ∀ mark ∈ (e.buffers path).marks, mark.line ≠ line) (b : BkptId)
    (bp : Breakpoint n) :
    SameMarks (s.endCreate b bp) (e.endCreate path line b bp) := by
  obtain ⟨hmarks, -⟩ := (hmarked.buffers path).create b hfree
  unfold Session.endCreate Editor.endCreate
  split
  · refine ⟨h.window, h.nextId, fun c => ?_⟩
    rw [List.mem_cons, h.marks]
    constructor
    · rintro (rfl | ⟨path', mark, hm, rfl⟩)
      · refine ⟨path, ⟨decimal line, line, c⟩, ?_, rfl⟩
        simp [Editor.setBuffer, hmarks]
      · refine ⟨path', mark, ?_, rfl⟩
        by_cases hp : path' = path
        · subst hp
          simp [Editor.setBuffer, hmarks, hm]
        · simpa [Editor.setBuffer, Function.update_of_ne hp] using hm
    · rintro ⟨path', mark, hm, rfl⟩
      by_cases hp : path' = path
      · subst hp
        simp only [Editor.setBuffer, Function.update_self, hmarks, List.mem_append,
          List.mem_singleton] at hm
        rcases hm with hm | rfl
        · exact Or.inr ⟨path', mark, hm, rfl⟩
        · exact Or.inl rfl
      · simp only [Editor.setBuffer, Function.update_of_ne hp] at hm
        exact Or.inr ⟨path', mark, hm, rfl⟩
  · exact ⟨congrArg (Tracker.free · b) h.window, h.nextId, h.marks⟩

theorem dialog_finish (s : Session n) (b : BkptId) (isNew : Bool) (bp : Breakpoint n) :
    (s.finish b isNew bp).dialog = s.dialog := by
  unfold finish endCreate endEdit
  cases isNew <;> cases bp.oneCreated <;> rfl

/-- `create_mark` or `edit_mark` goes on in the same way. -/
theorem SameMarks.finish (h : SameMarks s e) {call : MarkCall}
    (hmarked : e.Marked (some call.breakpoint)) (hknows : e.Knows call bp) {u : Editor n}
    (hu : e.finish call bp = some u) :
    SameMarks (s.finish call.breakpoint call.op.isNew bp) u ∧ u.dialog = e.dialog := by
  obtain ⟨-, hop⟩ := hknows
  unfold Editor.finish at hu
  unfold Session.finish
  cases hcall : call.op with
  | create line =>
      simp only [hcall] at hop hu
      obtain rfl := Option.some.inj hu
      refine ⟨h.place hmarked hop.2.2.2 call.breakpoint bp, ?_⟩
      unfold Editor.endCreate
      split <;> rfl
  | edit mark =>
      simp only [hcall] at hop hu
      obtain ⟨hm, hb⟩ := hop
      rw [← hb] at hu ⊢
      simp only [MarkOp.isNew, Bool.false_eq_true, if_false, Session.endEdit]
      rw [Editor.endEdit] at hu
      cases hcreated : bp.oneCreated with
      | true =>
          rw [hcreated, if_pos rfl] at hu
          obtain rfl := Option.some.inj hu
          exact ⟨h, rfl⟩
      | false =>
          rw [hcreated, if_neg Bool.false_ne_true] at hu
          exact h.clearMark hmarked hm hu

/-- `delete_mark`. -/
theorem SameMarks.deleteMark (h : SameMarks s e) (hinv : e.Inv) (hclosed : s.dialog = none)
    (hclosed' : e.dialog = none) {path : Bytes} {mark : LineMark}
    (hm : mark ∈ (e.buffers path).marks) (hobj : e.window.objects mark.breakpoint = some bp)
    {u : Editor n} (hu : e.deleteMark path mark = some u) :
    Agrees (s.deleteMark mark.breakpoint bp) u := by
  have hmarked : e.Marked none := hinv.marked_of (by rw [hclosed']; rfl)
  obtain ⟨hpath, hline, hobjects⟩ := Editor.deleteLoop_frame mark.breakpoint bp e.window
  simp only [Editor.deleteMark, hobj, Option.bind_eq_bind, Option.bind_some] at hu
  simp only [Session.deleteMark, ← h.window]
  generalize deleteLoop mark.breakpoint (bp, e.window) = out at hpath hline hobjects hu ⊢
  obtain ⟨deleted, bp', t⟩ := out
  simp only at hpath hline hobjects hu ⊢
  cases deleted with
  | true =>
      have hstored := hmarked.store (Or.inl rfl) hobj bp'.updateStates hpath hline hobjects e.dialog
      have hsame : SameMarks { s with window := t.store mark.breakpoint bp'.updateStates }
          { e with window := t.store mark.breakpoint bp'.updateStates } :=
        ⟨rfl, h.nextId, h.marks⟩
      obtain ⟨hcleared, hdialog⟩ := hsame.clearMark hstored hm hu
      refine ⟨hcleared, ?_⟩
      rw [hdialog, hclosed']
      simp only [if_true, Session.clearMark, hclosed]
      exact .closed
  | false =>
      obtain rfl := Option.some.inj hu
      exact ⟨⟨rfl, h.nextId, h.marks⟩, .deleting ⟨path, mark.breakpoint, .edit mark⟩ _⟩

/-- OK in the BreakpointDialog. -/
theorem SameMarks.applyDialog (h : SameMarks s e) (hinv : e.Inv) {call : MarkCall}
    (hdialog : e.dialog = some (.config call)) (hknows : e.Knows call bp)
    (buttonStates : Fin n → Bool) (stopAll : Bool) {u : Editor n}
    (hu : e.applyDialog call bp buttonStates stopAll = some u) :
    Agrees (s.applyDialog call.breakpoint call.op.isNew bp buttonStates stopAll) u := by
  have hmarked : e.Marked none := hinv.marked_of (by rw [hdialog]; rfl)
  obtain ⟨hpath, hline, hsettled, hobjects⟩ :=
    Editor.updateBreakpoints_frame call.breakpoint buttonStates
    { bp with stopAll := stopAll } e.window
  simp only [Editor.applyDialog] at hu
  simp only [Session.applyDialog, ← h.window]
  generalize updateBreakpoints call.breakpoint buttonStates
    ({ bp with stopAll := stopAll }, e.window) = out at hpath hline hsettled hobjects hu ⊢
  obtain ⟨message, bp', t⟩ := out
  simp only at hpath hline hsettled hobjects hu ⊢
  have hstored := hmarked.store (Or.inl rfl) hknows.1 bp' hpath hline hobjects
  cases message with
  | some message =>
      obtain rfl := Option.some.inj hu
      exact ⟨⟨rfl, h.nextId, h.marks⟩, .updated call message⟩
  | none =>
      have hsame : SameMarks { s with window := t.store call.breakpoint bp', dialog := none }
          { e with window := t.store call.breakpoint bp', dialog := none } :=
        ⟨rfl, h.nextId, h.marks⟩
      obtain ⟨hfinished, hclosed⟩ := hsame.finish (hstored none)
        (hknows.store hpath hline t none) hu
      refine ⟨hfinished, ?_⟩
      rw [dialog_finish, hclosed]
      exact .closed

end Calls

section Steps

variable {s s' : Session n} {e : Editor n}

/-- Where no dialog is open in a session, none is open over the line marks. -/
theorem Agrees.closed (h : Agrees s e) (hclosed : s.dialog = none) : e.dialog = none := by
  have hsame := h.dialog
  rw [hclosed] at hsame
  generalize e.dialog = dialog at hsame ⊢
  cases hsame with
  | closed => rfl

theorem Agrees.config (h : Agrees s e) {b : BkptId} {isNew : Bool}
    (hdialog : s.dialog = some (.config b isNew)) :
    ∃ call, e.dialog = some (.config call) ∧ call.breakpoint = b ∧ call.op.isNew = isNew := by
  have hsame := h.dialog
  rw [hdialog] at hsame
  generalize e.dialog = dialog at hsame ⊢
  cases hsame with
  | config call => exact ⟨call, rfl, rfl, rfl⟩

theorem Agrees.updated (h : Agrees s e) {b : BkptId} {isNew : Bool} {message : Bytes}
    (hdialog : s.dialog = some (.updated b isNew message)) :
    ∃ call, e.dialog = some (.updated call) ∧ call.breakpoint = b ∧ call.op.isNew = isNew := by
  have hsame := h.dialog
  rw [hdialog] at hsame
  generalize e.dialog = dialog at hsame ⊢
  cases hsame with
  | updated call => exact ⟨call, rfl, rfl, rfl⟩

theorem Agrees.deleting (h : Agrees s e) {b : BkptId} {message : Bytes}
    (hdialog : s.dialog = some (.deleting b message)) :
    ∃ call, e.dialog = some (.deleting call) ∧ call.breakpoint = b := by
  have hsame := h.dialog
  rw [hdialog] at hsame
  generalize e.dialog = dialog at hsame ⊢
  cases hsame with
  | deleting call => exact ⟨call, rfl, rfl⟩

/-- What leaves the Breakpoints alone gives them the numbers they have. -/
theorem renumbered_of_objects {t u : Tracker n} (h : u.objects = t.objects) :
    ∃ numbers, u = Editor.renumbered t u numbers := by
  refine ⟨fun b => ((t.objects b).map Breakpoint.numbers).getD fun _ => 0, ?_⟩
  have hobjects : (fun b => (t.objects b).map fun bp =>
      { bp with numbers := ((t.objects b).map Breakpoint.numbers).getD fun _ => 0 }) =
      u.objects := by
    funext b
    rw [h]
    cases t.objects b <;> rfl
  rw [Editor.renumbered, hobjects]

/-- A click. -/
theorem Agrees.click (h : Agrees s e) (hinv : e.Inv) {secondary : Bool} {path : Bytes}
    {line : Nat} (hstep : s.next (.click secondary path line) = some s') :
    ∃ e', e.next (.click secondary path line) = some e' ∧ Agrees s' e' := by
  obtain ⟨hclosed, hstep⟩ := Option.ite_none_right_eq_some.mp hstep
  have hclosed' := h.closed hclosed
  have hmarked : e.Marked none := hinv.marked_of (by rw [hclosed']; rfl)
  obtain ⟨u, hu, -⟩ := hinv.next (a := .click secondary path line) hclosed'
  refine ⟨u, hu, ?_⟩
  simp only [Editor.next, hclosed', Option.isNone_none, if_true, Editor.onLineMarkClicked] at hu
  rw [h.same.markAt hmarked] at hstep
  cases hmark : e.markAt path line with
  | none =>
      simp only [hmark] at hu
      simp only [hmark, Option.map_none] at hstep
      obtain rfl := Option.some.inj hu
      obtain rfl := Option.some.inj hstep
      cases secondary with
      | true => exact h
      | false =>
          simp only [Editor.createMark, Session.createMark, Bool.false_eq_true, if_false,
            h.same.window, h.same.nextId]
          exact ⟨⟨rfl, rfl, h.same.marks⟩, .config ⟨path, s.nextId, .create line⟩⟩
  | some mark =>
      obtain ⟨hm, -⟩ := Editor.markAt_eq_some hmark
      obtain ⟨bp, hobj, -⟩ := hmarked.holds path mark hm
      simp only [hmark] at hu
      simp only [hmark, Option.map_some] at hstep
      cases secondary with
      | true =>
          simp only [if_true] at hu hstep
          obtain ⟨-, -, rfl⟩ := Option.map_eq_some_iff.mp hu
          obtain rfl := Option.some.inj hstep
          exact ⟨⟨h.same.window, h.same.nextId, h.same.marks⟩,
            .config ⟨path, mark.breakpoint, .edit mark⟩⟩
      | false =>
          simp only [Bool.false_eq_true, if_false] at hu hstep
          rw [← h.same.window, hobj, Option.map_some] at hstep
          obtain rfl := Option.some.inj hstep
          exact h.same.deleteMark hinv hclosed hclosed' hm hobj hu

/-- Every step of a session is a step of the line marks. -/
theorem Agrees.step (h : Agrees s e) (hinv : e.Inv) {a : Act n} (hstep : s.next a = some s') :
    ∃ b e', e.next b = some e' ∧ Agrees s' e' := by
  cases a with
  | click secondary path line =>
      obtain ⟨e', he', hagrees⟩ := h.click hinv hstep
      exact ⟨_, e', he', hagrees⟩
  | cancel =>
      rw [next] at hstep
      split at hstep
      · rename_i b isNew hdialog
        obtain rfl := Option.some.inj hstep
        obtain ⟨call, he, -⟩ := h.config hdialog
        refine ⟨.cancel, { e with dialog := none }, by simp only [Editor.next, he], ?_⟩
        exact ⟨⟨h.same.window, h.same.nextId, h.same.marks⟩, .closed⟩
      · cases hstep
  | accept buttonStates stopAll =>
      rw [next] at hstep
      split at hstep
      · rename_i b isNew hdialog
        obtain ⟨bp, hobj, rfl⟩ := Option.map_eq_some_iff.mp hstep
        obtain ⟨call, he, rfl, rfl⟩ := h.config hdialog
        obtain ⟨bp', hknows⟩ := hinv.dialog _ he
        obtain rfl : bp' = bp := by
          have hobj' := hknows.1
          rw [h.same.window, hobj] at hobj'
          exact (Option.some.inj hobj').symm
        obtain ⟨u, hu, -⟩ := hinv.applyDialog he hknows buttonStates stopAll
        refine ⟨.accept buttonStates stopAll, u, ?_,
          h.same.applyDialog hinv he hknows buttonStates stopAll hu⟩
        simp only [Editor.next, he, hknows.1, Option.bind_eq_bind, Option.bind_some]
        exact hu
      · cases hstep
  | dismiss =>
      rw [next] at hstep
      split at hstep
      · rename_i b isNew message hdialog
        obtain ⟨bp, hobj, rfl⟩ := Option.map_eq_some_iff.mp hstep
        obtain ⟨call, he, rfl, rfl⟩ := h.updated hdialog
        obtain ⟨bp', hknows, hsettled⟩ := hinv.dialog _ he
        obtain rfl : bp' = bp := by
          have hobj' := hknows.1
          rw [h.same.window, hobj] at hobj'
          exact (Option.some.inj hobj').symm
        have hmarked : Editor.Marked (some call.breakpoint) { e with dialog := none } := by
          have hmarked := hinv.marked_of (x := some call.breakpoint) (by rw [he]; rfl)
          exact ⟨hmarked.buffers, hmarked.fresh, hmarked.holds⟩
        have hsame : SameMarks { s with dialog := none } { e with dialog := none } :=
          ⟨h.same.window, h.same.nextId, h.same.marks⟩
        obtain ⟨u, hu, -⟩ := hmarked.finish hknows hsettled rfl
        obtain ⟨hfinished, hclosed⟩ := hsame.finish hmarked hknows hu
        refine ⟨.dismiss, u, ?_, hfinished, ?_⟩
        · simp only [Editor.next, he, hknows.1, Option.bind_eq_bind, Option.bind_some]
          exact hu
        · rw [dialog_finish, hclosed]
          exact .closed
      · rename_i b message hdialog
        obtain ⟨bp, hobj, rfl⟩ := Option.map_eq_some_iff.mp hstep
        obtain ⟨call, he, rfl⟩ := h.deleting hdialog
        rw [← h.same.window] at hobj
        refine ⟨.dismiss, { e with
          window := e.window.store call.breakpoint bp.updateStates, dialog := none }, ?_,
          ⟨congrArg (Tracker.store · call.breakpoint bp.updateStates) h.same.window,
            h.same.nextId, h.same.marks⟩, .closed⟩
        simp only [Editor.next, he, hobj, Option.bind_eq_bind, Option.bind_some, pure]
      · cases hstep
  | response first r =>
      rw [next] at hstep
      split at hstep
      · rename_i t ht
        obtain rfl := Option.some.inj hstep
        rw [← h.same.window] at ht
        obtain ⟨numbers, hnumbers⟩ := Editor.handleResponse_renumbered ht
        refine ⟨.environment t numbers, { e with window := t }, ?_,
          ⟨rfl, h.same.nextId, h.same.marks⟩, h.dialog⟩
        rw [Editor.next, ← hnumbers]
      · cases hstep
  | connect r gdb trgt =>
      obtain rfl := Option.some.inj hstep
      generalize ht : ({ s.window with
        connsGdb := Function.update s.window.connsGdb r gdb
        connsTrgt := Function.update s.window.connsTrgt r trgt } : Tracker n) = t
      have hobjects : t.objects = e.window.objects := by
        rw [← ht, h.same.window]
      obtain ⟨numbers, hnumbers⟩ := renumbered_of_objects hobjects
      refine ⟨.environment t numbers, { e with window := t }, ?_,
        ⟨rfl, h.same.nextId, h.same.marks⟩, h.dialog⟩
      rw [Editor.next, ← hnumbers]

/-- Every run of a session is a run of the line marks. -/
theorem reachable_agrees (hs : Reachable (system n) s) :
    ∃ e, Reachable (Editor.system n) e ∧ Agrees s e := by
  refine hs.simulated (R := Agrees) ?_ ?_
  · rintro s rfl
    refine ⟨Editor.init n, rfl, ⟨rfl, rfl, fun b => ?_⟩, .closed⟩
    simp [Session.init, Editor.init]
  · intro s a s' e he hagrees hstep
    obtain ⟨b, e', he', hagrees'⟩ := hagrees.step (Editor.inv_reachable he) hstep
    exact ⟨e', Or.inr ⟨b, he'⟩, hagrees'⟩

/-- Between the calls each mark of a session holds a Breakpoint of its own, which is
settled and created somewhere, and no two of them name the same line. -/
theorem reachable_marks (hs : Reachable (system n) s) (hclosed : s.dialog = none) :
    (∀ b ∈ s.marks, ∃ bp, s.window.objects b = some bp ∧ bp.Settled ∧ bp.oneCreated = true) ∧
      ∀ b ∈ s.marks, ∀ c ∈ s.marks, ∀ bp bp', s.window.objects b = some bp →
        s.window.objects c = some bp' → bp.fullPath = bp'.fullPath → bp.line = bp'.line →
        b = c := by
  obtain ⟨e, he, hagrees⟩ := reachable_agrees hs
  have hmarked : e.Marked none :=
    (Editor.inv_reachable he).marked_of (by rw [hagrees.closed hclosed]; rfl)
  refine ⟨fun b hb => ?_, fun b hb c hc bp bp' hobj hobj' hpath hline => ?_⟩
  · obtain ⟨path, mark, hm, rfl⟩ := (hagrees.same.marks b).mp hb
    obtain ⟨bp, hobj, -, -, hrest⟩ := hmarked.holds path mark hm
    rw [hagrees.same.window] at hobj
    exact ⟨bp, hobj, hrest (by simp)⟩
  · obtain ⟨path, mark, hm, rfl⟩ := (hagrees.same.marks b).mp hb
    obtain ⟨path', mark', hm', rfl⟩ := (hagrees.same.marks c).mp hc
    obtain ⟨_, hheld, rfl, hmark, -⟩ := hmarked.holds path mark hm
    obtain ⟨_, hheld', rfl, hmark', -⟩ := hmarked.holds path' mark' hm'
    rw [hagrees.same.window] at hheld hheld'
    obtain rfl := Option.some.inj (hheld.symm.trans hobj)
    obtain rfl := Option.some.inj (hheld'.symm.trans hobj')
    rw [← hpath] at hm'
    rw [(hmarked.buffers _).eq_of_line hm hm' (by omega)]

/-- Two lines are marked, and the dialog of the first one is opened once more. -/
theorem twoLines_marks : ∃ s : Session 1, s.marks.length = 2 ∧
    ∀ b ∈ s.marks, ∃ bp, s.window.objects b = some bp ∧ bp.Settled ∧ bp.oneCreated = true := by
  obtain ⟨s, hs, hp⟩ := (Reachable.start (M := system 1) rfl).replay_any
    [.connect 0 true true, .response [{ tclass := .stopped }] 0,
      .click false (ascii "/a.c") 4, .accept (fun _ => true) true,
      .click false (ascii "/a.c") 7, .accept (fun _ => true) false,
      .response [insertedRecord 2] 0, .response [insertedRecord 3] 0,
      .click true (ascii "/a.c") 4, .cancel]
    (fun s => s.dialog.isNone && s.marks.length = 2) (by decide +kernel)
  simp only [Bool.and_eq_true, Option.isNone_iff_eq_none, decide_eq_true_eq] at hp
  exact ⟨s, hp.2, (reachable_marks hs hp.1).1⟩

end Steps

end Session

end ParallelGdb
