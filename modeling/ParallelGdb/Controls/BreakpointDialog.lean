import ParallelGdb.Controls.Buttons
import ParallelGdb.Marks.Correspondence

/-!
# The BreakpointDialog

The dialog shows for each rank whether the Breakpoint is to exist there, and opens with
what is so. The model of the line marks takes any answer; here the answers are those of
the dialog, and what happens is still a run of that model.
-/

namespace ParallelGdb

open Library.CString Library.CellGrid Library.Transition Breakpoint

variable {n : Nat}

/-- `check-buttons-grid` and `stop-all-checkbutton`. -/
structure BreakpointDialog where
  grid : Grid CheckButton
  stopAll : Bool

namespace BreakpointDialog

/-- The constructor. -/
def new (bp : Breakpoint n) (isNew : Bool) : BreakpointDialog where
  grid := CheckGrid.fill (maxButtonsPerRow n) fun rank => if isNew then true else bp.isCreated rank
  stopAll := bp.stopAll

/-- What the user does in the dialog. -/
inductive Input
  /-- A click on a cell of the grid. -/
  | click (left top : Int)
  | toggleAll
  | stopAll

def handle (n : Nat) (d : BreakpointDialog) : Input → Option BreakpointDialog
  | .click left top => some { d with grid := CheckGrid.click left top d.grid }
  | .toggleAll =>
      (CheckGrid.toggleAll (maxButtonsPerRow n) n d.grid).map fun grid => { d with grid }
  | .stopAll => some { d with stopAll := !d.stopAll }

/-- `on_dialog_response` for OK: the flags of the ranks and of `set_stop_all`. -/
def response (n : Nat) (d : BreakpointDialog) : Option ((Fin n → Bool) × Bool) :=
  (CheckGrid.buttonStates (maxButtonsPerRow n) n d.grid).map fun states => (states, d.stopAll)

/-- The dialog shows these flags. -/
structure Shows (d : BreakpointDialog) (answer : (Fin n → Bool) × Bool) : Prop where
  grid : CheckGrid.Holds (maxButtonsPerRow n) answer.1 d.grid
  stopAll : d.stopAll = answer.2

variable {d : BreakpointDialog} {answer : (Fin n → Bool) × Bool}

theorem shows_new (bp : Breakpoint n) (isNew : Bool) :
    Shows (new bp isNew) (fun rank => if isNew then true else bp.isCreated rank, bp.stopAll) :=
  ⟨CheckGrid.holds_fill _ _, rfl⟩

theorem Shows.response (h : Shows d answer) : d.response n = some answer := by
  rw [BreakpointDialog.response, h.grid.buttonStates, h.stopAll]
  rfl

theorem Shows.handle (h : Shows d answer) (input : Input) :
    ∃ d', d.handle n input = some d' ∧ ∃ answer' : (Fin n → Bool) × Bool, Shows d' answer' := by
  cases input with
  | click left top => exact ⟨_, rfl, (_, answer.2), h.grid.click left top, h.stopAll⟩
  | toggleAll =>
      obtain ⟨grid, hgrid, hholds⟩ := h.grid.toggleAll
      refine ⟨{ d with grid }, ?_, (_, answer.2), hholds, h.stopAll⟩
      rw [BreakpointDialog.handle, hgrid, Option.map_some]
  | stopAll => exact ⟨_, rfl, (answer.1, !answer.2), h.grid, congrArg (!·) h.stopAll⟩

end BreakpointDialog

namespace Breakpoint

/-- Asking for what there is changes nothing. -/
theorem updateBreakpoints_untouched {this : BkptId} {bp : Breakpoint n} {t : Tracker n}
    (h : bp.Settled) : updateBreakpoints this bp.isCreated (bp, t) = (none, bp, t) := by
  have hkeep : updateOp bp.isCreated (bp, t) = fun _ => .keep := by
    funext rank
    rw [updateOp, rankOp, isCreated, if_pos rfl]
  have hbp : bp.afterOps (fun _ => .keep) = bp := rfl
  have ht : t.afterOps this bp (fun _ => .keep) = t := by
    simp [Tracker.afterOps, RankOp.slot, RankOp.sent]
  have hfolded : bp.updateStates = bp := by
    have hstate : bp.updateStates.state = bp.state := by
      funext rank
      rcases h rank with hrank | hrank <;> simp [updateStates, hrank]
    exact congrArg (fun state => { bp with state }) hstate
  have hmessage : updateMessage bp bp = none := by
    rw [updateMessage_eq_none]
    intro rank
    rcases h rank with hrank | hrank <;> simp [hrank]
  simp only [updateBreakpoints, updateLoop_eq, hkeep, hbp, ht, hfolded, hmessage]

end Breakpoint

/-- The line marks, and the widgets of the BreakpointDialog while it is open. -/
structure Marking (n : Nat) where
  editor : Editor n
  widgets : Option BreakpointDialog

namespace Marking

def init (n : Nat) : Marking n := ⟨.init n, none⟩

inductive Act (n : Nat)
  /-- What is no answer of the dialog. -/
  | editor (a : Editor.Act n)
  | input (input : BreakpointDialog.Input)
  | ok

/-- The widgets of a dialog that opens. -/
def opened (s : Editor n) : Option BreakpointDialog :=
  match s.dialog with
  | some (.config call) => (s.window.objects call.breakpoint).map fun bp => .new bp call.op.isNew
  | _ => none

def next (s : Marking n) : Act n → Option (Marking n)
  | .editor (.accept _ _) => none
  | .editor (.environment window numbers) =>
      (s.editor.next (.environment window numbers)).map fun editor => { s with editor }
  | .editor a => (s.editor.next a).map fun editor => ⟨editor, opened editor⟩
  | .input input => do
      let d ← s.widgets
      return { s with widgets := some (← d.handle n input) }
  | .ok => do
      let d ← s.widgets
      let (buttonStates, stopAll) ← d.response n
      let editor ← s.editor.next (.accept buttonStates stopAll)
      return ⟨editor, opened editor⟩

/-- All sequences of clicks, inputs, answers and changes around them. -/
def system (n : Nat) : System (Marking n) (Act n) := System.ofNext (· = init n) next

section Refinement

variable {s t : Marking n}

/-- A step is a step of the line marks, or leaves them. -/
theorem editor_step {a : Act n} (h : s.next a = some t) :
    t.editor = s.editor ∨ ∃ b, s.editor.next b = some t.editor := by
  cases a with
  | editor b =>
      have hnext : ∃ e, s.editor.next b = some e ∧ t.editor = e := by
        cases b with
        | accept states stopAll => cases h
        | environment window numbers =>
            rw [next] at h
            obtain ⟨e, he, rfl⟩ := Option.map_eq_some_iff.mp h
            exact ⟨e, he, rfl⟩
        | click | cancel | dismiss | close =>
            obtain ⟨e, he, rfl⟩ := Option.map_eq_some_iff.mp h
            exact ⟨e, he, rfl⟩
      obtain ⟨e, he, rfl⟩ := hnext
      exact Or.inr ⟨b, he⟩
  | input input =>
      obtain ⟨d, -, h⟩ := Option.bind_eq_some_iff.mp h
      obtain ⟨d', -, h⟩ := Option.bind_eq_some_iff.mp h
      obtain rfl := Option.some.inj h
      exact Or.inl rfl
  | ok =>
      obtain ⟨d, -, h⟩ := Option.bind_eq_some_iff.mp h
      obtain ⟨⟨states, stopAll⟩, -, h⟩ := Option.bind_eq_some_iff.mp h
      obtain ⟨e, he, h⟩ := Option.bind_eq_some_iff.mp h
      obtain rfl := Option.some.inj h
      exact Or.inr ⟨_, he⟩

/-- What happens with the dialog is a run of the line marks. -/
theorem reachable_editor (hs : Reachable (system n) s) : Reachable (Editor.system n) s.editor := by
  obtain ⟨e, he, heq⟩ := hs.simulated (N := Editor.system n) (R := fun s e => s.editor = e)
    (fun s h => ⟨Editor.init n, rfl, congrArg editor h⟩) fun s a t e he heq hstep => by
      subst heq
      exact ⟨t.editor, editor_step hstep, rfl⟩
  rwa [heq]

/-- The dialog is shown while a call waits in it. -/
def Shown (s : Marking n) : Prop :=
  match s.editor.dialog with
  | some (.config _) => ∃ d answer, s.widgets = some d ∧ BreakpointDialog.Shows (n := n) d answer
  | _ => s.widgets = none

/-- A dialog that opens is shown. -/
theorem shown_opened {e : Editor n} (h : e.Inv) : Shown ⟨e, opened e⟩ := by
  unfold Shown opened
  cases hdialog : e.dialog with
  | none => rfl
  | some dialog =>
      cases dialog with
      | config call =>
          obtain ⟨bp, hbp, -⟩ := h.dialog _ hdialog
          simp only [hbp, Option.map_some]
          exact ⟨_, _, rfl, BreakpointDialog.shows_new bp _⟩
      | updated call => rfl
      | deleting call => rfl

structure Inv (s : Marking n) : Prop where
  editor : s.editor.Inv
  shown : s.Shown

theorem inv_editor {e e' : Editor n} {b : Editor.Act n} (h : e.Inv) (hb : e.next b = some e') :
    e'.Inv := by
  obtain ⟨u, hu, hinv⟩ := h.next (Editor.enabled_of_next hb)
  obtain rfl := Option.some.inj (hu.symm.trans hb)
  exact hinv

theorem Inv.input (h : s.Inv) {d : BreakpointDialog} (hd : s.widgets = some d)
    (input : BreakpointDialog.Input) :
    ∃ t, s.next (.input input) = some t ∧ t.Inv := by
  have hshown := h.shown
  unfold Shown at hshown
  split at hshown
  · rename_i call hdialog
    obtain ⟨d', answer, hd', hshows⟩ := hshown
    obtain ⟨d'', hhandle, answer', hshows'⟩ := hshows.handle input
    refine ⟨{ s with widgets := some d'' }, ?_, h.editor, ?_⟩
    · simp only [next, hd', Option.bind_eq_bind, Option.bind_some, hhandle]
      rfl
    · unfold Shown
      simp only [hdialog]
      exact ⟨d'', answer', rfl, hshows'⟩
  · rw [hshown] at hd
    cases hd

theorem Inv.ok (h : s.Inv) {d : BreakpointDialog} (hd : s.widgets = some d) :
    ∃ t, s.next .ok = some t ∧ t.Inv := by
  have hshown := h.shown
  unfold Shown at hshown
  split at hshown
  · rename_i call hdialog
    obtain ⟨d', answer, hd', hshows⟩ := hshown
    obtain ⟨e, he, hinv⟩ := h.editor.next (a := .accept answer.1 answer.2) ⟨call, hdialog⟩
    refine ⟨⟨e, opened e⟩, ?_, hinv, shown_opened hinv⟩
    simp only [next, hd', Option.bind_eq_bind, Option.bind_some, hshows.response, he]
    rfl
  · rw [hshown] at hd
    cases hd

theorem Inv.next (h : s.Inv) {a : Act n} (ha : s.next a = some t) : t.Inv := by
  cases a with
  | editor b =>
      cases b with
      | accept states stopAll => cases ha
      | environment window numbers =>
          obtain rfl := Option.some.inj ha
          exact ⟨h.editor.environment window numbers, h.shown⟩
      | click | cancel | dismiss | close =>
          obtain ⟨e, he, rfl⟩ := Option.map_eq_some_iff.mp ha
          have hinv := inv_editor h.editor he
          exact ⟨hinv, shown_opened hinv⟩
  | input input =>
      obtain ⟨d, hd, -⟩ := Option.bind_eq_some_iff.mp ha
      obtain ⟨u, hu, hinv⟩ := h.input hd input
      obtain rfl := Option.some.inj (hu.symm.trans ha)
      exact hinv
  | ok =>
      obtain ⟨d, hd, -⟩ := Option.bind_eq_some_iff.mp ha
      obtain ⟨u, hu, hinv⟩ := h.ok hd
      obtain rfl := Option.some.inj (hu.symm.trans ha)
      exact hinv

theorem inv_reachable (hs : Reachable (system n) s) : s.Inv := by
  apply hs.invariant (I := Inv)
  · rintro s rfl
    exact ⟨Editor.inv_reachable (Reachable.start rfl), rfl⟩
  · exact fun s a t h hstep => h.next hstep

/-- With the answers of the dialog the line marks run as with any answers, and the dialog
never follows a null pointer. -/
theorem reachable_refines (hs : Reachable (system n) s) :
    Reachable (Editor.system n) s.editor ∧
      ∀ call, s.editor.dialog = some (.config call) →
        (∀ input, ∃ t, s.next (.input input) = some t) ∧ ∃ t, s.next .ok = some t := by
  refine ⟨reachable_editor hs, fun call hdialog => ?_⟩
  have hinv := inv_reachable hs
  have hshown := hinv.shown
  unfold Shown at hshown
  simp only [hdialog] at hshown
  obtain ⟨d, -, hd, -⟩ := hshown
  refine ⟨fun input => ?_, ?_⟩
  · obtain ⟨t, ht, -⟩ := hinv.input hd input
    exact ⟨t, ht⟩
  · obtain ⟨t, ht, -⟩ := hinv.ok hd
    exact ⟨t, ht⟩

/-- A click on a line, and on a button of the dialog. -/
def openLabels : List (Act 2) :=
  [.editor (.environment (Editor.stoppedWindow 2) fun _ _ => -1),
    .editor (.click false (ascii "/src/a.c") 3), .input (.click 1 0)]

theorem openLabels_refines : ∃ s : Marking 2, Reachable (Editor.system 2) s.editor ∧
    s.editor.dialog.isSome = true ∧ ∃ t, s.next .ok = some t := by
  obtain ⟨s, hs, hopen⟩ := (Reachable.start (M := system 2) rfl).replay_any openLabels
    (fun s => match s.editor.dialog with | some (.config _) => true | _ => false)
    (by decide +kernel)
  obtain ⟨hreach, hdialog⟩ := reachable_refines hs
  split at hopen
  · rename_i call hconfig
    exact ⟨s, hreach, by rw [hconfig]; rfl, (hdialog call hconfig).2⟩
  · cases hopen

end Refinement

section Untouched

variable {s : Marking n}

/-- What happens around the dialog. -/
def changes (cs : List (Tracker n × (BkptId → Fin n → Int))) : List (Act n) :=
  cs.map fun c => .editor (.environment c.1 c.2)

/-- The line marks after such changes: of a Breakpoint only the numbers are others. -/
theorem foldlM_changes (cs : List (Tracker n × (BkptId → Fin n → Int))) (e : Editor n)
    (h : e.Inv) (hclosed : e.dialog = none) {b : BkptId} {bp : Breakpoint n}
    (hobj : e.window.objects b = some bp) :
    ∃ (window : Tracker n) (numbers : Fin n → Int), Editor.Inv { e with window } ∧
      window.objects b = some { bp with numbers } ∧
      ∀ (dialog : Option MarkDialog) (widgets : Option BreakpointDialog),
        (changes cs).foldlM next ⟨{ e with dialog }, widgets⟩ =
          some ⟨{ e with window, dialog }, widgets⟩ := by
  induction cs generalizing e bp with
  | nil => exact ⟨e.window, bp.numbers, h, hobj, fun _ _ => rfl⟩
  | cons c rest ih =>
      have hobj' : (Editor.renumbered e.window c.1 c.2).objects b =
          some { bp with numbers := c.2 b } := by
        simp only [Editor.renumbered, hobj, Option.map_some]
      obtain ⟨window, numbers, hinv, hwindow, hrun⟩ :=
        ih { e with window := Editor.renumbered e.window c.1 c.2 } (h.environment c.1 c.2) hclosed
          hobj'
      exact ⟨window, numbers, hinv, hwindow, hrun⟩

/-- OK with the flags of the Breakpoint closes the dialog. -/
theorem accept_untouched {e : Editor n} (call : MarkCall) {mark : LineMark} {bp : Breakpoint n}
    (hdialog : e.dialog = some (.config call)) (hop : call.op = .edit mark)
    (hobj : e.window.objects call.breakpoint = some bp) (hsettled : bp.Settled)
    (hcreated : bp.oneCreated = true) :
    e.next (.accept bp.isCreated bp.stopAll) = some { e with dialog := none } := by
  have hstore : e.window.store call.breakpoint bp = e.window := by
    rw [Tracker.store, ← hobj, Function.update_eq_self]
  simp only [Editor.next, hdialog, hobj, Option.bind_eq_bind, Option.bind_some, Editor.applyDialog,
    updateBreakpoints_untouched hsettled, hstore, Editor.finish, hop, Editor.endEdit, hcreated,
    if_true]

/-- Opening the dialog of a mark and closing it with OK leaves no trace: whatever goes on
meanwhile ends as without the dialog. -/
theorem untouched_eq (hs : Reachable (system n) s) (hclosed : s.editor.dialog = none)
    {path : Bytes} {line : Nat} {mark : LineMark} (hmark : s.editor.markAt path line = some mark)
    (cs : List (Tracker n × (BkptId → Fin n → Int))) :
    (.editor (.click true path line) :: (changes cs ++ [.ok])).foldlM next s =
        (changes cs).foldlM next s ∧
      ((changes cs).foldlM next s).isSome = true := by
  obtain ⟨e, widgets⟩ := s
  obtain ⟨hinv, hshown⟩ := inv_reachable hs
  simp only at hclosed hmark hinv
  have hwidgets : widgets = none := by
    unfold Shown at hshown
    simpa only [hclosed] using hshown
  subst hwidgets
  have hmarked : e.Marked none := hinv.marked_of (by rw [hclosed]; rfl)
  obtain ⟨hm, -⟩ := Editor.markAt_eq_some hmark
  obtain ⟨bp, hobj, -⟩ := hmarked.holds path mark hm
  obtain ⟨window, numbers, hinv', hwindow, hrun⟩ := foldlM_changes cs e hinv hclosed hobj
  -- The Breakpoint is settled and created somewhere, whatever its numbers are.
  obtain ⟨bp', hobj', -, -, hrest⟩ :=
    (hinv'.marked_of (x := none) (by rw [hclosed]; rfl)).holds path mark hm
  obtain rfl := Option.some.inj (hwindow.symm.trans hobj')
  obtain ⟨hsettled, hcreated⟩ := hrest (by simp)
  let call : MarkCall := ⟨path, mark.breakpoint, .edit mark⟩
  have hclick : next ⟨e, none⟩ (.editor (.click true path line)) =
      some ⟨{ e with dialog := some (.config call) }, some (.new bp false)⟩ := by
    simp only [next, Editor.next, hclosed, Option.isNone_none, if_true, Editor.onLineMarkClicked,
      hmark, Editor.editMark, hobj, Option.map_some, opened, MarkOp.isNew, call]
  have hok : next ⟨{ e with window, dialog := some (.config call) }, some (.new bp false)⟩ .ok =
      some ⟨{ e with window, dialog := none }, none⟩ := by
    have haccept := accept_untouched (e := { e with window, dialog := some (.config call) })
      call rfl rfl hwindow hsettled hcreated
    simp only [next, Option.bind_eq_bind, Option.bind_some,
      (BreakpointDialog.shows_new bp false).response]
    exact congrArg (Option.bind · _) haccept
  have hplain := hrun none none
  have hstart : (⟨{ e with dialog := none }, none⟩ : Marking n) = ⟨e, none⟩ := by rw [← hclosed]
  rw [hstart] at hplain
  refine ⟨?_, by rw [hplain]; rfl⟩
  rw [List.foldlM_cons, hclick, Option.bind_eq_bind, Option.bind_some, List.foldlM_append, hrun,
    Option.bind_eq_bind, Option.bind_some, List.foldlM_cons, hok, hplain]
  rfl

/-- A mark for the first rank; then its dialog is opened while GDB numbers it. -/
theorem openLabels_untouched : ∃ (s : Marking 2) (mark : LineMark),
    s.editor.markAt (ascii "/src/a.c") 3 = some mark ∧
      (.editor (.click true (ascii "/src/a.c") 3) ::
        (changes [(Editor.stoppedWindow 2, fun _ _ => 2)] ++ [.ok])).foldlM next s =
        (changes [(Editor.stoppedWindow 2, fun _ _ => 2)]).foldlM next s := by
  obtain ⟨s, hs, hp⟩ := (Reachable.start (M := system 2) rfl).replay_any (openLabels ++ [.ok])
    (fun s => s.editor.dialog.isNone && (s.editor.markAt (ascii "/src/a.c") 3).isSome)
    (by decide +kernel)
  simp only [Bool.and_eq_true, Option.isNone_iff_eq_none, Option.isSome_iff_exists] at hp
  obtain ⟨hclosed, mark, hmark⟩ := hp
  exact ⟨s, mark, hmark, (untouched_eq hs hclosed hmark _).1⟩

end Untouched

end Marking

end ParallelGdb
