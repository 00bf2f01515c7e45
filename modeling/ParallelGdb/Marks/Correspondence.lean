import ParallelGdb.Marks.Editor
import ParallelGdb.Window.Frame

/-!
# Line marks and breakpoints correspond

While a message dialog of a Breakpoint is open, its mark may hold it in a state
that is not settled yet. The invariant therefore exempts one Breakpoint, and each
end of a call brings it back in line.
-/

namespace ParallelGdb

open Library.CString Library.Transition Breakpoint

theorem decimal_natCast_inj {k l : Nat} (h : decimal (k : Int) = decimal (l : Int)) : k = l := by
  have hdigits : natDigits k = natDigits l := h
  rw [← digitsValue_natDigits k, hdigits, digitsValue_natDigits]

/-- Marks are named by their lines, no two are in one line, and the set holds
these lines. -/
structure SourceBuffer.Ok (buffer : SourceBuffer) : Prop where
  named : ∀ mark ∈ buffer.marks, mark.name = decimal mark.line
  single : (buffer.marks.map LineMark.line).Nodup
  lines : ∀ line : Int, line ∈ buffer.lines.getD ∅ ↔ ∃ mark ∈ buffer.marks, (mark.line : Int) = line

namespace SourceBuffer.Ok

variable {buffer : SourceBuffer} {mark mark' : LineMark}

theorem empty : SourceBuffer.Ok {} := ⟨by simp, by simp, by simp⟩

theorem eq_of_line (h : buffer.Ok) (hm : mark ∈ buffer.marks) (hm' : mark' ∈ buffer.marks)
    (hline : mark.line = mark'.line) : mark = mark' :=
  List.inj_on_of_nodup_map h.single hm hm' hline

theorem eq_of_name (h : buffer.Ok) (hm : mark ∈ buffer.marks) (hm' : mark' ∈ buffer.marks)
    (hname : mark.name = mark'.name) : mark = mark' := by
  rw [h.named mark hm, h.named mark' hm'] at hname
  exact h.eq_of_line hm hm' (decimal_natCast_inj hname)

/-- A new mark in a line without one. -/
theorem create (h : buffer.Ok) {line : Nat} (b : BkptId)
    (hfree : ∀ mark ∈ buffer.marks, mark.line ≠ line) :
    (buffer.createSourceMark ⟨decimal line, line, b⟩).marks =
        buffer.marks ++ [⟨decimal line, line, b⟩] ∧
      SourceBuffer.Ok
        { buffer.createSourceMark ⟨decimal line, line, b⟩ with
          lines := some (insert (line : Int) (buffer.lines.getD ∅)) } := by
  have hcreated : buffer.createSourceMark ⟨decimal line, line, b⟩ =
      { buffer with marks := buffer.marks ++ [⟨decimal line, line, b⟩] } := by
    unfold createSourceMark
    rw [if_neg]
    simp only [List.any_eq_true, decide_eq_true_eq, not_exists, not_and]
    intro mark hm hname
    rw [h.named mark hm] at hname
    exact hfree mark hm (decimal_natCast_inj hname)
  rw [hcreated]
  refine ⟨rfl, ?_, ?_, ?_⟩
  · intro mark hm
    rcases List.mem_append.mp hm with hm | hm
    · exact h.named mark hm
    · rw [List.mem_singleton.mp hm]
  · rw [List.map_append, List.map_singleton, List.nodup_append]
    refine ⟨h.single, List.nodup_singleton _, ?_⟩
    intro l hl l' hl' heq
    obtain ⟨mark, hm, rfl⟩ := List.mem_map.mp hl
    rw [List.mem_singleton.mp hl'] at heq
    exact hfree mark hm heq
  · intro l
    simp only [Option.getD_some, Finset.mem_insert, h.lines, List.mem_append, List.mem_singleton,
      or_and_right, exists_or, exists_eq_left]
    rw [or_comm]
    exact or_congr_right eq_comm

/-- A mark is deleted together with its line. -/
theorem delete (h : buffer.Ok) (hm : mark ∈ buffer.marks) :
    (∀ other, other ∈ (buffer.deleteMark mark).marks ↔ other ∈ buffer.marks ∧ other ≠ mark) ∧
      SourceBuffer.Ok
        { buffer.deleteMark mark with
          lines := some ((buffer.lines.getD ∅).erase ((mark.line : Int) + 1 - 1)) } := by
  have hmem : ∀ other, other ∈ (buffer.deleteMark mark).marks ↔
      other ∈ buffer.marks ∧ other ≠ mark := by
    intro other
    simp only [deleteMark, List.mem_filter, decide_eq_true_eq, and_congr_right_iff]
    intro ho
    rw [not_iff_not]
    exact ⟨h.eq_of_name ho hm, congrArg LineMark.name⟩
  refine ⟨hmem, ?_, ?_, ?_⟩
  · exact fun other ho => h.named other ((hmem other).mp ho).1
  · exact h.single.sublist (List.filter_sublist.map _)
  · intro line
    simp only [Option.getD_some, Finset.mem_erase, h.lines, hmem, add_sub_cancel_right]
    constructor
    · rintro ⟨hne, other, ho, rfl⟩
      exact ⟨other, ⟨ho, fun heq => hne (by rw [heq])⟩, rfl⟩
    · rintro ⟨other, ⟨ho, hne⟩, rfl⟩
      refine ⟨fun hline => hne (h.eq_of_line ho hm ?_), other, ho, rfl⟩
      exact_mod_cast hline

end SourceBuffer.Ok

namespace Editor

variable {n : Nat}

/-- All marks hold Breakpoints of their lines; these are settled and created
somewhere, except where the mark holds the exempted one. -/
structure Marked (exempt : Option BkptId) (s : Editor n) : Prop where
  buffers : ∀ path, (s.buffers path).Ok
  fresh : ∀ b, (s.window.objects b).isSome → b < s.nextId
  holds : ∀ path, ∀ mark ∈ (s.buffers path).marks,
    ∃ bp, s.window.objects mark.breakpoint = some bp ∧ bp.fullPath = path ∧
      bp.line = (mark.line : Int) + 1 ∧
      (exempt ≠ some mark.breakpoint → bp.Settled ∧ bp.oneCreated = true)

/-- No mark holds the Breakpoint. -/
def Unheld (s : Editor n) (b : BkptId) : Prop :=
  ∀ path, ∀ mark ∈ (s.buffers path).marks, mark.breakpoint ≠ b

/-- A call knows its Breakpoint, and the mark that holds it unless it is new. -/
def Knows (s : Editor n) (call : MarkCall) (bp : Breakpoint n) : Prop :=
  s.window.objects call.breakpoint = some bp ∧
    match call.op with
    | .create line => bp.fullPath = call.fullpath ∧ bp.line = (line : Int) + 1 ∧
        s.Unheld call.breakpoint ∧ ∀ mark ∈ (s.buffers call.fullpath).marks, mark.line ≠ line
    | .edit mark => mark ∈ (s.buffers call.fullpath).marks ∧ mark.breakpoint = call.breakpoint

/-- The Breakpoint whose states may not be settled. -/
def exempt : Option MarkDialog → Option BkptId
  | some (.updated call) => some call.breakpoint
  | some (.deleting call) => some call.breakpoint
  | _ => none

/-- What the open dialog can rely on. -/
def DialogOk (s : Editor n) : MarkDialog → Prop
  | .config call => ∃ bp, s.Knows call bp
  | .updated call => ∃ bp, s.Knows call bp ∧ bp.Settled
  | .deleting call => ∃ bp mark, s.Knows call bp ∧ call.op = .edit mark ∧
      ∃ r, bp.state r = .errorDeleting

structure Inv (s : Editor n) : Prop where
  marked : s.Marked (exempt s.dialog)
  dialog : ∀ dialog, s.dialog = some dialog → s.DialogOk dialog

section Parts

variable {s : Editor n} {x : Option BkptId} {b : BkptId} {bp : Breakpoint n}

/-- A Breakpoint is held by one mark only. -/
theorem Marked.eq_of_breakpoint (h : s.Marked x) {path path' : Bytes} {mark mark' : LineMark}
    (hm : mark ∈ (s.buffers path).marks) (hm' : mark' ∈ (s.buffers path').marks)
    (hb : mark.breakpoint = mark'.breakpoint) : path = path' ∧ mark = mark' := by
  obtain ⟨bp, hobj, rfl, hline, -⟩ := h.holds path mark hm
  obtain ⟨bp', hobj', rfl, hline', -⟩ := h.holds path' mark' hm'
  rw [hb, hobj'] at hobj
  obtain rfl := Option.some.inj hobj
  exact ⟨rfl, (h.buffers _).eq_of_line hm hm' (by omega)⟩

/-- The mark a click finds is a mark of its line. -/
theorem markAt_eq_some {path : Bytes} {line : Nat} {mark : LineMark}
    (h : s.markAt path line = some mark) :
    mark ∈ (s.buffers path).marks ∧ mark.line = line := by
  have hmem := List.mem_of_find?_eq_some h
  rw [SourceBuffer.getMarks, List.mem_filter, decide_eq_true_eq] at hmem
  exact hmem

/-- A click finds the mark of its line. -/
theorem Marked.markAt (h : s.Marked x) {path : Bytes} {mark : LineMark}
    (hm : mark ∈ (s.buffers path).marks) : s.markAt path mark.line = some mark := by
  cases hfound : s.markAt path mark.line with
  | none =>
      have hnone := List.find?_eq_none.mp hfound mark (by simp [SourceBuffer.getMarks, hm])
      rw [decide_eq_true_eq] at hnone
      exact absurd ((h.buffers path).named mark hm) hnone
  | some mark' =>
      obtain ⟨hm', hline⟩ := markAt_eq_some hfound
      rw [(h.buffers path).eq_of_line hm' hm hline]

theorem Marked.free_line (h : s.Marked x) {path : Bytes} {line : Nat}
    (hnone : s.markAt path line = none) : ∀ mark ∈ (s.buffers path).marks, mark.line ≠ line := by
  rintro mark hm rfl
  rw [h.markAt hm] at hnone
  cases hnone

/-- Another value of the exempted Breakpoint, with the same path and line. -/
theorem Marked.store (h : s.Marked x) (hx : x = none ∨ x = some b)
    (hobj : s.window.objects b = some bp) (bp' : Breakpoint n) (hpath : bp'.fullPath = bp.fullPath)
    (hline : bp'.line = bp.line) {t : Tracker n} (ht : t.objects = s.window.objects)
    (dialog : Option MarkDialog) :
    Marked (some b) { s with window := t.store b bp', dialog := dialog } where
  buffers := h.buffers
  fresh := by
    intro c hc
    simp only [Tracker.store, Function.update_apply, ht] at hc
    split at hc
    · rename_i hcb
      exact h.fresh c (by simp [hcb, hobj])
    · exact h.fresh c hc
  holds := by
    intro path mark hm
    obtain ⟨bpm, hobjm, hpathm, hlinem, hsettled⟩ := h.holds path mark hm
    simp only [Tracker.store, Function.update_apply, ht]
    by_cases hb : mark.breakpoint = b
    · rw [hb, hobj] at hobjm
      obtain rfl := Option.some.inj hobjm
      rw [if_pos hb]
      exact ⟨bp', rfl, hpath.trans hpathm, hline.trans hlinem,
        fun hne => absurd (congrArg some hb.symm) hne⟩
    · rw [if_neg hb]
      refine ⟨bpm, hobjm, hpathm, hlinem, fun _ => hsettled ?_⟩
      rcases hx with rfl | rfl
      · simp
      · exact fun heq => hb (Option.some.inj heq).symm

/-- A Breakpoint in order needs no exemption. -/
theorem Marked.settle (h : s.Marked (some b)) (hobj : s.window.objects b = some bp)
    (hsettled : bp.Settled) (hcreated : bp.oneCreated = true) : s.Marked none where
  buffers := h.buffers
  fresh := h.fresh
  holds := by
    intro path mark hm
    obtain ⟨bpm, hobjm, hpath, hline, hrest⟩ := h.holds path mark hm
    refine ⟨bpm, hobjm, hpath, hline, fun _ => ?_⟩
    by_cases hb : mark.breakpoint = b
    · rw [hb, hobj] at hobjm
      obtain rfl := Option.some.inj hobjm
      exact ⟨hsettled, hcreated⟩
    · exact hrest fun heq => hb (Option.some.inj heq).symm

/-- What no mark holds can be deleted. -/
theorem Marked.free (h : s.Marked x) (hx : x = none ∨ x = some b) (hb : s.Unheld b) :
    Marked none { s with window := s.window.free b } where
  buffers := h.buffers
  fresh := by
    intro c hc
    simp only [Tracker.free, Function.update_apply] at hc
    split at hc
    · cases hc
    · exact h.fresh c hc
  holds := by
    intro path mark hm
    obtain ⟨bpm, hobjm, hpath, hline, hrest⟩ := h.holds path mark hm
    have hne := hb path mark hm
    refine ⟨bpm, ?_, hpath, hline, fun _ => hrest ?_⟩
    · simp only [Tracker.free, Function.update_of_ne hne]
      exact hobjm
    · rcases hx with rfl | rfl
      · simp
      · exact fun heq => hne (Option.some.inj heq).symm

/-- `clear_mark` takes a mark and its Breakpoint away. -/
theorem Marked.clearMark (h : s.Marked x) (hx : x = none ∨ x = some b) {path : Bytes}
    {mark : LineMark} (hm : mark ∈ (s.buffers path).marks) (hb : mark.breakpoint = b) :
    ∃ u, s.clearMark path mark b = some u ∧ u.Marked none ∧ u.dialog = s.dialog := by
  obtain ⟨bp, hobj, -, hline, -⟩ := h.holds path mark hm
  obtain ⟨hmem, hok⟩ := (h.buffers path).delete hm
  have hset : ∃ lines, (s.buffers path).lines = some lines := by
    have hin := ((h.buffers path).lines mark.line).mpr ⟨mark, hm, rfl⟩
    cases hlines : (s.buffers path).lines with
    | none => simp [hlines] at hin
    | some lines => exact ⟨lines, rfl⟩
  obtain ⟨lines, hlines⟩ := hset
  rw [hb] at hobj
  rw [← hline, hlines] at hok
  let u := setBuffer { s with window := s.window.free b } path
    { (s.buffers path).deleteMark mark with lines := some (lines.erase (bp.line - 1)) }
  have hu : s.clearMark path mark b = some u := by
    simp only [Editor.clearMark, hobj, hlines, Option.bind_eq_bind, Option.bind_some, pure, u]
  -- The marks that are left do not hold the Breakpoint.
  have hleft : ∀ path', ∀ other ∈ (u.buffers path').marks,
      other ∈ (s.buffers path').marks ∧ other.breakpoint ≠ b := by
    intro path' other ho
    by_cases hp : path' = path
    · subst hp
      simp only [u, setBuffer, Function.update_self] at ho
      obtain ⟨ho, hne⟩ := (hmem other).mp ho
      exact ⟨ho, fun hob => hne (h.eq_of_breakpoint ho hm (hob.trans hb.symm)).2⟩
    · simp only [u, setBuffer, Function.update_of_ne hp] at ho
      exact ⟨ho, fun hob => hp (h.eq_of_breakpoint ho hm (hob.trans hb.symm)).1⟩
  refine ⟨u, hu, ⟨fun path' => ?_, fun c hc => ?_, fun path' other ho => ?_⟩, rfl⟩
  · by_cases hp : path' = path
    · subst hp
      simp only [u, setBuffer, Function.update_self]
      exact hok
    · simp only [u, setBuffer, Function.update_of_ne hp]
      exact h.buffers path'
  · simp only [u, setBuffer, Tracker.free, Function.update_apply] at hc
    split at hc
    · cases hc
    · exact h.fresh c hc
  · obtain ⟨hold, hne⟩ := hleft path' other ho
    obtain ⟨bpo, hobjo, hpath, hlineo, hrest⟩ := h.holds path' other hold
    refine ⟨bpo, ?_, hpath, hlineo, fun _ => hrest ?_⟩
    · simp only [u, setBuffer, Tracker.free, Function.update_of_ne hne]
      exact hobjo
    · rcases hx with rfl | rfl
      · simp
      · exact fun heq => hne (Option.some.inj heq).symm

/-- A new mark for a Breakpoint in order. -/
theorem Marked.place (h : s.Marked none) {path : Bytes} {line : Nat}
    (hobj : s.window.objects b = some bp) (hpath : bp.fullPath = path)
    (hline : bp.line = (line : Int) + 1) (hsettled : bp.Settled) (hcreated : bp.oneCreated = true)
    (hfree : ∀ mark ∈ (s.buffers path).marks, mark.line ≠ line) :
    Marked none (s.endCreate path line b bp) := by
  obtain ⟨hmarks, hok⟩ := (h.buffers path).create b hfree
  have hlines : ((s.buffers path).createSourceMark ⟨decimal line, line, b⟩).lines =
      (s.buffers path).lines := by
    unfold SourceBuffer.createSourceMark
    split <;> rfl
  simp only [endCreate, if_pos hcreated, hlines]
  refine ⟨fun path' => ?_, h.fresh, fun path' mark hm => ?_⟩
  · by_cases hp : path' = path
    · subst hp
      simp only [setBuffer, Function.update_self]
      exact hok
    · simp only [setBuffer, Function.update_of_ne hp]
      exact h.buffers path'
  · by_cases hp : path' = path
    · subst hp
      simp only [setBuffer, Function.update_self, hmarks, List.mem_append,
        List.mem_singleton] at hm
      rcases hm with hm | rfl
      · exact h.holds path' mark hm
      · exact ⟨bp, hobj, hpath, hline, fun _ => ⟨hsettled, hcreated⟩⟩
    · simp only [setBuffer, Function.update_of_ne hp] at hm
      exact h.holds path' mark hm

end Parts

section Calls

variable {s : Editor n} {call : MarkCall} {bp : Breakpoint n}

/-- A call ends with all Breakpoints in order. -/
theorem Marked.finish (h : s.Marked (some call.breakpoint)) (hknows : s.Knows call bp)
    (hsettled : bp.Settled) (hclosed : s.dialog = none) :
    ∃ u, s.finish call bp = some u ∧ u.Inv := by
  obtain ⟨hobj, hop⟩ := hknows
  have hinv : ∀ u : Editor n, u.Marked none → u.dialog = none → u.Inv := by
    intro u hu hd
    refine ⟨by rw [hd]; exact hu, fun dialog hdialog => ?_⟩
    rw [hd] at hdialog
    cases hdialog
  unfold Editor.finish
  cases hcall : call.op with
  | create line =>
      simp only [hcall] at hop ⊢
      obtain ⟨hpath, hline, hunheld, hfree⟩ := hop
      cases hcreated : bp.oneCreated with
      | true =>
          have hplaced := (h.settle hobj hsettled hcreated).place hobj hpath hline hsettled
            hcreated hfree
          refine ⟨_, rfl, hinv _ hplaced ?_⟩
          simp only [endCreate, hcreated, if_true, setBuffer, hclosed]
      | false =>
          refine ⟨_, rfl, hinv _ ?_ ?_⟩
          · simp only [endCreate, hcreated, Bool.false_eq_true, if_false]
            exact h.free (Or.inr rfl) hunheld
          · simp only [endCreate, hcreated, Bool.false_eq_true, if_false, hclosed]
  | edit mark =>
      simp only [hcall] at hop ⊢
      cases hcreated : bp.oneCreated with
      | true =>
          refine ⟨s, by rw [endEdit, if_pos hcreated], hinv s ?_ hclosed⟩
          exact h.settle hobj hsettled hcreated
      | false =>
          obtain ⟨u, hu, hmarked, hdialog⟩ := h.clearMark (Or.inr rfl) hop.1 hop.2
          refine ⟨u, ?_, hinv u hmarked (hdialog.trans hclosed)⟩
          rw [endEdit, hcreated]
          exact hu

/-- The call goes on with another value of its Breakpoint. -/
theorem Knows.store (h : s.Knows call bp) {bp' : Breakpoint n}
    (hpath : bp'.fullPath = bp.fullPath) (hline : bp'.line = bp.line) (t : Tracker n)
    (dialog : Option MarkDialog) :
    Knows { s with window := t.store call.breakpoint bp', dialog := dialog } call bp' := by
  obtain ⟨-, hop⟩ := h
  refine ⟨by simp [Tracker.store], ?_⟩
  cases hcall : call.op with
  | create line =>
      simp only [hcall] at hop ⊢
      exact ⟨hpath.trans hop.1, hline.trans hop.2.1, hop.2.2⟩
  | edit mark =>
      simp only [hcall] at hop ⊢
      exact hop

theorem Inv.marked_of (h : s.Inv) {x : Option BkptId} (hx : exempt s.dialog = x) : s.Marked x :=
  hx ▸ h.marked

theorem inv_of_marked (h : s.Marked none) (hclosed : s.dialog = none) : s.Inv := by
  refine ⟨by rw [hclosed]; exact h, fun dialog hdialog => ?_⟩
  rw [hclosed] at hdialog
  cases hdialog

/-- `update_breakpoints` keeps path and line, leaves no error state, and no other
object changes. -/
theorem updateBreakpoints_frame (b : BkptId) (buttonStates : Fin n → Bool) (bp : Breakpoint n)
    (t : Tracker n) :
    (updateBreakpoints b buttonStates (bp, t)).2.1.fullPath = bp.fullPath ∧
      (updateBreakpoints b buttonStates (bp, t)).2.1.line = bp.line ∧
      (updateBreakpoints b buttonStates (bp, t)).2.1.Settled ∧
      (updateBreakpoints b buttonStates (bp, t)).2.2.objects = t.objects := by
  simp only [updateBreakpoints, updateLoop_eq]
  exact ⟨rfl, rfl, settled_updateStates _, rfl⟩

theorem deleteLoop_frame (b : BkptId) (bp : Breakpoint n) (t : Tracker n) :
    (deleteLoop b (bp, t)).2.1.fullPath = bp.fullPath ∧
      (deleteLoop b (bp, t)).2.1.line = bp.line ∧
      (deleteLoop b (bp, t)).2.2.objects = t.objects := by
  rw [deleteLoop_snd, updateLoop_eq]
  exact ⟨rfl, rfl, rfl⟩

/-- OK in the BreakpointDialog. -/
theorem Inv.applyDialog (h : s.Inv) (hdialog : s.dialog = some (.config call))
    (hknows : s.Knows call bp) (buttonStates : Fin n → Bool) (stopAll : Bool) :
    ∃ u, s.applyDialog call bp buttonStates stopAll = some u ∧ u.Inv := by
  have hmarked : s.Marked none := h.marked_of (by rw [hdialog]; rfl)
  obtain ⟨hpath, hline, hsettled, hobjects⟩ := updateBreakpoints_frame call.breakpoint buttonStates
    { bp with stopAll := stopAll } s.window
  simp only [Editor.applyDialog]
  generalize updateBreakpoints call.breakpoint buttonStates
    ({ bp with stopAll := stopAll }, s.window) = out at hpath hline hsettled hobjects ⊢
  obtain ⟨message, bp', t⟩ := out
  simp only at hpath hline hsettled hobjects ⊢
  have hstored := hmarked.store (Or.inl rfl) hknows.1 bp' hpath hline hobjects
  cases message with
  | some message =>
      refine ⟨_, rfl, hstored _, fun dialog hopen => ?_⟩
      obtain rfl := Option.some.inj hopen
      exact ⟨bp', hknows.store hpath hline t _, hsettled⟩
  | none => exact (hstored none).finish (hknows.store hpath hline t none) hsettled rfl

/-- `delete_mark`. -/
theorem Inv.deleteMark (h : s.Inv) (hclosed : s.dialog = none) {path : Bytes} {mark : LineMark}
    (hm : mark ∈ (s.buffers path).marks) : ∃ u, s.deleteMark path mark = some u ∧ u.Inv := by
  have hmarked : s.Marked none := h.marked_of (by rw [hclosed]; rfl)
  obtain ⟨bp, hobj, -, -, hsettled⟩ := hmarked.holds path mark hm
  obtain ⟨hpath, hline, hobjects⟩ := deleteLoop_frame mark.breakpoint bp s.window
  have hno : ∀ r, bp.state r ≠ .errorDeleting := by
    intro r
    rcases (hsettled (by simp)).1 r with hr | hr <;> rw [hr] <;> decide
  have hfst := deleteLoop_fst mark.breakpoint bp s.window hno
  simp only [Editor.deleteMark, hobj, Option.bind_eq_bind, Option.bind_some]
  generalize deleteLoop mark.breakpoint (bp, s.window) = out at hpath hline hobjects hfst ⊢
  obtain ⟨deleted, bp', t⟩ := out
  simp only at hpath hline hobjects hfst ⊢
  cases deleted with
  | true =>
      have hstored := hmarked.store (Or.inl rfl) hobj bp'.updateStates hpath hline
        hobjects s.dialog
      obtain ⟨u, hu, hcleared, hdialog⟩ := hstored.clearMark (Or.inr rfl) hm rfl
      exact ⟨u, hu, inv_of_marked hcleared (hdialog.trans hclosed)⟩
  | false =>
      have herror : ∃ r, bp'.state r = .errorDeleting := by
        by_contra hnone
        push Not at hnone
        exact absurd (hfst.mpr hnone) (by decide)
      refine ⟨_, rfl, hmarked.store (Or.inl rfl) hobj _ hpath hline hobjects _,
        fun dialog hopen => ?_⟩
      obtain rfl := Option.some.inj hopen
      have hknows : s.Knows ⟨path, mark.breakpoint, .edit mark⟩ bp := ⟨hobj, hm, rfl⟩
      exact ⟨bp', mark, hknows.store hpath hline t _, rfl, herror⟩

/-- `create_mark` opens its dialog for a Breakpoint no mark holds. -/
theorem Inv.createMark (h : s.Inv) (hclosed : s.dialog = none) {path : Bytes} {line : Nat}
    (hfree : ∀ mark ∈ (s.buffers path).marks, mark.line ≠ line) : (s.createMark path line).Inv := by
  have hmarked : s.Marked none := h.marked_of (by rw [hclosed]; rfl)
  have hunheld : s.Unheld s.nextId := by
    intro path' mark hm
    obtain ⟨bpm, hobj, -⟩ := hmarked.holds path' mark hm
    exact Nat.ne_of_lt (hmarked.fresh _ (by simp [hobj]))
  refine ⟨⟨hmarked.buffers, fun c hc => ?_, fun path' mark hm => ?_⟩, fun dialog hopen => ?_⟩
  · simp only [Editor.createMark, Tracker.store, Function.update_apply] at hc ⊢
    split at hc
    · rename_i hcb
      exact hcb ▸ Nat.lt_succ_self _
    · exact Nat.lt_succ_of_lt (hmarked.fresh c hc)
  · obtain ⟨bpm, hobj, hpath, hline, hrest⟩ := hmarked.holds path' mark hm
    refine ⟨bpm, ?_, hpath, hline, fun _ => hrest (by simp)⟩
    simp only [Editor.createMark, Tracker.store, Function.update_of_ne (hunheld path' mark hm)]
    exact hobj
  · obtain rfl := Option.some.inj hopen
    refine ⟨Breakpoint.new n ((line : Int) + 1) path, ?_, rfl, rfl, hunheld, hfree⟩
    simp [Editor.createMark, Tracker.store]

/-- A click. -/
theorem Inv.click (h : s.Inv) (hclosed : s.dialog = none) (secondary : Bool) (path : Bytes)
    (line : Nat) : ∃ u, s.onLineMarkClicked secondary path line = some u ∧ u.Inv := by
  have hmarked : s.Marked none := h.marked_of (by rw [hclosed]; rfl)
  unfold onLineMarkClicked
  cases hfound : s.markAt path line with
  | none =>
      cases secondary with
      | true => exact ⟨s, rfl, h⟩
      | false => exact ⟨_, rfl, h.createMark hclosed (hmarked.free_line hfound)⟩
  | some mark =>
      obtain ⟨hm, -⟩ := markAt_eq_some hfound
      cases secondary with
      | false => exact h.deleteMark hclosed hm
      | true =>
          obtain ⟨bp, hobj, -⟩ := hmarked.holds path mark hm
          let u := { s with dialog := some (.config ⟨path, mark.breakpoint, .edit mark⟩) }
          have hu : s.editMark path mark = some u := by
            rw [editMark, hobj]
            rfl
          refine ⟨u, hu, ⟨hmarked.buffers, hmarked.fresh, hmarked.holds⟩, fun dialog hopen => ?_⟩
          obtain rfl := Option.some.inj hopen
          exact ⟨bp, hobj, hm, rfl⟩

/-- A message dialog is closed. -/
theorem Inv.dismissDeleting (h : s.Inv) (hdialog : s.dialog = some (.deleting call))
    (hobj : s.window.objects call.breakpoint = some bp) {r : Fin n}
    (herror : bp.state r = .errorDeleting) :
    Inv { s with window := s.window.store call.breakpoint bp.updateStates, dialog := none } := by
  have hmarked : s.Marked (some call.breakpoint) := h.marked_of (by rw [hdialog]; rfl)
  have hstored := hmarked.store (Or.inr rfl) hobj bp.updateStates rfl rfl rfl none
  have hcreated : bp.updateStates.oneCreated = true := by
    rw [← Bool.not_eq_false, oneCreated_eq_false]
    intro hall
    exact hall r (by simp [updateStates, herror])
  refine inv_of_marked (hstored.settle ?_ (settled_updateStates bp) hcreated) rfl
  simp [Tracker.store]

/-- Around the calls nothing changes about the Breakpoints but their numbers. -/
theorem Inv.environment (h : s.Inv) (u : Tracker n) (numbers : BkptId → Fin n → Int) :
    Inv { s with window := renumbered s.window u numbers } := by
  have hobjects : ∀ {b : BkptId} {bp : Breakpoint n}, s.window.objects b = some bp →
      (renumbered s.window u numbers).objects b = some { bp with numbers := numbers b } := by
    intro b bp hobj
    simp only [renumbered, hobj, Option.map_some]
  have hknows : ∀ {call : MarkCall} {bp : Breakpoint n}, s.Knows call bp →
      Knows { s with window := renumbered s.window u numbers } call
        { bp with numbers := numbers call.breakpoint } := by
    rintro call bp ⟨hobj, hop⟩
    refine ⟨hobjects hobj, ?_⟩
    cases hcall : call.op with
    | create line =>
        simp only [hcall] at hop ⊢
        exact hop
    | edit mark =>
        simp only [hcall] at hop ⊢
        exact hop
  refine ⟨⟨h.marked.buffers, fun b hb => ?_, fun path mark hm => ?_⟩, fun dialog hopen => ?_⟩
  · simp only [renumbered, Option.isSome_map] at hb
    exact h.marked.fresh b hb
  · obtain ⟨bp, hobj, hpath, hline, hrest⟩ := h.marked.holds path mark hm
    exact ⟨_, hobjects hobj, hpath, hline, hrest⟩
  · have hok := h.dialog dialog hopen
    cases dialog with
    | config call =>
        obtain ⟨bp, hbp⟩ := hok
        exact ⟨_, hknows hbp⟩
    | updated call =>
        obtain ⟨bp, hbp, hsettled⟩ := hok
        exact ⟨_, hknows hbp, hsettled⟩
    | deleting call =>
        obtain ⟨bp, mark, hbp, hop, herror⟩ := hok
        exact ⟨_, mark, hknows hbp, hop, herror⟩

/-- The tab of a file without marked lines is closed. -/
theorem Inv.close (h : s.Inv) (hclosed : s.dialog = none) (path : Bytes) :
    (s.setBuffer path {}).Inv := by
  have hmarked : s.Marked none := h.marked_of (by rw [hclosed]; rfl)
  refine inv_of_marked ⟨fun path' => ?_, hmarked.fresh, fun path' mark hm => ?_⟩ hclosed
  · by_cases hp : path' = path
    · subst hp
      simp only [setBuffer, Function.update_self]
      exact SourceBuffer.Ok.empty
    · simp only [setBuffer, Function.update_of_ne hp]
      exact hmarked.buffers path'
  · by_cases hp : path' = path
    · subst hp
      simp [setBuffer] at hm
    · simp only [setBuffer, Function.update_of_ne hp] at hm
      exact hmarked.holds path' mark hm

/-- A step that is possible follows no bad pointer and keeps all in order. -/
theorem Inv.next (h : s.Inv) {a : Act n} (ha : s.Enabled a) : ∃ u, s.next a = some u ∧ u.Inv := by
  cases a with
  | click secondary path line =>
      obtain ⟨u, hu, hinv⟩ := h.click ha secondary path line
      refine ⟨u, ?_, hinv⟩
      have hclosed : s.dialog = none := ha
      rw [Editor.next, hclosed]
      exact hu
  | cancel =>
      obtain ⟨call, hdialog⟩ := ha
      have hmarked : s.Marked none := h.marked_of (by rw [hdialog]; rfl)
      refine ⟨{ s with dialog := none }, by simp only [Editor.next, hdialog], inv_of_marked ?_ rfl⟩
      exact ⟨hmarked.buffers, hmarked.fresh, hmarked.holds⟩
  | accept buttonStates stopAll =>
      obtain ⟨call, hdialog⟩ := ha
      obtain ⟨bp, hknows⟩ := h.dialog _ hdialog
      obtain ⟨u, hu, hinv⟩ := h.applyDialog hdialog hknows buttonStates stopAll
      refine ⟨u, ?_, hinv⟩
      simp only [Editor.next, hdialog, hknows.1, Option.bind_eq_bind, Option.bind_some]
      exact hu
  | dismiss =>
      obtain ⟨call, hdialog | hdialog⟩ := ha
      · obtain ⟨bp, hknows, hsettled⟩ := h.dialog _ hdialog
        have hmarked : s.Marked (some call.breakpoint) := h.marked_of (by rw [hdialog]; rfl)
        have hclosed : Marked (some call.breakpoint) { s with dialog := none } :=
          ⟨hmarked.buffers, hmarked.fresh, hmarked.holds⟩
        obtain ⟨u, hu, hinv⟩ := hclosed.finish hknows hsettled rfl
        refine ⟨u, ?_, hinv⟩
        simp only [Editor.next, hdialog, hknows.1, Option.bind_eq_bind, Option.bind_some]
        exact hu
      · obtain ⟨bp, mark, hknows, -, r, herror⟩ := h.dialog _ hdialog
        refine ⟨_, ?_, h.dismissDeleting hdialog hknows.1 herror⟩
        simp only [Editor.next, hdialog, hknows.1, Option.bind_eq_bind, Option.bind_some, pure]
  | environment u numbers => exact ⟨_, rfl, h.environment u numbers⟩
  | close path =>
      obtain ⟨hclosed, hlines⟩ := ha
      exact ⟨_, if_pos ⟨by rw [hclosed]; rfl, hlines⟩, h.close hclosed path⟩

/-- Only what is possible happens. -/
theorem enabled_of_next {t : Editor n} {a : Act n} (h : s.next a = some t) : s.Enabled a := by
  cases a with
  | click secondary path line =>
      obtain ⟨hclosed, -⟩ := Option.ite_none_right_eq_some.mp h
      exact Option.isNone_iff_eq_none.mp hclosed
  | cancel =>
      simp only [Editor.next] at h
      split at h
      · exact ⟨_, ‹_›⟩
      · cases h
  | accept buttonStates stopAll =>
      simp only [Editor.next] at h
      split at h
      · exact ⟨_, ‹_›⟩
      · cases h
  | dismiss =>
      simp only [Editor.next] at h
      split at h
      · exact ⟨_, Or.inl ‹_›⟩
      · exact ⟨_, Or.inr ‹_›⟩
      · cases h
  | environment u numbers => trivial
  | close path =>
      obtain ⟨⟨hclosed, hlines⟩, -⟩ := Option.ite_none_right_eq_some.mp h
      exact ⟨Option.isNone_iff_eq_none.mp hclosed, hlines⟩

end Calls

/-- Marks, set and Breakpoints of a page agree. -/
structure Corresponds (s : Editor n) (path : Bytes) : Prop where
  marked : ∀ line : Int, (∃ mark ∈ (s.buffers path).marks, (mark.line : Int) = line) ↔
    line ∈ (s.buffers path).lines.getD ∅
  single : ∀ line, ((s.buffers path).getMarks line).length ≤ 1
  /-- The click handler finds it. -/
  found : ∀ mark ∈ (s.buffers path).marks, s.markAt path mark.line = some mark
  holds : ∀ mark ∈ (s.buffers path).marks, ∃ bp, s.window.objects mark.breakpoint = some bp ∧
    bp.line = (mark.line : Int) + 1 ∧ bp.fullPath = path ∧ (∃ r, bp.isCreated r = true) ∧
    ∀ r, bp.state r = .notExisting ∨ bp.state r = .created
  /-- No other mark holds it. -/
  alone : ∀ mark ∈ (s.buffers path).marks, ∀ path', ∀ mark' ∈ (s.buffers path').marks,
    mark'.breakpoint = mark.breakpoint → path' = path ∧ mark' = mark

theorem Marked.corresponds {s : Editor n} (h : s.Marked none) (path : Bytes) :
    s.Corresponds path where
  marked := fun line => ((h.buffers path).lines line).symm
  single := by
    intro line
    rw [SourceBuffer.getMarks, ← List.countP_eq_length_filter]
    have hcount : (s.buffers path).marks.countP (fun mark => decide (mark.line = line)) =
        ((s.buffers path).marks.map LineMark.line).count line := by
      rw [List.count, List.countP_map]
      rfl
    rw [hcount]
    exact List.nodup_iff_count_le_one.mp (h.buffers path).single line
  found := fun mark hm => h.markAt hm
  holds := by
    intro mark hm
    obtain ⟨bp, hobj, hpath, hline, hrest⟩ := h.holds path mark hm
    obtain ⟨hsettled, hcreated⟩ := hrest (by simp)
    obtain ⟨r, -, hr⟩ := List.any_eq_true.mp hcreated
    exact ⟨bp, hobj, hline, hpath, ⟨r, hr⟩, hsettled⟩
  alone := fun mark hm path' mark' hm' hb => h.eq_of_breakpoint hm' hm hb

/-- What GDB writes changes no more than the numbers of the Breakpoints. -/
theorem handleResponse_renumbered {t u : Tracker n} {first : List Mi.MiOutput} {r : Fin n}
    (h : t.handleResponse first r = .ok u) : ∃ numbers, u = renumbered t u numbers := by
  refine ⟨fun b => ((u.objects b).map Breakpoint.numbers).getD fun _ => 0, ?_⟩
  have hobjects : ∀ b, u.objects b = (t.objects b).map fun bp =>
      { bp with numbers := ((u.objects b).map Breakpoint.numbers).getD fun _ => 0 } := by
    intro b
    obtain ⟨v, hv, rfl | ⟨c, bp, number, -, hobj, rfl⟩⟩ := Tracker.handleResponse_cases h
    · rw [hv.objects]
      cases t.objects b <;> rfl
    · simp only [Tracker.registerBreakpoint, Tracker.store, Function.update_apply, hv.objects]
      by_cases hb : b = c
      · subst hb
        rw [if_pos rfl, hobj]
        rfl
      · rw [if_neg hb]
        cases t.objects b <;> rfl
  rw [renumbered, ← funext hobjects]

theorem inv_reachable {e : Editor n} (he : Reachable (system n) e) : e.Inv := by
  apply he.invariant (I := Inv)
  · rintro e rfl
    refine inv_of_marked
      ⟨fun path => SourceBuffer.Ok.empty, fun b hb => ?_, fun path mark hm => ?_⟩ rfl
    · cases hb
    · cases hm
  · intro e a e' h hstep
    obtain ⟨u, hu, hinv⟩ := h.next (enabled_of_next hstep)
    obtain rfl := Option.some.inj (hu.symm.trans hstep)
    exact hinv

/-- Between operations marks and breakpoints correspond on every page, and no
step ever follows a bad pointer. -/
theorem reachable_corresponds {s : Editor n} (hs : Reachable (system n) s) :
    (s.dialog = none → ∀ path, s.Corresponds path) ∧
      ∀ a, s.Enabled a → ∃ u, s.next a = some u := by
  have hinv := inv_reachable hs
  refine ⟨fun hclosed path => ?_, fun a ha => ?_⟩
  · exact (hinv.marked_of (by rw [hclosed]; rfl)).corresponds path
  · obtain ⟨u, hu, -⟩ := hinv.next ha
    exact ⟨u, hu⟩

/-- All ranks are stopped and connected. -/
def stoppedWindow (n : Nat) : Tracker n :=
  { Tracker.init n with targetState := fun _ => .stopped, connsGdb := fun _ => true }

/-- A line is marked, another one marked and unmarked again. -/
theorem markedLine_corresponds :
    ∃ s : Editor 2, s.Corresponds (ascii "/src/a.c") ∧
      (s.buffers (ascii "/src/a.c")).lines = some {3} := by
  obtain ⟨s, hs, hp⟩ := (Reachable.start (M := system 2) rfl).replay_any
    [.environment (stoppedWindow 2) fun _ _ => -1,
      .click false (ascii "/src/a.c") 3, .accept (fun r => r = 0) false,
      .click false (ascii "/src/a.c") 5, .accept (fun _ => true) false,
      .click false (ascii "/src/a.c") 5]
    (fun s => s.dialog.isNone && decide ((s.buffers (ascii "/src/a.c")).lines = some {3}))
    (by decide +kernel)
  simp only [Bool.and_eq_true, decide_eq_true_eq, Option.isNone_iff_eq_none] at hp
  exact ⟨s, (reachable_corresponds hs).1 hp.1 (ascii "/src/a.c"), hp.2⟩

end Editor

end ParallelGdb
