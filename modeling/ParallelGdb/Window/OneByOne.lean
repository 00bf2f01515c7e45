import ParallelGdb.Window.References
import ParallelGdb.Window.Status

/-!
# A response and its records one by one

The three passes over a response look at its records differently: all of them in
order for the target state, the first stop record only, the first result record
only. Handing over each record as a response of its own makes every stop record
and every result record count. The two agree, from every state, exactly for the
responses described by `Uniform`.
-/

namespace ParallelGdb

open Library.CString Library.Overwrite Library.RankLoop Mi

/-- The assignment of breakpoint numbers at a rank. -/
structure Numbering where
  slot : Option BkptId
  registry : Int → Option BkptId
  numbers : BkptId → Option Int

/-- A breakpoint number is reported. -/
def Numbering.report (N : Numbering) (number : Int) : Numbering :=
  match N.slot with
  | none => N
  | some b =>
      { slot := none
        registry := Function.update N.registry number (some b)
        numbers := Function.update N.numbers b (some number) }

/-- The responses for which it makes no difference whether they are interpreted
at once or record by record. -/
structure Uniform (first : List MiOutput) : Prop where
  /-- Every stop record can be read, not only the first. -/
  readable : ∀ o ∈ first, o.isStop = true → ∃ stop, miGetStopped o.c = .ok stop
  /-- To each field the last record that assigns it assigns what the first stop
  record does, or the last class where that leaves the field alone. -/
  changes : Changes.along recordChanges first = responseChanges first
  /-- The first result record reports a breakpoint, or none does. -/
  numbers : (∃ number, miResBkpt first = .ok (some number)) ∨
    ∀ o ∈ first, miResBkpt [o] = .ok none

namespace Tracker

variable {n : Nat}

/-- The interpretation of the records as one response each. -/
def handleEach (first : List MiOutput) (r : Fin n) (t : Tracker n) : Except Fault (Tracker n) :=
  first.foldlM (fun t o => t.handleResponse [o] r) t

def numbering (t : Tracker n) (r : Fin n) : Numbering where
  slot := t.breakpoints r
  registry := t.bkptno2Bkpt r
  numbers := fun b => (t.objects b).map fun bp => bp.numbers r

/-- Two windows agree on what is tracked of a rank and on its breakpoint numbers. -/
structure SameRank (r : Fin n) (u v : Tracker n) : Prop where
  status : u.status r = v.status r
  numbering : u.numbering r = v.numbering r

/-- Both interpretations of a response go through and agree. -/
def InterpretsAlike (first : List MiOutput) (r : Fin n) (t : Tracker n) : Prop :=
  ∃ u v, t.handleResponse first r = .ok u ∧ t.handleEach first r = .ok v ∧ SameRank r u v

section Status

/-- One record as a response of its own. -/
theorem responseChanges_single (o : MiOutput) : responseChanges [o] = recordChanges o := by
  cases ho : o.isStop with
  | true =>
      simp [responseChanges, recordChanges, Changes.along_cons, miGetStopRecord, ho]
  | false =>
      simp [responseChanges, recordChanges, Changes.along_cons, miGetStopRecord, ho, stopOf]

theorem status_handleEach {first : List MiOutput} {r : Fin n} {t u : Tracker n}
    (h : t.handleEach first r = .ok u) :
    u.status r = (Changes.along recordChanges first).apply (t.status r) := by
  unfold handleEach at h
  induction first generalizing t with
  | nil =>
      obtain rfl := Except.ok.inj h
      rfl
  | cons o rest ih =>
      rw [List.foldlM_cons] at h
      cases hstep : t.handleResponse [o] r with
      | error e => simp [hstep, bind, Except.bind] at h
      | ok v =>
          simp only [hstep, bind, Except.bind] at h
          rw [ih h, status_handleResponse hstep, responseChanges_single, Changes.along_cons,
            Changes.apply_andThen]

end Status

section Numbers

theorem numbering_of_sameLinks {t u : Tracker n} (h : SameLinks t u) (r : Fin n) :
    u.numbering r = t.numbering r := by
  simp only [numbering, h.objects, h.breakpoints, h.bkptno2Bkpt]

theorem numbering_registerBreakpoint {t : Tracker n} {r : Fin n} {b : BkptId}
    (bp : Breakpoint n) (number : Int) (hslot : t.breakpoints r = some b) :
    (t.registerBreakpoint r b bp number).numbering r = (t.numbering r).report number := by
  simp only [numbering, registerBreakpoint, store, Numbering.report, hslot,
    Function.update_self, Numbering.mk.injEq, true_and]
  funext c
  by_cases hcb : c = b
  · subst hcb
    simp [Breakpoint.setNumber]
  · simp [Function.update_of_ne hcb]

theorem parseStopRecord_ok {t : Tracker n} (h : t.NoDangling) {first : List MiOutput} (r : Fin n)
    (hread : ∀ o, miGetStopRecord first = some o → ∃ stop, miGetStopped o.c = .ok stop) :
    ∃ u, t.parseStopRecord first r = .ok u := by
  unfold parseStopRecord miResStop
  cases hsr : miGetStopRecord first with
  | none => exact ⟨t, rfl⟩
  | some o =>
      obtain ⟨stop, hstop⟩ := hread o hsr
      simp only [hstop, bind, Except.bind, pure, Except.pure, applyStop]
      cases hnamed : stopBreakpoint stop r t with
      | none => simp [hitBreakpoint, hnamed]
      | some b =>
          have hreg : t.Refers b := by
            refine Or.inr ⟨r, stop.bkptno, ?_⟩
            unfold stopBreakpoint at hnamed
            split at hnamed
            · exact hnamed
            · simp at hnamed
          obtain ⟨bp, hobj⟩ := Option.isSome_iff_exists.mp (h b hreg)
          simp [hitBreakpoint, hnamed, hobj]

theorem parseBreakpoint_ok {t : Tracker n} (h : t.NoDangling) {first : List MiOutput} (r : Fin n)
    (hnum : t.breakpoints r = none ∨ ∃ found, miResBkpt first = .ok found) :
    ∃ u, t.parseBreakpoint first r = .ok u := by
  unfold parseBreakpoint
  cases hslot : t.breakpoints r with
  | none => exact ⟨t, rfl⟩
  | some b =>
      obtain ⟨found, hfound⟩ := hnum.resolve_left (by simp [hslot])
      obtain ⟨bp, hobj⟩ := Option.isSome_iff_exists.mp (h b (Or.inl ⟨r, hslot⟩))
      cases found <;> simp [hfound, hobj, bind, Except.bind, pure, Except.pure]

/-- With no dangling reference a response goes through if its first stop record
and, where a Breakpoint waits, its first result record can be read. -/
theorem handleResponse_ok {t : Tracker n} (h : t.NoDangling) {first : List MiOutput} {r : Fin n}
    (hread : ∀ o, miGetStopRecord first = some o → ∃ stop, miGetStopped o.c = .ok stop)
    (hnum : t.breakpoints r = none ∨ ∃ found, miResBkpt first = .ok found) :
    ∃ u, t.handleResponse first r = .ok u := by
  have hlinks := sameLinks_parseTargetState first r t
  have hpass : (t.parseTargetState first r).NoDangling := by
    intro b hb
    rw [hlinks.objects]
    exact h b ((hlinks.refers b).mp hb)
  obtain ⟨u, hu⟩ := parseStopRecord_ok hpass r hread
  have hlinks' := hlinks.trans (sameLinks_parseStopRecord hu)
  have hlast : u.NoDangling := by
    intro b hb
    rw [hlinks'.objects]
    exact h b ((hlinks'.refers b).mp hb)
  obtain ⟨v, hv⟩ := parseBreakpoint_ok hlast r (hlinks'.breakpoints ▸ hnum)
  refine ⟨v, ?_⟩
  simp only [handleResponse, hu, bind, Except.bind, hv]

/-- What a response does to the numbers. -/
theorem numbering_handleResponse {t u : Tracker n} {first : List MiOutput} {r : Fin n}
    (h : t.handleResponse first r = .ok u) :
    (t.breakpoints r = none ∧ u.numbering r = t.numbering r) ∨
      ∃ found, miResBkpt first = .ok found ∧
        u.numbering r = found.elim (t.numbering r) (t.numbering r).report := by
  obtain ⟨v, hv, hu⟩ := handleResponse_passes h
  have hlinks := (sameLinks_parseTargetState first r t).trans (sameLinks_parseStopRecord hv)
  unfold parseBreakpoint at hu
  cases hslot : v.breakpoints r with
  | none =>
      simp only [hslot, Except.ok.injEq] at hu
      subst hu
      exact Or.inl ⟨hlinks.breakpoints ▸ hslot, numbering_of_sameLinks hlinks r⟩
  | some b =>
      right
      cases hres : miResBkpt first with
      | error e => simp [hslot, hres, bind, Except.bind] at hu
      | ok found =>
          refine ⟨found, rfl, ?_⟩
          rw [← numbering_of_sameLinks hlinks r]
          cases found with
          | none =>
              simp only [hslot, hres, bind, Except.bind, pure, Except.pure,
                Except.ok.injEq] at hu
              rw [← hu]
              rfl
          | some number =>
              cases hobj : v.objects b with
              | none => simp [hslot, hres, bind, Except.bind, hobj] at hu
              | some bp =>
                  simp only [hslot, hres, bind, Except.bind, hobj, pure, Except.pure,
                    Except.ok.injEq] at hu
                  rw [← hu]
                  exact numbering_registerBreakpoint bp number hslot

/-- The first result record of a response decides what it reports. -/
theorem miResBkpt_cons (o : MiOutput) (rest : List MiOutput) :
    miResBkpt (o :: rest) =
      if o.type = .resultRecord then miResBkpt [o] else miResBkpt rest := by
  unfold miResBkpt miGetRrecord
  by_cases ho : o.type = .resultRecord <;> simp [ho]

theorem miResBkpt_other_type {o : MiOutput} (ho : o.type ≠ .resultRecord) :
    miResBkpt [o] = .ok none := by
  simp [miResBkpt, miGetRrecord, ho]

@[simp] theorem report_slot (N : Numbering) (number : Int) : (N.report number).slot = none := by
  unfold Numbering.report
  split
  · assumption
  · rfl

/-- A number nobody waits for is not recorded. -/
theorem report_of_idle {t : Tracker n} {r : Fin n} (hslot : t.breakpoints r = none)
    (number : Int) : (t.numbering r).report number = t.numbering r := by
  simp [Numbering.report, numbering, hslot]

/-- One record as a response of its own. -/
theorem handleRecord {t : Tracker n} (h : t.NoDangling) {o : MiOutput} {r : Fin n}
    (hread : o.isStop = true → ∃ stop, miGetStopped o.c = .ok stop) {found : Option Int}
    (hnum : t.breakpoints r = none ∨ miResBkpt [o] = .ok found) :
    ∃ u, t.handleResponse [o] r = .ok u ∧ u.NoDangling ∧
      u.numbering r = found.elim (t.numbering r) (t.numbering r).report := by
  have hsingle : ∀ o', miGetStopRecord [o] = some o' →
      ∃ stop, miGetStopped o'.c = .ok stop := by
    intro o' ho'
    obtain rfl := List.mem_singleton.mp (List.mem_of_find?_eq_some ho')
    exact hread (List.find?_some ho')
  obtain ⟨u, hu⟩ := handleResponse_ok h hsingle (hnum.imp_right fun hfound => ⟨found, hfound⟩)
  refine ⟨u, hu, h.response hu, ?_⟩
  rcases hnum with hslot | hfound
  · have hreport := report_of_idle hslot
    rcases numbering_handleResponse hu with ⟨-, hsame⟩ | ⟨found', -, hafter⟩
    · cases found <;> simp [hreport, hsame]
    · rw [hafter]
      cases found <;> cases found' <;> simp [hreport]
  · rcases numbering_handleResponse hu with ⟨hslot, hsame⟩ | ⟨found', hfound', hafter⟩
    · cases found <;> simp [hsame, report_of_idle hslot]
    · obtain rfl := Except.ok.inj (hfound.symm.trans hfound')
      exact hafter

theorem handleEach_cons {t u : Tracker n} {o : MiOutput} {r : Fin n}
    (hu : t.handleResponse [o] r = .ok u) (rest : List MiOutput) :
    t.handleEach (o :: rest) r = u.handleEach rest r := by
  simp only [handleEach, List.foldlM_cons, hu, bind, Except.bind]

theorem handleEach_cons_ok {t v : Tracker n} {o : MiOutput} {rest : List MiOutput} {r : Fin n}
    (h : t.handleEach (o :: rest) r = .ok v) :
    ∃ u, t.handleResponse [o] r = .ok u ∧ u.handleEach rest r = .ok v := by
  cases hu : t.handleResponse [o] r with
  | error e => simp [handleEach, List.foldlM_cons, hu, bind, Except.bind] at h
  | ok u => exact ⟨u, rfl, (handleEach_cons hu rest).symm.trans h⟩

/-- Records that report nothing, or that nobody waits for, are interpreted one
by one without touching the numbers. -/
theorem handleEach_idle {t : Tracker n} (h : t.NoDangling) {first : List MiOutput} {r : Fin n}
    (hread : ∀ o ∈ first, o.isStop = true → ∃ stop, miGetStopped o.c = .ok stop)
    (hnum : t.breakpoints r = none ∨ ∀ o ∈ first, miResBkpt [o] = .ok none) :
    ∃ v, t.handleEach first r = .ok v ∧ v.numbering r = t.numbering r := by
  induction first generalizing t with
  | nil => exact ⟨t, rfl, rfl⟩
  | cons o rest ih =>
      obtain ⟨u, hu, hsafe, hsame⟩ := handleRecord h (hread o (by simp))
        (hnum.imp_right fun hall => hall o (by simp))
      have hslot : u.breakpoints r = t.breakpoints r := congrArg Numbering.slot hsame
      obtain ⟨v, hv, hnumbering⟩ := ih hsafe (fun o' ho' => hread o' (by simp [ho']))
        (by rw [hslot]; exact hnum.imp_right fun hall o' ho' => hall o' (by simp [ho']))
      exact ⟨v, (handleEach_cons hu rest).trans hv, hnumbering.trans hsame⟩

/-- Where the first result record reports a number, the rest changes nothing. -/
theorem handleEach_reports {t : Tracker n} (h : t.NoDangling) {first : List MiOutput} {r : Fin n}
    (hread : ∀ o ∈ first, o.isStop = true → ∃ stop, miGetStopped o.c = .ok stop) {number : Int}
    (hnum : miResBkpt first = .ok (some number)) :
    ∃ v, t.handleEach first r = .ok v ∧ v.numbering r = (t.numbering r).report number := by
  induction first generalizing t with
  | nil => cases hnum
  | cons o rest ih =>
      have hrest : ∀ o' ∈ rest, o'.isStop = true → ∃ stop, miGetStopped o'.c = .ok stop :=
        fun o' ho' => hread o' (by simp [ho'])
      rw [miResBkpt_cons] at hnum
      split at hnum
      · obtain ⟨u, hu, hsafe, hafter⟩ := handleRecord h (hread o (by simp)) (Or.inr hnum)
        have hslot : u.breakpoints r = none :=
          (congrArg Numbering.slot hafter).trans (report_slot _ _)
        obtain ⟨v, hv, hsame⟩ := handleEach_idle hsafe hrest (Or.inl hslot)
        exact ⟨v, (handleEach_cons hu rest).trans hv, hsame.trans hafter⟩
      · rename_i htype
        obtain ⟨u, hu, hsafe, hsame⟩ := handleRecord h (hread o (by simp))
          (Or.inr (miResBkpt_other_type htype))
        obtain ⟨v, hv, hafter⟩ := ih hsafe hrest hnum
        refine ⟨v, (handleEach_cons hu rest).trans hv, ?_⟩
        rw [hafter, hsame]
        rfl

/-- With no result record that reports, the response reports nothing. -/
theorem miResBkpt_none {first : List MiOutput} (h : ∀ o ∈ first, miResBkpt [o] = .ok none) :
    miResBkpt first = .ok none := by
  induction first with
  | nil => rfl
  | cons o rest ih =>
      rw [miResBkpt_cons]
      split
      · exact h o (by simp)
      · exact ih fun o' ho' => h o' (by simp [ho'])

end Numbers

section Necessity

theorem handleEach_readable {t v : Tracker n} {first : List MiOutput} {r : Fin n}
    (h : t.handleEach first r = .ok v) :
    ∀ o ∈ first, o.isStop = true → ∃ stop, miGetStopped o.c = .ok stop := by
  induction first generalizing t with
  | nil => simp
  | cons o rest ih =>
      obtain ⟨u, hu, hrest⟩ := handleEach_cons_ok h
      intro o' ho' hstop
      rcases List.mem_cons.mp ho' with rfl | ho'
      · obtain ⟨w, hw, -⟩ := handleResponse_passes hu
        rcases parseStopRecord_cases hw with ⟨hnone, -⟩ | ⟨o', stop, hfirst, hread, -⟩
        · simp [miGetStopRecord, hstop] at hnone
        · obtain rfl := List.mem_singleton.mp (List.mem_of_find?_eq_some hfirst)
          exact ⟨stop, hread⟩
      · exact ih hrest o' ho' hstop

/-- While a Breakpoint still waits at the end, no record reported a number. -/
theorem handleEach_waiting {t v : Tracker n} {first : List MiOutput} {r : Fin n}
    (h : t.handleEach first r = .ok v) (hslot : v.breakpoints r ≠ none) :
    t.breakpoints r ≠ none ∧ ∀ o ∈ first, miResBkpt [o] = .ok none := by
  induction first generalizing t with
  | nil =>
      obtain rfl := Except.ok.inj h
      exact ⟨hslot, by simp⟩
  | cons o rest ih =>
      obtain ⟨u, hu, hrest⟩ := handleEach_cons_ok h
      obtain ⟨huslot, hall⟩ := ih hrest
      rcases numbering_handleResponse hu with ⟨hnone, hsame⟩ | ⟨found, hfound, hafter⟩
      · exact absurd ((congrArg Numbering.slot hsame).trans hnone) huslot
      · cases found with
        | none =>
            refine ⟨fun hnone => huslot ((congrArg Numbering.slot hafter).trans hnone), ?_⟩
            intro o' ho'
            rcases List.mem_cons.mp ho' with rfl | ho'
            · exact hfound
            · exact hall o' ho'
        | some number =>
            exact absurd ((congrArg Numbering.slot hafter).trans (report_slot _ _)) huslot

/-- A window with a Breakpoint waiting at every rank and the given status. -/
def probe (n : Nat) (s : Status) : Tracker n :=
  { Tracker.init n with
    targetState := fun _ => s.targetState
    currentFile := fun _ => s.currentFile
    currentLine := fun _ => s.currentLine
    exitCode := fun _ => s.exitCode
    breakpoints := fun _ => some 0
    objects := fun _ => some (Breakpoint.new n 1 []) }

theorem noDangling_probe (s : Status) : (probe n s).NoDangling := fun _ _ => rfl

end Necessity

/-- A response is interpreted like its records one by one, from every state, if
and only if it is uniform. -/
theorem interpretsAlike_iff (first : List MiOutput) (r : Fin n) :
    (∀ t : Tracker n, t.NoDangling → t.InterpretsAlike first r) ↔ Uniform first := by
  constructor
  · intro h
    constructor
    · obtain ⟨u, v, -, hv, -⟩ := h _ (noDangling_probe ⟨.unknown, [], 0, 0⟩)
      exact handleEach_readable hv
    · apply Changes.apply_injective
      intro s
      obtain ⟨u, v, hu, hv, hsame⟩ := h _ (noDangling_probe s)
      have hstatus := hsame.status
      rw [status_handleResponse hu, status_handleEach hv] at hstatus
      exact hstatus.symm
    · obtain ⟨u, v, hu, hv, hsame⟩ := h _ (noDangling_probe ⟨.unknown, [], 0, 0⟩)
      rcases numbering_handleResponse hu with ⟨hnone, -⟩ | ⟨found, hfound, hafter⟩
      · cases hnone
      · cases found with
        | some number => exact Or.inl ⟨number, hfound⟩
        | none =>
            have hslot : v.breakpoints r = some 0 :=
              (congrArg Numbering.slot hsame.numbering).symm.trans
                (congrArg Numbering.slot hafter)
            exact Or.inr (handleEach_waiting hv (by simp [hslot])).2
  · intro h t hsafe
    have hfirst : ∀ o, miGetStopRecord first = some o →
        ∃ stop, miGetStopped o.c = .ok stop := fun o ho =>
      h.readable o (List.mem_of_find?_eq_some ho) (List.find?_some ho)
    -- both interpretations make the same entry, or none
    have hnumbers : ∃ found, miResBkpt first = .ok found ∧
        ∃ v, t.handleEach first r = .ok v ∧
          v.numbering r = found.elim (t.numbering r) (t.numbering r).report := by
      rcases h.numbers with ⟨number, hnumber⟩ | hall
      · exact ⟨some number, hnumber, handleEach_reports hsafe h.readable hnumber⟩
      · exact ⟨none, miResBkpt_none hall, handleEach_idle hsafe h.readable (Or.inr hall)⟩
    obtain ⟨found, hfound, v, hv, hafter⟩ := hnumbers
    obtain ⟨u, hu⟩ := handleResponse_ok hsafe hfirst (Or.inr ⟨found, hfound⟩)
    refine ⟨u, v, hu, hv, ?_, ?_⟩
    · rw [status_handleResponse hu, status_handleEach hv, h.changes]
    · rw [hafter]
      rcases numbering_handleResponse hu with ⟨hslot, hsame⟩ | ⟨found', hfound', hafter'⟩
      · cases found <;> simp [hsame, report_of_idle hslot]
      · obtain rfl := Except.ok.inj (hfound.symm.trans hfound')
        exact hafter'

/-- A source file is reported, and in the same response the target runs on. -/
def stoppedThenRunning : List MiOutput :=
  [{ tclass := .stopped,
     c := [.tuple (some (ascii "frame"))
       [.const (some (ascii "fullname")) (ascii "/a.c"),
        .const (some (ascii "line")) (ascii "3")]] },
   { type := .resultRecord, tclass := .running }]

/-- Handled at once, the rank runs and keeps the file; one by one it has none. -/
theorem stopped_then_running_differs :
    ¬ (Tracker.init 1).InterpretsAlike stoppedThenRunning 0 := by
  rintro ⟨u, v, hu, hv, hsame⟩
  have hfiles := congrArg Status.currentFile hsame.status
  have hatOnce : u.currentFile 0 = ascii "/a.c" := by
    obtain rfl := Except.ok.inj hu
    rfl
  have hOneByOne : v.currentFile 0 = [] := by
    obtain rfl := Except.ok.inj hv
    rfl
  have habsurd : ascii "/a.c" = [] := hatOnce.symm.trans (hfiles.trans hOneByOne)
  exact absurd habsurd (by decide)

end Tracker

end ParallelGdb
