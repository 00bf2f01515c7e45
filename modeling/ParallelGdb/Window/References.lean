import ParallelGdb.Window.Frame

/-!
# References to Breakpoints

Slots and registry are the places a Breakpoint can be reached from while GDB
output is handled. A response moves references from a slot to the registry and
makes no new ones, and it follows a pointer only from these two places.
-/

namespace ParallelGdb

open Library.CString Mi Breakpoint

namespace Tracker

variable {n : Nat}

/-- A slot or a registered number still points to the Breakpoint. -/
def Refers (t : Tracker n) (b : BkptId) : Prop :=
  (∃ r, t.breakpoints r = some b) ∨ ∃ r k, t.bkptno2Bkpt r k = some b

theorem SameLinks.refers {t u : Tracker n} (h : SameLinks t u) (b : BkptId) :
    u.Refers b ↔ t.Refers b := by
  simp only [Refers, h.breakpoints, h.bkptno2Bkpt]

/-- Operations make a new reference only by inserting. -/
theorem refers_afterOps {t : Tracker n} {b c : BkptId} {bp : Breakpoint n}
    {op : Fin n → RankOp} (h : (t.afterOps b bp op).Refers c) :
    t.Refers c ∨ c = b ∧ ∃ r, op r = .insert := by
  rcases h with ⟨r, hr⟩ | ⟨r, k, hk⟩
  · cases hop : op r with
    | insert =>
        simp only [afterOps, hop, RankOp.slot, Option.some.injEq] at hr
        exact Or.inr ⟨hr.symm, r, hop⟩
    | keep => exact Or.inl (Or.inl ⟨r, by simpa [afterOps, hop, RankOp.slot] using hr⟩)
    | refusedInsert => exact Or.inl (Or.inl ⟨r, by simpa [afterOps, hop, RankOp.slot] using hr⟩)
    | delete => exact Or.inl (Or.inl ⟨r, by simpa [afterOps, hop, RankOp.slot] using hr⟩)
    | refusedDelete => exact Or.inl (Or.inl ⟨r, by simpa [afterOps, hop, RankOp.slot] using hr⟩)
  · exact Or.inl (Or.inr ⟨r, k, hk⟩)

theorem refers_afterOps_of_no_insert {t : Tracker n} {b c : BkptId} {bp : Breakpoint n}
    {op : Fin n → RankOp} (hop : ∀ r, op r ≠ .insert) :
    (t.afterOps b bp op).Refers c ↔ t.Refers c := by
  have hslot : ∀ r, (op r).slot b (t.breakpoints r) = t.breakpoints r := by
    intro r
    cases hr : op r with
    | insert => exact absurd hr (hop r)
    | keep => rfl
    | refusedInsert => rfl
    | delete => rfl
    | refusedDelete => rfl
  simp only [Refers, afterOps, hslot]

/-- Registering a number moves a reference from the slot to the registry. -/
theorem refers_registerBreakpoint {t : Tracker n} {r : Fin n} {b c : BkptId}
    {bp : Breakpoint n} {number : Int} (hslot : t.breakpoints r = some b)
    (h : (t.registerBreakpoint r b bp number).Refers c) : t.Refers c := by
  rcases h with ⟨q, hq⟩ | ⟨q, k, hk⟩
  · simp only [registerBreakpoint, Function.update_apply] at hq
    split at hq
    · simp at hq
    · exact Or.inl ⟨q, hq⟩
  · simp only [registerBreakpoint, Function.update_apply] at hk
    split at hk
    · rw [Function.update_apply] at hk
      split at hk
      · obtain rfl := Option.some.inj hk
        exact Or.inl ⟨r, hslot⟩
      · exact Or.inr ⟨_, k, hk⟩
    · exact Or.inr ⟨q, k, hk⟩

/-- Whatever a slot or the registry points to has not been deleted. -/
def NoDangling (t : Tracker n) : Prop := ∀ b, t.Refers b → (t.objects b).isSome

/-- `parse_stop_record` reaches a deleted Breakpoint through the registry only. -/
theorem parseStopRecord_deleted {t : Tracker n} {first : List MiOutput} {r : Fin n}
    (h : t.parseStopRecord first r = .error .deletedBreakpoint) :
    ∃ b k, t.bkptno2Bkpt r k = some b ∧ t.objects b = none := by
  unfold parseStopRecord at h
  cases hres : miResStop first with
  | error e =>
      simp only [hres, bind, Except.bind, Except.error.injEq] at h
      exact absurd (nameFault_miResStop first e hres) (by simp [h])
  | ok found =>
      cases found with
      | none => simp [hres, bind, Except.bind, pure, Except.pure] at h
      | some stop =>
          simp only [hres, bind, Except.bind, applyStop] at h
          cases hnamed : stopBreakpoint stop r t with
          | none => simp [hitBreakpoint, hnamed, pure, Except.pure] at h
          | some b =>
              have hreg : t.bkptno2Bkpt r stop.bkptno = some b := by
                unfold stopBreakpoint at hnamed
                split at hnamed
                · exact hnamed
                · simp at hnamed
              cases hobj : t.objects b with
              | none => exact ⟨b, stop.bkptno, hreg, hobj⟩
              | some bp => simp [hitBreakpoint, hnamed, hobj, pure, Except.pure] at h

/-- `parse_breakpoint` reaches one through the slot only. -/
theorem parseBreakpoint_deleted {t : Tracker n} {first : List MiOutput} {r : Fin n}
    (h : t.parseBreakpoint first r = .error .deletedBreakpoint) :
    ∃ b, t.breakpoints r = some b ∧ t.objects b = none := by
  unfold parseBreakpoint at h
  cases hslot : t.breakpoints r with
  | none => simp [hslot] at h
  | some b =>
      cases hobj : t.objects b with
      | none => exact ⟨b, rfl, hobj⟩
      | some bp =>
          cases hres : miResBkpt first with
          | error e =>
              simp only [hslot, hres, bind, Except.bind, Except.error.injEq] at h
              exact absurd (nameFault_miResBkpt first e hres) (by simp [h])
          | ok found =>
              cases found with
              | none => simp [hslot, hres, bind, Except.bind, pure, Except.pure] at h
              | some number =>
                  simp [hslot, hres, bind, Except.bind, hobj, pure, Except.pure] at h

/-- With no dangling reference no response reaches a deleted Breakpoint. -/
theorem handleResponse_live {t : Tracker n} (h : t.NoDangling) (first : List MiOutput)
    (r : Fin n) : t.handleResponse first r ≠ .error .deletedBreakpoint := by
  intro hfault
  have hlinks := sameLinks_parseTargetState first r t
  simp only [handleResponse] at hfault
  generalize t.parseTargetState first r = u at hlinks hfault
  cases hstop : u.parseStopRecord first r with
  | error e =>
      simp only [hstop, bind, Except.bind, Except.error.injEq] at hfault
      obtain ⟨b, k, hreg, hobj⟩ := parseStopRecord_deleted (hfault ▸ hstop)
      have hlive := h b (Or.inr ⟨r, k, hlinks.bkptno2Bkpt ▸ hreg⟩)
      simp [← hlinks.objects, hobj] at hlive
  | ok v =>
      have hv := hlinks.trans (sameLinks_parseStopRecord hstop)
      simp only [hstop, bind, Except.bind] at hfault
      obtain ⟨b, hslot, hobj⟩ := parseBreakpoint_deleted hfault
      have hlive := h b (Or.inl ⟨r, hv.breakpoints ▸ hslot⟩)
      simp [← hv.objects, hobj] at hlive

/-- Storing an object makes nothing dangle. -/
theorem NoDangling.store {t : Tracker n} {b : BkptId} {bp : Breakpoint n}
    (h : ∀ c, c ≠ b → t.Refers c → (t.objects c).isSome) : (t.store b bp).NoDangling := by
  intro c hc
  by_cases hcb : c = b
  · simp [Tracker.store, hcb]
  · simpa [Tracker.store, Function.update_of_ne hcb] using h c hcb hc

/-- Deleting an object is safe exactly if nothing refers to it. -/
theorem noDangling_free {t : Tracker n} {b : BkptId}
    (h : ∀ c, c ≠ b → t.Refers c → (t.objects c).isSome) :
    (t.free b).NoDangling ↔ ¬ t.Refers b := by
  constructor
  · intro hsafe hb
    simpa [Tracker.free] using hsafe b hb
  · intro hb c hc
    by_cases hcb : c = b
    · exact absurd (hcb ▸ hc) hb
    · simpa [Tracker.free, Function.update_of_ne hcb] using h c hcb hc

/-- A response makes nothing dangle. -/
theorem NoDangling.response {t w : Tracker n} (h : t.NoDangling) {first : List MiOutput}
    {r : Fin n} (hw : t.handleResponse first r = .ok w) : w.NoDangling := by
  intro c hc
  obtain ⟨u, hu, rfl | ⟨b, bp, number, hslot, hobj, rfl⟩⟩ := handleResponse_cases hw
  · rw [hu.objects]
    exact h c ((hu.refers c).mp hc)
  · have hlive := h c ((hu.refers c).mp
      (refers_registerBreakpoint (hu.breakpoints ▸ hslot) hc))
    simp only [registerBreakpoint, Tracker.store, Function.update_apply, hu.objects]
    split
    · rfl
    · exact hlive

end Tracker

end ParallelGdb
