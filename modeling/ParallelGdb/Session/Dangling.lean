import ParallelGdb.Session.Steps

/-!
# References to deleted Breakpoints

`create_mark` deletes only what was never registered; `clear_mark` is the one
deletion that can leave a slot or the registry pointing to a deleted Breakpoint.
-/

namespace ParallelGdb

open Library.CString Library.Transition Mi Breakpoint

namespace Session

variable {n : Nat}

/-- The Breakpoint `clear_mark` deletes in this step. -/
def clears (s : Session n) : Act n → Option BkptId
  | .click false fullpath line =>
      if s.dialog = none then
        (s.markAt fullpath line).filter fun b =>
          (s.window.objects b).any (deletable s.window)
      else
        none
  | .accept buttonStates _ =>
      match s.dialog with
      | some (.config b false) =>
          if (∀ r, buttonStates r = false) ∧
              (s.window.objects b).any (deletable s.window) then some b
          else none
      | _ => none
  | .dismiss =>
      match s.dialog with
      | some (.updated b false _) =>
          if (s.window.objects b).any fun bp => !bp.oneCreated then some b else none
      | _ => none
  | _ => none

/-- `clear_mark` deletes no Breakpoint a slot or the registry refers to. -/
def ClearsUnreferenced (s : Session n) (a : Act n) : Prop :=
  ∀ b, s.clears a = some b → ¬ s.window.Refers b

/-- A Breakpoint `create_mark` has not finished with is unknown to slots and
registry unless one of its inserts was sent. -/
structure NewUnreferenced (s : Session n) : Prop where
  config : ∀ b, s.dialog = some (.config b true) → ¬ s.window.Refers b
  updated : ∀ b message bp, s.dialog = some (.updated b true message) →
    s.window.objects b = some bp → bp.oneCreated = false → ¬ s.window.Refers b

/-- An insert that was sent shows after the call. -/
theorem no_insert_of_not_created {bp : Breakpoint n} {op : Fin n → RankOp}
    (h : (bp.afterOps op).updateStates.oneCreated = false) (r : Fin n) : op r ≠ .insert := by
  intro hr
  apply (oneCreated_eq_false _).mp h r
  simp [updateStates, afterOps, hr, RankOp.state]

theorem NewUnreferenced.step {s t : Session n} {a : Act n} (h : NewUnreferenced s)
    (hinv : Inv s) (hstep : s.next a = some t) : NewUnreferenced t := by
  cases next_step hstep with
  | nothing hd hm => exact h
  | create hd hm =>
      constructor
      · intro b hb hrefers
        obtain ⟨rfl, -⟩ := Dialog.config.inj (Option.some.inj hb)
        exact absurd (hinv.refers_lt _ hrefers) (Nat.lt_irrefl _)
      · intro b message bp hb
        simp [createMark] at hb
  | edit hd hm => constructor <;> simp [editMark]
  | @delete fullpath line b bp hd hm hobj =>
      have hdialog : ∀ c, (s.deleteMark b bp).dialog ≠ some (.config c true) ∧
          ∀ message, (s.deleteMark b bp).dialog ≠ some (.updated c true message) := by
        intro c
        unfold deleteMark
        simp only
        split <;> simp [clearMark, hd]
      exact ⟨fun c hc => absurd hc (hdialog c).1,
        fun c message _ hc => absurd hc ((hdialog c).2 message)⟩
  | cancel hd => constructor <;> simp
  | @accept b isNew bp buttonStates stopAll hd hobj =>
      obtain ⟨bp', hflag⟩ : ∃ bp', bp' = { bp with stopAll := stopAll } := ⟨_, rfl⟩
      rw [applyDialog_eq s b isNew buttonStates hflag]
      simp only
      split
      · constructor
        · simp
        · intro c message bpc hc hbpc hnone hrefers
          obtain ⟨rfl, rfl, rfl⟩ := Dialog.updated.inj (Option.some.inj hc)
          simp only [operated, Tracker.store, Function.update_self, Option.some.injEq] at hbpc
          subst hbpc
          apply h.config b hd
          have hafter :
              (s.window.afterOps b bp' (updateOp buttonStates (bp', s.window))).Refers b :=
            hrefers
          exact (Tracker.refers_afterOps_of_no_insert (no_insert_of_not_created hnone)).mp hafter
      · have hfinish : ∀ (u : Session n) (bp' : Breakpoint n), u.dialog = none →
            (u.finish b isNew bp').dialog = none := by
          intro u bp' hu
          unfold Session.finish endCreate endEdit clearMark
          split <;> split <;> exact hu
        constructor <;> simp [hfinish]
  | @updated b isNew message bp hd hobj =>
      have hfinish : (Session.finish { s with dialog := none } b isNew bp).dialog = none := by
        unfold Session.finish endCreate endEdit clearMark
        split <;> split <;> rfl
      constructor <;> simp [hfinish]
  | deleting hd hobj => constructor <;> simp
  | response ht =>
      obtain ⟨u, hu, rfl | ⟨b, bp, number, hslot, hobj, rfl⟩⟩ := Tracker.handleResponse_cases ht
      · constructor
        · intro c hc hrefers
          exact h.config c hc ((hu.refers c).mp hrefers)
        · intro c message bpc hc hbpc hnone hrefers
          exact h.updated c message bpc hc (hu.objects ▸ hbpc) hnone ((hu.refers c).mp hrefers)
      · have hback : ∀ c, (u.registerBreakpoint _ b bp number).Refers c → s.window.Refers c :=
          fun c hc => (hu.refers c).mp
            (Tracker.refers_registerBreakpoint (hu.breakpoints ▸ hslot) hc)
        constructor
        · exact fun c hc hrefers => h.config c hc (hback c hrefers)
        · intro c message bpc hc hbpc hnone hrefers
          simp only [Tracker.registerBreakpoint, Tracker.store, Function.update_apply] at hbpc
          split at hbpc
          · rename_i hcb
            obtain rfl := Option.some.inj hbpc
            exact h.updated c message bp hc (hcb ▸ hobj) hnone (hback c hrefers)
          · exact h.updated c message bpc hc (hu.objects ▸ hbpc) hnone (hback c hrefers)
  | connect => exact ⟨h.config, h.updated⟩

/-- Without error states and created ranks a call ends in `clear_mark`, which is
where every button is released and every created rank takes commands. -/
theorem call_clears_iff {s : Session n} (hinv : Inv s) {b : BkptId} {bp bp' : Breakpoint n}
    (hobj : s.window.objects b = some bp) (hd : s.isDeleting b = false)
    (hstate : bp'.state = bp.state) (buttonStates : Fin n → Bool) :
    (updateMessage (bp'.afterOps (updateOp buttonStates (bp', s.window)))
          (bp'.afterOps (updateOp buttonStates (bp', s.window))).updateStates = none ∧
        (bp'.afterOps (updateOp buttonStates (bp', s.window))).updateStates.oneCreated = false) ↔
      (∀ r, buttonStates r = false) ∧ deletable s.window bp = true := by
  simp only [deletable, List.all_eq_true, List.mem_finRange, true_imp_iff]
  rw [updateMessage_eq_none, oneCreated_eq_false, ← forall_and, ← forall_and]
  refine forall_congr' fun r => ?_
  have hs := hinv.settled hobj hd r
  simp only [updateStates, afterOps, updateOp, isCreated, hstate, hs]
  cases s.window.held b r <;> cases buttonStates r <;> cases s.window.canSend r <;> decide

/-- Both ends of a call delete the object where it is created nowhere. -/
theorem finish_noDangling {u : Session n} (h : u.window.NoDangling) (b : BkptId) (isNew : Bool)
    (bp : Breakpoint n) :
    (u.finish b isNew bp).window.NoDangling ↔ (bp.oneCreated = false → ¬ u.window.Refers b) := by
  have hfree := Tracker.noDangling_free (t := u.window) (b := b) fun c _ hc => h c hc
  cases hone : bp.oneCreated with
  | true =>
      have hwindow : (u.finish b isNew bp).window = u.window := by
        unfold Session.finish endCreate endEdit
        cases isNew <;> simp [hone]
      rw [hwindow]
      exact iff_of_true h (by simp)
  | false =>
      have hwindow : (u.finish b isNew bp).window = u.window.free b := by
        unfold Session.finish endCreate endEdit clearMark
        cases isNew <;> simp [hone]
      rw [hwindow, hfree]
      simp

/-- `delete_mark` deletes the object if it can be deleted on every rank. -/
theorem deleteMark_noDangling {s : Session n} (h : s.window.NoDangling) (b : BkptId)
    {bp : Breakpoint n} (hsettled : ∀ r, bp.state r = .created ∨ bp.state r = .notExisting) :
    (s.deleteMark b bp).window.NoDangling ↔
      (deletable s.window bp = true → ¬ s.window.Refers b) := by
  have hno : ∀ r, s.deleteOp bp r ≠ .insert := by
    intro r
    simp only [updateOp, rankOp]
    cases decide (bp.state r = .created) <;> cases s.window.canSend r <;> decide
  have hrefers : ∀ c, (s.window.afterOps b bp (s.deleteOp bp)).Refers c ↔
      s.window.Refers c := fun c => Tracker.refers_afterOps_of_no_insert hno
  rw [deleteMark_eq b hsettled]
  simp only
  split
  · rename_i hdel
    have hfree := Tracker.noDangling_free
      (t := (s.operated b bp (bp.afterOps (s.deleteOp bp)).updateStates (s.deleteOp bp)).window)
      (b := b) (fun c hcb hc => by
        simpa [operated, Tracker.store, Tracker.afterOps, Function.update_of_ne hcb] using
          h c ((hrefers c).mp hc))
    rw [clearMark, hfree]
    simp only [hdel, true_imp_iff]
    exact not_congr (hrefers b)
  · rename_i hdel
    refine iff_of_true ?_ fun hdel' => absurd hdel' hdel
    exact Tracker.NoDangling.store fun c _ hc => h c ((hrefers c).mp hc)

/-- A call deletes the object where nothing is said and it is created nowhere. -/
theorem applyDialog_noDangling {s : Session n} (h : s.window.NoDangling) (b : BkptId)
    (isNew : Bool) {bp bp' : Breakpoint n} (buttonStates : Fin n → Bool) {stopAll : Bool}
    (hflag : bp' = { bp with stopAll := stopAll }) :
    (s.applyDialog b isNew bp buttonStates stopAll).window.NoDangling ↔
      (updateMessage (bp'.afterOps (updateOp buttonStates (bp', s.window)))
            (bp'.afterOps (updateOp buttonStates (bp', s.window))).updateStates = none ∧
          (bp'.afterOps (updateOp buttonStates (bp', s.window))).updateStates.oneCreated = false →
        ¬ s.window.Refers b) := by
  rw [applyDialog_eq s b isNew buttonStates hflag]
  have hstored : ((s.window.afterOps b bp' (updateOp buttonStates (bp', s.window))).store b
      (bp'.afterOps (updateOp buttonStates (bp', s.window))).updateStates).NoDangling := by
    apply Tracker.NoDangling.store
    intro c hcb hc
    rcases Tracker.refers_afterOps hc with hc | ⟨rfl, -⟩
    · exact h c hc
    · exact absurd rfl hcb
  simp only
  split
  · rename_i hmessage
    exact iff_of_true hstored (by simp [hmessage])
  · rename_i hmessage
    rw [finish_noDangling (u := { s.operated b bp'
      (bp'.afterOps (updateOp buttonStates (bp', s.window))).updateStates
      (updateOp buttonStates (bp', s.window)) with dialog := none }) hstored]
    simp only [hmessage, true_and]
    refine imp_congr_right fun hone => not_congr ?_
    have hrefers : (s.window.afterOps b bp' (updateOp buttonStates (bp', s.window))).Refers b ↔
        s.window.Refers b :=
      Tracker.refers_afterOps_of_no_insert (no_insert_of_not_created hone)
    exact hrefers

theorem clearsUnreferenced_iff {s : Session n} {a : Act n} {b : BkptId} {p : Prop}
    [Decidable p] (h : s.clears a = if p then some b else none) :
    s.ClearsUnreferenced a ↔ (p → ¬ s.window.Refers b) := by
  unfold ClearsUnreferenced
  rw [h]
  by_cases hp : p <;> simp [hp]

/-- Exactly the steps that clear a referenced mark make a reference dangle. -/
theorem noDangling_step {s t : Session n} {a : Act n} (hinv : Inv s) (hnew : NewUnreferenced s)
    (h : s.window.NoDangling) (hstep : s.next a = some t) :
    t.window.NoDangling ↔ s.ClearsUnreferenced a := by
  have hkeep : s.clears a = none → t.window.NoDangling →
      (t.window.NoDangling ↔ s.ClearsUnreferenced a) := by
    intro hclears hsafe
    refine iff_of_true hsafe fun b hb => ?_
    simp [hclears] at hb
  cases next_step hstep with
  | nothing hd hm => exact hkeep rfl h
  | create hd hm =>
      exact hkeep (by simp [clears, hd, hm]) (Tracker.NoDangling.store fun c _ hc => h c hc)
  | edit hd hm => exact hkeep rfl h
  | @delete fullpath line b bp hd hm hobj =>
      have hclosed : s.isDeleting b = false := isDeleting_of_dialog (by simp [hd])
      have hsettled := hinv.settled hobj hclosed
      have hclears : s.clears (.click false fullpath line) =
          if deletable s.window bp = true then some b else none := by
        simp [clears, hd, hm, hobj, Option.filter]
      rw [clearsUnreferenced_iff hclears]
      exact deleteMark_noDangling h b fun r => by
        rw [hsettled r]
        cases s.window.held b r <;> simp
  | cancel hd => exact hkeep rfl h
  | @accept b isNew bp buttonStates stopAll hd hobj =>
      obtain ⟨bp', hflag⟩ : ∃ bp', bp' = { bp with stopAll := stopAll } := ⟨_, rfl⟩
      have hsame : bp'.state = bp.state := by rw [hflag]
      have hclosed : s.isDeleting b = false := isDeleting_of_dialog (by simp [hd])
      have hiff := call_clears_iff hinv hobj hclosed hsame buttonStates
      have hclears : s.clears (.accept buttonStates stopAll) =
          if isNew = false ∧ (∀ r, buttonStates r = false) ∧ deletable s.window bp = true
          then some b else none := by
        cases isNew <;> simp [clears, hd, hobj]
      rw [clearsUnreferenced_iff hclears, ← hiff,
        applyDialog_noDangling h b isNew buttonStates hflag]
      cases isNew with
      | true => exact iff_of_true (fun _ => hnew.config b hd) (by simp)
      | false => simp
  | @updated b isNew message bp hd hobj =>
      have hclears : s.clears .dismiss =
          if isNew = false ∧ bp.oneCreated = false then some b else none := by
        cases isNew <;> simp [clears, hd, hobj]
      rw [clearsUnreferenced_iff hclears, finish_noDangling (u := { s with dialog := none }) h]
      cases isNew with
      | true => exact iff_of_true (hnew.updated b message bp hd hobj) (by simp)
      | false => simp
  | deleting hd hobj =>
      exact hkeep (by simp [clears, hd]) (Tracker.NoDangling.store fun c _ hc => h c hc)
  | response ht => exact hkeep rfl (h.response ht)
  | connect => exact hkeep rfl h

/-- No reference dangles, and no response that could arrive reaches a deleted
Breakpoint. -/
def Safe (s : Session n) : Prop :=
  s.window.NoDangling ∧
    ∀ first r, s.window.handleResponse first r ≠ .error .deletedBreakpoint

theorem safe_iff (s : Session n) : s.Safe ↔ s.window.NoDangling :=
  ⟨fun h => h.1, fun h => ⟨h, Tracker.handleResponse_live h⟩⟩

/-- Every state of a run is safe if and only if `clear_mark` deletes no
Breakpoint a slot or the registry still refers to. -/
theorem safe_run_iff {tr : List (Session n × Act n)} {s : Session n}
    (run : Run (system n) tr s) :
    ((∀ p ∈ tr, p.1.Safe) ∧ s.Safe) ↔ Meets ClearsUnreferenced tr := by
  apply Run.meets_iff (J := fun s => Inv s ∧ NewUnreferenced s) ?_ ?_ ?_ run
  · rintro s rfl
    refine ⟨(safe_iff _).mpr ?_, Inv.init, ?_⟩
    · rintro b (⟨r, hr⟩ | ⟨r, k, hk⟩)
      · simp [init, Tracker.init] at hr
      · simp [init, Tracker.init] at hk
    · constructor <;> simp [init]
  · exact fun s a t hJ hstep => ⟨hJ.1.step hstep, hJ.2.step hJ.1 hstep⟩
  · intro s a t hJ hI hstep
    rw [safe_iff] at hI ⊢
    exact noDangling_step hJ.1 hJ.2 hI hstep

/-- A second mark takes the slot before GDB has answered for the first one, which is then
clicked again. -/
def overwrittenActs (r : Fin n) : List (Act n) :=
  [.connect r true true, .response [{ tclass := .stopped }] r,
    .click false (ascii "/a.c") 4, .accept (fun _ => true) false,
    .click false (ascii "/a.c") 7, .accept (fun _ => true) false,
    .response [insertedRecord 2] r, .click false (ascii "/a.c") 4]

/-- Its last step on a window of one rank, the only `clear_mark`. -/
def overwrittenClear (r : Fin 1) : Session 1 × Act 1 :=
  (trace next (init 1) (overwrittenActs r)).getLast (List.cons_ne_nil _ _)

theorem overwrittenMark_run_safe :
    (overwrittenClear 0).1.clears (overwrittenClear 0).2 = some 0 ∧
      (∀ p ∈ trace next (init 1) (overwrittenActs 0), p.1.Safe) ∧
      ∀ s, (overwrittenActs 0).foldlM next (init 1) = some s → s.Safe := by
  have hclear : (overwrittenClear 0).1.clears (overwrittenClear 0).2 = some 0 := by decide
  have hslot : (overwrittenClear 0).1.window.breakpoints 0 = none := by decide
  have hregistry : (overwrittenClear 0).1.window.bkptno2Bkpt 0 =
      Function.update (fun _ => none) 2 (some 1) := rfl
  have hearlier : ((trace next (init 1) (overwrittenActs 0)).dropLast.all fun p =>
      (p.1.clears p.2).isNone) = true := by decide
  have hmeets : Meets ClearsUnreferenced (trace next (init 1) (overwrittenActs 0)) := by
    intro p hp b hb
    rw [← List.dropLast_append_getLast (l := trace next (init 1) (overwrittenActs 0))
      (by decide)] at hp
    rcases List.mem_append.mp hp with hp | hp
    · have hnone := List.all_eq_true.mp hearlier p hp
      simp [hb] at hnone
    · obtain rfl : p = overwrittenClear 0 := List.mem_singleton.mp hp
      obtain rfl := Option.some.inj (hclear.symm.trans hb)
      rintro (⟨r, hr⟩ | ⟨r, k, hk⟩)
      · rw [Subsingleton.elim r 0, hslot] at hr
        cases hr
      · rw [Subsingleton.elim r 0, hregistry, Function.update_apply] at hk
        split at hk <;> cases hk
  obtain ⟨s, hs⟩ : ∃ s, (overwrittenActs 0).foldlM next (init 1) = some s :=
    Option.isSome_iff_exists.mp (by decide)
  have hstart : Run (system 1) [] (init 1) := Run.start rfl
  obtain ⟨hvisited, hlast⟩ := (safe_run_iff (hstart.trace (overwrittenActs 0) hs)).mpr hmeets
  refine ⟨hclear, hvisited, fun s' hs' => ?_⟩
  obtain rfl := Option.some.inj (hs.symm.trans hs')
  exact hlast

/-- A mark is created and its breakpoint numbered. -/
def markedActs (r : Fin n) : List (Act n) :=
  [.connect r true true, .response [{ tclass := .stopped }] r,
    .click false (ascii "/a.c") 4, .accept (fun _ => true) false,
    .response [insertedRecord 2] r]

/-- The mark is clicked again: the registry keeps the number of the Breakpoint
`clear_mark` deleted, and once GDB reports that number the window follows the
pointer. -/
theorem cleared_mark_dangles :
    ∃ s : Session 1, Reachable (system 1) s ∧ ¬ s.window.NoDangling ∧
      s.window.handleResponse [hitRecord 2] 0 = .error .deletedBreakpoint := by
  obtain ⟨s, hs, hp⟩ := (Reachable.start (M := system 1) rfl).replay_any
    (markedActs 0 ++ [.click false (ascii "/a.c") 4])
    (fun s => decide (s.window.bkptno2Bkpt 0 2 = some 0) && (s.window.objects 0).isNone)
    (by decide)
  simp only [Bool.and_eq_true, decide_eq_true_eq, Option.isNone_iff_eq_none] at hp
  obtain ⟨hreg, hobj⟩ := hp
  have hlinks := Tracker.sameLinks_parseTargetState [hitRecord 2] 0 s.window
  refine ⟨s, hs, fun hsafe => ?_, ?_⟩
  · simpa [hobj] using hsafe 0 (Or.inr ⟨0, 2, hreg⟩)
  · simp [Tracker.handleResponse, Tracker.parseStopRecord, miResStop_hitRecord,
      Tracker.applyStop, Tracker.hitBreakpoint, Tracker.stopBreakpoint, hlinks.bkptno2Bkpt,
      hlinks.objects, hreg, hobj, bind, Except.bind]

end Session

end ParallelGdb
