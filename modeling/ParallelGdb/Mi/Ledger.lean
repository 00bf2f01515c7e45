import ParallelGdb.Mi.Agreement

/-!
# The blocks of the GDB handles

A line adds the blocks of its record to the handle of its rank, and a complete
response gives the blocks of its records back. What is not accounted for is lost. The
faults are those of the functions without a memory.
-/

namespace ParallelGdb.Mi

open Library.CString Library.Ownership

variable {n : Nat} {h : Heap} {frame : Multiset Block}

section Lines

/-- What is lost while a line is read satisfies `P`. -/
structure Loses (line : Bytes) (P : Multiset Block → Prop) : Prop where
  prompt : strncmpEq (ascii "(gdb)") line = .ok true → P 0
  parse : strncmpEq (ascii "(gdb)") line = .ok false → ∀ h : Heap,
    Wp (parseGdbOutput line) (fun out t =>
      ∃ lost, t.live = (out.elim 0 OutputNode.blocks) + (lost + h.live) ∧ P lost)
      (fun _ => True) h

theorem loses_any (line : Bytes) : Loses line fun _ => True where
  prompt _ := trivial
  parse _ h := by
    refine (wp_parseGdbOutput rfl).mono ?_ fun _ _ => trivial
    rintro out t ⟨⟨lost, ht⟩, -⟩
    exact ⟨lost, ht, trivial⟩

end Lines

namespace Handles

variable {s : Handles n} {r : Fin n}

theorem blocks_update (s : Handles n) (r : Fin n) (po : List OutputNode) :
    blocks { s with po := Function.update s.po r po } + recordBlocks (s.po r) =
      s.blocks + recordBlocks po := by
  have hbefore := Finset.add_sum_erase Finset.univ (fun q => recordBlocks (s.po q))
    (Finset.mem_univ r)
  have hbehind := Finset.add_sum_erase Finset.univ
    (fun q => recordBlocks (Function.update s.po r po q)) (Finset.mem_univ r)
  have hrest : ∑ q ∈ Finset.univ.erase r, recordBlocks (Function.update s.po r po q) =
      ∑ q ∈ Finset.univ.erase r, recordBlocks (s.po q) := by
    refine Finset.sum_congr rfl fun q hq => ?_
    rw [Function.update_of_ne (Finset.ne_of_mem_erase hq)]
  simp only [Function.update_self] at hbehind
  rw [blocks, blocks, ← hbefore, ← hbehind, hrest]
  abel

theorem blocks_add (s : Handles n) (r : Fin n) (o : OutputNode) :
    blocks { s with po := Function.update s.po r (s.po r ++ [o]) } = s.blocks + o.blocks := by
  have hupdate := s.blocks_update r (s.po r ++ [o])
  rw [recordBlocks_snoc, ← add_assoc, add_right_comm] at hupdate
  exact add_right_cancel hupdate

theorem blocks_take (s : Handles n) (r : Fin n) :
    s.blocks = blocks { s with po := Function.update s.po r [] } + recordBlocks (s.po r) :=
  ((s.blocks_update r []).trans (add_zero _)).symm

/-- The text of the last error is replaced. -/
theorem wp_recordError {o : OutputNode} (hnamed : o.Named) (hlive : h.live = s.blocks + frame) :
    Wp (s.recordError o) (fun out t => t.live = out.blocks + frame ∧ out.po = s.po)
      (fun _ => False) h := by
  have htext : h.live =
      textBlocks s.errorFromGdb + ((∑ q, recordBlocks (s.po q)) + frame) := by
    rw [hlive, blocks]
    abel
  unfold recordError
  split
  · rename_i hresult
    rw [wp_bind]
    refine wp_freeText htext fun t ht => ?_
    -- The handles without a text.
    have hnone : t.live = blocks { s with errorFromGdb := none } + frame := by
      rw [ht, blocks, textBlocks_none, add_zero]
    cases hc : o.c with
    | nil => exact ⟨hnone, rfl⟩
    | cons c rest =>
        obtain ⟨var, hvar⟩ := Option.isSome_iff_exists.mp
          (hnamed hresult.1 c (by rw [hc]; exact List.mem_cons_self))
        refine wp_lift_bind (fun name _ => ?_) fun e he => ?_
        rotate_left
        · rw [hvar] at he
          cases he
        split
        · split
          · refine wp_alloc_bind fun block u hu => ⟨?_, rfl⟩
            rw [hu, ht, blocks, textBlocks_some, ← Multiset.singleton_add]
            abel
          · exact ⟨hnone, rfl⟩
        · exact ⟨hnone, rfl⟩
  · exact ⟨hlive, rfl⟩

theorem wp_getResponse {line : Bytes} {P : Multiset Block → Prop} (hloses : Loses line P)
    (hlive : h.live = s.blocks + frame) :
    Wp (s.getResponse r line) (fun out t =>
        (∃ lost, t.live = out.2.blocks + (lost + frame) ∧ P lost) ∧
        miGetResponse ((s.po r).map OutputNode.contents) line =
          .ok (out.1, (out.2.po r).map OutputNode.contents) ∧
        (∀ q, q ≠ r → out.2.po q = s.po q) ∧
        ∀ o ∈ out.2.po r, o ∈ s.po r ∨ o.Sound)
      (fun e => miGetResponse ((s.po r).map OutputNode.contents) line = .error e) h := by
  refine wp_lift_bind (fun prompt hprompt => ?_) fun e he => by rw [miGetResponse, he]; rfl
  cases prompt with
  | true =>
      refine ⟨⟨0, by rw [zero_add]; exact hlive, hloses.prompt hprompt⟩, ?_, fun _ _ => rfl,
        fun _ ho => Or.inl ho⟩
      rw [miGetResponse, hprompt]
      rfl
  | false =>
      have hparse := ((wp_parseGdbOutput rfl).and (hloses.parse hprompt h)).returns
        (returns_parseGdbOutput line)
      refine hparse.bind ?_ fun e he => by rw [miGetResponse, hprompt, he.1]; rfl
      rintro out t ⟨⟨⟨-, hpure⟩, lost, ht, hlost⟩, hsound⟩
      rw [hlive] at ht
      cases out with
      | none =>
          refine ⟨⟨lost, ?_, hlost⟩, ?_, fun _ _ => rfl, fun _ ho => Or.inl ho⟩
          · rw [ht, Option.elim_none]
            abel
          · rw [miGetResponse, hprompt, hpure]
            rfl
      | some o =>
          have ho : o.Sound := hsound o rfl
          have hrecord : t.live = s.blocks + (o.blocks + (lost + frame)) := by
            rw [ht, Option.elim_some]
            abel
          refine (wp_recordError ho.named hrecord).bind ?_ fun _ he => he.elim
          rintro s' u ⟨hu, hpo⟩
          refine ⟨⟨lost, ?_, hlost⟩, ?_, fun q hq => ?_, fun o' ho' => ?_⟩
          · rw [hu, blocks_add]
            abel
          · rw [miGetResponse, hprompt, hpure]
            simp [bind, Except.bind, pure, Except.pure, hpo]
          · exact (Function.update_of_ne hq _ _).trans (congrFun hpo q)
          · simp only [Function.update_self, hpo] at ho'
            rcases List.mem_append.mp ho' with ho' | ho'
            · exact Or.inl ho'
            · exact Or.inr (List.mem_singleton.mp ho' ▸ ho)

end Handles

section Passes

variable {first : List OutputNode}

/-- The first pass loses the strings it hands on twice. -/
theorem wp_parseStopRecord (hsound : ∀ o ∈ first, o.Sound)
    (hlive : h.live = recordBlocks first + frame) :
    Wp (parseStopRecord first) (fun out t =>
        (∃ lost, t.live = recordBlocks out + (lost + frame) ∧
          ((∀ o ∈ first, TidyRecord o.contents.c) → lost = 0)) ∧
        ∀ o ∈ out, o ∈ first ∨ o.head.isStop = true)
      (fun e => miResStop (first.map OutputNode.contents) = .error e) h := by
  have hreads := resStop_refines (fun o ho => (hsound o ho).filled) h
  refine ((wp_resStop hlive).and hreads).bind ?_ fun _ he => he.2
  rintro ⟨stop, out⟩ t ⟨⟨⟨lost, ht, hzero⟩, hmem⟩, -⟩
  rw [wp_bind]
  exact wp_miFreeStop ht fun u hu => ⟨⟨lost, hu, hzero⟩, hmem⟩

theorem wp_parseBreakpoint {pending : Bool} (hnamed : ∀ o ∈ first, o.Named)
    (hlive : h.live = recordBlocks first + frame) :
    Wp (parseBreakpoint pending first) (fun out t =>
        ∃ lost, t.live = recordBlocks out + (lost + frame) ∧
          ((∀ o ∈ first, o.head.type = .resultRecord → TidyRecord o.contents.c) → lost = 0))
      (fun _ => False) h := by
  obtain ⟨number, hnumber⟩ := miResBkpt_ok hnamed
  unfold parseBreakpoint
  split
  · refine ((wp_resBkpt hlive).and (resBkpt_refines first h)).bind ?_ fun e he => ?_
    rotate_left
    · rw [hnumber] at he
      cases he.2
    rintro ⟨bkpt, out⟩ t ⟨⟨lost, ht, hzero⟩, -⟩
    rw [wp_bind]
    exact wp_miFreeBkpt ht fun u hu => ⟨lost, hu, hzero⟩
  · exact ⟨0, by rw [zero_add]; exact hlive, fun _ => rfl⟩

end Passes

namespace Handles

variable {s : Handles n} {r : Fin n}

/-- A complete response gives its blocks back, but for strings it hands on twice. -/
theorem wp_finishResponse {pending : Bool} (hsound : ∀ o ∈ s.po r, o.Sound)
    (hlive : h.live = s.blocks + frame) :
    Wp (s.finishResponse pending r) (fun out t =>
        (∃ lost, t.live = out.blocks + (lost + frame) ∧
          ((∀ o ∈ s.po r, TidyRecord o.contents.c) → lost = 0)) ∧
        out.po = Function.update s.po r [])
      (fun e => miResStop ((s.po r).map OutputNode.contents) = .error e) h := by
  have hfirst : h.live = recordBlocks (s.po r) +
      (blocks { s with po := Function.update s.po r [] } + frame) := by
    rw [hlive, s.blocks_take r]
    abel
  refine (wp_parseStopRecord hsound hfirst).bind ?_ fun _ he => he
  rintro first t ⟨⟨lost, ht, hzero⟩, hmem⟩
  -- What is read for the Breakpoint is no stop record.
  have hresult : ∀ o ∈ first, o.head.type = .resultRecord → o ∈ s.po r := by
    intro o ho htype
    rcases hmem o ho with ho | hstop
    · exact ho
    · simp [MiOutput.isStop, htype] at hstop
  have hnamed : ∀ o ∈ first, o.Named :=
    fun o ho htype => (hsound o (hresult o ho htype)).named htype
  refine (wp_parseBreakpoint hnamed ht).bind ?_ fun _ he => he.elim
  rintro first' u ⟨more, hu, hmore⟩
  rw [wp_bind]
  refine wp_miFreeOutput hu fun v hv => ⟨⟨more + lost, ?_, fun htidy => ?_⟩, rfl⟩
  · rw [hv]
    abel
  · rw [hmore fun o ho htype => htidy o (hresult o ho htype), hzero htidy, add_zero]

/-- The records that wait after a line. -/
def waiting (po : Fin n → List MiOutput) (r : Fin n) (response : Bool × List MiOutput) :
    Fin n → List MiOutput :=
  Function.update po r (if response.1 then [] else response.2)

def contents (s : Handles n) (r : Fin n) : List MiOutput := (s.po r).map OutputNode.contents

/-- The waiting records are those of the parser. -/
def Sound (s : Handles n) : Prop := ∀ r, ∀ o ∈ s.po r, o.Sound

/-- A line of a rank: the blocks that are allocated behind it are those of the
handles, those allocated before, and what is lost. It fails where the line or the stop
of the response it ends cannot be read. -/
theorem wp_handleLine {line : Bytes} {pending : Bool} {P : Multiset Block → Prop}
    (hloses : Loses line P) (hsound : s.Sound) (hlive : h.live = s.blocks + frame) :
    Wp (s.handleLine (r, line, pending)) (fun out t => ∃ response lost more,
        miGetResponse (s.contents r) line = .ok response ∧
        out.contents = waiting s.contents r response ∧
        t.live = out.blocks + (lost + more + frame) ∧ P lost ∧
        ((∀ o ∈ response.2, TidyRecord o.c) → more = 0) ∧ out.Sound)
      (fun e => (do
        let response ← miGetResponse (s.contents r) line
        if response.1 then miResStop response.2 else return none) = .error e) h := by
  refine (wp_getResponse hloses hlive).bind ?_ fun e he => by rw [contents, he]; rfl
  rintro ⟨complete, s'⟩ t ⟨⟨lost, ht, hlost⟩, hpure, hother, hadded⟩
  simp only at ht hpure hother hadded ⊢
  have hsound' : s'.Sound := by
    intro q o ho
    by_cases hq : q = r
    · subst hq
      exact (hadded o ho).elim (hsound q o) id
    · exact hsound q o (hother q hq ▸ ho)
  split
  · rename_i hcomplete
    refine (wp_finishResponse (r := r) (hsound' r) ht).mono ?_ fun e he => ?_
    rotate_left
    · rw [contents, hpure]
      simp only [bind, Except.bind, hcomplete, if_true, he]
    rintro out u ⟨⟨more, hu, hzero⟩, hpo⟩
    refine ⟨_, lost, more, hpure, ?_, by rw [hu]; abel, hlost,
      fun htidy => hzero fun o ho => ?_, ?_⟩
    · funext q
      rw [contents, hpo, waiting, if_pos hcomplete]
      by_cases hq : q = r
      · rw [hq, Function.update_self, Function.update_self, List.map_nil]
      · rw [Function.update_of_ne hq, Function.update_of_ne hq, hother q hq, contents]
    · exact htidy _ (List.mem_map_of_mem ho)
    · intro q o ho
      rw [hpo] at ho
      by_cases hq : q = r
      · rw [hq, Function.update_self] at ho
        cases ho
      · rw [Function.update_of_ne hq] at ho
        exact hsound' q o ho
  · rename_i hcomplete
    refine ⟨_, lost, 0, hpure, ?_, by rw [ht, add_zero], hlost, fun _ => rfl, hsound'⟩
    funext q
    rw [waiting, if_neg hcomplete]
    by_cases hq : q = r
    · rw [hq, Function.update_self]
      rfl
    · rw [Function.update_of_ne hq, contents, hother q hq, contents]

end Handles

end ParallelGdb.Mi
