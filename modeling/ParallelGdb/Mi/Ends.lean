import ParallelGdb.Mi.Extent
import ParallelGdb.Mi.Lines

/-!
# Where a response ends

A response ends with the prompt, or with the record of `-gdb-exit`, behind which GDB
prints no prompt. Whatever memory a line lies in, it begins with one of the two if it
ends a response.
-/

namespace ParallelGdb.Mi

open Library.CString

/-- What a line that ends a response begins with. -/
def responseEnds : List String := ["(gdb)", "^exit"]

section Ends

variable {m : Bytes} {r o : MiOutput}

/-- Reading the results of a record leaves its type and its class. -/
theorem miGetResultsAlone_class {fuel : Nat} (h : miGetResultsAlone fuel r m = .ok (some o)) :
    o.type = r.type ∧ o.tclass = r.tclass := by
  induction fuel generalizing r m with
  | zero => cases h
  | succ fuel ih =>
      cases m with
      | nil => cases h
      | cons c m =>
          rw [miGetResultsAlone] at h
          split at h
          · obtain rfl := Option.some.inj (Except.ok.inj h)
            exact ⟨rfl, rfl⟩
          · split at h
            · obtain ⟨p, -, h⟩ := bind_eq_ok.mp h
              cases p with
              | none => cases h
              | some p =>
                  obtain ⟨htype, hclass⟩ := ih h
                  exact ⟨htype, hclass⟩
            · cases h

/-- A record that is read has one of the classes, and its name at the front. -/
theorem begins_of_parseClass {classes : List (String × MiClass)}
    (h : parseClass r m classes = .ok (some o)) :
    o.type = r.type ∧ ∃ p ∈ classes, o.tclass = p.2 ∧ ascii p.1 <+: m := by
  induction classes with
  | nil => cases h
  | cons p classes ih =>
      obtain ⟨name, tclass⟩ := p
      rw [parseClass] at h
      obtain ⟨b, hb, h⟩ := bind_eq_ok.mp h
      cases b with
      | true =>
          obtain ⟨htype, hclass⟩ := miGetResultsAlone_class h
          exact ⟨htype, (name, tclass), List.mem_cons_self, hclass, begins_of_strncmpEq hb⟩
      | false =>
          obtain ⟨htype, p, hp, hclass⟩ := ih h
          exact ⟨htype, p, List.mem_cons_of_mem _ hp, hclass⟩

/-- The text of a stream is no result record. -/
theorem type_of_miConsole (h : miConsole r m = .ok (some o)) : o.type = .outOfBand := by
  obtain ⟨p, -, h⟩ := bind_eq_ok.mp h
  cases p with
  | none => cases h
  | some p =>
      obtain rfl := Option.some.inj (Except.ok.inj h)
      rfl

/-- Only a result record can be the one of `-gdb-exit`. -/
theorem isExit_of_outOfBand (h : o.type = .outOfBand) : o.isExit = false := by
  rw [MiOutput.isExit, h]
  rfl

theorem begins_of_isExit (h : miParseGdbOutput m = .ok (some o)) (hexit : o.isExit = true) :
    ascii "^exit" <+: m := by
  rcases m with _ | ⟨type, str⟩
  · cases h
  have hasyn {q : MiOutput} (h : miParseAsyn q str = .ok (some o)) : o.type = .outOfBand :=
    (begins_of_parseClass h).1
  have hno (htype : o.type = .outOfBand) : ascii "^exit" <+: type :: str := by
    rw [isExit_of_outOfBand htype] at hexit
    cases hexit
  rw [miParseGdbOutput] at h
  split_ifs at h with hresult
  · obtain ⟨-, p, hp, hclass, hbegins⟩ := begins_of_parseClass h
    simp only [MiOutput.isExit, Bool.and_eq_true, decide_eq_true_eq, hclass] at hexit
    have hname : p.1 = "exit" := by
      simp only [List.mem_cons, List.not_mem_nil, or_false] at hp
      rcases hp with rfl | rfl | rfl | rfl | rfl
      · cases hexit.2
      · cases hexit.2
      · cases hexit.2
      · cases hexit.2
      · rfl
    rw [hname] at hbegins
    rw [hresult]
    exact List.cons_prefix_cons.mpr ⟨rfl, hbegins⟩
  · exact hno (hasyn h)
  · exact hno (hasyn h)
  · exact hno (hasyn h)
  · exact hno (type_of_miConsole h)
  · exact hno (type_of_miConsole h)
  · exact hno (type_of_miConsole h)
  · cases h

/-- A line that ends a response begins with the prompt or with an exit record. -/
theorem begins_of_miGetResponse {po rest : List MiOutput}
    (h : miGetResponse po m = .ok (true, rest)) : ∃ s ∈ responseEnds, ascii s <+: m := by
  rw [miGetResponse] at h
  obtain ⟨b, hb, h⟩ := bind_eq_ok.mp h
  cases b with
  | true => exact ⟨"(gdb)", by simp [responseEnds], begins_of_strncmpEq hb⟩
  | false =>
      obtain ⟨o, ho, h⟩ := bind_eq_ok.mp h
      cases o with
      | none => cases h
      | some o =>
          have hexit : o.isExit = true := congrArg Prod.fst (Except.ok.inj h)
          exact ⟨"^exit", by simp [responseEnds], begins_of_isExit ho hexit⟩

/-- The records before a line do not matter to it. -/
theorem miGetResponse_records {response : Bool × List MiOutput}
    (h : miGetResponse [] m = .ok response) (po : List MiOutput) :
    miGetResponse po m = .ok (response.1, po ++ response.2) := by
  rw [miGetResponse] at h ⊢
  obtain ⟨b, hb, h⟩ := bind_eq_ok.mp h
  rw [hb]
  cases b with
  | true =>
      obtain rfl := Except.ok.inj h
      rw [List.append_nil]
      rfl
  | false =>
      obtain ⟨o, ho, h⟩ := bind_eq_ok.mp h
      simp only [bind, Except.bind, Bool.false_eq_true, if_false, ho]
      cases o with
      | none =>
          obtain rfl := Except.ok.inj h
          rw [List.append_nil]
          rfl
      | some o =>
          obtain rfl := Except.ok.inj h
          rfl

/-- A line of one character is no record. -/
theorem miGetResponse_single (po : List MiOutput) (c : UInt8) (x : Bytes) :
    miGetResponse po (c :: 0 :: x) = .ok (false, po) := by
  have hprompt : strncmpEq (ascii "(gdb)") (c :: 0 :: x) = .ok false := by
    by_cases hc : c = code '('
    · rw [hc]
      rfl
    · exact if_neg hc
  have hparse : miParseGdbOutput (c :: 0 :: x) = .ok none := by
    rw [miParseGdbOutput]
    split_ifs
    · rfl
    · rfl
    · rfl
    · rfl
    · rfl
    · rfl
    · rfl
    · rfl
  rw [miGetResponse, hprompt]
  simp only [bind, Except.bind, Bool.false_eq_true, if_false, hparse]
  rfl

end Ends

end ParallelGdb.Mi
