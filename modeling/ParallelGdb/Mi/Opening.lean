import ParallelGdb.Mi.Automaton

/-!
# What opens a text

Outside quotes the automaton stops at a NUL. So it runs out of a line only behind a quote
that opens a text, and already runs out of the line that ends with this quote.
-/

namespace ParallelGdb.Mi

open Library.CString

/-- A quoted text is open, or the character behind one is skipped. -/
def Place.inQuotes : Place → Bool
  | .text | .escape | .quotedName | .skipped => true
  | _ => false

/-- No NUL ends what the automaton is in. -/
def NoNulEnds (nests : List Nest) : Prop := Nest.results 0 ∉ nests

/-- A step outside quotes: it is not made at a NUL, and only a quote opens a text. -/
structure StepsOutside (c : UInt8) (config : Place.Config) : Prop where
  char : c ≠ 0
  nests : NoNulEnds config.1
  opens : config.2.inQuotes = true → c = code '"' ∧ runsOut config [0] = true

section Opening

variable {nests : List Nest} {c : UInt8} {config : Place.Config}

theorem stepsOutside_stepValue (hnests : NoNulEnds nests)
    (h : Place.stepValue nests c = some config) : StepsOutside c config := by
  rw [Place.stepValue] at h
  split_ifs at h with hquote hbrace hbracket
  · obtain rfl := Option.some.inj h
    exact ⟨by rw [hquote]; decide, hnests, fun _ => ⟨hquote, rfl⟩⟩
  · obtain rfl := Option.some.inj h
    exact ⟨by rw [hbrace]; decide, hnests, fun hopen => by cases hopen⟩
  · obtain rfl := Option.some.inj h
    exact ⟨by rw [hbracket]; decide, hnests, fun hopen => by cases hopen⟩

theorem stepsOutside_stepName (hnests : NoNulEnds nests)
    (h : Place.stepName nests c = some config) : StepsOutside c config := by
  rw [Place.stepName] at h
  split_ifs at h with hchar heq
  · obtain rfl := Option.some.inj h
    refine ⟨?_, hnests, fun hopen => by cases hopen⟩
    rintro rfl
    exact absurd hchar (by decide)
  · obtain rfl := Option.some.inj h
    exact ⟨by rw [heq]; decide, hnests, fun hopen => by cases hopen⟩

theorem stepsOutside_stepBehind (hnests : NoNulEnds nests)
    (h : Place.stepBehind nests c = some config) : StepsOutside c config := by
  rcases nests with _ | ⟨closeC | _, nests⟩
  · rw [Place.stepBehind] at h
    split_ifs at h with hcomma
    obtain rfl := Option.some.inj h
    exact ⟨by rw [hcomma]; decide, hnests, fun hopen => by cases hopen⟩
  · rw [Place.stepBehind] at h
    split_ifs at h with hclose hcomma
    · obtain rfl := Option.some.inj h
      refine ⟨?_, fun hmem => hnests (List.mem_cons_of_mem _ hmem), fun hopen => by cases hopen⟩
      rintro rfl
      exact hnests (by rw [hclose]; exact List.mem_cons_self)
    · obtain rfl := Option.some.inj h
      exact ⟨by rw [hcomma]; decide, hnests, fun hopen => by cases hopen⟩
  · rw [Place.stepBehind] at h
    split_ifs at h with hclose hcomma
    · obtain rfl := Option.some.inj h
      exact ⟨by rw [hclose]; decide, fun hmem => hnests (List.mem_cons_of_mem _ hmem),
        fun hopen => by cases hopen⟩
    · obtain rfl := Option.some.inj h
      exact ⟨by rw [hcomma]; decide, hnests, fun hopen => by cases hopen⟩

theorem stepsOutside_stepItem (hnests : NoNulEnds nests)
    (h : Place.stepItem nests c = some config) : StepsOutside c config := by
  rw [Place.stepItem] at h
  split_ifs at h with hquote hstarts hnil
  · obtain rfl := Option.some.inj h
    exact ⟨by rw [hquote]; decide, hnests, fun _ => ⟨hquote, rfl⟩⟩
  · exact stepsOutside_stepName hnests h
  · exact stepsOutside_stepBehind hnests h

/-- What is opened in a tuple or in a list does not end at a NUL. -/
theorem NoNulEnds.cons (hnests : NoNulEnds nests) {nest : Nest} (hnest : nest ≠ .results 0) :
    NoNulEnds (nest :: nests) := by
  intro hmem
  rcases List.mem_cons.mp hmem with heq | hmem
  · exact hnest heq.symm
  · exact hnests hmem

theorem stepsOutside_step {place : Place} (hplace : place.inQuotes = false)
    (hnests : NoNulEnds nests) {m : Bytes} (h : place.step nests c m = some config) :
    StepsOutside c config := by
  cases place with
  | item => exact stepsOutside_stepItem hnests h
  | name => exact stepsOutside_stepName hnests h
  | quotedName => cases hplace
  | skipped => cases hplace
  | value => exact stepsOutside_stepValue hnests h
  | tuple =>
      rw [Place.step] at h
      split_ifs at h with hclose
      · obtain rfl := Option.some.inj h
        exact ⟨by rw [hclose]; decide, hnests, fun hopen => by cases hopen⟩
      · exact stepsOutside_stepItem (hnests.cons (by decide)) h
  | list =>
      rw [Place.step] at h
      split_ifs at h with hclose hchar
      · obtain rfl := Option.some.inj h
        exact ⟨by rw [hclose]; decide, hnests, fun hopen => by cases hopen⟩
      · exact stepsOutside_stepItem (hnests.cons (by decide)) h
      · exact stepsOutside_stepValue (hnests.cons (by decide)) h
  | text => cases hplace
  | escape => cases hplace
  | behind => exact stepsOutside_stepBehind hnests h

/-- Outside quotes one character is enough for a step. -/
theorem step_outside {place : Place} (hplace : place.inQuotes = false) (m m' : Bytes) :
    place.step nests c m = place.step nests c m' := by
  cases place with
  | text => cases hplace
  | _ => rfl

/-- Where the automaton runs out of a text, it does so behind the first quote that opens a
text in it. -/
theorem runsOut_opening {place : Place} (hplace : place.inQuotes = false)
    (hnests : NoNulEnds nests) {w : Bytes} (h : runsOut (nests, place) (w ++ [0]) = true) :
    ∃ v, v ++ [code '"'] <+: w ∧ runsOut (nests, place) (v ++ [code '"'] ++ [0]) = true := by
  induction w generalizing nests place with
  | nil =>
      exfalso
      rw [List.nil_append, runsOut_cons] at h
      split at h
      · rename_i config hstep
        exact (stepsOutside_step hplace hnests hstep).char rfl
      · cases h
  | cons c w ih =>
      rw [List.cons_append, runsOut_cons] at h
      split at h
      · rename_i config hstep
        obtain ⟨nests', place'⟩ := config
        obtain ⟨-, hnests', hopens⟩ := stepsOutside_step hplace hnests hstep
        cases hplace' : place'.inQuotes with
        | true =>
            obtain ⟨rfl, hend⟩ := hopens hplace'
            refine ⟨[], ⟨w, rfl⟩, ?_⟩
            rw [List.nil_append, List.singleton_append, runsOut_cons,
              step_outside hplace [0] (w ++ [0]), hstep]
            exact hend
        | false =>
            obtain ⟨v, hv, hend⟩ := ih hplace' hnests' h
            refine ⟨c :: v, List.cons_prefix_cons.mpr ⟨rfl, hv⟩, ?_⟩
            rw [List.cons_append, List.cons_append, runsOut_cons,
              step_outside hplace _ (w ++ [0]), hstep]
            exact hend
      · cases h

/-- Fewer elements are accepted, but the one that was found still is. -/
theorem find?_of_imp {α : Type} {p q : α → Bool} {a : α} {l : List α} (h : l.find? p = some a)
    (hq : q a = true) (himp : ∀ b, q b = true → p b = true) : l.find? q = some a := by
  induction l with
  | nil => cases h
  | cons b l ih =>
      rw [List.find?_cons] at h ⊢
      cases hp : p b with
      | true =>
          rw [hp] at h
          obtain rfl := Option.some.inj h
          rw [hq]
      | false =>
          rw [hp] at h
          have hqb : q b = false := by
            by_contra htrue
            rw [himp b (by simpa using htrue)] at hp
            cases hp
          rw [hqb]
          exact ih h

theorem recordRunsOut_opening {names : List String} {str : Bytes}
    (h : recordRunsOut names str = true) :
    ∃ v, v ++ [code '"'] <+: str ∧ recordRunsOut names (v ++ [code '"']) = true := by
  rw [recordRunsOut] at h
  split at h
  · rename_i name hname
    have hstart := List.find?_some hname
    obtain ⟨w, rfl⟩ := List.isPrefixOf_iff_prefix.mp hstart
    have hlength : name.length = (ascii name).length := by
      rw [ascii, List.length_map, String.length_toList]
    rw [hlength, List.drop_left] at h
    obtain ⟨v, hv, hend⟩ := runsOut_opening rfl List.not_mem_nil h
    have hshorter : ascii name ++ v ++ [code '"'] <+: ascii name ++ w := by
      rw [List.append_assoc]
      exact (List.prefix_append_right_inj _).mpr hv
    refine ⟨ascii name ++ v, hshorter, ?_⟩
    have hfind : (names.find? fun other =>
        (ascii other).isPrefixOf (ascii name ++ v ++ [code '"'])) = some name := by
      refine find?_of_imp hname ?_ fun b hb => ?_
      · rw [List.append_assoc]
        exact List.isPrefixOf_iff_prefix.mpr (List.prefix_append _ _)
      · exact List.isPrefixOf_iff_prefix.mpr
          ((List.isPrefixOf_iff_prefix.mp hb).trans hshorter)
    rw [recordRunsOut, hfind]
    simp only [List.append_assoc, hlength, List.drop_left]
    rw [← List.append_assoc]
    exact hend
  · cases h

theorem getLast?_of_endsEscaped {body : Bytes} (h : endsEscaped body = true) :
    body.getLast? = some (code '\\') := by
  fun_induction endsEscaped body with
  | case1 => cases h
  | case2 c =>
      rw [of_decide_eq_true h]
      rfl
  | case3 => cases h
  | case4 d body hopen ih =>
      cases body with
      | nil => cases h
      | cons b body => exact ih h
  | case5 c d body hopen hc ih => exact ih h

/-- A line that is not read to its NUL ends with a backslash, or begins with such a line that
ends with a quote. -/
theorem lineRunsOut_opening {line : Bytes} (h : lineRunsOut line = true) :
    line.getLast? = some (code '\\') ∨
      ∃ v, v ++ [code '"'] <+: line ∧ lineRunsOut (v ++ [code '"']) = true := by
  rcases line with _ | ⟨type, str⟩
  · cases h
  rw [lineRunsOut] at h
  split at h
  · rcases str with _ | ⟨c, body⟩
    · cases h
    rw [streamRunsOut, Bool.and_eq_true] at h
    have hlast := getLast?_of_endsEscaped h.2
    rcases body with _ | ⟨b, body⟩
    · cases hlast
    · exact Or.inl hlast
  · rename_i htype
    obtain ⟨v, hv, hend⟩ := recordRunsOut_opening h
    refine Or.inr ⟨type :: v, List.cons_prefix_cons.mpr ⟨rfl, hv⟩, ?_⟩
    rw [List.cons_append, lineRunsOut, if_neg htype]
    exact hend

end Opening

end ParallelGdb.Mi
