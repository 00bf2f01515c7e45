import ParallelGdb.Mi.Parser
import Mathlib.Tactic.Common

/-!
# What the parser does with more memory

A parser function that stays in the memory it is given does the same when there
is more memory behind, and when it has more fuel.
-/

namespace ParallelGdb.Mi

open Library.CString

theorem bind_eq_ok {α β : Type} {x : Except Fault α} {f : α → Except Fault β} {b : β} :
    x >>= f = .ok b ↔ ∃ a, x = .ok a ∧ f a = .ok b := by
  cases x with
  | error e => simp [bind, Except.bind]
  | ok a => simp [bind, Except.bind]

/-- The same result with more memory behind the end pointer. -/
def moreBehind {α : Type} (x : Bytes) (r : Option (α × Bytes)) : Option (α × Bytes) :=
  r.map fun p => (p.1, p.2 ++ x)

section Scanning

variable {m : Bytes}

theorem strncmpEq_append {literal : Bytes} {b : Bool} (h : strncmpEq literal m = .ok b)
    (x : Bytes) : strncmpEq literal (m ++ x) = .ok b := by
  induction literal generalizing m with
  | nil => exact h
  | cons a literal ih =>
      cases m with
      | nil => cases h
      | cons c m =>
          rw [strncmpEq] at h
          rw [List.cons_append, strncmpEq]
          by_cases hc : c = a
          · rw [if_pos hc] at h ⊢
            exact ih h
          · rw [if_neg hc] at h ⊢
            exact h

theorem cstringBody_append {p : Bytes × Bytes} (h : cstringBody m = .ok p) (x : Bytes) :
    cstringBody (m ++ x) = .ok (p.1, p.2 ++ x) := by
  fun_induction cstringBody m generalizing p with
  | case1 => cases h
  | case2 =>
      obtain rfl := Except.ok.inj h
      cases x <;> rfl
  | case3 => cases h
  | case4 c d rest hend =>
      obtain rfl := Except.ok.inj h
      rw [List.cons_append, List.cons_append, cstringBody, if_pos hend]
  | case5 d rest hopen ih =>
      obtain ⟨q, hq, hp⟩ := bind_eq_ok.mp h
      obtain rfl := Except.ok.inj hp
      rw [List.cons_append, List.cons_append, cstringBody, if_neg hopen, if_pos rfl, ih hq]
      rfl
  | case6 c d rest hopen hc ih =>
      obtain ⟨q, hq, hp⟩ := bind_eq_ok.mp h
      obtain rfl := Except.ok.inj hp
      have hrest := ih hq
      rw [List.cons_append] at hrest
      rw [List.cons_append, List.cons_append, cstringBody, if_neg hopen, if_neg hc, hrest]
      rfl

theorem miGetCstring_append {var : Option Bytes} {r : Option (MiResults × Bytes)}
    (h : miGetCstring var m = .ok r) (x : Bytes) :
    miGetCstring var (m ++ x) = .ok (moreBehind x r) := by
  cases m with
  | nil => cases h
  | cons c rest =>
      rw [miGetCstring] at h
      rw [List.cons_append, miGetCstring]
      by_cases hc : c = code '"'
      · rw [if_pos hc] at h ⊢
        obtain ⟨p, hp, hr⟩ := bind_eq_ok.mp h
        obtain rfl := Except.ok.inj hr
        rw [cstringBody_append hp]
        rfl
      · rw [if_neg hc] at h ⊢
        obtain rfl := Except.ok.inj h
        rfl

theorem quotedPrefix_append {k : Nat} (h : quotedPrefix m = .ok k) (x : Bytes) :
    quotedPrefix (m ++ x) = .ok k := by
  induction m generalizing k with
  | nil => cases h
  | cons c rest ih =>
      rw [quotedPrefix] at h
      rw [List.cons_append, quotedPrefix]
      by_cases hc : (c = 0 || c = code '"') = true
      · rw [if_pos hc] at h ⊢
        exact h
      · rw [if_neg hc] at h ⊢
        obtain ⟨j, hj, hk⟩ := bind_eq_ok.mp h
        rw [ih hj]
        exact hk

theorem nameStart_append {k : Nat} (h : nameStart m = .ok k) (x : Bytes) :
    nameStart (m ++ x) = .ok k := by
  cases m with
  | nil => cases h
  | cons c rest =>
      rw [nameStart] at h
      rw [List.cons_append, nameStart]
      by_cases hc : c = code '"'
      · rw [if_pos hc] at h ⊢
        obtain ⟨j, hj, hk⟩ := bind_eq_ok.mp h
        rw [quotedPrefix_append hj]
        exact hk
      · rw [if_neg hc] at h ⊢
        exact h

theorem scanName_append {p : Bytes × Bytes} (h : scanName m = .ok p) (x : Bytes) :
    scanName (m ++ x) = .ok (p.1, p.2 ++ x) := by
  induction m generalizing p with
  | nil => cases h
  | cons c rest ih =>
      rw [scanName] at h
      rw [List.cons_append, scanName]
      by_cases hc : miIsVarNameChar c = true
      · rw [if_pos hc] at h ⊢
        obtain ⟨q, hq, hp⟩ := bind_eq_ok.mp h
        obtain rfl := Except.ok.inj hp
        rw [ih hq]
        rfl
      · rw [if_neg hc] at h ⊢
        obtain rfl := Except.ok.inj h
        rfl

/-- The name begins in the memory, or its end would not be found there. -/
theorem miGetVarName_append {r : Option (Bytes × Bytes)} (h : miGetVarName m = .ok r)
    (x : Bytes) : miGetVarName (m ++ x) = .ok (moreBehind x r) := by
  obtain ⟨start, hstart, h⟩ := bind_eq_ok.mp h
  obtain ⟨p, hp, h⟩ := bind_eq_ok.mp h
  have hle : start ≤ m.length := by
    by_contra hgt
    rw [List.drop_eq_nil_of_le (by omega)] at hp
    cases hp
  have hscan := scanName_append hp x
  rw [← List.drop_append_of_le_length hle] at hscan
  obtain ⟨name, _ | ⟨c, rest⟩⟩ := p
  · cases h
  · simp only [miGetVarName, nameStart_append hstart, hscan, bind, Except.bind,
      List.cons_append, List.take_append_of_le_length hle]
    by_cases hc : c = code '='
    · simp only [if_pos hc] at h ⊢
      obtain rfl := Except.ok.inj h
      rfl
    · simp only [if_neg hc] at h ⊢
      obtain rfl := Except.ok.inj h
      rfl

end Scanning

section Parser

/-- What a list function does behind a value: it ends, or goes on behind a comma. -/
def goOn {α : Type} (close : UInt8) (r : α) (k : Bytes → Except Fault (Option (α × Bytes))) :
    Bytes → Except Fault (Option (α × Bytes))
  | [] => .error .overread
  | c :: tail =>
      if c = close then .ok (some (r, tail))
      else if c = code ',' then k tail
      else .ok none

/-- The parser functions with this fuel do the same with more fuel and more memory. -/
structure ParserExtends (fuel : Nat) : Prop where
  value : ∀ {more var m r}, fuel ≤ more → miGetValue fuel var m = .ok r → ∀ x,
    miGetValue more var (m ++ x) = .ok (moreBehind x r)
  listRes : ∀ {more closeC acc last m r}, fuel ≤ more →
    miGetListRes fuel closeC acc last m = .ok r → ∀ x,
    miGetListRes more closeC acc last (m ++ x) = .ok (moreBehind x r)
  listVal : ∀ {more acc m r}, fuel ≤ more → miGetListVal fuel acc m = .ok r → ∀ x,
    miGetListVal more acc (m ++ x) = .ok (moreBehind x r)
  result : ∀ {more m r}, fuel ≤ more → miGetResult fuel m = .ok r → ∀ x,
    miGetResult more (m ++ x) = .ok (moreBehind x r)

theorem ParserExtends.zero : ParserExtends 0 where
  value _ h := nomatch h
  listRes _ h := nomatch h
  listVal _ h := nomatch h
  result _ h := nomatch h

variable {fuel more : Nat} {m : Bytes}

theorem ParserExtends.result_succ (h : ParserExtends fuel) (hle : fuel ≤ more)
    {r : Option (MiResults × Bytes)} (hr : miGetResult (fuel + 1) m = .ok r) (x : Bytes) :
    miGetResult (more + 1) (m ++ x) = .ok (moreBehind x r) := by
  rw [miGetResult] at hr ⊢
  obtain ⟨p, hp, hr⟩ := bind_eq_ok.mp hr
  rw [miGetVarName_append hp x]
  cases p with
  | none =>
      obtain rfl := Except.ok.inj hr
      rfl
  | some p => exact h.value hle hr x

theorem goOn_append {close : UInt8} {α : Type} {rs : α}
    {k l : Bytes → Except Fault (Option (α × Bytes))}
    (hkl : ∀ {tail r}, k tail = .ok r → ∀ x, l (tail ++ x) = .ok (moreBehind x r))
    {r : Option (α × Bytes)} (hr : goOn close rs k m = .ok r) (x : Bytes) :
    goOn close rs l (m ++ x) = .ok (moreBehind x r) := by
  cases m with
  | nil => cases hr
  | cons c m =>
      rw [goOn] at hr
      rw [List.cons_append, goOn]
      by_cases hclose : c = close
      · rw [if_pos hclose] at hr ⊢
        obtain rfl := Except.ok.inj hr
        rfl
      · rw [if_neg hclose] at hr ⊢
        by_cases hcomma : c = code ','
        · rw [if_pos hcomma] at hr ⊢
          exact hkl hr x
        · rw [if_neg hcomma] at hr ⊢
          obtain rfl := Except.ok.inj hr
          rfl

theorem miGetListRes_eq (closeC : UInt8) (acc : List MiResults) (last : Bool) (m : Bytes) :
    miGetListRes (fuel + 1) closeC acc last m = miGetResult fuel m >>= fun found =>
      match found with
      | some (r, m) =>
          goOn closeC (if last then acc ++ [r] else [r])
            (miGetListRes fuel closeC (if last then acc ++ [r] else [r]) true) m
      | none =>
          goOn closeC (if last then acc else [])
            (miGetListRes fuel closeC (if last then acc else []) false) m := by
  rw [miGetListRes]
  congr 1

theorem miGetListVal_eq (acc : List MiResults) (m : Bytes) :
    miGetListVal (fuel + 1) acc m = miGetValue fuel none m >>= fun found =>
      match found with
      | some (r, m) => goOn (code ']') (acc ++ [r]) (miGetListVal fuel (acc ++ [r])) m
      | none => .ok none := by
  rw [miGetListVal]
  congr 1
  funext found
  rcases found with _ | ⟨r, _ | ⟨c, m'⟩⟩ <;> rfl

theorem ParserExtends.listVal_succ (h : ParserExtends fuel) (hle : fuel ≤ more)
    {acc : List MiResults} {r : Option (List MiResults × Bytes)}
    (hr : miGetListVal (fuel + 1) acc m = .ok r) (x : Bytes) :
    miGetListVal (more + 1) acc (m ++ x) = .ok (moreBehind x r) := by
  rw [miGetListVal_eq] at hr ⊢
  obtain ⟨p, hp, hr⟩ := bind_eq_ok.mp hr
  rw [h.value hle hp x]
  cases p with
  | none =>
      obtain rfl := Except.ok.inj hr
      rfl
  | some p => exact goOn_append (fun hk y => h.listVal hle hk y) hr x

theorem ParserExtends.listRes_succ (h : ParserExtends fuel) (hle : fuel ≤ more)
    {closeC : UInt8} {acc : List MiResults} {last : Bool}
    {r : Option (List MiResults × Bytes)}
    (hr : miGetListRes (fuel + 1) closeC acc last m = .ok r) (x : Bytes) :
    miGetListRes (more + 1) closeC acc last (m ++ x) = .ok (moreBehind x r) := by
  rw [miGetListRes_eq] at hr ⊢
  obtain ⟨p, hp, hr⟩ := bind_eq_ok.mp hr
  rw [h.result hle hp x]
  cases p with
  | none => exact goOn_append (fun hk y => h.listRes hle hk y) hr x
  | some p => exact goOn_append (fun hk y => h.listRes hle hk y) hr x

/-- A nested list is read as before, and put into a value. -/
theorem nested_append {y z : Except Fault (Option (List MiResults × Bytes))}
    {f : List MiResults → MiResults} {r : Option (MiResults × Bytes)} {x : Bytes}
    (hyz : ∀ found, y = .ok found → z = .ok (moreBehind x found))
    (hr : (do match ← y with
            | some (rs, last) => return some (f rs, last)
            | none => return none : Except Fault (Option (MiResults × Bytes))) = .ok r) :
    (do match ← z with
        | some (rs, last) => return some (f rs, last)
        | none => return none : Except Fault (Option (MiResults × Bytes))) =
      .ok (moreBehind x r) := by
  obtain ⟨found, hfound, hr⟩ := bind_eq_ok.mp hr
  rw [hyz found hfound]
  cases found with
  | none =>
      obtain rfl := Except.ok.inj hr
      rfl
  | some p =>
      obtain rfl := Except.ok.inj hr
      rfl

theorem ParserExtends.value_succ (h : ParserExtends fuel) (hle : fuel ≤ more)
    {var : Option Bytes} {r : Option (MiResults × Bytes)}
    (hr : miGetValue (fuel + 1) var m = .ok r) (x : Bytes) :
    miGetValue (more + 1) var (m ++ x) = .ok (moreBehind x r) := by
  rcases m with _ | ⟨c, rest⟩
  · cases hr
  rw [List.cons_append]
  unfold miGetValue at hr ⊢
  by_cases hquote : c = code '"'
  · rw [if_pos hquote] at hr ⊢
    rw [← List.cons_append]
    exact miGetCstring_append hr x
  rw [if_neg hquote] at hr ⊢
  by_cases hbrace : c = code '{'
  · rw [if_pos hbrace] at hr ⊢
    rcases rest with _ | ⟨d, tail⟩
    · cases hr
    simp only [List.cons_append] at hr ⊢
    by_cases hempty : d = code '}'
    · rw [if_pos hempty] at hr ⊢
      obtain rfl := Except.ok.inj hr
      rfl
    · rw [if_neg hempty] at hr ⊢
      exact nested_append (fun found hfound => h.listRes hle hfound x) hr
  rw [if_neg hbrace] at hr ⊢
  by_cases hbracket : c = code '['
  · rw [if_pos hbracket] at hr ⊢
    rcases rest with _ | ⟨d, tail⟩
    · cases hr
    simp only [List.cons_append] at hr ⊢
    by_cases hempty : d = code ']'
    · rw [if_pos hempty] at hr ⊢
      obtain rfl := Except.ok.inj hr
      rfl
    · rw [if_neg hempty] at hr ⊢
      by_cases hname : miIsVarNameChar d = true
      · simp only [if_pos hname] at hr ⊢
        exact nested_append (fun found hfound => h.listRes hle hfound x) hr
      · simp only [if_neg hname] at hr ⊢
        exact nested_append (fun found hfound => h.listVal hle hfound x) hr
  · rw [if_neg hbracket] at hr ⊢
    obtain rfl := Except.ok.inj hr
    rfl

theorem parserExtends (fuel : Nat) : ParserExtends fuel := by
  induction fuel with
  | zero => exact .zero
  | succ fuel ih =>
      have hmore {more : Nat} (hle : fuel + 1 ≤ more) : ∃ k, more = k + 1 ∧ fuel ≤ k :=
        ⟨more - 1, by omega, by omega⟩
      refine ⟨?_, ?_, ?_, ?_⟩
      · intro more var m r hle hr x
        obtain ⟨k, rfl, hk⟩ := hmore hle
        exact ih.value_succ hk hr x
      · intro more closeC acc last m r hle hr x
        obtain ⟨k, rfl, hk⟩ := hmore hle
        exact ih.listRes_succ hk hr x
      · intro more acc m r hle hr x
        obtain ⟨k, rfl, hk⟩ := hmore hle
        exact ih.listVal_succ hk hr x
      · intro more m r hle hr x
        obtain ⟨k, rfl, hk⟩ := hmore hle
        exact ih.result_succ hk hr x

theorem miGetResultsAlone_append {more : Nat} (hle : fuel ≤ more) {r : MiOutput}
    {o : Option MiOutput} (h : miGetResultsAlone fuel r m = .ok o) (x : Bytes) :
    miGetResultsAlone more r (m ++ x) = .ok o := by
  induction fuel generalizing more r m with
  | zero => cases h
  | succ fuel ih =>
      obtain ⟨k, rfl, hk⟩ : ∃ k, more = k + 1 ∧ fuel ≤ k := ⟨more - 1, by omega, by omega⟩
      rcases m with _ | ⟨c, m⟩
      · cases h
      rw [miGetResultsAlone] at h
      rw [List.cons_append, miGetResultsAlone]
      by_cases hend : c = 0
      · rw [if_pos hend] at h ⊢
        exact h
      rw [if_neg hend] at h ⊢
      by_cases hcomma : c = code ','
      · rw [if_pos hcomma] at h ⊢
        obtain ⟨p, hp, h⟩ := bind_eq_ok.mp h
        rw [(parserExtends fuel).result hk hp x]
        cases p with
        | none => exact h
        | some p => exact ih hk h
      · rw [if_neg hcomma] at h ⊢
        exact h

end Parser

section Lines

variable {m : Bytes}

/-- Where the comparison succeeds, the memory begins with the literal. -/
theorem begins_of_strncmpEq {literal : Bytes} (h : strncmpEq literal m = .ok true) :
    literal <+: m := by
  induction literal generalizing m with
  | nil => exact List.nil_prefix
  | cons a literal ih =>
      cases m with
      | nil => cases h
      | cons c m =>
          rw [strncmpEq] at h
          split at h
          · rename_i hc
            rw [hc, List.cons_prefix_cons]
            exact ⟨rfl, ih h⟩
          · cases h

theorem parseClass_append {r : MiOutput} {classes : List (String × MiClass)}
    {o : Option MiOutput} (h : parseClass r m classes = .ok o) (x : Bytes) :
    parseClass r (m ++ x) classes = .ok o := by
  induction classes with
  | nil => exact h
  | cons p classes ih =>
      obtain ⟨name, tclass⟩ := p
      rw [parseClass] at h ⊢
      obtain ⟨b, hb, h⟩ := bind_eq_ok.mp h
      rw [strncmpEq_append hb]
      cases b with
      | false => exact ih h
      | true =>
          have hlength := (begins_of_strncmpEq hb).length_le
          rw [ascii, List.length_map, String.length_toList] at hlength
          have hfuel : parseFuel m ≤ parseFuel (m ++ x) := by
            simp only [parseFuel, List.length_append]
            omega
          simp only [if_true, bind, Except.bind, List.drop_append_of_le_length hlength] at h ⊢
          exact miGetResultsAlone_append hfuel h x

theorem miConsole_append {r : MiOutput} {o : Option MiOutput} (h : miConsole r m = .ok o)
    (x : Bytes) : miConsole r (m ++ x) = .ok o := by
  rw [miConsole] at h ⊢
  obtain ⟨p, hp, h⟩ := bind_eq_ok.mp h
  rw [miGetCstring_append hp]
  cases p <;> exact h

theorem miParseGdbOutput_append {o : Option MiOutput} (h : miParseGdbOutput m = .ok o)
    (x : Bytes) : miParseGdbOutput (m ++ x) = .ok o := by
  rcases m with _ | ⟨type, str⟩
  · cases h
  rw [miParseGdbOutput] at h
  rw [List.cons_append, miParseGdbOutput]
  split_ifs at h ⊢
  · exact parseClass_append h x
  · exact parseClass_append h x
  · exact parseClass_append h x
  · exact parseClass_append h x
  · exact miConsole_append h x
  · exact miConsole_append h x
  · exact miConsole_append h x
  · exact h

/-- A line that is parsed in its memory is parsed in the same way with more behind it. -/
theorem miGetResponse_append {po : List MiOutput} {response : Bool × List MiOutput}
    (h : miGetResponse po m = .ok response) (x : Bytes) :
    miGetResponse po (m ++ x) = .ok response := by
  rw [miGetResponse] at h ⊢
  obtain ⟨b, hb, h⟩ := bind_eq_ok.mp h
  rw [strncmpEq_append hb]
  cases b with
  | true => exact h
  | false =>
      obtain ⟨o, ho, h⟩ := bind_eq_ok.mp h
      simp only [bind, Except.bind, Bool.false_eq_true, if_false, miParseGdbOutput_append ho]
      exact h

end Lines

end ParallelGdb.Mi
