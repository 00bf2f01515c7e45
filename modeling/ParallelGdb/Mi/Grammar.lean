import ParallelGdb.Mi.Parser

/-!
# Well-formed output lines

The grammar of GDB/MI output as syntax trees, with the text each of them is
written as and the records `parse.c` is to make of it. Side conditions on the
characters are fields, so that every tree is a well-formed line.
-/

namespace ParallelGdb.Mi

open Library.CString

/-- What stands in a quoted text: a character, or an escaped one. An octal escape
is an escaped digit with plain digits behind it. -/
inductive QuotedChar
  | plain (c : UInt8) (valid : c ≠ 0 ∧ c ≠ code '\n' ∧ c ≠ code '"' ∧ c ≠ code '\\')
  | escaped (c : UInt8) (valid : c ≠ 0 ∧ c ≠ code '\n')

/-- The content of a c-string. -/
abbrev Quoted := List QuotedChar

def QuotedChar.written : QuotedChar → Bytes
  | .plain c _ => [c]
  | .escaped c _ => [code '\\', c]

/-- The characters between the quotes. -/
def Quoted.written (s : Quoted) : Bytes := s.flatMap QuotedChar.written

/-- The character the parser copies. -/
def QuotedChar.read : QuotedChar → UInt8
  | .plain c _ => c
  | .escaped c _ => unescape c

/-- The text the parser copies. -/
def Quoted.read (s : Quoted) : Bytes := s.map QuotedChar.read

/-- The name of a result or of a class. -/
structure VarName where
  name : Bytes
  ne_nil : name ≠ []
  chars : ∀ c ∈ name, miIsVarNameChar c = true

/-- The name a string literal spells. -/
def VarName.ofLiteral (s : String) (hne : ascii s ≠ []) (h : (ascii s).all miIsVarNameChar = true) :
    VarName :=
  ⟨ascii s, hne, List.all_eq_true.mp h⟩

mutual

inductive Value
  | const (s : Quoted)
  | emptyTuple
  | tuple (rs : Results)
  | emptyList
  | results (rs : Results)
  | values (vs : Values)

/-- One result or more, between commas. -/
inductive Results
  | one (var : VarName) (v : Value)
  | more (var : VarName) (v : Value) (rs : Results)

/-- One value or more, between commas. -/
inductive Values
  | one (v : Value)
  | more (v : Value) (vs : Values)

end

mutual

def Value.written : Value → Bytes
  | .const s => code '"' :: s.written ++ [code '"']
  | .emptyTuple => [code '{', code '}']
  | .tuple rs => code '{' :: rs.written ++ [code '}']
  | .emptyList => [code '[', code ']']
  | .results rs => code '[' :: rs.written ++ [code ']']
  | .values vs => code '[' :: vs.written ++ [code ']']

def Results.written : Results → Bytes
  | .one var v => var.name ++ code '=' :: v.written
  | .more var v rs => var.name ++ code '=' :: (v.written ++ code ',' :: rs.written)

def Values.written : Values → Bytes
  | .one v => v.written
  | .more v vs => v.written ++ code ',' :: vs.written

end

mutual

/-- The tree of a value, under the name given to it. -/
def Value.tree (var : Option Bytes) : Value → MiResults
  | .const s => .const var s.read
  | .emptyTuple => .tuple var []
  | .tuple rs => .tuple var rs.trees
  | .emptyList => .list var []
  | .results rs => .list var rs.trees
  | .values vs => .list var vs.trees

def Results.trees : Results → List MiResults
  | .one var v => [v.tree var.name]
  | .more var v rs => v.tree var.name :: rs.trees

def Values.trees : Values → List MiResults
  | .one v => [v.tree none]
  | .more v vs => v.tree none :: vs.trees

end

/-- The characters that may stand behind a value. -/
def endsValue (d : UInt8) : Prop := d = 0 ∨ d = code ',' ∨ d = code ']' ∨ d = code '}'

section Texts

variable {rest : Bytes}

theorem quoted_read_ne_zero (s : Quoted) : ∀ c ∈ s.read, c ≠ 0 := by
  intro c hc
  obtain ⟨q, -, rfl⟩ := List.mem_map.mp hc
  cases q with
  | plain c valid => exact valid.1
  | escaped c valid =>
      simp only [QuotedChar.read, unescape]
      split
      · decide
      · split
        · decide
        · exact valid.1

theorem cstr_quoted (s : Quoted) : cstr s.read = s.read :=
  cstr_of_forall (quoted_read_ne_zero s)

/-- The loops of `mi_get_cstring_r` stop at the closing quote. -/
theorem cstringBody_quoted (s : Quoted) {d : UInt8} (hd : endsValue d) :
    cstringBody (s.written ++ code '"' :: d :: rest) = .ok (s.read, d :: rest) := by
  induction s with
  | nil =>
      have hend : endOfStr (code '"') d = true := by
        unfold endsValue at hd
        simpa [endOfStr, or_assoc] using hd
      rw [Quoted.written, List.flatMap_nil, List.nil_append, cstringBody, hend, Bool.or_true,
        if_pos rfl]
      rfl
  | cons q s ih =>
      have hsplit : ∀ x, Quoted.written (q :: s) ++ x = q.written ++ (Quoted.written s ++ x) := by
        intro x
        simp only [Quoted.written, List.flatMap_cons, List.append_assoc]
      rw [hsplit]
      cases q with
      | plain c valid =>
          obtain ⟨e, last, hlast⟩ : ∃ e last,
              Quoted.written s ++ code '"' :: d :: rest = e :: last :=
            List.exists_cons_of_ne_nil (by simp)
          have hquote : endOfStr c e = false := by simp [endOfStr, valid.2.2.1]
          rw [hlast] at ih ⊢
          simp only [QuotedChar.written, List.singleton_append]
          rw [cstringBody, hquote, Bool.or_false, if_neg (by simp [valid.1]),
            if_neg valid.2.2.2, ih]
          rfl
      | escaped c valid =>
          simp only [QuotedChar.written, List.cons_append, List.nil_append]
          have hquote : endOfStr (code '\\') c = false := by
            have hne : code '\\' ≠ code '"' := by decide
            simp [endOfStr, hne]
          rw [cstringBody, hquote, Bool.or_false, if_neg (by decide), if_pos rfl, ih]
          rfl

theorem miGetCstring_quoted (var : Option Bytes) (s : Quoted) {d : UInt8} (hd : endsValue d) :
    miGetCstring var (code '"' :: (s.written ++ code '"' :: d :: rest)) =
      .ok (some (.const var s.read, d :: rest)) := by
  rw [miGetCstring, if_pos rfl, cstringBody_quoted s hd]
  simp only [bind, Except.bind, cstr_quoted]
  rfl

theorem scanName_chars {name : Bytes} (h : ∀ c ∈ name, miIsVarNameChar c = true) {c : UInt8}
    (hc : miIsVarNameChar c = false) : scanName (name ++ c :: rest) = .ok (name, c :: rest) := by
  induction name with
  | nil => simp [scanName, hc]
  | cons b name ih =>
      rw [List.cons_append, scanName, if_pos (h b (by simp)), ih fun c hc => h c (by simp [hc])]
      rfl

theorem name_ne_zero {name : Bytes} (h : ∀ c ∈ name, miIsVarNameChar c = true) :
    ∀ c ∈ name, c ≠ 0 := by
  rintro c hc rfl
  exact absurd (h 0 hc) (by decide)

/-- The name of a result, up to the sign behind it. -/
theorem miGetVarName_name (var : VarName) :
    miGetVarName (var.name ++ code '=' :: rest) = .ok (some (var.name, rest)) := by
  have hstart : nameStart (var.name ++ code '=' :: rest) = .ok 0 := by
    obtain ⟨b, name, hname⟩ := List.exists_cons_of_ne_nil var.ne_nil
    have hchar : miIsVarNameChar b = true := var.chars b (by simp [hname])
    have hb : b ≠ code '"' := by
      rintro rfl
      exact absurd hchar (by decide)
    rw [hname, List.cons_append, nameStart, if_neg hb]
  have hcstr : cstr var.name = var.name := cstr_of_forall (name_ne_zero var.chars)
  have heq : miIsVarNameChar (code '=') = false := by decide
  simp only [miGetVarName, hstart, bind, Except.bind, List.drop_zero,
    scanName_chars var.chars heq, List.take_zero, List.nil_append, hcstr, if_true]
  rfl

end Texts

section Values

theorem name_head (var : VarName) (x : Bytes) :
    ∃ c name, var.name ++ x = c :: name ∧ miIsVarNameChar c = true := by
  obtain ⟨c, name, hname⟩ := List.exists_cons_of_ne_nil var.ne_nil
  exact ⟨c, name ++ x, by rw [hname, List.cons_append], var.chars c (by simp [hname])⟩

/-- Results begin with a name. -/
theorem Results.head (rs : Results) (x : Bytes) :
    ∃ c m, rs.written ++ x = c :: m ∧ miIsVarNameChar c = true := by
  cases rs with
  | one var v =>
      rw [Results.written, List.append_assoc]
      exact name_head var _
  | more var v rs =>
      rw [Results.written, List.append_assoc]
      exact name_head var _

/-- Values begin with a quote or a bracket. -/
theorem Value.head (v : Value) (x : Bytes) :
    ∃ c m, v.written ++ x = c :: m ∧ (c = code '"' ∨ c = code '{' ∨ c = code '[') := by
  cases v <;> simp [Value.written]

theorem Values.head (vs : Values) (x : Bytes) :
    ∃ c m, vs.written ++ x = c :: m ∧ (c = code '"' ∨ c = code '{' ∨ c = code '[') := by
  cases vs with
  | one v =>
      rw [Values.written]
      exact v.head x
  | more v vs =>
      rw [Values.written, List.append_assoc]
      exact v.head _

theorem miGetResult_name {fuel : Nat} (var : VarName) (m : Bytes) :
    miGetResult (fuel + 1) (var.name ++ code '=' :: m) = miGetValue fuel (some var.name) m := by
  simp only [miGetResult, miGetVarName_name, bind, Except.bind]

/-- One result of a list, and what comes behind it. -/
theorem miGetListRes_result {fuel : Nat} {closeC : UInt8} {rs : List MiResults} {last : Bool}
    {m m' : Bytes} {r : MiResults} {c : UInt8} (hlast : last = true ∨ rs = [])
    (h : miGetResult fuel m = .ok (some (r, c :: m'))) :
    miGetListRes (fuel + 1) closeC rs last m =
      if c = closeC then .ok (some (rs ++ [r], m'))
      else if c = code ',' then miGetListRes fuel closeC (rs ++ [r]) true m'
      else .ok none := by
  have hrs : (if last then rs ++ [r] else [r]) = rs ++ [r] := by
    rcases hlast with rfl | rfl
    · rfl
    · simp
  simp only [miGetListRes, h, bind, Except.bind, pure, Except.pure, hrs]

/-- A value in quotes. -/
theorem miGetValue_quote {fuel : Nat} {var : Option Bytes} (m : Bytes) :
    miGetValue (fuel + 1) var (code '"' :: m) = miGetCstring var (code '"' :: m) := by
  cases m <;> rfl

/-- A tuple that is not empty. -/
theorem miGetValue_brace {fuel : Nat} {var : Option Bytes} {c : UInt8} {m last : Bytes}
    {rs : List MiResults} (hc : c ≠ code '}')
    (h : miGetListRes fuel (code '}') [] false (c :: m) = .ok (some (rs, last))) :
    miGetValue (fuel + 1) var (code '{' :: c :: m) = .ok (some (.tuple var rs, last)) := by
  rw [miGetValue, if_neg (by decide), if_pos rfl, if_neg hc, h]
  rfl

/-- A list of results. -/
theorem miGetValue_results {fuel : Nat} {var : Option Bytes} {c : UInt8} {m last : Bytes}
    {rs : List MiResults} (hc : miIsVarNameChar c = true)
    (h : miGetListRes fuel (code ']') [] false (c :: m) = .ok (some (rs, last))) :
    miGetValue (fuel + 1) var (code '[' :: c :: m) = .ok (some (.list var rs, last)) := by
  have hne : c ≠ code ']' := by
    rintro rfl
    exact absurd hc (by decide)
  rw [miGetValue, if_neg (by decide), if_neg (by decide), if_pos rfl, if_neg hne, if_pos hc, h]
  rfl

/-- A list of values. -/
theorem miGetValue_values {fuel : Nat} {var : Option Bytes} {c : UInt8} {m last : Bytes}
    {rs : List MiResults} (hc : miIsVarNameChar c = false) (hne : c ≠ code ']')
    (h : miGetListVal fuel [] (c :: m) = .ok (some (rs, last))) :
    miGetValue (fuel + 1) var (code '[' :: c :: m) = .ok (some (.list var rs, last)) := by
  rw [miGetValue, if_neg (by decide), if_neg (by decide), if_pos rfl, if_neg hne,
    if_neg (by simp [hc]), h]
  rfl

/-- The same for a value of a list without names. -/
theorem miGetListVal_value {fuel : Nat} {rs : List MiResults} {m m' : Bytes} {r : MiResults}
    {c : UInt8} (h : miGetValue fuel none m = .ok (some (r, c :: m'))) :
    miGetListVal (fuel + 1) rs m =
      if c = code ']' then .ok (some (rs ++ [r], m'))
      else if c = code ',' then miGetListVal fuel (rs ++ [r]) m'
      else .ok none := by
  simp only [miGetListVal, h, bind, Except.bind, pure, Except.pure]

mutual

/-- A written value is read back. -/
theorem miGetValue_written (v : Value) (var : Option Bytes) {d : UInt8} {rest : Bytes}
    (hd : endsValue d) {fuel : Nat} (hfuel : 2 * v.written.length ≤ fuel) :
    miGetValue fuel var (v.written ++ d :: rest) = .ok (some (v.tree var, d :: rest)) := by
  obtain ⟨f, rfl⟩ : ∃ f, fuel = f + 1 := by
    obtain ⟨c, m, hhead, -⟩ := v.head []
    have hpos : 0 < v.written.length := by
      rw [← List.append_nil v.written, hhead]
      simp
    exact ⟨fuel - 1, by omega⟩
  cases v with
  | const s =>
      have hwritten : (Value.const s).written ++ d :: rest =
          code '"' :: (s.written ++ code '"' :: d :: rest) := by
        simp [Value.written]
      rw [hwritten, miGetValue_quote, miGetCstring_quoted var s hd, Value.tree]
  | emptyTuple =>
      rw [Value.written, Value.tree]
      rfl
  | tuple rs =>
      have hwritten : (Value.tuple rs).written ++ d :: rest =
          code '{' :: (rs.written ++ code '}' :: d :: rest) := by
        simp [Value.written]
      rw [Value.written, List.length_append, List.length_cons] at hfuel
      have hrs : miGetListRes f (code '}') [] false (rs.written ++ code '}' :: d :: rest) =
          .ok (some ([] ++ rs.trees, d :: rest)) :=
        miGetListRes_written rs (by simp [endsValue]) (by decide) [] (Or.inr rfl) _ (by omega)
      obtain ⟨c, m, hhead, hc⟩ := rs.head (code '}' :: d :: rest)
      have hne : c ≠ code '}' := by
        rintro rfl
        exact absurd hc (by decide)
      rw [hhead] at hrs
      rw [hwritten, hhead, miGetValue_brace hne hrs, Value.tree, List.nil_append]
  | emptyList =>
      rw [Value.written, Value.tree]
      rfl
  | results rs =>
      have hwritten : (Value.results rs).written ++ d :: rest =
          code '[' :: (rs.written ++ code ']' :: d :: rest) := by
        simp [Value.written]
      rw [Value.written, List.length_append, List.length_cons] at hfuel
      have hrs : miGetListRes f (code ']') [] false (rs.written ++ code ']' :: d :: rest) =
          .ok (some ([] ++ rs.trees, d :: rest)) :=
        miGetListRes_written rs (by simp [endsValue]) (by decide) [] (Or.inr rfl) _ (by omega)
      obtain ⟨c, m, hhead, hc⟩ := rs.head (code ']' :: d :: rest)
      rw [hhead] at hrs
      rw [hwritten, hhead, miGetValue_results hc hrs, Value.tree, List.nil_append]
  | values vs =>
      have hwritten : (Value.values vs).written ++ d :: rest =
          code '[' :: (vs.written ++ code ']' :: d :: rest) := by
        simp [Value.written]
      rw [Value.written, List.length_append, List.length_cons] at hfuel
      have hvs : miGetListVal f [] (vs.written ++ code ']' :: d :: rest) =
          .ok (some ([] ++ vs.trees, d :: rest)) := miGetListVal_written vs [] _ (by omega)
      obtain ⟨c, m, hhead, hc⟩ := vs.head (code ']' :: d :: rest)
      have hne : c ≠ code ']' := by
        rcases hc with rfl | rfl | rfl <;> decide
      have hname : miIsVarNameChar c = false := by
        rcases hc with rfl | rfl | rfl <;> decide
      rw [hhead] at hvs
      rw [hwritten, hhead, miGetValue_values hname hne hvs, Value.tree, List.nil_append]

theorem miGetListRes_written (rs : Results) {closeC : UInt8} (hclose : endsValue closeC)
    (hcomma : closeC ≠ code ',') (acc : List MiResults) {last : Bool}
    (hlast : last = true ∨ acc = []) (rest : Bytes) {fuel : Nat}
    (hfuel : 2 * rs.written.length ≤ fuel) :
    miGetListRes fuel closeC acc last (rs.written ++ closeC :: rest) =
      .ok (some (acc ++ rs.trees, rest)) := by
  cases rs with
  | one var v =>
      rw [Results.written, List.length_append, List.length_cons] at hfuel
      obtain ⟨f, rfl⟩ : ∃ f, fuel = f + 2 := ⟨fuel - 2, by omega⟩
      have hwritten : (Results.one var v).written ++ closeC :: rest =
          var.name ++ code '=' :: (v.written ++ closeC :: rest) := by
        simp [Results.written]
      have hvalue : miGetValue f (some var.name) (v.written ++ closeC :: rest) =
          .ok (some (v.tree var.name, closeC :: rest)) :=
        miGetValue_written v _ hclose (by omega)
      have hresult := (miGetResult_name var _).trans hvalue
      rw [hwritten, miGetListRes_result hlast hresult, if_pos rfl, Results.trees]
  | more var v rs =>
      rw [Results.written, List.length_append, List.length_cons, List.length_append,
        List.length_cons] at hfuel
      obtain ⟨f, rfl⟩ : ∃ f, fuel = f + 2 := ⟨fuel - 2, by omega⟩
      have hwritten : (Results.more var v rs).written ++ closeC :: rest =
          var.name ++ code '=' :: (v.written ++ code ',' :: (rs.written ++ closeC :: rest)) := by
        simp [Results.written]
      have hvalue : miGetValue f (some var.name)
          (v.written ++ code ',' :: (rs.written ++ closeC :: rest)) =
          .ok (some (v.tree var.name, code ',' :: (rs.written ++ closeC :: rest))) :=
        miGetValue_written v _ (by simp [endsValue]) (by omega)
      have hresult := (miGetResult_name var _).trans hvalue
      rw [hwritten, miGetListRes_result hlast hresult, if_neg (Ne.symm hcomma), if_pos rfl,
        miGetListRes_written rs hclose hcomma _ (Or.inl rfl) rest (by omega), Results.trees,
        List.append_assoc, List.singleton_append]

theorem miGetListVal_written (vs : Values) (acc : List MiResults) (rest : Bytes) {fuel : Nat}
    (hfuel : 2 * vs.written.length + 1 ≤ fuel) :
    miGetListVal fuel acc (vs.written ++ code ']' :: rest) =
      .ok (some (acc ++ vs.trees, rest)) := by
  obtain ⟨f, rfl⟩ : ∃ f, fuel = f + 1 := ⟨fuel - 1, by omega⟩
  cases vs with
  | one v =>
      rw [Values.written] at hfuel ⊢
      have hvalue : miGetValue f none (v.written ++ code ']' :: rest) =
          .ok (some (v.tree none, code ']' :: rest)) :=
        miGetValue_written v _ (by simp [endsValue]) (by omega)
      rw [miGetListVal_value hvalue, if_pos rfl, Values.trees]
  | more v vs =>
      rw [Values.written, List.length_append, List.length_cons] at hfuel
      have hwritten : (Values.more v vs).written ++ code ']' :: rest =
          v.written ++ code ',' :: (vs.written ++ code ']' :: rest) := by
        simp [Values.written]
      have hvalue : miGetValue f none (v.written ++ code ',' :: (vs.written ++ code ']' :: rest)) =
          .ok (some (v.tree none, code ',' :: (vs.written ++ code ']' :: rest))) :=
        miGetValue_written v _ (by simp [endsValue]) (by omega)
      rw [hwritten, miGetListVal_value hvalue, if_neg (by decide), if_pos rfl,
        miGetListVal_written vs _ rest (by omega), Values.trees, List.append_assoc,
        List.singleton_append]

end

end Values

end ParallelGdb.Mi
