import ParallelGdb.Mi.Grammar

/-!
# Whole output lines

The lines GDB writes: result records, asynchronous records, stream records and
the prompt, each with the text it is written as and the record `parse.c` makes
of it. Records that answer a command with a token begin with its digits, which
the parser does not know, and of the asynchronous classes it knows two.
-/

namespace ParallelGdb.Mi

open Library.CString

/-- The results of a record, in order. -/
abbrev Fields := List (VarName × Value)

/-- A comma comes before each result. -/
def Fields.written (rs : Fields) : Bytes :=
  rs.flatMap fun p => code ',' :: (p.1.name ++ code '=' :: p.2.written)

def Fields.trees (rs : Fields) : List MiResults := rs.map fun p => p.2.tree p.1.name

/-- The digits in front of a record. -/
structure Token where
  digits : Bytes
  chars : ∀ c ∈ digits, isDigit c = true

def Token.empty : Token := ⟨[], by simp⟩

/-- The class of a stop. -/
def VarName.stopped : VarName := .ofLiteral "stopped" (by decide) rfl

inductive ResultClass
  | done
  | running
  | connected
  | error
  | exit
  deriving DecidableEq, Repr

def ResultClass.name : ResultClass → String
  | .done => "done"
  | .running => "running"
  | .connected => "connected"
  | .error => "error"
  | .exit => "exit"

def ResultClass.tclass : ResultClass → MiClass
  | .done => .done
  | .running => .running
  | .connected => .connected
  | .error => .error
  | .exit => .exit

inductive AsyncType
  | exec
  | status
  | notify
  deriving DecidableEq, Repr

def AsyncType.mark : AsyncType → Char
  | .exec => '*'
  | .status => '+'
  | .notify => '='

def AsyncType.sstype : AsyncType → MiSubsubtype
  | .exec => .exec
  | .status => .status
  | .notify => .notify

inductive StreamType
  | console
  | target
  | log
  deriving DecidableEq, Repr

def StreamType.mark : StreamType → Char
  | .console => '~'
  | .target => '@'
  | .log => '&'

def StreamType.sstype : StreamType → MiSubsubtype
  | .console => .console
  | .target => .target
  | .log => .log

def Value.isTuple : Value → Bool
  | .emptyTuple => true
  | .tuple _ => true
  | _ => false

/-- An asynchronous record. -/
structure AsyncRecord where
  type : AsyncType
  tclass : VarName
  results : Fields

inductive Line
  | result (token : Token) (tclass : ResultClass) (results : Fields)
  | async (token : Token) (record : AsyncRecord)
  | stream (type : StreamType) (text : Quoted)
  /-- GDB writes a blank behind its prompt. -/
  | prompt (blank : Bool)

def Line.written : Line → Bytes
  | .result token tclass results =>
      token.digits ++ code '^' :: (ascii tclass.name ++ results.written)
  | .async token record =>
      token.digits ++ code record.type.mark :: (record.tclass.name ++ record.results.written)
  | .stream type text => code type.mark :: code '"' :: text.written ++ [code '"']
  | .prompt blank => ascii "(gdb)" ++ if blank then [code ' '] else []

/-- The classes `mi_parse_asyn` knows. -/
def asyncClass (name : Bytes) : Option MiClass :=
  if name = ascii "stopped" then some .stopped
  else if name = ascii "download" then some .download
  else none

/-- The record of a line. -/
def Line.record : Line → Option MiOutput
  | .result token tclass results =>
      if token.digits = [] then
        some { type := .resultRecord, tclass := tclass.tclass, c := results.trees }
      else none
  | .async token record =>
      if token.digits = [] then
        (asyncClass record.tclass.name).map fun tclass =>
          { sstype := record.type.sstype, tclass, c := record.results.trees }
      else none
  | .stream type text =>
      some { stype := .stream, sstype := type.sstype, c := [.const none text.read] }
  | .prompt _ => none

/-- The line ends a response. -/
def Line.completes : Line → Bool
  | .result token tclass _ => token.digits = [] && tclass = .exit
  | .prompt _ => true
  | _ => false

section Records

variable {x : Bytes}

/-- Behind the class of a record comes a comma or the end. -/
theorem fields_head (rs : Fields) (x : Bytes) :
    ∃ d m, rs.written ++ 0 :: x = d :: m ∧ (d = 0 ∨ d = code ',') := by
  cases rs with
  | nil => exact ⟨0, x, rfl, Or.inl rfl⟩
  | cons p rs => exact ⟨_, _, rfl, Or.inr rfl⟩

/-- The results of a record are read up to the end. -/
theorem miGetResultsAlone_written (rs : Fields) (r : MiOutput) {fuel : Nat}
    (hfuel : 2 * rs.written.length + 1 ≤ fuel) :
    miGetResultsAlone fuel r (rs.written ++ 0 :: x) =
      .ok (some { r with c := r.c ++ rs.trees }) := by
  induction rs generalizing r fuel with
  | nil =>
      obtain ⟨f, rfl⟩ : ∃ f, fuel = f + 1 := ⟨fuel - 1, by omega⟩
      simp [Fields.written, Fields.trees, miGetResultsAlone]
  | cons p rs ih =>
      obtain ⟨var, v⟩ := p
      have hlength : (Fields.written ((var, v) :: rs)).length =
          1 + (var.name.length + (1 + v.written.length)) + (Fields.written rs).length := by
        simp only [Fields.written, List.flatMap_cons, List.length_append, List.length_cons]
        omega
      rw [hlength] at hfuel
      obtain ⟨f, rfl⟩ : ∃ f, fuel = f + 2 := ⟨fuel - 2, by omega⟩
      have hwritten : Fields.written ((var, v) :: rs) ++ 0 :: x =
          code ',' :: (var.name ++ code '=' :: (v.written ++ (Fields.written rs ++ 0 :: x))) := by
        simp [Fields.written]
      obtain ⟨d, m, hhead, hd⟩ := fields_head rs x
      have hends : endsValue d := hd.imp_right Or.inl
      have hvalue : miGetValue f (some var.name) (v.written ++ d :: m) =
          .ok (some (v.tree var.name, d :: m)) := miGetValue_written v _ hends (by omega)
      have hresult := (miGetResult_name var _).trans hvalue
      rw [← hhead] at hresult
      rw [hwritten, miGetResultsAlone, if_neg (by decide), if_pos rfl, hresult]
      simp only [bind, Except.bind]
      rw [ih _ (by omega)]
      simp [Fields.trees]

/-- Comparing with a class name stops at the end of the name that is there. -/
theorem strncmpEq_name {literal name m : Bytes} {d : UInt8} (hd : d ∉ literal) :
    strncmpEq literal (name ++ d :: m) = .ok (decide (literal <+: name)) := by
  induction literal generalizing name with
  | nil => simp [strncmpEq]
  | cons a literal ih =>
      simp only [List.mem_cons, not_or] at hd
      cases name with
      | nil => simp [strncmpEq, hd.1]
      | cons c name =>
          rw [List.cons_append, strncmpEq]
          by_cases hc : c = a
          · simp [hc, ih hd.2]
          · simp [hc, Ne.symm hc]

/-- A class name ends where its results begin. -/
theorem not_mem_class {cls : String} (h : (ascii cls).all miIsVarNameChar = true) {d : UInt8}
    (hd : d = 0 ∨ d = code ',') : d ∉ ascii cls := by
  intro hmem
  have hchar := List.all_eq_true.mp h d hmem
  rcases hd with rfl | rfl
  · exact absurd hchar (by decide)
  · exact absurd hchar (by decide)

variable {r : MiOutput} {cls : String} {tclass : MiClass} {others : List (String × MiClass)}

/-- The class is the one that is asked for, and its results follow. -/
theorem parseClass_same (h : (ascii cls).all miIsVarNameChar = true) (rs : Fields) :
    parseClass r (ascii cls ++ (rs.written ++ 0 :: x)) ((cls, tclass) :: others) =
      .ok (some { r with tclass, c := r.c ++ rs.trees }) := by
  obtain ⟨d, m, hhead, hd⟩ := fields_head rs x
  have hcompare : strncmpEq (ascii cls) (ascii cls ++ (rs.written ++ 0 :: x)) = .ok true := by
    rw [hhead, strncmpEq_name (not_mem_class h hd)]
    simp
  have hlength : cls.length = (ascii cls).length := by
    rw [ascii, List.length_map, String.length_toList]
  rw [parseClass, hcompare, hlength, List.drop_left]
  exact miGetResultsAlone_written rs _ (by simp [parseFuel]; omega)

/-- The class is another one. -/
theorem parseClass_other (h : (ascii cls).all miIsVarNameChar = true) {name : Bytes}
    (hname : ¬ ascii cls <+: name) (rs : Fields) :
    parseClass r (name ++ (rs.written ++ 0 :: x)) ((cls, tclass) :: others) =
      parseClass r (name ++ (rs.written ++ 0 :: x)) others := by
  obtain ⟨d, m, hhead, hd⟩ := fields_head rs x
  have hcompare : strncmpEq (ascii cls) (name ++ (rs.written ++ 0 :: x)) = .ok false := by
    rw [hhead, strncmpEq_name (not_mem_class h hd), decide_eq_false hname]
  rw [parseClass, hcompare]
  rfl

/-- A class that only begins like the one that is asked for is not known. -/
theorem parseClass_longer (h : (ascii cls).all miIsVarNameChar = true) {name : Bytes}
    (hname : ∀ c ∈ name, miIsVarNameChar c = true) (hstart : ascii cls <+: name)
    (hne : name ≠ ascii cls) (rs : Fields) :
    parseClass r (name ++ (rs.written ++ 0 :: x)) ((cls, tclass) :: others) = .ok none := by
  obtain ⟨d, m, hhead, hd⟩ := fields_head rs x
  have hcompare : strncmpEq (ascii cls) (name ++ (rs.written ++ 0 :: x)) = .ok true := by
    rw [hhead, strncmpEq_name (not_mem_class h hd), decide_eq_true hstart]
  obtain ⟨more, rfl⟩ := hstart
  obtain ⟨c, more, rfl⟩ : ∃ c rest, more = c :: rest :=
    List.exists_cons_of_ne_nil fun hnil => hne (by rw [hnil, List.append_nil])
  have hc := hname c (by simp)
  have hzero : c ≠ 0 := by
    rintro rfl
    exact absurd hc (by decide)
  have hcomma : c ≠ code ',' := by
    rintro rfl
    exact absurd hc (by decide)
  have hlength : cls.length = (ascii cls).length := by
    rw [ascii, List.length_map, String.length_toList]
  rw [parseClass, hcompare, hlength, List.append_assoc, List.drop_left, List.cons_append]
  simp only [bind, Except.bind, if_true, parseFuel, miGetResultsAlone, if_neg hzero,
    if_neg hcomma]

theorem miParseResultRecord_written (r : MiOutput) (tclass : ResultClass) (rs : Fields) :
    miParseResultRecord r (ascii tclass.name ++ (rs.written ++ 0 :: x)) =
      .ok (some { r with
        type := .resultRecord, tclass := tclass.tclass, c := r.c ++ rs.trees }) := by
  unfold miParseResultRecord
  cases tclass with
  | done => exact parseClass_same rfl rs
  | running =>
      rw [parseClass_other rfl (by decide)]
      exact parseClass_same rfl rs
  | connected =>
      rw [parseClass_other rfl (by decide), parseClass_other rfl (by decide)]
      exact parseClass_same rfl rs
  | error =>
      rw [parseClass_other rfl (by decide), parseClass_other rfl (by decide),
        parseClass_other rfl (by decide)]
      exact parseClass_same rfl rs
  | exit =>
      rw [parseClass_other rfl (by decide), parseClass_other rfl (by decide),
        parseClass_other rfl (by decide), parseClass_other rfl (by decide)]
      exact parseClass_same rfl rs

theorem miParseAsyn_written (r : MiOutput) (record : AsyncRecord) :
    miParseAsyn r (record.tclass.name ++ (record.results.written ++ 0 :: x)) =
      .ok ((asyncClass record.tclass.name).map fun tclass =>
        { r with
          type := .outOfBand
          stype := .async
          tclass
          c := r.c ++ record.results.trees }) := by
  have hchars := record.tclass.chars
  unfold miParseAsyn asyncClass
  by_cases hstopped : record.tclass.name = ascii "stopped"
  · rw [hstopped, if_pos rfl, parseClass_same rfl]
    rfl
  · rw [if_neg hstopped]
    by_cases hdownload : record.tclass.name = ascii "download"
    · rw [hdownload, if_pos rfl, parseClass_other rfl (by decide), parseClass_same rfl]
      rfl
    · rw [if_neg hdownload]
      by_cases hstart : ascii "stopped" <+: record.tclass.name
      · rw [parseClass_longer rfl hchars hstart hstopped]
        rfl
      · rw [parseClass_other rfl hstart]
        by_cases hstart : ascii "download" <+: record.tclass.name
        · rw [parseClass_longer rfl hchars hstart hdownload]
          rfl
        · rw [parseClass_other rfl hstart, parseClass]
          rfl

end Records

section Lines

variable {x : Bytes}

/-- A record that answers a command with a token is not known. -/
theorem miParseGdbOutput_token {token : Token} (h : token.digits ≠ []) (m : Bytes) :
    miParseGdbOutput (token.digits ++ m) = .ok none := by
  obtain ⟨c, digits, hdigits⟩ := List.exists_cons_of_ne_nil h
  have hc : isDigit c = true := token.chars c (by simp [hdigits])
  have hmark : ∀ mark, isDigit mark = false → c ≠ mark := by
    rintro mark hmark rfl
    exact absurd hc (by simp [hmark])
  rw [hdigits, List.cons_append, miParseGdbOutput]
  iterate 7
    rw [if_neg (hmark _ (by decide))]

theorem miConsole_written (r : MiOutput) (text : Quoted) :
    miConsole r (code '"' :: (text.written ++ code '"' :: 0 :: x)) =
      .ok (some { r with type := .outOfBand, stype := .stream, c := [.const none text.read] }) := by
  have hends : endsValue 0 := Or.inl rfl
  rw [miConsole, miGetCstring_quoted none text hends]
  rfl

/-- What is read of a line that is not the prompt. -/
theorem miParseGdbOutput_written (l : Line) (h : ∀ blank, l ≠ .prompt blank) :
    miParseGdbOutput (l.written ++ 0 :: x) = .ok l.record := by
  cases l with
  | result token tclass results =>
      by_cases htoken : token.digits = []
      · simp only [Line.written, Line.record, htoken, List.nil_append, List.cons_append,
          List.append_assoc, miParseGdbOutput, if_true]
        exact miParseResultRecord_written {} tclass results
      · rw [Line.written, List.append_assoc, miParseGdbOutput_token htoken, Line.record,
          if_neg htoken]
  | async token record =>
      by_cases htoken : token.digits = []
      · have hwritten : (Line.async token record).written ++ 0 :: x = code record.type.mark ::
            (record.tclass.name ++ (record.results.written ++ 0 :: x)) := by
          simp [Line.written, htoken]
        have hparse := fun r => miParseAsyn_written (x := x) r record
        rw [hwritten, Line.record, if_pos htoken]
        cases htype : record.type <;> exact hparse _
      · rw [Line.written, List.append_assoc, miParseGdbOutput_token htoken, Line.record,
          if_neg htoken]
  | stream type text =>
      have hwritten : (Line.stream type text).written ++ 0 :: x = code type.mark ::
          code '"' :: (text.written ++ code '"' :: 0 :: x) := by
        simp [Line.written]
      rw [hwritten, Line.record]
      cases type <;> exact miConsole_written _ text
  | prompt blank => exact absurd rfl (h blank)

theorem written_head (l : Line) (h : ∀ blank, l ≠ .prompt blank) (x : Bytes) :
    ∃ c m, l.written ++ x = c :: m ∧ c ≠ code '(' := by
  have htokens : ∀ (token : Token) (mark : Char) (m : Bytes), code mark ≠ code '(' →
      ∃ c m', token.digits ++ code mark :: m = c :: m' ∧ c ≠ code '(' := by
    intro token mark m hmark
    cases hdigits : token.digits with
    | nil => exact ⟨_, m, rfl, hmark⟩
    | cons c digits =>
        have hc : isDigit c = true := token.chars c (by simp [hdigits])
        refine ⟨c, digits ++ code mark :: m, rfl, ?_⟩
        rintro rfl
        exact absurd hc (by decide)
  cases l with
  | result token tclass results =>
      simp only [Line.written, List.append_assoc, List.cons_append]
      exact htokens token '^' _ (by decide)
  | async token record =>
      simp only [Line.written, List.append_assoc, List.cons_append]
      exact htokens token _ _ (by cases record.type <;> decide)
  | stream type text =>
      exact ⟨_, _, rfl, by cases type <;> decide⟩
  | prompt blank => exact absurd rfl (h blank)

/-- A written line is read as its record. -/
theorem miGetResponse_written (po : List MiOutput) (l : Line) :
    miGetResponse po (l.written ++ 0 :: x) = .ok (l.completes, po ++ l.record.toList) := by
  by_cases h : ∃ blank, l = .prompt blank
  · obtain ⟨blank, rfl⟩ := h
    rw [Line.written, List.append_assoc, Line.record, Option.toList_none, List.append_nil]
    rfl
  · simp only [not_exists] at h
    obtain ⟨c, m, hhead, hc⟩ := written_head l h (0 :: x)
    have hcompare : strncmpEq (ascii "(gdb)") (l.written ++ 0 :: x) = .ok false := by
      rw [hhead]
      exact if_neg hc
    have hcompletes : l.record.elim false MiOutput.isExit = l.completes := by
      cases l with
      | result token tclass results =>
          rw [Line.record, Line.completes]
          split
          · rename_i htoken
            cases tclass <;> simp [MiOutput.isExit, ResultClass.tclass, htoken]
          · rename_i htoken
            simp [htoken]
      | async token record =>
          rw [Line.record]
          split
          · cases asyncClass record.tclass.name <;> rfl
          · rfl
      | stream type text => rfl
      | prompt blank => exact absurd rfl (h blank)
    rw [miGetResponse, hcompare, ← hcompletes]
    simp only [bind, Except.bind, miParseGdbOutput_written l h]
    cases l.record with
    | none => simp [pure, Except.pure]
    | some o => simp [pure, Except.pure]

end Lines

section Characters

/-- A text that can stand in a line. -/
def Printed (s : Bytes) : Prop := ∀ c ∈ s, c ≠ 0 ∧ c ≠ code '\n'

theorem Printed.append {s s' : Bytes} (h : Printed s) (h' : Printed s') : Printed (s ++ s') := by
  intro c hc
  exact (List.mem_append.mp hc).elim (h c) (h' c)

theorem Printed.cons {c : UInt8} {s : Bytes} (hc : c ≠ 0 ∧ c ≠ code '\n') (h : Printed s) :
    Printed (c :: s) := by
  intro b hb
  rcases List.mem_cons.mp hb with rfl | hb
  · exact hc
  · exact h b hb

theorem printed_nil : Printed [] := by
  intro c hc
  cases hc

theorem printed_of_all {s : Bytes} (h : s.all (fun c => c ≠ 0 && c ≠ code '\n') = true) :
    Printed s := by
  intro c hc
  simpa using List.all_eq_true.mp h c hc

theorem printed_name {name : Bytes} (h : ∀ c ∈ name, miIsVarNameChar c = true) :
    Printed name := by
  intro c hc
  have hchar := h c hc
  constructor <;>
  · rintro rfl
    exact absurd hchar (by decide)

theorem printed_quoted (s : Quoted) : Printed s.written := by
  induction s with
  | nil => exact printed_nil
  | cons q s ih =>
      apply Printed.append _ ih
      cases q with
      | plain c valid => exact .cons ⟨valid.1, valid.2.1⟩ printed_nil
      | escaped c valid => exact .cons (by decide) (.cons valid printed_nil)

mutual

theorem Value.printed (v : Value) : Printed v.written := by
  cases v with
  | const s => exact .append (.cons (by decide) (printed_quoted s)) (.cons (by decide) printed_nil)
  | emptyTuple => exact .cons (by decide) (.cons (by decide) printed_nil)
  | tuple rs => exact .append (.cons (by decide) rs.printed) (.cons (by decide) printed_nil)
  | emptyList => exact .cons (by decide) (.cons (by decide) printed_nil)
  | results rs => exact .append (.cons (by decide) rs.printed) (.cons (by decide) printed_nil)
  | values vs => exact .append (.cons (by decide) vs.printed) (.cons (by decide) printed_nil)

theorem Results.printed (rs : Results) : Printed rs.written := by
  cases rs with
  | one var v => exact .append (printed_name var.chars) (.cons (by decide) v.printed)
  | more var v rs =>
      apply Printed.append (printed_name var.chars)
      exact .cons (by decide) (.append v.printed (.cons (by decide) rs.printed))

theorem Values.printed (vs : Values) : Printed vs.written := by
  cases vs with
  | one v => exact v.printed
  | more v vs => exact .append v.printed (.cons (by decide) vs.printed)

end

theorem Fields.printed (rs : Fields) : Printed rs.written := by
  induction rs with
  | nil => exact printed_nil
  | cons p rs ih =>
      apply Printed.append _ ih
      exact .cons (by decide) (.append (printed_name p.1.chars) (.cons (by decide) p.2.printed))

theorem Token.printed (token : Token) : Printed token.digits := by
  intro c hc
  have hchar := token.chars c hc
  constructor <;>
  · rintro rfl
    exact absurd hchar (by decide)

/-- A written line holds no newline. -/
theorem Line.printed (l : Line) : Printed l.written := by
  cases l with
  | result token tclass results =>
      apply Printed.append token.printed
      apply Printed.cons (by decide)
      apply Printed.append _ results.printed
      cases tclass <;> exact printed_of_all rfl
  | async token record =>
      apply Printed.append token.printed
      apply Printed.cons (by cases record.type <;> decide)
      exact .append (printed_name record.tclass.chars) record.results.printed
  | stream type text =>
      apply Printed.append _ (.cons (by decide) printed_nil)
      exact .cons (by cases type <;> decide) (.cons (by decide) (printed_quoted text))
  | prompt blank =>
      cases blank <;> exact printed_of_all rfl

/-- The text has a last character, which is not a carriage return. -/
def Ends (s : Bytes) : Prop := ∃ c, s.getLast? = some c ∧ c ≠ code '\r'

theorem Ends.append {s' : Bytes} (h : Ends s') (s : Bytes) : Ends (s ++ s') := by
  obtain ⟨c, hlast, hc⟩ := h
  exact ⟨c, by simp [List.getLast?_append, hlast], hc⟩

theorem Ends.cons {s : Bytes} (h : Ends s) (c : UInt8) : Ends (c :: s) := h.append [c]

theorem ends_singleton {c : UInt8} (hc : c ≠ code '\r') : Ends [c] := ⟨c, rfl, hc⟩

theorem Value.ends (v : Value) : Ends v.written := by
  cases v with
  | const s => exact (ends_singleton (by decide)).append _
  | emptyTuple => exact (ends_singleton (by decide)).cons _
  | tuple rs => exact (ends_singleton (by decide)).append _
  | emptyList => exact (ends_singleton (by decide)).cons _
  | results rs => exact (ends_singleton (by decide)).append _
  | values vs => exact (ends_singleton (by decide)).append _

/-- Where a record ends: behind its class or behind its last result. -/
theorem Fields.ends (rs : Fields) {s : Bytes} (h : Ends s) : Ends (s ++ rs.written) := by
  have hrs : rs = [] ∨ Ends rs.written := by
    induction rs with
    | nil => exact Or.inl rfl
    | cons p rs ih =>
        right
        have hp : Ends (code ',' :: (p.1.name ++ code '=' :: p.2.written)) :=
          ((p.2.ends.cons _).append _).cons _
        rcases ih with rfl | hrs
        · rwa [Fields.written, List.flatMap_cons, List.flatMap_nil, List.append_nil]
        · exact hrs.append _
  rcases hrs with rfl | hrs
  · rwa [Fields.written, List.flatMap_nil, List.append_nil]
  · exact hrs.append s

theorem ends_name (var : VarName) : Ends var.name := by
  refine ⟨var.name.getLast var.ne_nil, List.getLast?_eq_some_getLast var.ne_nil, fun hlast => ?_⟩
  have hchar := var.chars _ (List.getLast_mem var.ne_nil)
  rw [hlast] at hchar
  exact absurd hchar (by decide)

theorem Line.ends (l : Line) : Ends l.written := by
  cases l with
  | result token tclass results =>
      have hclass : Ends (ascii tclass.name) := by
        cases tclass <;> exact ⟨_, rfl, by decide⟩
      exact ((results.ends hclass).cons _).append _
  | async token record => exact ((record.results.ends (ends_name _)).cons _).append _
  | stream type text => exact (ends_singleton (by decide)).append _
  | prompt blank => cases blank <;> exact ⟨_, rfl, by decide⟩

end Characters

end ParallelGdb.Mi
