import ParallelGdb.Mi.Records

/-!
# Parsing an output line

The functions of `parse.c` on the memory a `char *` points to: the bytes from
the pointer to the end of the buffer. Reading behind the end is a fault; a null
result is `none`. Where the source hands back an end pointer, the memory from
there on is part of the result.

Values nest, so the functions that call each other are given fuel. Each level of
nesting takes a byte, and with fuel for twice the memory it does not run out.
-/

namespace ParallelGdb.Mi

open Library.CString

/-- `strncmp(m, literal, strlen(literal)) == 0`. -/
def strncmpEq : Bytes → Bytes → Except Fault Bool
  | [], _ => .ok true
  | _ :: _, [] => .error .overread
  | a :: literal, c :: m => if c = a then strncmpEq literal m else .ok false

/-- `EndOfStr` at a character and the one behind it: a quote ends a string where
a quoted string may end. -/
def endOfStr (c d : UInt8) : Bool :=
  c = code '"' && (d = 0 || d = code ',' || d = code ']' || d = code '}')

/-- The character an escape stands for. -/
def unescape (c : UInt8) : UInt8 :=
  if c = code 'n' then code '\n' else if c = code 't' then code '\t' else c

/-- The loops of `mi_get_cstring_r` behind the opening quote: the characters
copied, and the memory behind the one the loops stop at. Any character but NUL
makes them read on. -/
def cstringBody : Bytes → Except Fault (Bytes × Bytes)
  | [] => .error .overread
  | [c] => if c = 0 then .ok ([], []) else .error .overread
  | c :: d :: rest =>
      if c = 0 || endOfStr c d then
        .ok ([], d :: rest)
      else if c = code '\\' then do
        let (text, last) ← cstringBody rest
        return (unescape d :: text, last)
      else do
        let (text, last) ← cstringBody (d :: rest)
        return (c :: text, last)

/-- `mi_get_cstring_r`. -/
def miGetCstring (var : Option Bytes) : Bytes → Except Fault (Option (MiResults × Bytes))
  | [] => .error .overread
  | c :: rest =>
      if c = code '"' then do
        let (text, last) ← cstringBody rest
        return some (.const var (cstr text), last)
      else
        .ok none

/-- `mi_is_var_name_char`. -/
def miIsVarNameChar (c : UInt8) : Bool := isAlnum c || c = code '-' || c = code '_'

/-- How far the quoted text some GDB versions put before the name reaches. -/
def quotedPrefix : Bytes → Except Fault Nat
  | [] => .error .overread
  | c :: rest => if c = 0 || c = code '"' then .ok 0 else do return (← quotedPrefix rest) + 1

/-- Where `mi_get_var_name` starts to look for the name. -/
def nameStart : Bytes → Except Fault Nat
  | [] => .error .overread
  | c :: rest => if c = code '"' then do return (← quotedPrefix rest) + 3 else .ok 0

/-- The characters of a name, and the memory from the first other character on. -/
def scanName : Bytes → Except Fault (Bytes × Bytes)
  | [] => .error .overread
  | c :: rest =>
      if miIsVarNameChar c then do
        let (name, last) ← scanName rest
        return (c :: name, last)
      else
        .ok ([], c :: rest)

/-- `mi_get_var_name`. -/
def miGetVarName (m : Bytes) : Except Fault (Option (Bytes × Bytes)) := do
  let start ← nameStart m
  match ← scanName (m.drop start) with
  | (_, []) => .error .overread
  | (name, c :: rest) =>
      if c = code '=' then return some (cstr (m.take start ++ name), rest) else return none

mutual

/-- `mi_get_value`, with `mi_get_tuple` and `mi_get_list`. -/
def miGetValue : Nat → Option Bytes → Bytes → Except Fault (Option (MiResults × Bytes))
  | 0, _, _ => .error .overread
  | _ + 1, _, [] => .error .overread
  | fuel + 1, var, c :: rest =>
      if c = code '"' then
        miGetCstring var (c :: rest)
      else if c = code '{' then
        match rest with
        | [] => .error .overread
        | d :: tail =>
            if d = code '}' then
              .ok (some (.tuple var [], tail))
            else do
              match ← miGetListRes fuel (code '}') [] false rest with
              | some (rs, last) => return some (.tuple var rs, last)
              | none => return none
      else if c = code '[' then
        match rest with
        | [] => .error .overread
        | d :: tail =>
            if d = code ']' then
              .ok (some (.list var [], tail))
            else do
              match ← if miIsVarNameChar d then miGetListRes fuel (code ']') [] false rest
                else miGetListVal fuel [] rest with
              | some (rs, last) => return some (.list var rs, last)
              | none => return none
      else
        .ok none

/-- `mi_get_list_res`: the loop with the list so far and whether `last_r` is
set. A result that does not parse unsets `last_r`, and the next one that does
starts the list again. -/
def miGetListRes : Nat → UInt8 → List MiResults → Bool → Bytes →
    Except Fault (Option (List MiResults × Bytes))
  | 0, _, _, _, _ => .error .overread
  | fuel + 1, closeC, rs, last, m => do
      let (rs, last, m) ←
        match ← miGetResult fuel m with
        | some (r, m) => pure (if last then rs ++ [r] else [r], true, m)
        | none => pure (if last then rs else [], false, m)
      match m with
      | [] => .error .overread
      | c :: m =>
          if c = closeC then return some (rs, m)
          else if c = code ',' then miGetListRes fuel closeC rs last m
          else return none

/-- `mi_get_list_val`. -/
def miGetListVal : Nat → List MiResults → Bytes →
    Except Fault (Option (List MiResults × Bytes))
  | 0, _, _ => .error .overread
  | fuel + 1, rs, m => do
      match ← miGetValue fuel none m with
      | none => return none
      | some (_, []) => .error .overread
      | some (r, c :: m) =>
          if c = code ']' then return some (rs ++ [r], m)
          else if c = code ',' then miGetListVal fuel (rs ++ [r]) m
          else return none

/-- `mi_get_result`. -/
def miGetResult : Nat → Bytes → Except Fault (Option (MiResults × Bytes))
  | 0, _ => .error .overread
  | fuel + 1, m => do
      match ← miGetVarName m with
      | some (var, m) => miGetValue fuel (some var) m
      | none => return none

end

/-- `mi_get_results_alone`. -/
def miGetResultsAlone : Nat → MiOutput → Bytes → Except Fault (Option MiOutput)
  | 0, _, _ => .error .overread
  | _ + 1, _, [] => .error .overread
  | fuel + 1, r, c :: m =>
      if c = 0 then
        .ok (some r)
      else if c = code ',' then do
        match ← miGetResult fuel m with
        | some (rs, m) => miGetResultsAlone fuel { r with c := r.c ++ [rs] } m
        | none => return none
      else
        .ok none

/-- The fuel for a piece of memory. -/
def parseFuel (m : Bytes) : Nat := 2 * m.length + 2

/-- The class a record begins with, and the results behind it. -/
def parseClass (r : MiOutput) (m : Bytes) :
    List (String × MiClass) → Except Fault (Option MiOutput)
  | [] => .ok none
  | (name, tclass) :: rest => do
      if ← strncmpEq (ascii name) m then
        miGetResultsAlone (parseFuel m) { r with tclass } (m.drop name.length)
      else
        parseClass r m rest

/-- `mi_parse_result_record`. -/
def miParseResultRecord (r : MiOutput) (m : Bytes) : Except Fault (Option MiOutput) :=
  parseClass { r with type := .resultRecord } m
    [("done", .done), ("running", .running), ("connected", .connected), ("error", .error),
      ("exit", .exit)]

/-- `mi_parse_asyn`. -/
def miParseAsyn (r : MiOutput) (m : Bytes) : Except Fault (Option MiOutput) :=
  parseClass { r with type := .outOfBand, stype := .async } m
    [("stopped", .stopped), ("download", .download)]

/-- `mi_console`. -/
def miConsole (r : MiOutput) (m : Bytes) : Except Fault (Option MiOutput) := do
  match ← miGetCstring none m with
  | some (text, _) => return some { r with type := .outOfBand, stype := .stream, c := [text] }
  | none => return none

/-- `mi_parse_gdb_output`. -/
def miParseGdbOutput : Bytes → Except Fault (Option MiOutput)
  | [] => .error .overread
  | type :: str =>
      if type = code '^' then miParseResultRecord {} str
      else if type = code '*' then miParseAsyn { sstype := .exec } str
      else if type = code '+' then miParseAsyn { sstype := .status } str
      else if type = code '=' then miParseAsyn { sstype := .notify } str
      else if type = code '~' then miConsole { sstype := .console } str
      else if type = code '@' then miConsole { sstype := .target } str
      else if type = code '&' then miConsole { sstype := .log } str
      else .ok none

/-- An `^exit` record: GDB prints no prompt after it. -/
def MiOutput.isExit (o : MiOutput) : Bool := o.type = .resultRecord && o.tclass = .exit

/-- `mi_get_response`: whether the response is complete, and its records so far. -/
def miGetResponse (po : List MiOutput) (line : Bytes) : Except Fault (Bool × List MiOutput) := do
  if ← strncmpEq (ascii "(gdb)") line then
    return (true, po)
  match ← miParseGdbOutput line with
  | none => return (false, po)
  | some o => return (o.isExit, po ++ [o])

end ParallelGdb.Mi
