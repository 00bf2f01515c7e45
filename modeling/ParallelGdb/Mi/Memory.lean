import ParallelGdb.Library.Ownership
import ParallelGdb.Mi.Parser

/-!
# The memory of parsed records

The parser builds its records from blocks: one for each `mi_results`, for its name
and for a constant, and one for the `mi_output` of the line. These are the functions
of `parse.c` and `alloc.c` with their allocations and releases.
-/

namespace ParallelGdb.Mi

open Library.CString Library.Ownership

/-- A string in a block of its own. -/
structure Text where
  block : Block
  bytes : Bytes

/-- `mi_results` in memory. The string of a constant is missing until it is read, and
once it has been handed on. -/
inductive Node
  | const (self : Block) (var cstr : Option Text)
  | tuple (self : Block) (var : Option Text) (rs : List Node)
  | list (self : Block) (var : Option Text) (rs : List Node)

def Node.self : Node → Block
  | .const self _ _ => self
  | .tuple self _ _ => self
  | .list self _ _ => self

def Node.var : Node → Option Text
  | .const _ var _ => var
  | .tuple _ var _ => var
  | .list _ var _ => var

/-- `mi_output` in memory; the results of `head` are not used. -/
structure OutputNode where
  self : Block
  head : MiOutput
  c : List Node

section Contents

/-- The block of a `char *`, which may be null. -/
def textBlocks (t : Option Text) : Multiset Block := t.elim 0 fun t => {t.block}

@[simp] theorem textBlocks_none : textBlocks none = 0 := rfl

@[simp] theorem textBlocks_some (t : Text) : textBlocks (some t) = {t.block} := rfl

mutual

/-- The blocks that belong to a result. -/
def Node.blocks : Node → Multiset Block
  | .const self var cstr => {self} + textBlocks var + textBlocks cstr
  | .tuple self var rs => {self} + textBlocks var + blocksOf rs
  | .list self var rs => {self} + textBlocks var + blocksOf rs

def blocksOf : List Node → Multiset Block
  | [] => 0
  | r :: rest => r.blocks + blocksOf rest

end

mutual

/-- The result without its memory. -/
def Node.contents : Node → MiResults
  | .const _ var cstr => .const (var.map Text.bytes) ((cstr.map Text.bytes).getD [])
  | .tuple _ var rs => .tuple (var.map Text.bytes) (contentsOf rs)
  | .list _ var rs => .list (var.map Text.bytes) (contentsOf rs)

def contentsOf : List Node → List MiResults
  | [] => []
  | r :: rest => r.contents :: contentsOf rest

end

def OutputNode.blocks (o : OutputNode) : Multiset Block := {o.self} + blocksOf o.c

def OutputNode.contents (o : OutputNode) : MiOutput := { o.head with c := contentsOf o.c }

end Contents

section Releases

/-- `free` of a `char *`. -/
def freeText : Option Text → HeapM Fault Unit
  | none => pure ()
  | some t => release t.block

mutual

/-- A round of `mi_free_results_but`, without an exception. -/
def Node.free : Node → HeapM Fault Unit
  | .const self var cstr => do
      freeText var
      freeText cstr
      release self
  | .tuple self var rs => do
      freeText var
      miFreeResults rs
      release self
  | .list self var rs => do
      freeText var
      miFreeResults rs
      release self

/-- `mi_free_results`. -/
def miFreeResults : List Node → HeapM Fault Unit
  | [] => pure ()
  | r :: rest => do
      r.free
      miFreeResults rest

end

/-- `mi_free_output`. -/
def miFreeOutput : List OutputNode → HeapM Fault Unit
  | [] => pure ()
  | o :: rest => do
      miFreeResults o.c
      release o.self
      miFreeOutput rest

end Releases

section Parser

/-- `mi_get_cstring_r` on a new result, which it may leave without a string. -/
def getCstring (self : Block) (var : Option Text) :
    Bytes → HeapM Fault (Node × Option Bytes)
  | [] => lift (.error .overread)
  | c :: rest =>
      if c = code '"' then do
        let (text, last) ← lift (cstringBody rest)
        let block ← alloc
        return (.const self var (some ⟨block, cstr text⟩), some last)
      else
        return (.const self var none, none)

/-- `mi_get_var_name`, which copies the name it finds. -/
def getVarName (m : Bytes) : HeapM Fault (Option (Text × Bytes)) := do
  match ← lift (miGetVarName m) with
  | some (var, m) => do
      let block ← alloc
      return some (⟨block, var⟩, m)
  | none => return none

mutual

/-- `mi_get_value`, with `mi_get_tuple` and `mi_get_list`: the result with what it was
given, and the memory behind it unless the function fails. -/
def getValue : Nat → Block → Option Text → Bytes → HeapM Fault (Node × Option Bytes)
  | 0, _, _, _ => lift (.error .overread)
  | _ + 1, _, _, [] => lift (.error .overread)
  | fuel + 1, self, var, c :: rest =>
      if c = code '"' then
        getCstring self var (c :: rest)
      else if c = code '{' then
        match rest with
        | [] => lift (.error .overread)
        | d :: tail =>
            if d = code '}' then
              return (.tuple self var [], some tail)
            else do
              let (rs, last) ← getListRes fuel (code '}') [] false rest
              return (.tuple self var rs, last)
      else if c = code '[' then
        match rest with
        | [] => lift (.error .overread)
        | d :: tail =>
            if d = code ']' then
              return (.list self var [], some tail)
            else do
              let (rs, last) ← if miIsVarNameChar d then getListRes fuel (code ']') [] false rest
                else getListVal fuel [] rest
              return (.list self var rs, last)
      else
        return (.const self var none, none)

/-- `mi_get_list_res`. The list a later result starts again is not released. -/
def getListRes : Nat → UInt8 → List Node → Bool → Bytes →
    HeapM Fault (List Node × Option Bytes)
  | 0, _, _, _, _ => lift (.error .overread)
  | fuel + 1, closeC, rs, last, m => do
      let (rs, last, m) ←
        match ← getResult fuel m with
        | some (r, m) => pure (if last then rs ++ [r] else [r], true, m)
        | none => pure (if last then rs else [], false, m)
      match m with
      | [] => lift (.error .overread)
      | c :: m =>
          if c = closeC then return (rs, some m)
          else if c = code ',' then getListRes fuel closeC rs last m
          else return (rs, none)

/-- `mi_get_list_val`. -/
def getListVal : Nat → List Node → Bytes → HeapM Fault (List Node × Option Bytes)
  | 0, _, _ => lift (.error .overread)
  | fuel + 1, rs, m => do
      let self ← alloc
      match ← getValue fuel self none m with
      | (r, none) => do
          r.free
          return (rs, none)
      | (_, some []) => lift (.error .overread)
      | (r, some (c :: m)) =>
          if c = code ']' then return (rs ++ [r], some m)
          else if c = code ',' then getListVal fuel (rs ++ [r]) m
          else return (rs ++ [r], none)

/-- `mi_get_result`. -/
def getResult : Nat → Bytes → HeapM Fault (Option (Node × Bytes))
  | 0, _ => lift (.error .overread)
  | fuel + 1, m => do
      match ← getVarName m with
      | none => return none
      | some (var, m) => do
          let self ← alloc
          match ← getValue fuel self (some var) m with
          | (r, some m) => return some (r, m)
          | (r, none) => do
              r.free
              return none

end

/-- `mi_get_results_alone`. -/
def getResultsAlone : Nat → OutputNode → Bytes → HeapM Fault (Option OutputNode)
  | 0, _, _ => lift (.error .overread)
  | _ + 1, _, [] => lift (.error .overread)
  | fuel + 1, r, c :: m =>
      if c = 0 then
        return some r
      else if c = code ',' then do
        match ← getResult fuel m with
        | some (rs, m) => getResultsAlone fuel { r with c := r.c ++ [rs] } m
        | none => do
            miFreeOutput [r]
            return none
      else do
        miFreeOutput [r]
        return none

/-- The class a record begins with. -/
def classOf (m : Bytes) : List (String × MiClass) → Except Fault (Option (String × MiClass))
  | [] => .ok none
  | c :: rest => do
      if ← strncmpEq (ascii c.1) m then return some c
      classOf m rest

/-- `mi_parse_result_record`; the record of an unknown class is not released. -/
def parseResultRecord (r : OutputNode) (m : Bytes) : HeapM Fault (Option OutputNode) := do
  let r := { r with head := { r.head with type := .resultRecord } }
  match ← lift (classOf m [("done", .done), ("running", .running), ("connected", .connected),
    ("error", .error), ("exit", .exit)]) with
  | some (name, tclass) =>
      getResultsAlone (parseFuel m) { r with head := { r.head with tclass } } (m.drop name.length)
  | none => return none

/-- `mi_parse_asyn`. -/
def parseAsyn (r : OutputNode) (m : Bytes) : HeapM Fault (Option OutputNode) := do
  let r := { r with head := { r.head with type := .outOfBand, stype := .async } }
  match ← lift (classOf m [("stopped", .stopped), ("download", .download)]) with
  | some (name, tclass) =>
      getResultsAlone (parseFuel m) { r with head := { r.head with tclass } } (m.drop name.length)
  | none => do
      miFreeOutput [r]
      return none

/-- `mi_console`. -/
def console (r : OutputNode) (m : Bytes) : HeapM Fault (Option OutputNode) := do
  let self ← alloc
  let (text, last) ← getCstring self none m
  let r := { r with head := { r.head with type := .outOfBand, stype := .stream }, c := [text] }
  match last with
  | some _ => return some r
  | none => do
      miFreeOutput [r]
      return none

/-- `mi_parse_gdb_output`; the record of an unknown type is not released. -/
def parseGdbOutput : Bytes → HeapM Fault (Option OutputNode)
  | [] => lift (.error .overread)
  | type :: str => do
      let self ← alloc
      let r (sstype : MiSubsubtype) : OutputNode := ⟨self, { sstype }, []⟩
      if type = code '^' then parseResultRecord ⟨self, {}, []⟩ str
      else if type = code '*' then parseAsyn (r .exec) str
      else if type = code '+' then parseAsyn (r .status) str
      else if type = code '=' then parseAsyn (r .notify) str
      else if type = code '~' then console (r .console) str
      else if type = code '@' then console (r .target) str
      else if type = code '&' then console (r .log) str
      else return none

end Parser

end ParallelGdb.Mi
