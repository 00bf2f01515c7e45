import ParallelGdb.Mi.Ownership

/-!
# The memory of a response

The records of a response wait in the GDB handle of the rank. Once it is complete a
stop and a breakpoint are read from them, which hand strings on to structures of
their own, and everything is released.
-/

namespace ParallelGdb.Mi

open Library.CString Library.Ownership

/-- The string members of a structure, under the names they have in the output. -/
abbrev Members := List (String × Option Text)

namespace Members

def blocks : Members → Multiset Block
  | [] => 0
  | (_, t) :: rest => textBlocks t + blocks rest

/-- The string is handed on to the member of this name, if there is one. -/
def put (name : Bytes) (t : Option Text) : Members → Option Members
  | [] => none
  | (field, old) :: rest =>
      if ascii field = name then some ((field, t) :: rest)
      else (put name t rest).map ((field, old) :: ·)

def free : Members → HeapM Fault Unit
  | [] => pure ()
  | (_, t) :: rest => do
      freeText t
      free rest

end Members

/-- `mi_frames`. -/
structure FrameNode where
  self : Block
  members : Members := [("func", none), ("file", none), ("fullname", none), ("from", none)]
  args : List Node := []

/-- `mi_wp`. -/
structure WpNode where
  self : Block
  members : Members := [("exp", none)]

/-- `mi_bkpt`, where nothing sets `file_abs`. -/
structure BkptNode where
  self : Block
  members : Members := [("func", none), ("file", none), ("fullname", none), ("cond", none)]

/-- `mi_stop`. The pointers of a watchpoint are taken from results of any type. -/
structure StopNode where
  self : Block
  frame : Option FrameNode := none
  wp : Option WpNode := none
  wpOld : Option Block := none
  wpVal : Option Block := none
  members : Members := [("gdb-result-var", none), ("return-value", none), ("signal-name", none),
    ("signal-meaning", none)]

section Contents

/-- The block of a pointer, which may be null. -/
def pointerBlocks (p : Option Block) : Multiset Block := p.elim 0 fun p => {p}

def FrameNode.blocks (f : FrameNode) : Multiset Block :=
  {f.self} + f.members.blocks + blocksOf f.args

def WpNode.blocks (w : WpNode) : Multiset Block := {w.self} + w.members.blocks

def BkptNode.blocks (b : BkptNode) : Multiset Block := {b.self} + b.members.blocks

def StopNode.blocks (s : StopNode) : Multiset Block :=
  {s.self} + (s.frame.elim 0 FrameNode.blocks) + (s.wp.elim 0 WpNode.blocks) +
    pointerBlocks s.wpOld + pointerBlocks s.wpVal + s.members.blocks

def recordBlocks (po : List OutputNode) : Multiset Block :=
  (po.map OutputNode.blocks).sum

end Contents

section Moves

/-- The name `strcmp` is given. -/
def nameText : Option Text → Except Fault Bytes
  | none => .error .nullName
  | some t => .ok t.bytes

/-- A round of `mi_parse_frame`. -/
def frameStep (res : FrameNode) : Node → Except Fault (FrameNode × Node)
  | .const self var cstr => do
      match res.members.put (← nameText var) cstr with
      | some members => return ({ res with members }, .const self var none)
      | none => return (res, .const self var cstr)
  | .list self var rs => do
      if (← nameText var) = ascii "args" then
        return ({ res with args := rs }, .list self var [])
      return (res, .list self var rs)
  | .tuple self var rs => .ok (res, .tuple self var rs)

/-- `mi_parse_frame` behind its allocation, with what it leaves of the results. -/
def parseFrame : FrameNode → List Node → Except Fault (FrameNode × List Node)
  | res, [] => .ok (res, [])
  | res, c :: rest => do
      let (res, c) ← frameStep res c
      let (res, rest) ← parseFrame res rest
      return (res, c :: rest)

/-- The loops of `mi_get_wp` and `mi_get_bkpt`, which skip what has no name. -/
def moveMembers : Members → List Node → Members × List Node
  | members, [] => (members, [])
  | members, .const self (some var) cstr :: rest =>
      match members.put var.bytes cstr with
      | some members =>
          let (members, rest) := moveMembers members rest
          (members, .const self (some var) none :: rest)
      | none =>
          let (members, rest) := moveMembers members rest
          (members, .const self (some var) cstr :: rest)
  | members, r :: rest =>
      let (members, rest) := moveMembers members rest
      (members, r :: rest)

/-- The pointer under `v.cstr` of a result of any type. -/
def Node.takePointer : Node → Option Block × Node
  | .const self var cstr => (cstr.map Text.block, .const self var none)
  | .tuple self var rs => (rs.head?.map Node.self, .tuple self var [])
  | .list self var rs => (rs.head?.map Node.self, .list self var [])

/-- The loop over a `value` of `mi_get_stopped`. -/
def valueLoop : Option Block × Option Block → List Node →
    Except Fault ((Option Block × Option Block) × List Node)
  | wp, [] => .ok (wp, [])
  | (wpOld, wpVal), p :: rest => do
      let name ← nameText p.var
      if name = ascii "value" ∨ name = ascii "new" then
        let (wp, rest) ← valueLoop (wpOld, p.takePointer.1) rest
        return (wp, p.takePointer.2 :: rest)
      else if name = ascii "old" then
        let (wp, rest) ← valueLoop (p.takePointer.1, wpVal) rest
        return (wp, p.takePointer.2 :: rest)
      else
        let (wp, rest) ← valueLoop (wpOld, wpVal) rest
        return (wp, p :: rest)

/-- A round of `mi_get_stopped` at a tuple or list of this name. -/
def stoppedBranch (res : StopNode) (name : Bytes) (rs : List Node) :
    HeapM Fault (StopNode × List Node) :=
  if name = ascii "frame" then do
    let self ← alloc
    let (frame, rs) ← lift (parseFrame { self } rs)
    return ({ res with frame := some frame }, rs)
  else if res.wp.isNone ∧
      (name = ascii "wpt" ∨ name = ascii "hw-rwpt" ∨ name = ascii "hw-awpt") then do
    let self ← alloc
    let wp : WpNode := { self }
    let (members, rs) := moveMembers wp.members rs
    return ({ res with wp := some { wp with members } }, rs)
  else if res.wpOld.isNone ∧ res.wpVal.isNone ∧ name = ascii "value" then do
    let ((wpOld, wpVal), rs) ← lift (valueLoop (res.wpOld, res.wpVal) rs)
    return ({ res with wpOld, wpVal }, rs)
  else
    return (res, rs)

/-- A round of `mi_get_stopped`. -/
def stoppedStep (res : StopNode) : Node → HeapM Fault (StopNode × Node)
  | .const self var cstr => do
      match res.members.put (← lift (nameText var)) cstr with
      | some members => return ({ res with members }, .const self var none)
      | none => return (res, .const self var cstr)
  | .tuple self var rs => do
      let (res, rs) ← stoppedBranch res (← lift (nameText var)) rs
      return (res, .tuple self var rs)
  | .list self var rs => do
      let (res, rs) ← stoppedBranch res (← lift (nameText var)) rs
      return (res, .list self var rs)

/-- The loop of `mi_get_stopped`. -/
def getStopped : StopNode → List Node → HeapM Fault (StopNode × List Node)
  | res, [] => return (res, [])
  | res, r :: rest => do
      let (res, r) ← stoppedStep res r
      let (res, rest) ← getStopped res rest
      return (res, r :: rest)

/-- `mi_res_stop`, with the records as it leaves them. -/
def resStop : List OutputNode → HeapM Fault (Option StopNode × List OutputNode)
  | [] => return (none, [])
  | o :: rest =>
      if o.head.isStop then do
        let self ← alloc
        let (stop, c) ← getStopped { self } o.c
        return (some stop, { o with c } :: rest)
      else do
        let (stop, rest) ← resStop rest
        return (stop, o :: rest)

/-- `mi_get_var_r` for the breakpoint, and `mi_get_bkpt` where it is a tuple. -/
def getBkpt : List Node → HeapM Fault (Option BkptNode × List Node)
  | [] => return (none, [])
  | r :: rest => do
      if (← lift (nameText r.var)) = ascii "bkpt" then
        match r with
        | .tuple self var rs => do
            let bkpt : BkptNode := { self := ← alloc }
            let (members, rs) := moveMembers bkpt.members rs
            return (some { bkpt with members }, .tuple self var rs :: rest)
        | r => return (none, r :: rest)
      else
        let (bkpt, rest) ← getBkpt rest
        return (bkpt, r :: rest)

/-- `mi_res_bkpt`, with the records as it leaves them. -/
def resBkpt : List OutputNode → HeapM Fault (Option BkptNode × List OutputNode)
  | [] => return (none, [])
  | o :: rest =>
      if o.head.type = .resultRecord then
        if o.head.tclass = .done then do
          let (bkpt, c) ← getBkpt o.c
          return (bkpt, { o with c } :: rest)
        else
          return (none, o :: rest)
      else do
        let (bkpt, rest) ← resBkpt rest
        return (bkpt, o :: rest)

end Moves

section Frees

/-- `free` of a pointer that may be null. -/
def freePointer : Option Block → HeapM Fault Unit
  | none => pure ()
  | some p => release p

/-- `mi_free_frames` of a frame with no next one. -/
def miFreeFrames : Option FrameNode → HeapM Fault Unit
  | none => pure ()
  | some f => do
      f.members.free
      miFreeResults f.args
      release f.self

/-- `mi_free_wp`. -/
def miFreeWp : Option WpNode → HeapM Fault Unit
  | none => pure ()
  | some w => do
      w.members.free
      release w.self

/-- `mi_free_stop`. -/
def miFreeStop : Option StopNode → HeapM Fault Unit
  | none => pure ()
  | some s => do
      miFreeFrames s.frame
      miFreeWp s.wp
      freePointer s.wpOld
      freePointer s.wpVal
      s.members.free
      release s.self

/-- `mi_free_bkpt`. -/
def miFreeBkpt : Option BkptNode → HeapM Fault Unit
  | none => pure ()
  | some b => do
      b.members.free
      release b.self

end Frees

section Passes

/-- What `parse_stop_record` reads and releases. -/
def parseStopRecord (first : List OutputNode) : HeapM Fault (List OutputNode) := do
  let (stop, first) ← resStop first
  miFreeStop stop
  return first

/-- What `parse_breakpoint` reads and releases, where a Breakpoint waits for its number. -/
def parseBreakpoint (pending : Bool) (first : List OutputNode) :
    HeapM Fault (List OutputNode) :=
  if pending then do
    let (bkpt, first) ← resBkpt first
    miFreeBkpt bkpt
    return first
  else
    return first

end Passes

/-- The GDB handles of the ranks, and the text of the last error, which they share. -/
structure Handles (n : Nat) where
  po : Fin n → List OutputNode
  errorFromGdb : Option Text

namespace Handles

variable {n : Nat}

def init (n : Nat) : Handles n := ⟨fun _ => [], none⟩

def blocks (s : Handles n) : Multiset Block :=
  (∑ r, recordBlocks (s.po r)) + textBlocks s.errorFromGdb

/-- What `mi_get_response` does with an `^error` record. -/
def recordError (o : OutputNode) (s : Handles n) : HeapM Fault (Handles n) :=
  if o.head.type = .resultRecord ∧ o.head.tclass = .error then do
    freeText s.errorFromGdb
    match o.c with
    | r :: _ =>
        if (← lift (nameText r.var)) = ascii "msg" then
          match r with
          | .const _ _ (some cstr) =>
              return { s with errorFromGdb := some ⟨← alloc, cstr.bytes⟩ }
          | _ => return { s with errorFromGdb := none }
        else
          return { s with errorFromGdb := none }
    | [] => return { s with errorFromGdb := none }
  else
    return s

/-- `mi_get_response`: whether the response is complete. -/
def getResponse (r : Fin n) (line : Bytes) (s : Handles n) : HeapM Fault (Bool × Handles n) := do
  if ← lift (strncmpEq (ascii "(gdb)") line) then
    return (true, s)
  match ← parseGdbOutput line with
  | none => return (false, s)
  | some o => do
      let s ← s.recordError o
      return (o.contents.isExit, { s with po := Function.update s.po r (s.po r ++ [o]) })

/-- What `handle_data_gdb` does to a complete response. -/
def finishResponse (pending : Bool) (r : Fin n) (s : Handles n) : HeapM Fault (Handles n) := do
  let first ← parseStopRecord (s.po r)
  let first ← parseBreakpoint pending first
  miFreeOutput first
  return { s with po := Function.update s.po r [] }

/-- A line of a rank. -/
def handleLine (s : Handles n) (event : Fin n × Bytes × Bool) : HeapM Fault (Handles n) := do
  let (r, line, pending) := event
  let (complete, s) ← s.getResponse r line
  if complete then s.finishResponse pending r else pure s

end Handles

end ParallelGdb.Mi
