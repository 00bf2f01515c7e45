import ParallelGdb.Mi.Account

/-!
# Reading the records in memory

`mi_res_stop` and `mi_res_bkpt` take strings and pointers out of the records they read.
On the records the parser makes they fail where the functions without a memory fail,
and leave what these return.
-/

namespace ParallelGdb.Mi

open Library.CString Library.Ownership

section Strings

/-- A constant has its string. -/
def Node.HasString : Node → Prop
  | .const _ _ cstr => cstr.isSome = true
  | .tuple _ _ _ => True
  | .list _ _ _ => True

/-- A result and the entries right below it have their strings. -/
def Node.Filled : Node → Prop
  | .const _ _ cstr => cstr.isSome = true
  | .tuple _ _ rs => ∀ c ∈ rs, c.HasString
  | .list _ _ rs => ∀ c ∈ rs, c.HasString

theorem Node.Filled.hasString {r : Node} (h : r.Filled) : r.HasString := by
  cases r with
  | const self var cstr => exact h
  | tuple self var rs | list self var rs => trivial

/-- The string of the member of this name. -/
def Members.get (name : Bytes) : Members → Option Bytes
  | [] => none
  | (field, t) :: rest => if ascii field = name then t.map Text.bytes else get name rest

/-- There is a member of this name. -/
def Members.Has (name : Bytes) (ms : Members) : Prop := ∃ p ∈ ms, ascii p.1 = name

variable {ms ms' : Members} {name other : Bytes} {t : Option Text}

theorem Members.put_isSome (h : ms.Has name) : (ms.put name t).isSome = true := by
  induction ms with
  | nil =>
      obtain ⟨p, hp, -⟩ := h
      cases hp
  | cons p rest ih =>
      obtain ⟨field, old⟩ := p
      rw [put]
      split
      · rfl
      · rename_i hne
        obtain ⟨q, hq, hname⟩ := h
        rcases List.mem_cons.mp hq with rfl | hq
        · exact absurd hname hne
        · rw [Option.isSome_map]
          exact ih ⟨q, hq, hname⟩

theorem Members.get_put (h : ms.put name t = some ms') :
    ms'.get other = if other = name then t.map Text.bytes else ms.get other := by
  induction ms generalizing ms' with
  | nil => cases h
  | cons p rest ih =>
      obtain ⟨field, old⟩ := p
      rw [put] at h
      split at h
      · rename_i hfield
        obtain rfl := Option.some.inj h
        rw [get, get, hfield]
        by_cases hother : other = name
        · rw [if_pos hother.symm, if_pos hother]
        · rw [if_neg (Ne.symm hother), if_neg hother, if_neg (Ne.symm hother)]
      · rename_i hfield
        obtain ⟨rest', hrest, rfl⟩ := Option.map_eq_some_iff.mp h
        rw [get, get, ih hrest]
        by_cases hother : other = name
        · rw [hother, if_neg hfield, if_pos rfl, if_pos rfl]
        · rw [if_neg hother, if_neg hother]

theorem Members.Has.put (h : ms.put name t = some ms') (hhas : ms.Has other) :
    ms'.Has other := by
  induction ms generalizing ms' with
  | nil => cases h
  | cons p rest ih =>
      obtain ⟨field, old⟩ := p
      obtain ⟨q, hq, hname⟩ := hhas
      rw [Members.put] at h
      split at h
      · obtain rfl := Option.some.inj h
        rcases List.mem_cons.mp hq with rfl | hq
        · exact ⟨_, List.mem_cons_self, hname⟩
        · exact ⟨q, List.mem_cons_of_mem _ hq, hname⟩
      · obtain ⟨rest', hrest, rfl⟩ := Option.map_eq_some_iff.mp h
        rcases List.mem_cons.mp hq with rfl | hq
        · exact ⟨_, List.mem_cons_self, hname⟩
        · obtain ⟨p, hp, hname⟩ := ih hrest ⟨q, hq, hname⟩
          exact ⟨p, List.mem_cons_of_mem _ hp, hname⟩

end Strings

section Reads

theorem named_some (r : MiResults) (name : String) {var : Bytes} (h : r.var = some var) :
    r.named name = .ok (decide (var = ascii name)) := by
  rw [MiResults.named, h]

theorem named_none (r : MiResults) (name : String) (h : r.var = none) :
    r.named name = .error .nullName := by
  rw [MiResults.named, h]

/-- The path a frame has read. -/
def FrameNode.fullname (f : FrameNode) : Option Bytes := f.members.get (ascii "fullname")

/-- A constant of a frame. -/
theorem miParseFrame_const (p : MiFrames) (var cstr : Bytes) (rest : List MiResults) :
    ∃ q, miParseFrame p (.const (some var) cstr :: rest) = miParseFrame q rest ∧
      q.fullname = if var = ascii "fullname" then some cstr else p.fullname := by
  rw [miParseFrame, named_some _ _ rfl, named_some _ _ rfl]
  by_cases hname : var = ascii "fullname"
  · exact ⟨{ p with fullname := some cstr }, by simp [hname, bind, Except.bind], by simp [hname]⟩
  · by_cases hline : var = ascii "line"
    · refine ⟨{ p with line := atoi cstr }, ?_, (if_neg hname).symm⟩
      simp only [decide_eq_false hname, decide_eq_true hline, bind, Except.bind]
      rfl
    · exact ⟨p, by simp [hname, hline, bind, Except.bind], (if_neg hname).symm⟩

theorem parseFrame_refines {f : FrameNode} {p : MiFrames} {cs : List Node}
    (hpath : f.fullname = p.fullname) (hhas : f.members.Has (ascii "fullname"))
    (hcs : ∀ c ∈ cs, c.HasString) :
    Refines (fun out q => out.1.fullname = q.fullname) (lift (parseFrame f cs))
      (miParseFrame p (contentsOf cs)) := by
  induction cs generalizing f p with
  | nil => exact refines_pure hpath
  | cons c rest ih =>
      have hrest := fun c hc => hcs c (List.mem_cons_of_mem _ hc)
      -- A round that leaves `f'` and `q`.
      have hround {f' : FrameNode} {q : MiFrames} {c' : Node}
          (hstep : frameStep f c = .ok (f', c'))
          (hpure : miParseFrame p (contentsOf (c :: rest)) = miParseFrame q (contentsOf rest))
          (hpath' : f'.fullname = q.fullname) (hhas' : f'.members.Has (ascii "fullname")) :
          Refines (fun out q => out.1.fullname = q.fullname) (lift (parseFrame f (c :: rest)))
            (miParseFrame p (contentsOf (c :: rest))) := by
        rw [hpure, parseFrame, hstep]
        change Refines _ (lift (parseFrame f' rest >>= fun out => .ok (out.1, c' :: out.2))) _
        rw [lift_bind]
        exact (ih hpath' hhas' hrest).map fun _ _ h => h
      cases c with
      | const self var cstr =>
          cases var with
          | none => exact refines_throw _
          | some var =>
              obtain ⟨text, rfl⟩ := Option.isSome_iff_exists.mp (hcs _ List.mem_cons_self)
              obtain ⟨q, hpure, hq⟩ := miParseFrame_const p var.bytes text.bytes (contentsOf rest)
              cases hput : f.members.put var.bytes (some text) with
              | none =>
                  have hne : var.bytes ≠ ascii "fullname" := by
                    intro hname
                    have hsome := Members.put_isSome (t := some text) hhas
                    rw [← hname, hput] at hsome
                    cases hsome
                  have hstep : frameStep f (.const self (some var) (some text)) =
                      .ok (f, .const self (some var) (some text)) := by
                    simp only [frameStep, nameText, bind, Except.bind, hput]
                    rfl
                  exact hround hstep hpure (by rw [hq, if_neg hne, hpath]) hhas
              | some members =>
                  have hstep : frameStep f (.const self (some var) (some text)) =
                      .ok ({ f with members }, .const self (some var) none) := by
                    simp only [frameStep, nameText, bind, Except.bind, hput]
                    rfl
                  have hread : FrameNode.fullname { f with members } = q.fullname := by
                    rw [hq, FrameNode.fullname, Members.get_put hput, ← hpath]
                    simp only [eq_comm (a := ascii "fullname")]
                    rfl
                  exact hround hstep hpure hread (hhas.put hput)
      | tuple self var rs => exact hround rfl rfl hpath hhas
      | list self var rs =>
          cases var with
          | none => exact refines_throw _
          | some var =>
              by_cases hargs : var.bytes = ascii "args"
              · have hstep : frameStep f (.list self (some var) rs) =
                    .ok ({ f with args := rs }, .list self (some var) []) := by
                  simp only [frameStep, nameText, bind, Except.bind, if_pos hargs]
                  rfl
                exact hround hstep rfl hpath hhas
              · have hstep : frameStep f (.list self (some var) rs) =
                    .ok (f, .list self (some var) rs) := by
                  simp only [frameStep, nameText, bind, Except.bind, if_neg hargs]
                  rfl
                exact hround hstep rfl hpath hhas

theorem takePointer_isSome {c : Node} (h : c.HasString) :
    c.takePointer.1.isSome = c.contents.pointer := by
  cases c with
  | const self var cstr =>
      obtain ⟨text, rfl⟩ := Option.isSome_iff_exists.mp h
      rfl
  | tuple self var rs | list self var rs => cases rs <;> rfl

/-- Which of the pointers to the values of a watchpoint are set. -/
def pointed (wp : Option Block × Option Block) : Bool × Bool := (wp.1.isSome, wp.2.isSome)

/-- An entry of a `value` that has a name. -/
theorem miGetStoppedValue_some (wp : Bool × Bool) {r : MiResults} {var : Bytes}
    (h : r.var = some var) : miGetStoppedValue wp r =
      .ok (if var = ascii "value" ∨ var = ascii "new" then (wp.1, r.pointer)
        else if var = ascii "old" then (r.pointer, wp.2) else wp) := by
  rw [miGetStoppedValue, named_some _ _ h, named_some _ _ h, named_some _ _ h]
  simp only [bind, Except.bind, Bool.or_eq_true, decide_eq_true_eq]
  split
  · rfl
  · split <;> rfl

theorem valueLoop_refines (wp : Option Block × Option Block) {cs : List Node}
    (hcs : ∀ c ∈ cs, c.HasString) :
    Refines (fun out q => pointed out.1 = q) (lift (valueLoop wp cs))
      ((contentsOf cs).foldlM miGetStoppedValue (pointed wp)) := by
  induction cs generalizing wp with
  | nil => exact refines_pure rfl
  | cons c rest ih =>
      obtain ⟨wpOld, wpVal⟩ := wp
      have hrest := fun c hc => hcs c (List.mem_cons_of_mem _ hc)
      have hpointer := takePointer_isSome (hcs c List.mem_cons_self)
      cases hvar : c.var with
      | none =>
          have hnone : c.contents.var = none := by rw [contents_var, hvar]; rfl
          rw [valueLoop, contentsOf, List.foldlM_cons, miGetStoppedValue,
            named_none _ _ hnone, hvar]
          exact refines_throw _
      | some var =>
          have hsome : c.contents.var = some var.bytes := by rw [contents_var, hvar]; rfl
          rw [valueLoop, contentsOf, List.foldlM_cons, miGetStoppedValue_some _ hsome, hvar]
          -- A round that leaves these pointers.
          have hround (wp : Option Block × Option Block) (c' : Node) :
              Refines (fun out q => pointed out.1 = q)
                (lift (valueLoop wp rest >>= fun out => .ok (out.1, c' :: out.2)))
                ((contentsOf rest).foldlM miGetStoppedValue (pointed wp)) := by
            rw [lift_bind]
            exact (ih wp hrest).map fun _ _ h => h
          rw [← hpointer]
          simp only [nameText, bind, Except.bind]
          split
          · exact hround (wpOld, c.takePointer.1) c.takePointer.2
          · split
            · exact hround (c.takePointer.1, wpVal) c.takePointer.2
            · exact hround (wpOld, wpVal) c

end Reads

section Stops

/-- What is read of a stop in memory. -/
structure StopNode.Agrees (s : StopNode) (stop : MiStop) : Prop where
  frame : s.frame.map FrameNode.fullname = stop.frame.map MiFrames.fullname
  values : pointed (s.wpOld, s.wpVal) = (stop.wpOld, stop.wpVal)

variable {s : StopNode} {stop : MiStop}

theorem StopNode.Agrees.unset (h : s.Agrees stop) :
    (s.wpOld.isNone ∧ s.wpVal.isNone) ↔ (!(stop.wpOld || stop.wpVal)) = true := by
  obtain ⟨hold, hval⟩ := Prod.mk.inj h.values
  rw [← hold, ← hval]
  cases s.wpOld <;> cases s.wpVal <;> simp

/-- A tuple or list that has a name. -/
theorem miGetStoppedTuple_some (stop : MiStop) {r : MiResults} {name : Bytes}
    (h : r.var = some name) (rs : List MiResults) : miGetStoppedTuple stop r rs =
      if name = ascii "frame" then do
        return { stop with frame := some (← miParseFrame {} rs) }
      else if !(stop.wpOld || stop.wpVal) ∧ name = ascii "value" then do
        let wp ← rs.foldlM miGetStoppedValue (stop.wpOld, stop.wpVal)
        return { stop with wpOld := wp.1, wpVal := wp.2 }
      else
        return stop := by
  rw [miGetStoppedTuple, named_some _ _ h, named_some _ _ h]
  split
  · rename_i hframe
    rw [decide_eq_true hframe]
    rfl
  · rename_i hframe
    rw [decide_eq_false hframe]
    simp only [bind, Except.bind, Bool.and_eq_true, decide_eq_true_eq]
    rfl

theorem stoppedBranch_refines (h : s.Agrees stop) {r : MiResults} {name : Bytes}
    (hname : r.var = some name) {rs : List Node} (hrs : ∀ c ∈ rs, c.HasString) :
    Refines (fun out stop' => out.1.Agrees stop') (stoppedBranch s name rs)
      (miGetStoppedTuple stop r (contentsOf rs)) := by
  rw [stoppedBranch, miGetStoppedTuple_some _ hname]
  split
  · refine refines_alloc_bind fun self => ?_
    have hframe := parseFrame_refines (f := { self }) (p := {}) rfl
      ⟨("fullname", none), by simp, rfl⟩ hrs
    refine hframe.bind ?_
    rintro ⟨f, rs'⟩ p hf
    exact refines_pure ⟨congrArg some hf, h.values⟩
  · split
    · rename_i hwp
      have hvalue : name ≠ ascii "value" := by
        rintro rfl
        exact absurd hwp.2 (by decide)
      rw [if_neg fun hn => hvalue hn.2]
      exact refines_alloc_bind fun self => refines_pure ⟨h.frame, h.values⟩
    · by_cases hvalue : name = ascii "value" ∧ s.wpOld.isNone ∧ s.wpVal.isNone
      · rw [if_pos ⟨hvalue.2.1, hvalue.2.2, hvalue.1⟩, if_pos ⟨h.unset.mp hvalue.2, hvalue.1⟩,
          ← h.values]
        refine (valueLoop_refines _ hrs).bind ?_
        rintro ⟨⟨wpOld, wpVal⟩, rs'⟩ q hq
        exact refines_pure ⟨h.frame, hq⟩
      · rw [if_neg fun hn => hvalue ⟨hn.2.2, hn.1, hn.2.1⟩,
          if_neg fun hn => hvalue ⟨hn.2, h.unset.mpr hn.1⟩]
        exact refines_pure h

/-- A constant of a stop sets nothing that is read of the frame and of a watchpoint. -/
theorem miGetStoppedStep_some (stop : MiStop) (var cstr : Bytes) :
    ∃ stop', miGetStoppedStep stop (.const (some var) cstr) = .ok stop' ∧
      stop'.frame = stop.frame ∧ stop'.wpOld = stop.wpOld ∧ stop'.wpVal = stop.wpVal := by
  rw [miGetStoppedStep, named_some _ _ rfl, named_some _ _ rfl, named_some _ _ rfl]
  simp only [bind, Except.bind, Bool.and_eq_true, decide_eq_true_eq]
  split
  · exact ⟨_, rfl, rfl, rfl, rfl⟩
  · split
    · exact ⟨_, rfl, rfl, rfl, rfl⟩
    · split
      · exact ⟨_, rfl, rfl, rfl, rfl⟩
      · exact ⟨_, rfl, rfl, rfl, rfl⟩

theorem stoppedStep_refines (h : s.Agrees stop) {r : Node} (hr : r.Filled) :
    Refines (fun out stop' => out.1.Agrees stop') (stoppedStep s r)
      (miGetStoppedStep stop r.contents) := by
  cases r with
  | const self var cstr =>
      cases var with
      | none => exact refines_throw _
      | some var =>
          obtain ⟨text, rfl⟩ := Option.isSome_iff_exists.mp hr
          obtain ⟨stop', hpure, hframe, hold, hval⟩ :=
            miGetStoppedStep_some stop var.bytes text.bytes
          have hsame : s.Agrees stop' := by
            refine ⟨by rw [h.frame, hframe], by rw [h.values, hold, hval]⟩
          rw [show miGetStoppedStep stop (Node.const self (some var) (some text)).contents =
            .ok stop' from hpure]
          refine refines_lift_ok rfl ?_
          split
          · exact refines_pure ⟨hsame.frame, hsame.values⟩
          · exact refines_pure hsame
  | tuple self var rs =>
      cases var with
      | none => exact refines_throw _
      | some var =>
          have hbranch :=
            stoppedBranch_refines (r := .tuple (some var.bytes) (contentsOf rs)) h rfl hr
          exact hbranch.map (T := fun out stop' => out.1.Agrees stop')
            (f := fun out => (out.1, Node.tuple self (some var) out.2)) fun _ _ hout => hout
  | list self var rs =>
      cases var with
      | none => exact refines_throw _
      | some var =>
          have hbranch :=
            stoppedBranch_refines (r := .list (some var.bytes) (contentsOf rs)) h rfl hr
          exact hbranch.map (T := fun out stop' => out.1.Agrees stop')
            (f := fun out => (out.1, Node.list self (some var) out.2)) fun _ _ hout => hout

theorem getStopped_refines (h : s.Agrees stop) {cs : List Node} (hcs : ∀ c ∈ cs, c.Filled) :
    Refines (fun out stop' => out.1.Agrees stop') (getStopped s cs)
      ((contentsOf cs).foldlM miGetStoppedStep stop) := by
  induction cs generalizing s stop with
  | nil => exact refines_pure h
  | cons c rest ih =>
      rw [getStopped, contentsOf, List.foldlM_cons]
      refine (stoppedStep_refines h (hcs c List.mem_cons_self)).bind ?_
      rintro ⟨s', c'⟩ stop' hs'
      exact (ih hs' fun c hc => hcs c (List.mem_cons_of_mem _ hc)).map fun _ _ hout => hout

/-- `mi_res_stop` in memory fails where `mi_res_stop` without a memory does, and reads the
same stop. -/
theorem resStop_refines {first : List OutputNode} (hfirst : ∀ o ∈ first, ∀ c ∈ o.c, c.Filled) :
    Refines (fun out stop => Option.Rel StopNode.Agrees out.1 stop) (resStop first)
      (miResStop (first.map OutputNode.contents)) := by
  induction first with
  | nil => exact refines_pure .none
  | cons o rest ih =>
      rw [resStop, List.map_cons, miResStop, miGetStopRecord, List.find?_cons]
      split
      · rename_i hstop
        rw [show o.contents.isStop = true from hstop]
        refine refines_alloc_bind fun self => ?_
        have hnew : StopNode.Agrees { self } {} := ⟨rfl, rfl⟩
        refine (getStopped_refines hnew (hfirst o List.mem_cons_self)).bind ?_
        rintro ⟨stop, c⟩ stop' hstop'
        exact refines_pure (.some hstop')
      · rename_i hstop
        rw [show o.contents.isStop = false from Bool.eq_false_iff.mpr hstop]
        exact (ih fun o ho => hfirst o (List.mem_cons_of_mem _ ho)).map fun _ _ hout => hout

end Stops

section Breakpoints

/-- The number of the breakpoint in a list of results. -/
def bkptOf (rs : List MiResults) : Except Fault (Option Int) := do
  match ← miGetVarR "bkpt" rs with
  | some (.tuple _ rs) => return some (miGetBkpt rs)
  | _ => return none

theorem getBkpt_refines (cs : List Node) :
    Refines (fun out number => out.1.isSome = number.isSome) (getBkpt cs)
      (bkptOf (contentsOf cs)) := by
  induction cs with
  | nil => exact refines_pure rfl
  | cons r rest ih =>
      rw [contentsOf, bkptOf, miGetVarR]
      cases hvar : r.var with
      | none =>
          rw [named_none _ _ (by rw [contents_var, hvar]; rfl)]
          exact refines_lift_error (congrArg nameText hvar)
      | some var =>
          have hsome : r.contents.var = some var.bytes := by rw [contents_var, hvar]; rfl
          rw [named_some _ _ hsome]
          refine refines_lift_ok (congrArg nameText hvar) ?_
          by_cases hbkpt : var.bytes = ascii "bkpt"
          · rw [if_pos hbkpt, decide_eq_true hbkpt]
            cases r with
            | const self var cstr => exact refines_pure rfl
            | list self var rs => exact refines_pure rfl
            | tuple self var rs => exact refines_alloc_bind fun block => refines_pure rfl
          · rw [if_neg hbkpt, decide_eq_false hbkpt]
            exact ih.map fun _ _ hout => hout

/-- `mi_res_bkpt` in memory fails where `mi_res_bkpt` without a memory does. -/
theorem resBkpt_refines (first : List OutputNode) :
    Refines (fun out number => out.1.isSome = number.isSome) (resBkpt first)
      (miResBkpt (first.map OutputNode.contents)) := by
  induction first with
  | nil => exact refines_pure rfl
  | cons o rest ih =>
      rw [resBkpt, List.map_cons, miResBkpt, miGetRrecord, List.find?_cons]
      by_cases htype : o.head.type = .resultRecord
      · rw [if_pos htype, show decide (o.contents.type = .resultRecord) = true from
          decide_eq_true htype]
        change Refines _ _ (if o.head.tclass = .done then bkptOf (contentsOf o.c) else .ok none)
        split
        · exact (getBkpt_refines o.c).map fun _ _ hout => hout
        · exact refines_pure rfl
      · rw [if_neg htype, show decide (o.contents.type = .resultRecord) = false from
          decide_eq_false htype]
        exact ih.map fun _ _ hout => hout

theorem bkptOf_ok {cs : List Node} (hcs : ∀ c ∈ cs, c.var.isSome = true) :
    ∃ number, bkptOf (contentsOf cs) = .ok number := by
  induction cs with
  | nil => exact ⟨none, rfl⟩
  | cons c rest ih =>
      obtain ⟨var, hvar⟩ := Option.isSome_iff_exists.mp (hcs c List.mem_cons_self)
      have hsome : c.contents.var = some var.bytes := by rw [contents_var, hvar]; rfl
      rw [contentsOf, bkptOf, miGetVarR, named_some _ _ hsome]
      cases decide (var.bytes = ascii "bkpt") with
      | true =>
          cases c with
          | const self var cstr => exact ⟨_, rfl⟩
          | tuple self var rs => exact ⟨_, rfl⟩
          | list self var rs => exact ⟨_, rfl⟩
      | false => exact ih fun c hc => hcs c (List.mem_cons_of_mem _ hc)

/-- The results of a result record have names. -/
def OutputNode.Named (o : OutputNode) : Prop :=
  o.head.type = .resultRecord → ∀ c ∈ o.c, c.var.isSome = true

theorem miResBkpt_ok {first : List OutputNode} (hfirst : ∀ o ∈ first, o.Named) :
    ∃ number, miResBkpt (first.map OutputNode.contents) = .ok number := by
  induction first with
  | nil => exact ⟨none, rfl⟩
  | cons o rest ih =>
      rw [List.map_cons, miResBkpt, miGetRrecord, List.find?_cons]
      by_cases htype : o.head.type = .resultRecord
      · rw [show decide (o.contents.type = .resultRecord) = true from decide_eq_true htype]
        change ∃ number, (if o.head.tclass = .done then bkptOf (contentsOf o.c) else .ok none) =
          .ok number
        split
        · exact bkptOf_ok (hfirst o List.mem_cons_self htype)
        · exact ⟨none, rfl⟩
      · rw [show decide (o.contents.type = .resultRecord) = false from decide_eq_false htype]
        exact ih fun o ho => hfirst o (List.mem_cons_of_mem _ ho)

end Breakpoints

section Parser

theorem returns_none {α : Type} {P : α → Prop} :
    Returns (pure none : HeapM Fault (Option α)) fun out => ∀ a ∈ out, P a :=
  returns_pure fun _ h => absurd h (Option.not_mem_none _)

variable {self : Block} {var : Option Text}

theorem returns_getCstring (m : Bytes) :
    Returns (getCstring self var m) fun out =>
      out.1.var = var ∧ (out.2.isSome = true → out.1.Filled) := by
  cases m with
  | nil => exact returns_throw _
  | cons c rest =>
      rw [getCstring]
      split
      · refine (returns_any _).bind fun text _ => (returns_any _).bind fun block _ => ?_
        exact returns_pure ⟨rfl, fun _ => rfl⟩
      · exact returns_pure ⟨rfl, fun h => absurd h Bool.false_ne_true⟩

mutual

/-- A result keeps its name, and has its strings unless the function fails. -/
theorem returns_getValue (fuel : Nat) (self : Block) (var : Option Text) (m : Bytes) :
    Returns (getValue fuel self var m) fun out =>
      out.1.var = var ∧ (out.2.isSome = true → out.1.Filled) := by
  cases fuel with
  | zero => exact returns_throw _
  | succ fuel =>
      cases m with
      | nil => exact returns_throw _
      | cons c rest =>
          simp only [getValue]
          split
          · exact returns_getCstring _
          · split
            · cases rest with
              | nil => exact returns_throw _
              | cons d tail =>
                  simp only
                  split
                  · exact returns_pure ⟨rfl, fun _ => List.forall_mem_nil _⟩
                  · refine (returns_getListRes fuel (code '}') false (d :: tail)
                      (List.forall_mem_nil _)).bind ?_
                    exact fun out hout => returns_pure ⟨rfl, fun _ => hout⟩
            · split
              · cases rest with
                | nil => exact returns_throw _
                | cons d tail =>
                    simp only
                    split
                    · exact returns_pure ⟨rfl, fun _ => List.forall_mem_nil _⟩
                    · split
                      · refine (returns_getListRes fuel (code ']') false (d :: tail)
                          (List.forall_mem_nil _)).bind ?_
                        exact fun out hout => returns_pure ⟨rfl, fun _ => hout⟩
                      · refine (returns_getListVal fuel (d :: tail) (List.forall_mem_nil _)).bind ?_
                        exact fun out hout => returns_pure ⟨rfl, fun _ => hout⟩
              · exact returns_pure ⟨rfl, fun h => absurd h Bool.false_ne_true⟩

theorem returns_getListRes (fuel : Nat) (closeC : UInt8) {rs : List Node} (last : Bool)
    (m : Bytes) (hrs : ∀ c ∈ rs, c.HasString) :
    Returns (getListRes fuel closeC rs last m) fun out => ∀ c ∈ out.1, c.HasString := by
  cases fuel with
  | zero => exact returns_throw _
  | succ fuel =>
      -- The end of a round, behind a result or without one.
      have hround (rs' : List Node) (last' : Bool) (m' : Bytes)
          (hrs' : ∀ c ∈ rs', c.HasString) :
          Returns (match m' with
            | [] => lift (.error .overread)
            | c :: m => if c = closeC then pure (rs', some m)
                else if c = code ',' then getListRes fuel closeC rs' last' m
                else pure (rs', none)) fun out => ∀ c ∈ out.1, c.HasString := by
        cases m' with
        | nil => exact returns_throw _
        | cons c m' =>
            simp only
            split
            · exact returns_pure hrs'
            · split
              · exact returns_getListRes fuel closeC last' m' hrs'
              · exact returns_pure hrs'
      rw [getListRes]
      refine (returns_getResult fuel m).bind fun out hout => ?_
      cases out with
      | none =>
          cases last with
          | true => exact hround rs false m hrs
          | false => exact hround [] false m (List.forall_mem_nil _)
      | some out =>
          obtain ⟨r, m'⟩ := out
          have hr : r.HasString := (hout (r, m') rfl).1.hasString
          have hone : ∀ c ∈ [r], c.HasString := fun c hc => List.mem_singleton.mp hc ▸ hr
          cases last with
          | true => exact hround (rs ++ [r]) true m' fun c hc =>
              (List.mem_append.mp hc).elim (hrs c) (hone c)
          | false => exact hround [r] true m' hone

theorem returns_getListVal (fuel : Nat) {rs : List Node} (m : Bytes)
    (hrs : ∀ c ∈ rs, c.HasString) :
    Returns (getListVal fuel rs m) fun out => ∀ c ∈ out.1, c.HasString := by
  cases fuel with
  | zero => exact returns_throw _
  | succ fuel =>
      rw [getListVal]
      refine (returns_any _).bind fun self _ => (returns_getValue fuel self none m).bind ?_
      rintro ⟨r, last⟩ ⟨-, hr⟩
      cases last with
      | none => exact (returns_any _).bind fun _ _ => returns_pure hrs
      | some m' =>
          cases m' with
          | nil => exact returns_throw _
          | cons c m' =>
              have hsnoc : ∀ c ∈ rs ++ [r], c.HasString := fun c hc =>
                (List.mem_append.mp hc).elim (hrs c)
                  fun hc => List.mem_singleton.mp hc ▸ (hr rfl).hasString
              simp only
              split
              · exact returns_pure hsnoc
              · split
                · exact returns_getListVal fuel m' hsnoc
                · exact returns_pure hsnoc

theorem returns_getResult (fuel : Nat) (m : Bytes) :
    Returns (getResult fuel m) fun out =>
      ∀ p ∈ out, p.1.Filled ∧ p.1.var.isSome = true := by
  cases fuel with
  | zero => exact returns_throw _
  | succ fuel =>
      rw [getResult]
      refine (returns_any _).bind fun out _ => ?_
      cases out with
      | none => exact returns_none
      | some out =>
          obtain ⟨var, m'⟩ := out
          refine (returns_any _).bind fun self _ =>
            (returns_getValue fuel self (some var) m').bind ?_
          rintro ⟨r, last⟩ ⟨hvar, hr⟩
          cases last with
          | none => exact (returns_any _).bind fun _ _ => returns_none
          | some m'' =>
              refine returns_pure fun p hp => ?_
              obtain rfl := Option.some.inj hp
              exact ⟨hr rfl, congrArg Option.isSome hvar⟩

end

/-- A record of the parser. -/
structure OutputNode.Sound (o : OutputNode) : Prop where
  filled : ∀ c ∈ o.c, c.Filled
  named : o.Named

theorem returns_getResultsAlone (fuel : Nat) {r : OutputNode} (m : Bytes)
    (hr : ∀ c ∈ r.c, c.Filled ∧ c.var.isSome = true) :
    Returns (getResultsAlone fuel r m) fun out => ∀ o ∈ out, o.Sound := by
  induction fuel generalizing r m with
  | zero => exact returns_throw _
  | succ fuel ih =>
      cases m with
      | nil => exact returns_throw _
      | cons c m =>
          simp only [getResultsAlone]
          split
          · refine returns_pure fun o ho => ?_
            obtain rfl := Option.some.inj ho
            exact ⟨fun c hc => (hr c hc).1, fun _ c hc => (hr c hc).2⟩
          · split
            · refine (returns_getResult fuel m).bind fun out hout => ?_
              cases out with
              | none => exact (returns_any _).bind fun _ _ => returns_none
              | some out =>
                  obtain ⟨rs, m'⟩ := out
                  refine ih m' fun c hc => ?_
                  rcases List.mem_append.mp hc with hc | hc
                  · exact hr c hc
                  · obtain rfl := List.mem_singleton.mp hc
                    exact hout (c, m') rfl
            · exact (returns_any _).bind fun _ _ => returns_none

theorem returns_console (r : OutputNode) (m : Bytes) :
    Returns (console r m) fun out => ∀ o ∈ out, o.Sound := by
  refine (returns_any _).bind fun self _ => (returns_getCstring m).bind ?_
  rintro ⟨text, last⟩ ⟨-, htext⟩
  cases last with
  | none => exact (returns_any _).bind fun _ _ => returns_none
  | some last =>
      refine returns_pure fun o ho => ?_
      obtain rfl := Option.some.inj ho
      refine ⟨fun c hc => ?_, fun htype => by cases htype⟩
      obtain rfl := List.mem_singleton.mp hc
      exact htext rfl

theorem returns_parseGdbOutput (m : Bytes) :
    Returns (parseGdbOutput m) fun out => ∀ o ∈ out, o.Sound := by
  have hresult (self : Block) (str : Bytes) :
      Returns (parseResultRecord ⟨self, {}, []⟩ str) fun out => ∀ o ∈ out, o.Sound := by
    refine (returns_any _).bind fun found _ => ?_
    cases found with
    | none => exact returns_none
    | some found => exact returns_getResultsAlone _ _ (List.forall_mem_nil _)
  have hasyn (self : Block) (head : MiOutput) (str : Bytes) :
      Returns (parseAsyn ⟨self, head, []⟩ str) fun out => ∀ o ∈ out, o.Sound := by
    refine (returns_any _).bind fun found _ => ?_
    cases found with
    | none => exact (returns_any _).bind fun _ _ => returns_none
    | some found => exact returns_getResultsAlone _ _ (List.forall_mem_nil _)
  cases m with
  | nil => exact returns_throw _
  | cons type str =>
      rw [parseGdbOutput]
      refine (returns_any _).bind fun self _ => ?_
      simp only
      split
      · exact hresult self str
      split
      · exact hasyn self { sstype := .exec } str
      split
      · exact hasyn self { sstype := .status } str
      split
      · exact hasyn self { sstype := .notify } str
      split
      · exact returns_console _ str
      split
      · exact returns_console _ str
      split
      · exact returns_console _ str
      exact returns_none

end Parser

end ParallelGdb.Mi
