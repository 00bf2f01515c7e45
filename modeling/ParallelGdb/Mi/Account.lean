import ParallelGdb.Mi.Extent
import ParallelGdb.Mi.Losses
import ParallelGdb.Mi.Response

/-!
# What a response leaves allocated

A complete response releases its records and the structures read from them. A member
that is set twice loses its first string; where the names of a record and of its
tuples are distinct, nothing is lost.
-/

namespace ParallelGdb.Mi

open Library.CString Library.Ownership

variable {h : Heap} {frame : Multiset Block}

section Tidy

/-- The names in a list of results. -/
def namesOf (rs : List MiResults) : List Bytes := rs.filterMap MiResults.var

def MiResults.isConst : MiResults → Bool
  | .const _ _ => true
  | _ => false

/-- The value of a watchpoint is its new value. -/
def valueKey (name : Bytes) : Bytes := if name = ascii "new" then ascii "value" else name

/-- The entries of the value of a watchpoint are constants, and at most one is the new
value. -/
structure TidyValue (rs : List MiResults) : Prop where
  const : ∀ r ∈ rs, r.isConst = true
  nodup : ((namesOf rs).map valueKey).Nodup

/-- No name occurs twice in a tuple or list. -/
structure TidyBranch (name : Bytes) (rs : List MiResults) : Prop where
  nodup : (namesOf rs).Nodup
  value : name = ascii "value" → TidyValue rs

def MiResults.Tidy : MiResults → Prop
  | .const _ _ => True
  | .tuple var rs => ∀ name, var = some name → TidyBranch name rs
  | .list var rs => ∀ name, var = some name → TidyBranch name rs

/-- No name occurs twice in a record or in one of its tuples and lists, and each `value`
is that of a watchpoint. -/
structure TidyRecord (rs : List MiResults) : Prop where
  nodup : (namesOf rs).Nodup
  results : ∀ r ∈ rs, r.Tidy

end Tidy

section Members

/-- Nothing has been handed on to the member of this name. -/
def Members.Free (name : Bytes) (ms : Members) : Prop :=
  ∀ p ∈ ms, ascii p.1 = name → p.2 = none

variable {ms ms' : Members} {name name' : Bytes} {t : Option Text}

theorem Members.put_free (h : ms.put name t = some ms') (hne : name' ≠ name)
    (hfree : ms.Free name') : ms'.Free name' := by
  induction ms generalizing ms' with
  | nil => cases h
  | cons p rest ih =>
      obtain ⟨field, old⟩ := p
      rw [put] at h
      split at h
      · rename_i hfield
        obtain rfl := Option.some.inj h
        intro q hq hqname
        rcases List.mem_cons.mp hq with rfl | hq
        · exact absurd (hqname.symm.trans hfield) hne
        · exact hfree q (List.mem_cons_of_mem _ hq) hqname
      · obtain ⟨rest', hrest, rfl⟩ := Option.map_eq_some_iff.mp h
        intro q hq hqname
        rcases List.mem_cons.mp hq with rfl | hq
        · exact hfree _ List.mem_cons_self hqname
        · exact ih hrest (fun p hp => hfree p (List.mem_cons_of_mem _ hp)) q hq hqname

/-- The string a member had is lost. -/
theorem Members.put_blocks (h : ms.put name t = some ms') :
    ∃ lost, ms.blocks + textBlocks t = ms'.blocks + lost ∧ (ms.Free name → lost = 0) := by
  induction ms generalizing ms' with
  | nil => cases h
  | cons p rest ih =>
      obtain ⟨field, old⟩ := p
      rw [put] at h
      split at h
      · rename_i hfield
        obtain rfl := Option.some.inj h
        refine ⟨textBlocks old, ?_, fun hfree => ?_⟩
        · rw [blocks, blocks]
          abel
        · exact congrArg textBlocks (hfree (field, old) List.mem_cons_self hfield)
      · obtain ⟨rest', hrest, rfl⟩ := Option.map_eq_some_iff.mp h
        obtain ⟨lost, hlost, hzero⟩ := ih hrest
        refine ⟨lost, ?_, fun hfree => hzero fun p hp => hfree p (List.mem_cons_of_mem _ hp)⟩
        rw [blocks, blocks, add_assoc, hlost, add_assoc]

theorem Members.wp_free {E : Fault → Prop} {Q : Unit → Heap → Prop}
    (hlive : h.live = ms.blocks + frame) (hQ : ∀ u, u.live = frame → Q () u) :
    Wp ms.free Q E h := by
  induction ms generalizing h with
  | nil => exact hQ h (hlive.trans (zero_add frame))
  | cons p rest ih =>
      obtain ⟨field, t⟩ := p
      rw [blocks, add_assoc] at hlive
      rw [free, wp_bind]
      exact wp_freeText hlive fun u hu => ih hu

end Members

section Loops

theorem contents_var (r : Node) : r.contents.var = nameOf r.var := by
  cases r <;> rfl

theorem namesOf_cons (r : Node) (rest : List Node) :
    namesOf (contentsOf (r :: rest)) =
      r.contents.var.toList ++ namesOf (contentsOf rest) := by
  rw [contentsOf, namesOf, namesOf, List.filterMap_cons]
  cases r.contents.var <;> rfl

theorem contents_mem {c : Node} {cs : List Node} (hc : c ∈ cs) : c.contents ∈ contentsOf cs := by
  induction cs with
  | nil => cases hc
  | cons r rest ih =>
      rw [contentsOf]
      rcases List.mem_cons.mp hc with rfl | hc
      · exact List.mem_cons_self
      · exact List.mem_cons_of_mem _ (ih hc)

variable {σ : Type} {blocks : σ → Multiset Block} {key : Bytes → Bytes}
  {ready : σ → Bytes → Prop} {tidy : Node → Prop}

/-- A loop goes through one entry: what it loses, and for which names it stays ready. -/
structure Moved (blocks : σ → Multiset Block) (key : Bytes → Bytes) (ready : σ → Bytes → Prop)
    (tidy : Node → Prop) (res : σ) (c : Node) (res' : σ) (c' : Node) : Prop where
  kept : ∃ lost, blocks res + c.blocks = blocks res' + c'.blocks + lost ∧
    ((∀ name, c.contents.var = some name → ready res name) → tidy c → lost = 0)
  ready : ∀ name, (∀ other, c.contents.var = some other → key other ≠ key name) →
    ready res name → ready res' name

/-- A loop goes through all entries. -/
inductive MovedAll (blocks : σ → Multiset Block) (key : Bytes → Bytes)
    (ready : σ → Bytes → Prop) (tidy : Node → Prop) : σ → List Node → σ → List Node → Prop
  | nil (res : σ) : MovedAll blocks key ready tidy res [] res []
  | cons {res mid res' : σ} {c c' : Node} {cs cs' : List Node}
      (first : Moved blocks key ready tidy res c mid c')
      (rest : MovedAll blocks key ready tidy mid cs res' cs') :
      MovedAll blocks key ready tidy res (c :: cs) res' (c' :: cs')

/-- Where no key occurs twice, nothing is lost. -/
theorem MovedAll.kept {res res' : σ} {cs cs' : List Node}
    (h : MovedAll blocks key ready tidy res cs res' cs') :
    ∃ lost, blocks res + blocksOf cs = blocks res' + blocksOf cs' + lost ∧
      (((namesOf (contentsOf cs)).map key).Nodup →
        (∀ name ∈ namesOf (contentsOf cs), ready res name) → (∀ c ∈ cs, tidy c) → lost = 0) := by
  induction h with
  | nil res => exact ⟨0, (add_zero _).symm, fun _ _ _ => rfl⟩
  | @cons res mid res' c c' cs cs' first rest ih =>
      obtain ⟨lost, hlost, hzero⟩ := first.kept
      obtain ⟨more, hmore, hzero'⟩ := ih
      refine ⟨lost + more, ?_, fun hnodup hready htidy => ?_⟩
      · calc blocks res + blocksOf (c :: cs)
            = blocks res + c.blocks + blocksOf cs := by rw [blocksOf, add_assoc]
          _ = blocks mid + blocksOf cs + c'.blocks + lost := by
              rw [hlost]
              abel
          _ = blocks res' + blocksOf (c' :: cs') + (lost + more) := by
              rw [hmore, blocksOf]
              abel
      · rw [namesOf_cons, List.map_append, List.nodup_append] at hnodup
        rw [namesOf_cons] at hready
        have hfirst : lost = 0 := hzero
          (fun name hname => hready name (by simp [hname])) (htidy c List.mem_cons_self)
        have hrest : more = 0 := by
          refine hzero' hnodup.2.1 (fun name hname => ?_)
            fun c hc => htidy c (List.mem_cons_of_mem _ hc)
          refine first.ready name (fun other hother heq => ?_)
            (hready name (List.mem_append_right _ hname))
          exact hnodup.2.2 _ (List.mem_map_of_mem (by simp [hother])) _
            (List.mem_map_of_mem hname) heq
        rw [hfirst, hrest, add_zero]

end Loops

section Frames

/-- Nothing has been handed on to what a frame reads under this name. -/
def FrameNode.Ready (f : FrameNode) (name : Bytes) : Prop :=
  f.members.Free name ∧ (name = ascii "args" → f.args = [])

theorem frameStep_moved {res res' : FrameNode} {c c' : Node}
    (h : frameStep res c = .ok (res', c')) :
    Moved FrameNode.blocks id FrameNode.Ready (fun _ => True) res c res' c' := by
  cases c with
  | const self var cstr =>
      cases var with
      | none => cases h
      | some var =>
          cases hput : res.members.put var.bytes cstr with
          | none =>
              have heq : frameStep res (.const self (some var) cstr) =
                  .ok (res, .const self (some var) cstr) := by
                simp only [frameStep, nameText, bind, Except.bind, hput]
                rfl
              obtain ⟨rfl, rfl⟩ := Prod.mk.inj (Except.ok.inj (heq.symm.trans h))
              exact ⟨⟨0, (add_zero _).symm, fun _ _ => rfl⟩, fun _ _ hready => hready⟩
          | some members =>
              have heq : frameStep res (.const self (some var) cstr) =
                  .ok ({ res with members }, .const self (some var) none) := by
                simp only [frameStep, nameText, bind, Except.bind, hput]
                rfl
              obtain ⟨rfl, rfl⟩ := Prod.mk.inj (Except.ok.inj (heq.symm.trans h))
              obtain ⟨lost, hlost, hzero⟩ := Members.put_blocks hput
              refine ⟨⟨lost, ?_, fun hready _ => hzero (hready var.bytes rfl).1⟩, ?_⟩
              · calc res.blocks + (Node.const self (some var) cstr).blocks
                    = (res.members.blocks + textBlocks cstr) + ({res.self} + blocksOf res.args +
                        ({self} + textBlocks (some var))) := by
                      rw [FrameNode.blocks, Node.blocks]
                      abel
                  _ = FrameNode.blocks { res with members } +
                        (Node.const self (some var) none).blocks + lost := by
                      rw [hlost, FrameNode.blocks, Node.blocks, textBlocks_none]
                      abel
              · intro name hne hready
                exact ⟨Members.put_free hput (Ne.symm (hne var.bytes rfl)) hready.1, hready.2⟩
  | tuple self var rs =>
      obtain ⟨rfl, rfl⟩ := Prod.mk.inj (Except.ok.inj h)
      exact ⟨⟨0, (add_zero _).symm, fun _ _ => rfl⟩, fun _ _ hready => hready⟩
  | list self var rs =>
      cases var with
      | none => cases h
      | some var =>
          by_cases hargs : var.bytes = ascii "args"
          · have heq : frameStep res (.list self (some var) rs) =
                .ok ({ res with args := rs }, .list self (some var) []) := by
              simp only [frameStep, nameText, bind, Except.bind, if_pos hargs]
              rfl
            obtain ⟨rfl, rfl⟩ := Prod.mk.inj (Except.ok.inj (heq.symm.trans h))
            refine ⟨⟨blocksOf res.args, ?_, fun hready _ => ?_⟩, ?_⟩
            · rw [FrameNode.blocks, FrameNode.blocks, Node.blocks, Node.blocks, blocksOf]
              abel
            · rw [(hready var.bytes rfl).2 hargs, blocksOf]
            · intro name hne hready
              refine ⟨hready.1, fun hname => absurd ?_ (hne var.bytes rfl)⟩
              exact hargs.trans hname.symm
          · have heq : frameStep res (.list self (some var) rs) =
                .ok (res, .list self (some var) rs) := by
              simp only [frameStep, nameText, bind, Except.bind, if_neg hargs]
              rfl
            obtain ⟨rfl, rfl⟩ := Prod.mk.inj (Except.ok.inj (heq.symm.trans h))
            exact ⟨⟨0, (add_zero _).symm, fun _ _ => rfl⟩, fun _ _ hready => hready⟩

theorem parseFrame_moved {res res' : FrameNode} {cs cs' : List Node}
    (h : parseFrame res cs = .ok (res', cs')) :
    MovedAll FrameNode.blocks id FrameNode.Ready (fun _ => True) res cs res' cs' := by
  induction cs generalizing res cs' with
  | nil =>
      obtain ⟨rfl, rfl⟩ := Prod.mk.inj (Except.ok.inj h)
      exact .nil res
  | cons c rest ih =>
      obtain ⟨⟨mid, c'⟩, hstep, h⟩ := bind_eq_ok.mp h
      obtain ⟨⟨last, rest'⟩, hrest, h⟩ := bind_eq_ok.mp h
      obtain ⟨rfl, rfl⟩ := Prod.mk.inj (Except.ok.inj h)
      exact .cons (frameStep_moved hstep) (ih hrest)

end Frames

section MemberLoops

/-- The loop that hands strings on to members loses what they held. -/
theorem moveMembers_moved (ms : Members) (cs : List Node) :
    MovedAll Members.blocks id (fun ms name => ms.Free name) (fun _ => True)
      ms cs (moveMembers ms cs).1 (moveMembers ms cs).2 := by
  induction cs generalizing ms with
  | nil => exact .nil ms
  | cons c rest ih =>
      -- An entry that is skipped.
      have hskip : Moved Members.blocks id (fun ms name => Members.Free name ms) (fun _ => True)
          ms c ms c :=
        ⟨⟨0, (add_zero _).symm, fun _ _ => rfl⟩, fun _ _ hready => hready⟩
      cases c with
      | const self var cstr =>
          cases var with
          | none => exact .cons hskip (ih ms)
          | some var =>
              cases hput : ms.put var.bytes cstr with
              | none =>
                  simp only [moveMembers, hput]
                  exact .cons hskip (ih ms)
              | some ms' =>
                  simp only [moveMembers, hput]
                  obtain ⟨lost, hlost, hzero⟩ := Members.put_blocks hput
                  refine .cons ⟨⟨lost, ?_, fun hready _ => hzero (hready var.bytes rfl)⟩, ?_⟩
                    (ih ms')
                  · calc ms.blocks + (Node.const self (some var) cstr).blocks
                        = (ms.blocks + textBlocks cstr) + ({self} + textBlocks (some var)) := by
                          rw [Node.blocks]
                          abel
                      _ = ms'.blocks + (Node.const self (some var) none).blocks + lost := by
                          rw [hlost, Node.blocks, textBlocks_none]
                          abel
                  · exact fun name hne => Members.put_free hput (Ne.symm (hne var.bytes rfl))
      | tuple self var rs => exact .cons hskip (ih ms)
      | list self var rs => exact .cons hskip (ih ms)

/-- The pointer of a result is its string, or the head of a list whose rest is lost. -/
theorem takePointer_blocks (c : Node) :
    ∃ lost, c.blocks = pointerBlocks c.takePointer.1 + c.takePointer.2.blocks + lost ∧
      (c.contents.isConst = true → lost = 0) := by
  have hself (r : Node) : ∃ more, r.blocks = {r.self} + more := by
    cases r with
    | const self var cstr => exact ⟨textBlocks var + textBlocks cstr, add_assoc _ _ _⟩
    | tuple self var rs | list self var rs => exact ⟨textBlocks var + blocksOf rs, add_assoc _ _ _⟩
  have hhead (rs : List Node) :
      ∃ lost, blocksOf rs = pointerBlocks (rs.head?.map Node.self) + lost := by
    cases rs with
    | nil => exact ⟨0, rfl⟩
    | cons r rest =>
        obtain ⟨more, hmore⟩ := hself r
        exact ⟨more + blocksOf rest, by rw [blocksOf, hmore, add_assoc]; rfl⟩
  cases c with
  | const self var cstr =>
      refine ⟨0, ?_, fun _ => rfl⟩
      have hcstr : pointerBlocks (cstr.map Text.block) = textBlocks cstr := by cases cstr <;> rfl
      rw [Node.takePointer, hcstr, Node.blocks, Node.blocks, textBlocks_none]
      abel
  | tuple self var rs | list self var rs =>
      obtain ⟨lost, hlost⟩ := hhead rs
      refine ⟨lost, ?_, fun h => absurd h Bool.false_ne_true⟩
      rw [Node.takePointer, Node.blocks, hlost, Node.blocks, blocksOf]
      abel

/-- The pointers of a watchpoint are null where an entry of this name is read. -/
def ReadyValue (wp : Option Block × Option Block) (name : Bytes) : Prop :=
  (valueKey name = ascii "value" → wp.2 = none) ∧ (name = ascii "old" → wp.1 = none)

theorem valueKey_eq_value_iff (name : Bytes) :
    valueKey name = ascii "value" ↔ name = ascii "value" ∨ name = ascii "new" := by
  rw [valueKey]
  split
  · simp [*]
  · simp [*]

theorem valueLoop_moved {wp wp' : Option Block × Option Block} {cs cs' : List Node}
    (h : valueLoop wp cs = .ok (wp', cs')) :
    MovedAll (fun wp => pointerBlocks wp.1 + pointerBlocks wp.2) valueKey ReadyValue
      (fun c => c.contents.isConst = true) wp cs wp' cs' := by
  induction cs generalizing wp cs' with
  | nil =>
      obtain ⟨rfl, rfl⟩ := Prod.mk.inj (Except.ok.inj h)
      exact .nil wp
  | cons c rest ih =>
      obtain ⟨wpOld, wpVal⟩ := wp
      obtain ⟨name, hname, h⟩ := bind_eq_ok.mp h
      have hvar : c.contents.var = some name := by
        rw [contents_var]
        cases hc : c.var with
        | none =>
            rw [hc] at hname
            cases hname
        | some t =>
            rw [hc] at hname
            exact congrArg some (Except.ok.inj hname)
      obtain ⟨lost, hlost, hzero⟩ := takePointer_blocks c
      split at h
      · rename_i hnew
        obtain ⟨⟨wp', rest'⟩, hrest, h⟩ := bind_eq_ok.mp h
        obtain ⟨rfl, rfl⟩ := Prod.mk.inj (Except.ok.inj h)
        refine .cons ⟨⟨lost + pointerBlocks wpVal, ?_, fun hready hconst => ?_⟩, ?_⟩ (ih hrest)
        · rw [hlost]
          abel
        · rw [hzero hconst, zero_add]
          exact congrArg pointerBlocks
            ((hready name hvar).1 ((valueKey_eq_value_iff name).mpr hnew))
        · intro other hne hready
          refine ⟨fun hother => absurd ?_ (hne name hvar), hready.2⟩
          exact ((valueKey_eq_value_iff name).mpr hnew).trans hother.symm
      · split at h
        · rename_i hold
          obtain ⟨⟨wp', rest'⟩, hrest, h⟩ := bind_eq_ok.mp h
          obtain ⟨rfl, rfl⟩ := Prod.mk.inj (Except.ok.inj h)
          refine .cons ⟨⟨lost + pointerBlocks wpOld, ?_, fun hready hconst => ?_⟩, ?_⟩ (ih hrest)
          · rw [hlost]
            abel
          · rw [hzero hconst, zero_add]
            exact congrArg pointerBlocks ((hready name hvar).2 hold)
          · intro other hne hready
            refine ⟨hready.1, fun hother => absurd ?_ (hne name hvar)⟩
            rw [hold, hother]
        · obtain ⟨⟨wp', rest'⟩, hrest, h⟩ := bind_eq_ok.mp h
          obtain ⟨rfl, rfl⟩ := Prod.mk.inj (Except.ok.inj h)
          exact .cons ⟨⟨0, (add_zero _).symm, fun _ _ => rfl⟩, fun _ _ hready => hready⟩ (ih hrest)

end MemberLoops

section Stops

/-- Nothing has been handed on to what a stop reads under this name. -/
def StopNode.Ready (s : StopNode) (name : Bytes) : Prop :=
  s.members.Free name ∧ (name = ascii "frame" → s.frame = none)

theorem free_new (fields : List String) (name : Bytes) :
    Members.Free name (fields.map (·, none)) := by
  intro p hp _
  obtain ⟨field, -, rfl⟩ := List.mem_map.mp hp
  rfl

theorem Members.blocks_new (fields : List String) :
    Members.blocks (fields.map (·, none)) = 0 := by
  induction fields with
  | nil => rfl
  | cons field rest ih =>
      rw [List.map_cons, blocks, ih, textBlocks_none, zero_add]

/-- A tuple or list of a stop: what it loses, and for which names the stop stays ready. -/
theorem wp_stoppedBranch {res : StopNode} {name : Bytes} {rs : List Node}
    (hlive : h.live = res.blocks + (blocksOf rs + frame)) :
    Wp (stoppedBranch res name rs) (fun out t =>
        (∃ lost, t.live = out.1.blocks + (blocksOf out.2 + (lost + frame)) ∧
          (res.Ready name → TidyBranch name (contentsOf rs) → lost = 0)) ∧
        ∀ other, other ≠ name → res.Ready other → out.1.Ready other) (fun _ => True) h := by
  unfold stoppedBranch
  split
  · rename_i hframe
    refine wp_alloc_bind fun self t ht => ?_
    refine wp_lift_bind (fun out hout => ?_) fun _ _ => trivial
    obtain ⟨f, rs'⟩ := out
    obtain ⟨lost, hlost, hzero⟩ := (parseFrame_moved hout).kept
    have hnew : FrameNode.blocks { self } = {self} := by
      rw [FrameNode.blocks, blocksOf, add_zero]
      exact (congrArg ({self} + ·) (Members.blocks_new ["func", "file", "fullname", "from"])).trans
        (add_zero _)
    rw [hnew] at hlost
    refine ⟨⟨lost + (res.frame.elim 0 FrameNode.blocks), ?_, fun hready htidy => ?_⟩, ?_⟩
    · calc t.live
          = ({self} + blocksOf rs) + (res.blocks + frame) := by
            rw [ht, hlive, ← Multiset.singleton_add]
            abel
        _ = StopNode.blocks { res with frame := some f } +
              (blocksOf rs' + (lost + (res.frame.elim 0 FrameNode.blocks) + frame)) := by
            rw [hlost, StopNode.blocks, StopNode.blocks, Option.elim_some]
            abel
    · have hlost : lost = 0 := by
        refine hzero ?_ (fun name _ => ?_) fun _ _ => trivial
        · rw [List.map_id]
          exact htidy.nodup
        · exact ⟨free_new ["func", "file", "fullname", "from"] name, fun _ => rfl⟩
      rw [hlost, hready.2 hframe]
      rfl
    · intro other hne hready
      exact ⟨hready.1, fun hother => absurd (hother.trans hframe.symm) hne⟩
  · split
    · rename_i hwp
      refine wp_alloc_bind fun self t ht => ?_
      have hmoved := (moveMembers_moved [("exp", none)] rs).kept
      obtain ⟨lost, hlost, hzero⟩ := hmoved
      have hnew : Members.blocks [("exp", none)] = 0 := Members.blocks_new ["exp"]
      rw [hnew, zero_add] at hlost
      refine ⟨⟨lost, ?_, fun _ htidy => hzero ?_ (fun name _ => ?_) fun _ _ => trivial⟩, ?_⟩
      · refine Eq.trans (b := ({self} + blocksOf rs) + (res.blocks + frame)) ?_ ?_
        · rw [ht, hlive, ← Multiset.singleton_add]
          abel
        · rw [hlost, StopNode.blocks, StopNode.blocks, Option.isNone_iff_eq_none.mp hwp.1,
            Option.elim_none, Option.elim_some, WpNode.blocks]
          abel
      · rw [List.map_id]
        exact htidy.nodup
      · exact free_new ["exp"] name
      · exact fun _ _ hready => hready
    · split
      · rename_i hvalue
        refine wp_lift_bind (fun out hout => ?_) fun _ _ => trivial
        obtain ⟨⟨wpOld, wpVal⟩, rs'⟩ := out
        obtain ⟨lost, hlost, hzero⟩ := (valueLoop_moved hout).kept
        refine ⟨⟨lost, ?_, fun _ htidy => ?_⟩, fun _ _ hready => hready⟩
        · calc h.live
              = (pointerBlocks res.wpOld + pointerBlocks res.wpVal + blocksOf rs) +
                  ({res.self} + (res.frame.elim 0 FrameNode.blocks) +
                    (res.wp.elim 0 WpNode.blocks) + res.members.blocks + frame) := by
                rw [hlive, StopNode.blocks]
                abel
            _ = StopNode.blocks { res with wpOld, wpVal } + (blocksOf rs' + (lost + frame)) := by
                rw [hlost, StopNode.blocks]
                abel
        · obtain ⟨hconst, hnodup⟩ := htidy.value hvalue.2.2
          refine hzero hnodup (fun name _ => ?_) fun c hc => hconst _ ?_
          · exact ⟨fun _ => Option.isNone_iff_eq_none.mp hvalue.2.1,
              fun _ => Option.isNone_iff_eq_none.mp hvalue.1⟩
          · exact contents_mem hc
      · exact ⟨⟨0, by rw [hlive, zero_add], fun _ _ => rfl⟩, fun _ _ hready => hready⟩

/-- A round of `mi_get_stopped`. -/
theorem wp_stoppedStep {res : StopNode} {r : Node}
    (hlive : h.live = res.blocks + (r.blocks + frame)) :
    Wp (stoppedStep res r) (fun out t =>
        (∃ lost, t.live = out.1.blocks + (out.2.blocks + (lost + frame)) ∧
          ((∀ name, r.contents.var = some name → res.Ready name) → r.contents.Tidy → lost = 0)) ∧
        ∀ other, r.contents.var ≠ some other → res.Ready other → out.1.Ready other)
      (fun _ => True) h := by
  cases r with
  | const self var cstr =>
      refine wp_lift_bind (fun name hname => ?_) fun _ _ => trivial
      cases var with
      | none => cases hname
      | some var =>
          obtain rfl : var.bytes = name := Except.ok.inj hname
          cases hput : res.members.put var.bytes cstr with
          | none => exact ⟨⟨0, by rw [zero_add]; exact hlive, fun _ _ => rfl⟩, fun _ _ hr => hr⟩
          | some members =>
              obtain ⟨lost, hlost, hzero⟩ := Members.put_blocks hput
              refine ⟨⟨lost, ?_, fun hready _ => hzero (hready var.bytes rfl).1⟩, ?_⟩
              · calc h.live
                    = (res.members.blocks + textBlocks cstr) + ({res.self} +
                        (res.frame.elim 0 FrameNode.blocks) + (res.wp.elim 0 WpNode.blocks) +
                        pointerBlocks res.wpOld + pointerBlocks res.wpVal +
                        ({self} + textBlocks (some var)) + frame) := by
                      rw [hlive, StopNode.blocks, Node.blocks]
                      abel
                  _ = StopNode.blocks { res with members } +
                        ((Node.const self (some var) none).blocks + (lost + frame)) := by
                      rw [hlost, StopNode.blocks, Node.blocks, textBlocks_none]
                      abel
              · intro other hne hready
                have hother : other ≠ var.bytes := fun heq => hne (congrArg some heq.symm)
                exact ⟨Members.put_free hput hother hready.1, hready.2⟩
  | tuple self var rs | list self var rs =>
      refine wp_lift_bind (fun name hname => ?_) fun _ _ => trivial
      cases var with
      | none => cases hname
      | some var =>
          obtain rfl : var.bytes = name := Except.ok.inj hname
          have hbranch : h.live =
              res.blocks + (blocksOf rs + ({self} + textBlocks (some var) + frame)) := by
            rw [hlive, Node.blocks]
            abel
          refine (wp_stoppedBranch hbranch).bind ?_ fun _ _ => trivial
          rintro ⟨res', rs'⟩ t ⟨⟨lost, ht, hzero⟩, hother⟩
          refine ⟨⟨lost, ?_, fun hready htidy => hzero (hready var.bytes rfl) (htidy _ rfl)⟩, ?_⟩
          · rw [ht, Node.blocks]
            abel
          · exact fun other hne => hother other fun heq => hne (congrArg some heq.symm)

theorem wp_getStopped {res : StopNode} {cs : List Node}
    (hlive : h.live = res.blocks + (blocksOf cs + frame)) :
    Wp (getStopped res cs) (fun out t =>
        ∃ lost, t.live = out.1.blocks + (blocksOf out.2 + (lost + frame)) ∧
          ((∀ name ∈ namesOf (contentsOf cs), res.Ready name) → TidyRecord (contentsOf cs) →
            lost = 0)) (fun _ => True) h := by
  induction cs generalizing res h frame with
  | nil => exact ⟨0, by rw [zero_add]; exact hlive, fun _ _ => rfl⟩
  | cons r rest ih =>
      rw [blocksOf, add_assoc] at hlive
      refine (wp_stoppedStep hlive).bind ?_ fun _ _ => trivial
      rintro ⟨mid, r'⟩ t ⟨⟨lost, ht, hzero⟩, hother⟩
      have hrest : t.live = mid.blocks + (blocksOf rest + (r'.blocks + (lost + frame))) := by
        rw [ht]
        abel
      refine (ih hrest).bind ?_ fun _ _ => trivial
      rintro ⟨res', rest'⟩ u ⟨more, hu, hzero'⟩
      refine ⟨more + lost, ?_, fun hready htidy => ?_⟩
      · rw [hu, blocksOf]
        abel
      · obtain ⟨hnodup, htidy⟩ := htidy
        rw [namesOf_cons, List.nodup_append] at hnodup
        rw [namesOf_cons] at hready
        have hfirst : lost = 0 := hzero (fun name hname => hready name (by simp [hname]))
          (htidy _ (contents_mem List.mem_cons_self))
        have hmore : more = 0 := by
          refine hzero' (fun name hname => hother name (fun heq => ?_)
            (hready name (List.mem_append_right _ hname))) ⟨hnodup.2.1, fun c hc => htidy c ?_⟩
          · exact hnodup.2.2 name (by simp [heq]) name hname rfl
          · rw [contentsOf]
            exact List.mem_cons_of_mem _ hc
        rw [hfirst, hmore, add_zero]

theorem recordBlocks_cons (o : OutputNode) (rest : List OutputNode) :
    recordBlocks (o :: rest) = o.blocks + recordBlocks rest := List.sum_cons

theorem recordBlocks_snoc (po : List OutputNode) (o : OutputNode) :
    recordBlocks (po ++ [o]) = recordBlocks po + o.blocks := by
  rw [recordBlocks, List.map_append, List.sum_append]
  exact congrArg (recordBlocks po + ·) (add_zero o.blocks)

/-- `mi_res_stop` takes from the first stop record, and only from it. -/
theorem wp_resStop {first : List OutputNode} (hlive : h.live = recordBlocks first + frame) :
    Wp (resStop first) (fun out t =>
        (∃ lost, t.live = (out.1.elim 0 StopNode.blocks) + (recordBlocks out.2 + (lost + frame)) ∧
          ((∀ o ∈ first, TidyRecord o.contents.c) → lost = 0)) ∧
        ∀ o ∈ out.2, o ∈ first ∨ o.head.isStop = true) (fun _ => True) h := by
  induction first generalizing h frame with
  | nil => exact ⟨⟨0, by rw [hlive, Option.elim_none, zero_add, zero_add], fun _ => rfl⟩, nofun⟩
  | cons o rest ih =>
      rw [recordBlocks_cons, add_assoc] at hlive
      rw [resStop]
      split
      · rename_i hstop
        refine wp_alloc_bind fun self t ht => ?_
        have hmembers : Members.blocks [("gdb-result-var", none), ("return-value", none),
            ("signal-name", none), ("signal-meaning", none)] = 0 :=
          Members.blocks_new ["gdb-result-var", "return-value", "signal-name", "signal-meaning"]
        have hnew : t.live = StopNode.blocks { self } +
            (blocksOf o.c + ({o.self} + (recordBlocks rest + frame))) := by
          rw [ht, hlive, StopNode.blocks, hmembers, OutputNode.blocks, ← Multiset.singleton_add]
          simp only [Option.elim_none, pointerBlocks, add_zero]
          abel
        refine (wp_getStopped hnew).bind ?_ fun _ _ => trivial
        rintro ⟨stop, c⟩ u ⟨lost, hu, hzero⟩
        refine ⟨⟨lost, ?_, fun htidy => hzero (fun name _ => ?_) (htidy o List.mem_cons_self)⟩, ?_⟩
        · rw [hu, recordBlocks_cons, Option.elim_some, OutputNode.blocks]
          abel
        · exact ⟨free_new ["gdb-result-var", "return-value", "signal-name", "signal-meaning"] name,
            fun _ => rfl⟩
        · intro o' ho'
          rcases List.mem_cons.mp ho' with rfl | ho'
          · exact Or.inr hstop
          · exact Or.inl (List.mem_cons_of_mem o ho')
      · have hrest : h.live = recordBlocks rest + (o.blocks + frame) := by
          rw [hlive]
          abel
        refine (ih hrest).bind ?_ fun _ _ => trivial
        rintro ⟨stop, rest'⟩ t ⟨⟨lost, ht, hzero⟩, hmem⟩
        refine ⟨⟨lost, ?_, fun htidy => hzero fun o ho => htidy o (List.mem_cons_of_mem _ ho)⟩, ?_⟩
        · rw [ht, recordBlocks_cons]
          abel
        · intro o' ho'
          rcases List.mem_cons.mp ho' with rfl | ho'
          · exact Or.inl List.mem_cons_self
          · exact (hmem o' ho').imp_left (List.mem_cons_of_mem o)

end Stops

section Breakpoints

theorem wp_getBkpt {cs : List Node} (hlive : h.live = blocksOf cs + frame) :
    Wp (getBkpt cs) (fun out t =>
        ∃ lost, t.live = (out.1.elim 0 BkptNode.blocks) + (blocksOf out.2 + (lost + frame)) ∧
          (TidyRecord (contentsOf cs) → lost = 0)) (fun _ => True) h := by
  induction cs generalizing h frame with
  | nil => exact ⟨0, by rw [hlive, Option.elim_none, zero_add, zero_add], fun _ => rfl⟩
  | cons r rest ih =>
      refine wp_lift_bind (fun name hname => ?_) fun _ _ => trivial
      split
      · cases r with
        | tuple self var rs =>
            refine wp_alloc_bind fun block t ht => ?_
            obtain ⟨lost, hlost, hzero⟩ := (moveMembers_moved
              [("func", none), ("file", none), ("fullname", none), ("cond", none)] rs).kept
            have hnew : Members.blocks [("func", none), ("file", none), ("fullname", none),
                ("cond", none)] = 0 := Members.blocks_new ["func", "file", "fullname", "cond"]
            rw [hnew, zero_add] at hlost
            refine ⟨lost, ?_, fun htidy => ?_⟩
            · refine Eq.trans (b := ({block} + blocksOf rs) +
                ({self} + textBlocks var + blocksOf rest + frame)) ?_ ?_
              · rw [ht, hlive, blocksOf, Node.blocks, ← Multiset.singleton_add]
                abel
              · rw [hlost, Option.elim_some, BkptNode.blocks, blocksOf, Node.blocks]
                abel
            · obtain ⟨-, htidy⟩ := htidy
              cases var with
              | none => cases hname
              | some var =>
                  have hbranch := htidy _ (contents_mem List.mem_cons_self) var.bytes rfl
                  refine hzero ?_ (fun name _ => ?_) fun _ _ => trivial
                  · rw [List.map_id]
                    exact hbranch.nodup
                  · exact free_new ["func", "file", "fullname", "cond"] name
        | const self var cstr =>
            exact ⟨0, by rw [hlive, Option.elim_none, zero_add, zero_add], fun _ => rfl⟩
        | list self var rs =>
            exact ⟨0, by rw [hlive, Option.elim_none, zero_add, zero_add], fun _ => rfl⟩
      · have hrest : h.live = blocksOf rest + (r.blocks + frame) := by
          rw [hlive, blocksOf]
          abel
        refine (ih hrest).bind ?_ fun _ _ => trivial
        rintro ⟨bkpt, rest'⟩ t ⟨lost, ht, hzero⟩
        refine ⟨lost, ?_, fun htidy => hzero ?_⟩
        · rw [ht, blocksOf]
          abel
        · obtain ⟨hnodup, htidy⟩ := htidy
          rw [namesOf_cons] at hnodup
          refine ⟨(List.nodup_append.mp hnodup).2.1, fun c hc => htidy c ?_⟩
          rw [contentsOf]
          exact List.mem_cons_of_mem _ hc

/-- `mi_res_bkpt` takes from the first result record. -/
theorem wp_resBkpt {first : List OutputNode} (hlive : h.live = recordBlocks first + frame) :
    Wp (resBkpt first) (fun out t =>
        ∃ lost, t.live = (out.1.elim 0 BkptNode.blocks) + (recordBlocks out.2 + (lost + frame)) ∧
          ((∀ o ∈ first, o.head.type = .resultRecord → TidyRecord o.contents.c) → lost = 0))
      (fun _ => True) h := by
  induction first generalizing h frame with
  | nil => exact ⟨0, by rw [hlive, Option.elim_none, zero_add, zero_add], fun _ => rfl⟩
  | cons o rest ih =>
      rw [resBkpt]
      split
      · rename_i htype
        split
        · have hc : h.live = blocksOf o.c + ({o.self} + (recordBlocks rest + frame)) := by
            rw [hlive, recordBlocks_cons, OutputNode.blocks]
            abel
          refine (wp_getBkpt hc).bind ?_ fun _ _ => trivial
          rintro ⟨bkpt, c⟩ t ⟨lost, ht, hzero⟩
          refine ⟨lost, ?_, fun htidy => hzero (htidy o List.mem_cons_self htype)⟩
          rw [ht, recordBlocks_cons, OutputNode.blocks]
          abel
        · exact ⟨0, by rw [hlive, Option.elim_none, zero_add, zero_add], fun _ => rfl⟩
      · have hrest : h.live = recordBlocks rest + (o.blocks + frame) := by
          rw [hlive, recordBlocks_cons]
          abel
        refine (ih hrest).bind ?_ fun _ _ => trivial
        rintro ⟨bkpt, rest'⟩ t ⟨lost, ht, hzero⟩
        refine ⟨lost, ?_, fun htidy => hzero fun o ho => htidy o (List.mem_cons_of_mem _ ho)⟩
        rw [ht, recordBlocks_cons]
        abel

end Breakpoints

section Frees

variable {E : Fault → Prop} {Q : Unit → Heap → Prop}

theorem wp_freePointer {p : Option Block} (hlive : h.live = pointerBlocks p + frame)
    (hQ : ∀ u, u.live = frame → Q () u) : Wp (freePointer p) Q E h := by
  cases p with
  | none => exact hQ h (hlive.trans (zero_add frame))
  | some p => exact wp_release hlive hQ

/-- A structure of members is released with its strings. -/
theorem wp_freeMembers {ms : Members} {self : Block}
    (hlive : h.live = {self} + ms.blocks + frame) (hQ : ∀ u, u.live = frame → Q () u) :
    Wp (do
      ms.free
      release self) Q E h := by
  have hms : h.live = ms.blocks + self ::ₘ frame := by
    rw [hlive, ← Multiset.singleton_add]
    abel
  rw [wp_bind]
  exact Members.wp_free hms fun u hu => wp_release hu hQ

theorem wp_miFreeFrames {f : Option FrameNode}
    (hlive : h.live = (f.elim 0 FrameNode.blocks) + frame) (hQ : ∀ u, u.live = frame → Q () u) :
    Wp (miFreeFrames f) Q E h := by
  cases f with
  | none => exact hQ h (hlive.trans (zero_add frame))
  | some f =>
      have hms : h.live = f.members.blocks + (blocksOf f.args + f.self ::ₘ frame) := by
        rw [hlive, Option.elim_some, FrameNode.blocks, ← Multiset.singleton_add]
        abel
      rw [miFreeFrames, wp_bind]
      refine Members.wp_free hms fun u hu => ?_
      rw [wp_bind]
      exact wp_miFreeResults hu fun v hv => wp_release hv hQ

theorem wp_miFreeWp {w : Option WpNode} (hlive : h.live = (w.elim 0 WpNode.blocks) + frame)
    (hQ : ∀ u, u.live = frame → Q () u) : Wp (miFreeWp w) Q E h := by
  cases w with
  | none => exact hQ h (hlive.trans (zero_add frame))
  | some w => exact wp_freeMembers hlive hQ

theorem wp_miFreeBkpt {b : Option BkptNode}
    (hlive : h.live = (b.elim 0 BkptNode.blocks) + frame) (hQ : ∀ u, u.live = frame → Q () u) :
    Wp (miFreeBkpt b) Q E h := by
  cases b with
  | none => exact hQ h (hlive.trans (zero_add frame))
  | some b => exact wp_freeMembers hlive hQ

theorem wp_miFreeStop {s : Option StopNode}
    (hlive : h.live = (s.elim 0 StopNode.blocks) + frame) (hQ : ∀ u, u.live = frame → Q () u) :
    Wp (miFreeStop s) Q E h := by
  cases s with
  | none => exact hQ h (hlive.trans (zero_add frame))
  | some s =>
      have hframe : h.live = (s.frame.elim 0 FrameNode.blocks) + ((s.wp.elim 0 WpNode.blocks) +
          (pointerBlocks s.wpOld + (pointerBlocks s.wpVal +
            ({s.self} + s.members.blocks + frame)))) := by
        rw [hlive, Option.elim_some, StopNode.blocks]
        abel
      rw [miFreeStop, wp_bind]
      refine wp_miFreeFrames hframe fun t ht => ?_
      rw [wp_bind]
      refine wp_miFreeWp ht fun u hu => ?_
      rw [wp_bind]
      refine wp_freePointer hu fun v hv => ?_
      rw [wp_bind]
      exact wp_freePointer hv fun w hw => wp_freeMembers hw hQ

theorem wp_miFreeOutput {first : List OutputNode} (hlive : h.live = recordBlocks first + frame)
    (hQ : ∀ u, u.live = frame → Q () u) : Wp (miFreeOutput first) Q E h := by
  induction first generalizing h with
  | nil => exact hQ h (hlive.trans (zero_add frame))
  | cons o rest ih =>
      have hc : h.live = blocksOf o.c + o.self ::ₘ (recordBlocks rest + frame) := by
        rw [hlive, recordBlocks_cons, OutputNode.blocks, ← Multiset.singleton_add]
        abel
      rw [miFreeOutput, wp_bind]
      refine wp_miFreeResults hc fun u hu => ?_
      rw [wp_bind]
      exact wp_release hu fun v hv => ih hv

end Frees

end ParallelGdb.Mi
