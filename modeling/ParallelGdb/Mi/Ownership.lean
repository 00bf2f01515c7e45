import ParallelGdb.Mi.Grammar
import ParallelGdb.Mi.Memory

/-!
# Who owns the blocks of a record

What the parser allocates belongs to the record it returns, is released, or is lost;
no block is released twice. Without their memory the records are those of the model
of `parse.c` that has none.
-/

namespace ParallelGdb.Mi

open Library.CString Library.Ownership

variable {E : Fault → Prop} {h : Heap} {frame : Multiset Block}

section Releases

variable {Q : Unit → Heap → Prop}

theorem wp_freeText {t : Option Text} (hlive : h.live = textBlocks t + frame)
    (hQ : ∀ u, u.live = frame → Q () u) : Wp (freeText t) Q E h := by
  cases t with
  | none => exact hQ h (hlive.trans (zero_add frame))
  | some t => exact wp_release hlive hQ

mutual

/-- A result is released with all of its blocks. -/
theorem Node.wp_free {r : Node} {h : Heap} {frame : Multiset Block} {Q : Unit → Heap → Prop}
    (hlive : h.live = r.blocks + frame) (hQ : ∀ u, u.live = frame → Q () u) :
    Wp r.free Q E h := by
  cases r with
  | const self var cstr =>
      rw [Node.blocks] at hlive
      rw [Node.free, wp_bind]
      have hvar : h.live = textBlocks var + (textBlocks cstr + self ::ₘ frame) := by
        rw [hlive, ← Multiset.singleton_add]
        abel
      refine wp_freeText hvar fun u hu => ?_
      rw [wp_bind]
      exact wp_freeText hu fun v hv => wp_release hv hQ
  | tuple self var rs | list self var rs =>
      rw [Node.blocks] at hlive
      rw [Node.free, wp_bind]
      have hvar : h.live = textBlocks var + (blocksOf rs + self ::ₘ frame) := by
        rw [hlive, ← Multiset.singleton_add]
        abel
      refine wp_freeText hvar fun u hu => ?_
      rw [wp_bind]
      exact wp_miFreeResults hu fun v hv => wp_release hv hQ

theorem wp_miFreeResults {rs : List Node} {h : Heap} {frame : Multiset Block}
    {Q : Unit → Heap → Prop} (hlive : h.live = blocksOf rs + frame)
    (hQ : ∀ u, u.live = frame → Q () u) : Wp (miFreeResults rs) Q E h := by
  cases rs with
  | nil => exact hQ h (hlive.trans (zero_add frame))
  | cons r rest =>
      rw [blocksOf, add_assoc] at hlive
      rw [miFreeResults, wp_bind]
      exact r.wp_free hlive fun u hu => wp_miFreeResults hu hQ

end

end Releases

section Parser

theorem blocksOf_append (rs more : List Node) :
    blocksOf (rs ++ more) = blocksOf rs + blocksOf more := by
  induction rs with
  | nil => exact (zero_add _).symm
  | cons r rest ih => rw [List.cons_append, blocksOf, blocksOf, ih, add_assoc]

theorem blocksOf_snoc (rs : List Node) (r : Node) :
    blocksOf (rs ++ [r]) = blocksOf rs + r.blocks := by
  rw [blocksOf_append]
  exact congrArg (blocksOf rs + ·) (add_zero r.blocks)

theorem contentsOf_append (rs more : List Node) :
    contentsOf (rs ++ more) = contentsOf rs ++ contentsOf more := by
  induction rs with
  | nil => rfl
  | cons r rest ih => rw [List.cons_append, contentsOf, contentsOf, ih, List.cons_append]

theorem contentsOf_snoc (rs : List Node) (r : Node) :
    contentsOf (rs ++ [r]) = contentsOf rs ++ [r.contents] := contentsOf_append rs [r]

/-- The name of a result. -/
def nameOf (var : Option Text) : Option Bytes := var.map Text.bytes

theorem wp_getCstring {self : Block} {var : Option Text} {m : Bytes}
    (hlive : h.live = {self} + textBlocks var + frame) :
    Wp (getCstring self var m) (fun out t =>
        t.live = out.1.blocks + frame ∧
          miGetCstring (nameOf var) m = .ok (out.2.map (out.1.contents, ·)))
      (fun e => miGetCstring (nameOf var) m = .error e) h := by
  cases m with
  | nil => exact (wp_throw _).mpr rfl
  | cons c rest =>
      simp only [getCstring, miGetCstring]
      split
      · refine wp_lift_bind (fun out hout => ?_) fun e he => by rw [he]; rfl
        obtain ⟨text, last⟩ := out
        refine wp_alloc_bind fun p t ht => ⟨?_, by rw [hout]; rfl⟩
        rw [ht, hlive, Node.blocks, textBlocks_some, ← Multiset.singleton_add]
        abel
      · refine ⟨?_, rfl⟩
        rw [hlive, Node.blocks]
        exact congrArg (· + frame) (add_zero _).symm

theorem wp_getVarName {m : Bytes} (hlive : h.live = frame) :
    Wp (getVarName m) (fun out t =>
        t.live = textBlocks (out.map Prod.fst) + frame ∧
          miGetVarName m = .ok (out.map fun p => (p.1.bytes, p.2)))
      (fun e => miGetVarName m = .error e) h := by
  refine wp_lift_bind (fun out hout => ?_) fun e he => he
  cases out with
  | none => exact ⟨hlive.trans (zero_add frame).symm, hout⟩
  | some out =>
      obtain ⟨var, rest⟩ := out
      refine wp_alloc_bind fun p t ht => ⟨?_, hout⟩
      rw [ht, hlive]
      rfl

/-- What a list function leaves: its list so far owns its blocks, and where it does not
fail it has parsed this list. -/
def Lists (pure : Except Fault (Option (List MiResults × Bytes))) (frame : Multiset Block)
    (out : List Node × Option Bytes) (t : Heap) : Prop :=
  (∃ lost, t.live = blocksOf out.1 + (lost + frame)) ∧
    pure = .ok (out.2.map (contentsOf out.1, ·))

/-- A tuple or list around what a list function leaves. -/
theorem wp_branch {x : HeapM Fault (List Node × Option Bytes)}
    {pure : Except Fault (Option (List MiResults × Bytes))} {head : Multiset Block}
    {wrap : List Node → Node} {tree : List MiResults → MiResults}
    (hx : Wp x (Lists pure h.live) (fun e => pure = .error e) h) (hlive : h.live = head + frame)
    (hblocks : ∀ rs, (wrap rs).blocks = head + blocksOf rs)
    (hcontents : ∀ rs, (wrap rs).contents = tree (contentsOf rs)) :
    Wp (do
        let (rs, last) ← x
        return (wrap rs, last))
      (fun out t =>
        (∃ lost, t.live = out.1.blocks + (lost + frame)) ∧
          (do
            match ← pure with
            | some (rs, last) => return some (tree rs, last)
            | none => return none) = Except.ok (out.2.map (out.1.contents, ·)))
      (fun e =>
        (do
          match ← pure with
          | some (rs, last) => return some (tree rs, last)
          | none => return none) = Except.error e) h := by
  refine hx.bind ?_ fun e he => by rw [he]; rfl
  rintro ⟨rs, last⟩ t ⟨⟨lost, hlost⟩, hpure⟩
  refine ⟨⟨lost, ?_⟩, ?_⟩
  · rw [hlost, hlive, hblocks]
    abel
  · rw [hpure, hcontents]
    cases last <;> rfl

mutual

/-- A value belongs to the result it is read into; what its lists lost is `lost`. -/
theorem wp_getValue (fuel : Nat) {self : Block} {var : Option Text} {m : Bytes} {h : Heap}
    {frame : Multiset Block} (hlive : h.live = {self} + textBlocks var + frame) :
    Wp (getValue fuel self var m) (fun out t =>
        (∃ lost, t.live = out.1.blocks + (lost + frame)) ∧
          miGetValue fuel (nameOf var) m = .ok (out.2.map (out.1.contents, ·)))
      (fun e => miGetValue fuel (nameOf var) m = .error e) h := by
  have hnil : h.live = blocksOf [] + h.live := (zero_add h.live).symm
  cases fuel with
  | zero => exact (wp_throw _).mpr rfl
  | succ fuel =>
      cases m with
      | nil => exact (wp_throw _).mpr rfl
      | cons c rest =>
          simp only [getValue, miGetValue]
          split
          · refine (wp_getCstring hlive).mono (fun out t hout => ?_) fun e he => he
            exact ⟨⟨0, by rw [hout.1, zero_add]⟩, hout.2⟩
          · split
            · cases rest with
              | nil => exact (wp_throw _).mpr rfl
              | cons d tail =>
                  simp only
                  split
                  · refine ⟨⟨0, ?_⟩, rfl⟩
                    rw [hlive, Node.blocks, blocksOf, add_zero, zero_add]
                  · exact wp_branch (wp_getListRes fuel hnil) hlive (fun _ => rfl) fun _ => rfl
            · split
              · cases rest with
                | nil => exact (wp_throw _).mpr rfl
                | cons d tail =>
                    simp only
                    split
                    · refine ⟨⟨0, ?_⟩, rfl⟩
                      rw [hlive, Node.blocks, blocksOf, add_zero, zero_add]
                    · split
                      · exact wp_branch (wp_getListRes fuel hnil) hlive (fun _ => rfl) fun _ => rfl
                      · exact wp_branch (wp_getListVal fuel hnil) hlive (fun _ => rfl) fun _ => rfl
              · refine ⟨⟨0, ?_⟩, rfl⟩
                rw [hlive, Node.blocks, textBlocks_none, add_zero, zero_add]

/-- A list that is started again loses what it had. -/
theorem wp_getListRes (fuel : Nat) {closeC : UInt8} {rs : List Node} {last : Bool} {m : Bytes}
    {h : Heap} {frame : Multiset Block} (hlive : h.live = blocksOf rs + frame) :
    Wp (getListRes fuel closeC rs last m)
      (Lists (miGetListRes fuel closeC (contentsOf rs) last m) frame)
      (fun e => miGetListRes fuel closeC (contentsOf rs) last m = .error e) h := by
  cases fuel with
  | zero => exact (wp_throw _).mpr rfl
  | succ fuel =>
      -- The end of a round, behind a result or without one.
      have hround (rs' : List Node) (last' : Bool) (m' : Bytes) (t : Heap)
          (ht : ∃ lost, t.live = blocksOf rs' + (lost + frame))
          (hpure : miGetListRes (fuel + 1) closeC (contentsOf rs) last m =
            match m' with
            | [] => .error .overread
            | c :: m => if c = closeC then .ok (some (contentsOf rs', m))
                else if c = code ',' then miGetListRes fuel closeC (contentsOf rs') last' m
                else .ok none) :
          Wp (match m' with
            | [] => lift (.error .overread)
            | c :: m => if c = closeC then pure (rs', some m)
                else if c = code ',' then getListRes fuel closeC rs' last' m
                else pure (rs', none))
            (Lists (miGetListRes (fuel + 1) closeC (contentsOf rs) last m) frame)
            (fun e => miGetListRes (fuel + 1) closeC (contentsOf rs) last m = .error e) t := by
        rw [hpure]
        obtain ⟨lost, ht⟩ := ht
        cases m' with
        | nil => exact (wp_throw _).mpr rfl
        | cons c m' =>
            simp only
            split
            · exact ⟨⟨lost, ht⟩, rfl⟩
            · split
              · refine (wp_getListRes fuel ht).mono ?_ fun e he => he
                rintro out u ⟨⟨more, hmore⟩, hres⟩
                exact ⟨⟨more + lost, by rw [hmore, add_assoc]⟩, hres⟩
              · exact ⟨⟨lost, ht⟩, rfl⟩
      rw [getListRes]
      refine (wp_getResult fuel rfl).bind ?_ fun e he => by
        rw [miGetListRes, he]
        rfl
      rintro out t ⟨⟨lost, hlost⟩, hres⟩
      cases out with
      | none =>
          rw [hlive] at hlost
          cases last with
          | true =>
              exact hround rs false m t ⟨lost, by rw [hlost, Option.elim_none]; abel⟩
                (by rw [miGetListRes, hres]; rfl)
          | false =>
              exact hround [] false m t
                ⟨lost + blocksOf rs, by rw [hlost, Option.elim_none, blocksOf]; abel⟩
                (by rw [miGetListRes, hres]; rfl)
      | some out =>
          obtain ⟨r, m'⟩ := out
          rw [hlive] at hlost
          cases last with
          | true =>
              exact hround (rs ++ [r]) true m' t
                ⟨lost, by rw [hlost, Option.elim_some, blocksOf_snoc]; abel⟩
                (by rw [miGetListRes, hres, contentsOf_snoc]; rfl)
          | false =>
              exact hround [r] true m' t
                ⟨lost + blocksOf rs, by rw [hlost, Option.elim_some, blocksOf, blocksOf]; abel⟩
                (by rw [miGetListRes, hres]; rfl)

theorem wp_getListVal (fuel : Nat) {rs : List Node} {m : Bytes} {h : Heap}
    {frame : Multiset Block} (hlive : h.live = blocksOf rs + frame) :
    Wp (getListVal fuel rs m) (Lists (miGetListVal fuel (contentsOf rs) m) frame)
      (fun e => miGetListVal fuel (contentsOf rs) m = .error e) h := by
  cases fuel with
  | zero => exact (wp_throw _).mpr rfl
  | succ fuel =>
      rw [getListVal]
      refine wp_alloc_bind fun self t ht => ?_
      have hself : t.live = {self} + textBlocks none + h.live := by
        rw [ht, textBlocks_none, add_zero, Multiset.singleton_add]
      refine (wp_getValue fuel hself).bind ?_ fun e he => by
        rw [miGetListVal, show miGetValue fuel none m = .error e from he]
        rfl
      rintro ⟨r, last⟩ u ⟨⟨lost, hu⟩, hpure⟩
      have hpure : miGetValue fuel none m = .ok (last.map (r.contents, ·)) := hpure
      rw [hlive] at hu
      cases last with
      | none =>
          simp only
          rw [wp_bind]
          refine r.wp_free hu fun v hv => ⟨⟨lost, by rw [hv]; abel⟩, ?_⟩
          rw [miGetListVal, hpure]
          rfl
      | some m' =>
          cases m' with
          | nil =>
              refine (wp_throw _).mpr ?_
              rw [miGetListVal, hpure]
              rfl
          | cons c m' =>
              have hstep : miGetListVal (fuel + 1) (contentsOf rs) m =
                  if c = code ']' then .ok (some (contentsOf (rs ++ [r]), m'))
                  else if c = code ',' then miGetListVal fuel (contentsOf (rs ++ [r])) m'
                  else .ok none := by
                rw [contentsOf_snoc]
                exact miGetListVal_value hpure
              have hsnoc : u.live = blocksOf (rs ++ [r]) + (lost + frame) := by
                rw [hu, blocksOf_snoc]
                abel
              simp only [hstep]
              split
              · exact ⟨⟨lost, hsnoc⟩, rfl⟩
              · split
                · refine (wp_getListVal fuel hsnoc).mono ?_ fun e he => he
                  rintro out v ⟨⟨more, hmore⟩, hres⟩
                  exact ⟨⟨more + lost, by rw [hmore, add_assoc]⟩, hres⟩
                · exact ⟨⟨lost, hsnoc⟩, rfl⟩

/-- A result is returned with its name, or nothing is left of it. -/
theorem wp_getResult (fuel : Nat) {m : Bytes} {h : Heap} {frame : Multiset Block}
    (hlive : h.live = frame) :
    Wp (getResult fuel m) (fun out t =>
        (∃ lost, t.live = (out.elim 0 fun p => p.1.blocks) + (lost + frame)) ∧
          miGetResult fuel m = .ok (out.map fun p => (p.1.contents, p.2)))
      (fun e => miGetResult fuel m = .error e) h := by
  cases fuel with
  | zero => exact (wp_throw _).mpr rfl
  | succ fuel =>
      rw [getResult]
      refine (wp_getVarName hlive).bind ?_ fun e he => by
        rw [miGetResult, he]
        rfl
      rintro out t ⟨ht, hname⟩
      cases out with
      | none =>
          refine ⟨⟨0, by simp [ht]⟩, ?_⟩
          rw [miGetResult, hname]
          rfl
      | some out =>
          obtain ⟨var, m'⟩ := out
          have hstep : miGetResult (fuel + 1) m = miGetValue fuel (nameOf (some var)) m' := by
            rw [miGetResult, hname]
            rfl
          simp only
          refine wp_alloc_bind fun self u hu => ?_
          have hself : u.live = {self} + textBlocks (some var) + frame := by
            rw [hu, ht, Option.map_some, ← Multiset.singleton_add, add_assoc]
          refine (wp_getValue fuel hself).bind ?_ fun e he => by rw [hstep, he]
          rintro ⟨r, last⟩ v ⟨⟨lost, hv⟩, hpure⟩
          cases last with
          | none =>
              simp only
              rw [wp_bind]
              refine r.wp_free hv fun w hw => ⟨⟨lost, by rw [hw, Option.elim_none]; abel⟩, ?_⟩
              rw [hstep, hpure]
              rfl
          | some m'' => exact ⟨⟨lost, hv⟩, hstep.trans hpure⟩

end

end Parser

section Records

theorem OutputNode.blocks_snoc (o : OutputNode) (r : Node) :
    OutputNode.blocks { o with c := o.c ++ [r] } = r.blocks + o.blocks := by
  rw [OutputNode.blocks, OutputNode.blocks, blocksOf_snoc]
  abel

theorem OutputNode.contents_snoc (o : OutputNode) (r : Node) :
    OutputNode.contents { o with c := o.c ++ [r] } =
      { o.contents with c := o.contents.c ++ [r.contents] } := by
  rw [OutputNode.contents, OutputNode.contents, contentsOf_snoc]

/-- A record is released with all of its blocks. -/
theorem wp_miFreeOutput_single {o : OutputNode} {Q : Unit → Heap → Prop}
    (hlive : h.live = o.blocks + frame) (hQ : ∀ u, u.live = frame → Q () u) :
    Wp (miFreeOutput [o]) Q E h := by
  rw [miFreeOutput, wp_bind]
  have hresults : h.live = blocksOf o.c + o.self ::ₘ frame := by
    rw [hlive, OutputNode.blocks, ← Multiset.singleton_add]
    abel
  refine wp_miFreeResults hresults fun u hu => ?_
  rw [wp_bind]
  exact wp_release hu fun v hv => hQ v hv

/-- What a record function leaves: the record it returns owns its blocks. -/
def Records (pure : Except Fault (Option MiOutput)) (frame : Multiset Block)
    (out : Option OutputNode) (t : Heap) : Prop :=
  (∃ lost, t.live = (out.elim 0 OutputNode.blocks) + (lost + frame)) ∧
    pure = .ok (out.map OutputNode.contents)

/-- Behind its release nothing is left of a record. -/
theorem wp_discard {o : OutputNode} {lost : Multiset Block}
    {pure : Except Fault (Option MiOutput)} (hlive : h.live = o.blocks + (lost + frame))
    (hpure : pure = .ok none) :
    Wp (do
        miFreeOutput [o]
        return none) (Records pure frame) E h := by
  rw [wp_bind]
  refine wp_miFreeOutput_single hlive fun u hu => ⟨⟨lost, ?_⟩, hpure⟩
  rw [hu, Option.elim_none, zero_add]

theorem wp_getResultsAlone (fuel : Nat) {r : OutputNode} {m : Bytes} {h : Heap}
    {frame : Multiset Block} (hlive : h.live = r.blocks + frame) :
    Wp (getResultsAlone fuel r m) (Records (miGetResultsAlone fuel r.contents m) frame)
      (fun e => miGetResultsAlone fuel r.contents m = .error e) h := by
  induction fuel generalizing r m h frame with
  | zero => exact (wp_throw _).mpr rfl
  | succ fuel ih =>
      cases m with
      | nil => exact (wp_throw _).mpr rfl
      | cons c m =>
          have hdiscard : h.live = r.blocks + (0 + frame) := by rw [hlive, zero_add]
          simp only [getResultsAlone, miGetResultsAlone]
          split
          · exact ⟨⟨0, hdiscard⟩, rfl⟩
          · split
            · refine (wp_getResult fuel rfl).bind ?_ fun e he => by rw [he]; rfl
              rintro out t ⟨⟨lost, ht⟩, hres⟩
              rw [hlive] at ht
              rw [hres]
              cases out with
              | none =>
                  have hlost : t.live = r.blocks + (lost + frame) := by
                    rw [ht, Option.elim_none]
                    abel
                  exact wp_discard hlost rfl
              | some out =>
                  obtain ⟨rs, m'⟩ := out
                  have hsnoc : t.live =
                      OutputNode.blocks { r with c := r.c ++ [rs] } + (lost + frame) := by
                    rw [ht, r.blocks_snoc, Option.elim_some]
                    abel
                  have hrest := ih (m := m') hsnoc
                  rw [r.contents_snoc] at hrest
                  refine hrest.mono ?_ fun e he => he
                  rintro o u ⟨⟨more, hmore⟩, hpure⟩
                  exact ⟨⟨more + lost, by rw [hmore, add_assoc]⟩, hpure⟩
            · exact wp_discard hdiscard rfl

/-- The record functions go by the class, and then by the results behind it. -/
theorem parseClass_eq (r : MiOutput) (m : Bytes) (classes : List (String × MiClass)) :
    parseClass r m classes = do
      match ← classOf m classes with
      | some (name, tclass) =>
          miGetResultsAlone (parseFuel m) { r with tclass } (m.drop name.length)
      | none => return none := by
  induction classes with
  | nil => rfl
  | cons c rest ih =>
      rw [parseClass, classOf]
      cases hstr : strncmpEq (ascii c.1) m with
      | error e => rfl
      | ok found =>
          cases found with
          | true => rfl
          | false => exact ih

/-- The results behind the class of a record. -/
theorem wp_class {r : OutputNode} {m : Bytes} {name : String} {tclass : MiClass}
    {classes : List (String × MiClass)} (hlive : h.live = r.blocks + frame)
    (hclass : classOf m classes = .ok (some (name, tclass))) :
    Wp (getResultsAlone (parseFuel m) { r with head := { r.head with tclass } }
        (m.drop name.length))
      (Records (parseClass r.contents m classes) frame)
      (fun e => parseClass r.contents m classes = .error e) h := by
  rw [parseClass_eq, hclass]
  exact wp_getResultsAlone _ hlive

/-- The record of an unknown class is lost. -/
theorem wp_parseResultRecord {r : OutputNode} {m : Bytes} (hlive : h.live = r.blocks + frame) :
    Wp (parseResultRecord r m) (Records (miParseResultRecord r.contents m) frame)
      (fun e => miParseResultRecord r.contents m = .error e) h := by
  refine wp_lift_bind (fun out hout => ?_) fun e he => ?_
  · cases out with
    | none =>
        refine ⟨⟨r.blocks, by rw [hlive, Option.elim_none, zero_add]⟩, ?_⟩
        rw [miParseResultRecord, parseClass_eq, hout]
        rfl
    | some out =>
        obtain ⟨name, tclass⟩ := out
        exact wp_class hlive hout
  · rw [miParseResultRecord, parseClass_eq, he]
    rfl

/-- The record of an unknown class is released. -/
theorem wp_parseAsyn {r : OutputNode} {m : Bytes} (hlive : h.live = r.blocks + frame) :
    Wp (parseAsyn r m) (Records (miParseAsyn r.contents m) frame)
      (fun e => miParseAsyn r.contents m = .error e) h := by
  refine wp_lift_bind (fun out hout => ?_) fun e he => ?_
  · cases out with
    | none =>
        have hlost : h.live = OutputNode.blocks
            { r with head := { r.head with type := .outOfBand, stype := .async } } +
              (0 + frame) := by
          rw [zero_add]
          exact hlive
        exact wp_discard hlost (by rw [miParseAsyn, parseClass_eq, hout]; rfl)
    | some out =>
        obtain ⟨name, tclass⟩ := out
        exact wp_class hlive hout
  · rw [miParseAsyn, parseClass_eq, he]
    rfl

theorem wp_console {r : OutputNode} {m : Bytes} (hlive : h.live = {r.self} + frame) :
    Wp (console r m) (fun out t =>
        t.live = (out.elim 0 OutputNode.blocks) + frame ∧
          miConsole r.contents m = .ok (out.map OutputNode.contents))
      (fun e => miConsole r.contents m = .error e) h := by
  refine wp_alloc_bind fun self t ht => ?_
  have hself : t.live = {self} + textBlocks none + ({r.self} + frame) := by
    rw [ht, hlive, textBlocks_none, add_zero, ← Multiset.singleton_add]
  refine (wp_getCstring hself).bind ?_ fun e he => by
    rw [miConsole, show miGetCstring none m = .error e from he]
    rfl
  rintro ⟨text, last⟩ u ⟨hu, hpure⟩
  have hpure : miGetCstring none m = .ok (last.map (text.contents, ·)) := hpure
  have hrecord : u.live = OutputNode.blocks
      ⟨r.self, { r.head with type := .outOfBand, stype := .stream }, [text]⟩ + frame := by
    rw [hu, OutputNode.blocks, blocksOf, blocksOf]
    abel
  cases last with
  | none =>
      simp only
      rw [wp_bind]
      refine wp_miFreeOutput_single hrecord fun v hv => ⟨?_, by rw [miConsole, hpure]; rfl⟩
      rw [hv, Option.elim_none, zero_add]
  | some last => exact ⟨hrecord, by rw [miConsole, hpure]; rfl⟩

/-- Whatever the line is, its record owns the blocks that are allocated for it, or they
are released or lost; none is released twice. Without its memory it is the record
`miParseGdbOutput` reads. -/
theorem wp_parseGdbOutput {m : Bytes} (hlive : h.live = frame) :
    Wp (parseGdbOutput m) (Records (miParseGdbOutput m) frame)
      (fun e => miParseGdbOutput m = .error e) h := by
  cases m with
  | nil => exact (wp_throw _).mpr rfl
  | cons type str =>
      rw [parseGdbOutput]
      refine wp_alloc_bind fun self t ht => ?_
      have hself : t.live = {self} + frame := by rw [ht, hlive, Multiset.singleton_add]
      have hnew (head : MiOutput) : t.live = OutputNode.blocks ⟨self, head, []⟩ + frame := by
        rw [hself, OutputNode.blocks, blocksOf, add_zero]
      have hconsole (head : MiOutput) : Wp (console ⟨self, head, []⟩ str)
          (Records (miConsole (OutputNode.contents ⟨self, head, []⟩) str) frame)
          (fun e => miConsole (OutputNode.contents ⟨self, head, []⟩) str = .error e) t := by
        refine (wp_console hself).mono (fun out u hout => ?_) fun e he => he
        exact ⟨⟨0, by rw [hout.1, zero_add]⟩, hout.2⟩
      simp only [miParseGdbOutput]
      split
      · exact wp_parseResultRecord (hnew {})
      split
      · exact wp_parseAsyn (hnew { sstype := .exec })
      split
      · exact wp_parseAsyn (hnew { sstype := .status })
      split
      · exact wp_parseAsyn (hnew { sstype := .notify })
      split
      · exact hconsole { sstype := .console }
      split
      · exact hconsole { sstype := .target }
      split
      · exact hconsole { sstype := .log }
      exact ⟨⟨{self}, by rw [hself, Option.elim_none, zero_add]⟩, rfl⟩

end Records

end ParallelGdb.Mi
