import ParallelGdb.Mi.Lines
import ParallelGdb.Mi.Ownership

/-!
# What written lines lose

The parser loses blocks in two ways: a list is started again behind a result that
does not parse, and the record of an unknown type or result class is forgotten. In
the lines GDB writes every result parses, so the records with a token, which begin
with a digit, are the only ones that lose a block.
-/

namespace ParallelGdb.Mi

open Library.CString Library.Ownership

variable {E : Fault → Prop} {h : Heap} {frame : Multiset Block} {fuel : Nat}
  {d : UInt8} {rest : Bytes}

section Steps

/-- A value that loses nothing. -/
def KeepsValue (fuel : Nat) (var : Option Bytes) (m : Bytes) : Prop :=
  ∀ ⦃self : Block⦄ ⦃text : Option Text⦄ ⦃h : Heap⦄ ⦃frame : Multiset Block⦄,
    nameOf text = var → h.live = {self} + textBlocks text + frame →
      Wp (getValue fuel self text m) (fun out t => t.live = out.1.blocks + frame)
        (fun _ => True) h

/-- A list function that loses nothing. -/
def KeepsList (x : HeapM Fault (List Node × Option Bytes)) (rs : List Node) : Prop :=
  ∀ ⦃h : Heap⦄ ⦃frame : Multiset Block⦄, h.live = blocksOf rs + frame →
    Wp x (fun out t => t.live = blocksOf out.1 + frame) (fun _ => True) h

theorem getResult_written {var : VarName} {m m' : Bytes} {tree : MiResults}
    (hpure : miGetValue fuel (some var.name) m = .ok (some (tree, m')))
    (hvalue : KeepsValue fuel (some var.name) m) (hlive : h.live = frame) :
    Wp (getResult (fuel + 1) (var.name ++ code '=' :: m))
      (fun out t => ∃ r, out = some (r, m') ∧ t.live = r.blocks + frame) (fun _ => True) h := by
  rw [getResult]
  refine (wp_getVarName hlive).bind ?_ fun _ _ => trivial
  rintro out t ⟨ht, hname⟩
  rw [miGetVarName_name] at hname
  cases out with
  | none => cases hname
  | some out =>
      obtain ⟨text, last⟩ := out
      obtain ⟨htext, rfl⟩ : var.name = text.bytes ∧ m = last := by simpa using hname
      refine wp_alloc_bind fun self u hu => ?_
      have hself : u.live = {self} + textBlocks (some text) + frame := by
        rw [hu, ht, Option.map_some, ← Multiset.singleton_add, add_assoc]
      have hnamed : nameOf (some text) = some var.name := congrArg some htext.symm
      refine ((hvalue hnamed hself).and (wp_getValue fuel hself)).bind ?_ fun _ _ => trivial
      rintro ⟨r, last⟩ v ⟨hv, -, hread⟩
      rw [hnamed, hpure] at hread
      cases last with
      | none => cases hread
      | some last =>
          obtain ⟨-, rfl⟩ : tree = r.contents ∧ m' = last := by simpa using hread
          exact ⟨r, rfl, hv⟩

/-- One result of a list, and what comes behind it. -/
theorem getListRes_written {closeC : UInt8} {rs : List Node} {last : Bool} {var : VarName}
    {m m' : Bytes} {tree : MiResults} {c : UInt8}
    (hpure : miGetValue fuel (some var.name) m = .ok (some (tree, c :: m')))
    (hvalue : KeepsValue fuel (some var.name) m) (hlast : last = true ∨ rs = [])
    (hmore : c ≠ closeC → ∀ r, KeepsList (getListRes (fuel + 1) closeC (rs ++ [r]) true m') (rs ++ [r])) :
    KeepsList (getListRes (fuel + 2) closeC rs last (var.name ++ code '=' :: m)) rs := by
  intro h frame hlive
  rw [getListRes]
  refine (getResult_written hpure hvalue rfl).bind ?_ fun _ _ => trivial
  rintro out t ⟨r, rfl, ht⟩
  have hrs : (if last then rs ++ [r] else [r]) = rs ++ [r] := by
    rcases hlast with rfl | rfl
    · rfl
    · simp
  have hsnoc : t.live = blocksOf (rs ++ [r]) + frame := by
    rw [ht, hlive, blocksOf_snoc]
    abel
  simp only [pure_bind, hrs]
  split
  · exact hsnoc
  · rename_i hne
    split
    · exact hmore hne r hsnoc
    · exact hsnoc

/-- One value of a list, and what comes behind it. -/
theorem getListVal_written {rs : List Node} {m m' : Bytes} {tree : MiResults} {c : UInt8}
    (hpure : miGetValue fuel none m = .ok (some (tree, c :: m')))
    (hvalue : KeepsValue fuel none m)
    (hmore : c ≠ code ']' → ∀ r, KeepsList (getListVal fuel (rs ++ [r]) m') (rs ++ [r])) :
    KeepsList (getListVal (fuel + 1) rs m) rs := by
  intro h frame hlive
  rw [getListVal]
  refine wp_alloc_bind fun self t ht => ?_
  have hself : t.live = {self} + textBlocks none + h.live := by
    rw [ht, textBlocks_none, add_zero, Multiset.singleton_add]
  refine ((hvalue rfl hself).and (wp_getValue fuel hself)).bind ?_ fun _ _ => trivial
  rintro ⟨r, last⟩ u ⟨hu, -, hread⟩
  have hread : miGetValue fuel none m = .ok (last.map (r.contents, ·)) := hread
  rw [hpure] at hread
  cases last with
  | none => cases hread
  | some last =>
      obtain ⟨-, rfl⟩ : tree = r.contents ∧ c :: m' = last := by simpa using hread
      have hsnoc : u.live = blocksOf (rs ++ [r]) + frame := by
        rw [hu, hlive, blocksOf_snoc]
        abel
      simp only
      split
      · exact hsnoc
      · rename_i hne
        split
        · exact hmore hne r hsnoc
        · exact hsnoc

end Steps

section Written

/-- A tuple or list loses what its list function does. -/
theorem wp_wrap {x : HeapM Fault (List Node × Option Bytes)} {wrap : List Node → Node}
    {head : Multiset Block} (hx : KeepsList x []) (hlive : h.live = head + frame)
    (hblocks : ∀ rs, (wrap rs).blocks = head + blocksOf rs) :
    Wp (do
        let (rs, last) ← x
        return (wrap rs, last)) (fun out t => t.live = out.1.blocks + frame) (fun _ => True) h := by
  have hnil : h.live = blocksOf [] + h.live := (zero_add h.live).symm
  refine (hx hnil).bind ?_ fun _ _ => trivial
  rintro ⟨rs, last⟩ t ht
  have ht : t.live = blocksOf rs + h.live := ht
  refine ht.trans ?_
  rw [hlive, hblocks]
  abel

/-- A value in quotes. -/
theorem getValue_quote {self : Block} {var : Option Text} (m : Bytes) :
    getValue (fuel + 1) self var (code '"' :: m) = getCstring self var (code '"' :: m) := by
  cases m <;> rfl

mutual

/-- A written value is read without a loss. -/
theorem keepsValue_written (v : Value) (var : Option Bytes) {d : UInt8} {rest : Bytes}
    {fuel : Nat} (hfuel : 2 * v.written.length ≤ fuel) :
    KeepsValue fuel var (v.written ++ d :: rest) := by
  intro self text h frame htext hlive
  obtain ⟨f, rfl⟩ : ∃ f, fuel = f + 1 := by
    obtain ⟨c, m, hhead, -⟩ := v.head []
    have hpos : 0 < v.written.length := by
      rw [← List.append_nil v.written, hhead]
      simp
    exact ⟨fuel - 1, by omega⟩
  cases v with
  | const s =>
      have hwritten : (Value.const s).written ++ d :: rest =
          code '"' :: (s.written ++ code '"' :: d :: rest) := by
        simp [Value.written]
      rw [hwritten, getValue_quote]
      exact (wp_getCstring hlive).mono (fun _ _ hout => hout.1) fun _ _ => trivial
  | emptyTuple =>
      refine hlive.trans ?_
      rw [Node.blocks, blocksOf, add_zero]
  | tuple rs =>
      have hwritten : (Value.tuple rs).written ++ d :: rest =
          code '{' :: (rs.written ++ code '}' :: d :: rest) := by
        simp [Value.written]
      rw [Value.written, List.length_append, List.length_cons] at hfuel
      have hrs : KeepsList (getListRes f (code '}') [] false
          (rs.written ++ code '}' :: d :: rest)) [] :=
        keepsListRes_written rs (by simp [endsValue]) (by decide) [] (Or.inr rfl) _ (by omega)
      obtain ⟨c, m, hhead, hc⟩ := rs.head (code '}' :: d :: rest)
      have hne : c ≠ code '}' := by
        rintro rfl
        exact absurd hc (by decide)
      rw [hhead] at hrs
      rw [hwritten, hhead, getValue, if_neg (by decide), if_pos rfl]
      simp only [if_neg hne]
      exact wp_wrap hrs hlive fun _ => rfl
  | emptyList =>
      refine hlive.trans ?_
      rw [Node.blocks, blocksOf, add_zero]
  | results rs =>
      have hwritten : (Value.results rs).written ++ d :: rest =
          code '[' :: (rs.written ++ code ']' :: d :: rest) := by
        simp [Value.written]
      rw [Value.written, List.length_append, List.length_cons] at hfuel
      have hrs : KeepsList (getListRes f (code ']') [] false
          (rs.written ++ code ']' :: d :: rest)) [] :=
        keepsListRes_written rs (by simp [endsValue]) (by decide) [] (Or.inr rfl) _ (by omega)
      obtain ⟨c, m, hhead, hc⟩ := rs.head (code ']' :: d :: rest)
      have hne : c ≠ code ']' := by
        rintro rfl
        exact absurd hc (by decide)
      rw [hhead] at hrs
      rw [hwritten, hhead, getValue, if_neg (by decide), if_neg (by decide), if_pos rfl]
      simp only [if_neg hne, if_pos hc]
      exact wp_wrap hrs hlive fun _ => rfl
  | values vs =>
      have hwritten : (Value.values vs).written ++ d :: rest =
          code '[' :: (vs.written ++ code ']' :: d :: rest) := by
        simp [Value.written]
      rw [Value.written, List.length_append, List.length_cons] at hfuel
      have hvs : KeepsList (getListVal f [] (vs.written ++ code ']' :: d :: rest)) [] :=
        keepsListVal_written vs [] _ (by omega)
      obtain ⟨c, m, hhead, hc⟩ := vs.head (code ']' :: d :: rest)
      have hne : c ≠ code ']' := by
        rcases hc with rfl | rfl | rfl <;> decide
      have hname : ¬ miIsVarNameChar c = true := by
        rcases hc with rfl | rfl | rfl <;> decide
      rw [hhead] at hvs
      rw [hwritten, hhead, getValue, if_neg (by decide), if_neg (by decide), if_pos rfl]
      simp only [if_neg hne, if_neg hname]
      exact wp_wrap hvs hlive fun _ => rfl

theorem keepsListRes_written (rs : Results) {closeC : UInt8} (hclose : endsValue closeC)
    (hcomma : closeC ≠ code ',') (acc : List Node) {last : Bool} (hlast : last = true ∨ acc = [])
    (rest : Bytes) {fuel : Nat} (hfuel : 2 * rs.written.length ≤ fuel) :
    KeepsList (getListRes fuel closeC acc last (rs.written ++ closeC :: rest)) acc := by
  cases rs with
  | one var v =>
      rw [Results.written, List.length_append, List.length_cons] at hfuel
      obtain ⟨f, rfl⟩ : ∃ f, fuel = f + 2 := ⟨fuel - 2, by omega⟩
      have hwritten : (Results.one var v).written ++ closeC :: rest =
          var.name ++ code '=' :: (v.written ++ closeC :: rest) := by
        simp [Results.written]
      have hread : miGetValue f (some var.name) (v.written ++ closeC :: rest) =
          .ok (some (v.tree var.name, closeC :: rest)) :=
        miGetValue_written v _ hclose (by omega)
      rw [hwritten]
      exact getListRes_written hread (keepsValue_written v _ (by omega)) hlast
        fun hne => absurd rfl hne
  | more var v rs =>
      rw [Results.written, List.length_append, List.length_cons, List.length_append,
        List.length_cons] at hfuel
      obtain ⟨f, rfl⟩ : ∃ f, fuel = f + 2 := ⟨fuel - 2, by omega⟩
      have hwritten : (Results.more var v rs).written ++ closeC :: rest =
          var.name ++ code '=' :: (v.written ++ code ',' :: (rs.written ++ closeC :: rest)) := by
        simp [Results.written]
      have hends : endsValue (code ',') := Or.inr (Or.inl rfl)
      have hread : miGetValue f (some var.name)
          (v.written ++ code ',' :: (rs.written ++ closeC :: rest)) =
          .ok (some (v.tree var.name, code ',' :: (rs.written ++ closeC :: rest))) :=
        miGetValue_written v _ hends (by omega)
      rw [hwritten]
      exact getListRes_written hread (keepsValue_written v _ (by omega)) hlast fun _ r =>
        keepsListRes_written rs hclose hcomma _ (Or.inl rfl) rest (by omega)

theorem keepsListVal_written (vs : Values) (acc : List Node) (rest : Bytes) {fuel : Nat}
    (hfuel : 2 * vs.written.length + 1 ≤ fuel) :
    KeepsList (getListVal fuel acc (vs.written ++ code ']' :: rest)) acc := by
  obtain ⟨f, rfl⟩ : ∃ f, fuel = f + 1 := ⟨fuel - 1, by omega⟩
  cases vs with
  | one v =>
      have hends : endsValue (code ']') := Or.inr (Or.inr (Or.inl rfl))
      rw [Values.written] at hfuel ⊢
      have hread : miGetValue f none (v.written ++ code ']' :: rest) =
          .ok (some (v.tree none, code ']' :: rest)) :=
        miGetValue_written v _ hends (by omega)
      exact getListVal_written hread (keepsValue_written v _ (by omega))
        fun hne => absurd rfl hne
  | more v vs =>
      rw [Values.written, List.length_append, List.length_cons] at hfuel
      have hwritten : (Values.more v vs).written ++ code ']' :: rest =
          v.written ++ code ',' :: (vs.written ++ code ']' :: rest) := by
        simp [Values.written]
      have hends : endsValue (code ',') := Or.inr (Or.inl rfl)
      have hread : miGetValue f none (v.written ++ code ',' :: (vs.written ++ code ']' :: rest)) =
          .ok (some (v.tree none, code ',' :: (vs.written ++ code ']' :: rest))) :=
        miGetValue_written v _ hends (by omega)
      rw [hwritten]
      exact getListVal_written hread (keepsValue_written v _ (by omega)) fun _ r =>
        keepsListVal_written vs _ rest (by omega)

end

end Written

section Records

variable {x : Bytes} {r : OutputNode}

end Records

section Lines

variable {x : Bytes} {r : OutputNode}

/-- How many blocks a line loses. -/
def Line.lost : Line → Nat
  | .result token _ _ => if token.digits = [] then 0 else 1
  | .async token _ => if token.digits = [] then 0 else 1
  | _ => 0

end Lines

end ParallelGdb.Mi
