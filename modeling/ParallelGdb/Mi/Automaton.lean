import ParallelGdb.Mi.Extent

/-!
# The parser reads from left to right

A result that does not parse ends the record, unless the character it begins with
ends or separates the results around it. So the functions of `parse.c`, which call
each other, read a line as a pushdown automaton does: the stack holds what the
nested values are in, and the place says what is read next.
-/

namespace ParallelGdb.Mi

open Library.CString

/-- What a value can be in. -/
inductive Nest
  /-- The results of a tuple or of a list, with the character behind the last. -/
  | results (closeC : UInt8)
  /-- The values of a list. -/
  | values
  deriving DecidableEq

/-- What is read next. -/
inductive Place
  /-- A result. -/
  | item
  /-- The name of a result. -/
  | name
  /-- The quoted text some GDB versions put before the name. -/
  | quotedName
  /-- The character `mi_get_var_name` skips behind that text. -/
  | skipped
  /-- A value. -/
  | value
  /-- What is behind the brace of a tuple. -/
  | tuple
  /-- What is behind the bracket of a list. -/
  | list
  /-- A quoted text. -/
  | text
  /-- The character behind a backslash. -/
  | escape
  /-- What is behind a value. -/
  | behind
  deriving DecidableEq

namespace Place

abbrev Config := List Nest × Place

/-- The first character of a value. -/
def stepValue (nests : List Nest) (c : UInt8) : Option Config :=
  if c = code '"' then some (nests, text)
  else if c = code '{' then some (nests, tuple)
  else if c = code '[' then some (nests, list)
  else none

/-- A character of a name, or the one behind it. -/
def stepName (nests : List Nest) (c : UInt8) : Option Config :=
  if miIsVarNameChar c then some (nests, name)
  else if c = code '=' then some (nests, value)
  else none

/-- The character behind a value. -/
def stepBehind : List Nest → UInt8 → Option Config
  | [], c => if c = code ',' then some ([], item) else none
  | .results closeC :: nests, c =>
      if c = closeC then some (nests, behind)
      else if c = code ',' then some (.results closeC :: nests, item)
      else none
  | .values :: nests, c =>
      if c = code ']' then some (nests, behind)
      else if c = code ',' then some (.values :: nests, value)
      else none

/-- A result can begin with this character. -/
def startsResult (c : UInt8) : Bool := c = code '"' || miIsVarNameChar c || c = code '='

/-- The first character of a result. Where there is none, the results around it go on
at a comma or end. -/
def stepItem (nests : List Nest) (c : UInt8) : Option Config :=
  if c = code '"' then some (nests, quotedName)
  else if startsResult c then stepName nests c
  else if nests = [] then none
  else stepBehind nests c

/-- One character, with those behind it. -/
def step (nests : List Nest) (c : UInt8) (m : Bytes) : Place → Option Config
  | item => stepItem nests c
  | name => stepName nests c
  | quotedName => some (nests, if c = 0 || c = code '"' then skipped else quotedName)
  | skipped => some (nests, name)
  | value => stepValue nests c
  | tuple =>
      if c = code '}' then some (nests, behind)
      else stepItem (.results (code '}') :: nests) c
  | list =>
      if c = code ']' then some (nests, behind)
      else if miIsVarNameChar c then stepItem (.results (code ']') :: nests) c
      else stepValue (.values :: nests) c
  | text =>
      if c = 0 || m.head?.any (endOfStr c) then some (nests, behind)
      else some (nests, if c = code '\\' then escape else text)
  | escape => some (nests, text)
  | behind => stepBehind nests c

end Place

/-- The automaton comes to the end of the memory. -/
def runsOut : Place.Config → Bytes → Bool
  | _, [] => true
  | (nests, place), c :: m =>
      match place.step nests c m with
      | some config => runsOut config m
      | none => false

section Names

variable {nests : List Nest} {m : Bytes}

theorem runsOut_cons (place : Place) (c : UInt8) :
    runsOut (nests, place) (c :: m) =
      match place.step nests c m with
      | some config => runsOut config m
      | none => false := rfl

/-- What the automaton makes of the result of `mi_get_var_name`. -/
def afterName (nests : List Nest) : Except Fault (Option (Bytes × Bytes)) → Bool
  | .error _ => true
  | .ok none => false
  | .ok (some (_, last)) => runsOut (nests, .value) last

/-- The character behind a scanned name. -/
def atName (start : Bytes) : Bytes × Bytes → Except Fault (Option (Bytes × Bytes))
  | (_, []) => .error .overread
  | (name, c :: rest) =>
      if c = code '=' then .ok (some (cstr (start ++ name), rest)) else .ok none

theorem miGetVarName_eq (m : Bytes) :
    miGetVarName m = nameStart m >>= fun start =>
      scanName (m.drop start) >>= atName (m.take start) := by
  rw [miGetVarName]
  congr 1

/-- Scanning a name. -/
theorem runsOut_name (start : Bytes) (m : Bytes) :
    runsOut (nests, .name) m = afterName nests (scanName m >>= atName start) := by
  induction m generalizing start with
  | nil => rfl
  | cons c m ih =>
      rw [runsOut_cons, Place.step, Place.stepName, scanName]
      by_cases hc : miIsVarNameChar c
      · rw [if_pos hc, if_pos hc]
        simp only [ih (start ++ [c])]
        cases scanName m with
        | error e => rfl
        | ok p =>
            obtain ⟨name, _ | ⟨d, rest⟩⟩ := p
            · rfl
            · simp only [atName, bind, Except.bind, pure, Except.pure]
              split <;> rfl
      · rw [if_neg hc, if_neg hc]
        simp only [atName, bind, Except.bind]
        by_cases heq : c = code '='
        · rw [if_pos heq, if_pos heq]
          rfl
        · rw [if_neg heq, if_neg heq]
          rfl

/-- Skipping the quoted text before a name. -/
theorem runsOut_quotedName (m : Bytes) :
    runsOut (nests, .quotedName) m =
      match quotedPrefix m with
      | .error _ => true
      | .ok k => runsOut (nests, .name) (m.drop (k + 2)) := by
  induction m with
  | nil => rfl
  | cons c m ih =>
      rw [runsOut_cons, Place.step, quotedPrefix]
      by_cases hc : (c = 0 || c = code '"') = true
      · rw [if_pos hc, if_pos hc]
        cases m <;> rfl
      · rw [if_neg hc, if_neg hc]
        simp only [ih]
        cases quotedPrefix m <;> rfl

/-- The name of a result. -/
theorem runsOut_item {c : UInt8} (hc : Place.startsResult c = true) (m : Bytes) :
    runsOut (nests, .item) (c :: m) = afterName nests (miGetVarName (c :: m)) := by
  rw [miGetVarName_eq, runsOut_cons, Place.step, Place.stepItem]
  by_cases hquote : c = code '"'
  · rw [if_pos hquote, nameStart, if_pos hquote]
    simp only [runsOut_quotedName]
    cases quotedPrefix m with
    | error e => rfl
    | ok k =>
        simp only [bind, Except.bind, pure, Except.pure]
        exact runsOut_name _ _
  · rw [if_neg hquote, if_pos hc, nameStart, if_neg hquote]
    exact runsOut_name [] (c :: m)

/-- No name is read where no result can begin. -/
theorem miGetVarName_other {c : UInt8} (hc : ¬ Place.startsResult c = true) (m : Bytes) :
    miGetVarName (c :: m) = .ok none := by
  simp only [Place.startsResult, Bool.or_eq_true, decide_eq_true_eq, not_or] at hc
  obtain ⟨⟨hquote, hchar⟩, heq⟩ := hc
  rw [miGetVarName_eq, nameStart, if_neg hquote]
  simp only [bind, Except.bind, List.drop_zero, scanName, if_neg hchar, atName, if_neg heq]

theorem scanName_length {m : Bytes} {p : Bytes × Bytes} (h : scanName m = .ok p) :
    p.2.length ≤ m.length := by
  induction m generalizing p with
  | nil => cases h
  | cons c m ih =>
      rw [scanName] at h
      split at h
      · cases hm : scanName m with
        | error e => simp [hm, bind, Except.bind] at h
        | ok q =>
            obtain ⟨name, last⟩ := q
            have hlast := ih hm
            simp only [hm, bind, Except.bind, pure, Except.pure, Except.ok.injEq] at h
            subst h
            exact Nat.le_succ_of_le hlast
      · obtain rfl := Except.ok.inj h
        exact Nat.le_refl _

/-- A name and the character behind it are read. -/
theorem miGetVarName_length {m : Bytes} {p : Bytes × Bytes} (h : miGetVarName m = .ok (some p)) :
    p.2.length < m.length := by
  rw [miGetVarName_eq] at h
  cases hstart : nameStart m with
  | error e => simp [hstart, bind, Except.bind] at h
  | ok start =>
      cases hname : scanName (m.drop start) with
      | error e => simp [hstart, hname, bind, Except.bind] at h
      | ok q =>
          have hlength := scanName_length hname
          rw [List.length_drop] at hlength
          obtain ⟨name, _ | ⟨c, rest⟩⟩ := q
          · simp [hstart, hname, bind, Except.bind, atName] at h
          · simp only [hstart, hname, bind, Except.bind, atName] at h
            split at h
            · obtain rfl := Option.some.inj (Except.ok.inj h)
              simp only [List.length_cons] at hlength ⊢
              omega
            · cases h

end Names

section Values

variable {α β : Type} {nests : List Nest} {m : Bytes}

/-- What the automaton makes of a value that has been read. -/
def afterValue (nests : List Nest) : Except Fault (Option (α × Bytes)) → Bool
  | .error _ => true
  | .ok none => false
  | .ok (some (_, last)) => runsOut (nests, .behind) last

/-- A function reads as the automaton does from this configuration on. -/
structure Follows (config : Place.Config) (nests : List Nest) (m : Bytes)
    (x : Except Fault (Option (α × Bytes))) : Prop where
  eq : runsOut config m = afterValue nests x
  shorter : ∀ p, x = .ok (some p) → p.2.length < m.length

/-- The same for a function that may leave a result to what is around it. -/
structure FollowsItem (nests : List Nest) (m : Bytes)
    (x : Except Fault (Option (α × Bytes))) : Prop where
  nil : m = [] → ∃ e, x = .error e
  starts : ∀ c rest, m = c :: rest → Place.startsResult c = true →
    runsOut (nests, .item) m = afterValue nests x
  other : ∀ c rest, m = c :: rest → ¬ Place.startsResult c = true → x = .ok none
  shorter : ∀ p, x = .ok (some p) → p.2.length < m.length

theorem Follows.of_error {config : Place.Config} {e : Fault} (h : runsOut config m = true) :
    Follows config nests m (.error e : Except Fault (Option (α × Bytes))) := by
  refine ⟨h, fun p hp => ?_⟩
  cases hp

theorem Follows.of_none {config : Place.Config} (h : runsOut config m = false) :
    Follows config nests m (.ok none : Except Fault (Option (α × Bytes))) := by
  refine ⟨h, fun p hp => ?_⟩
  cases hp

theorem FollowsItem.of_nil {e : Fault} :
    FollowsItem nests [] (.error e : Except Fault (Option (α × Bytes))) := by
  refine ⟨fun _ => ⟨e, rfl⟩, fun c rest h _ => ?_, fun c rest h _ => ?_, fun p hp => ?_⟩
  · cases h
  · cases h
  · cases hp

/-- A function that fails does so exactly where the automaton runs out. -/
theorem ok_iff_of_error {e : Fault} {b : Bool} (hb : b = true) :
    (∃ o, (.error e : Except Fault α) = .ok o) ↔ b = false := by
  refine iff_of_false ?_ (by simp [hb])
  rintro ⟨o, ho⟩
  cases ho

theorem ok_iff_of_ok {o : α} {b : Bool} (hb : b = false) :
    (∃ o', (.ok o : Except Fault α) = .ok o') ↔ b = false :=
  iff_of_true ⟨o, rfl⟩ hb

/-- The text of a value. -/
theorem runsOut_text (m : Bytes) :
    runsOut (nests, .text) m =
      match cstringBody m with
      | .error _ => true
      | .ok (_, last) => runsOut (nests, .behind) last := by
  fun_induction cstringBody m with
  | case1 => rfl
  | case2 => rfl
  | case3 c hc =>
      have hopen : (c = 0 || ([] : Bytes).head?.any (endOfStr c)) = false := by simp [hc]
      rw [runsOut_cons, Place.step, if_neg (by rw [hopen]; exact Bool.false_ne_true)]
      rfl
  | case4 c d rest hend =>
      rw [runsOut_cons, Place.step, List.head?_cons, Option.any_some, if_pos hend]
  | case5 d rest hopen ih =>
      rw [runsOut_cons, Place.step, List.head?_cons, Option.any_some, if_neg hopen, if_pos rfl]
      simp only [runsOut_cons, Place.step, ih]
      cases cstringBody rest <;> rfl
  | case6 c d rest hopen hc ih =>
      rw [runsOut_cons, Place.step, List.head?_cons, Option.any_some, if_neg hopen, if_neg hc]
      simp only [ih]
      cases cstringBody (d :: rest) <;> rfl

theorem cstringBody_length {p : Bytes × Bytes} (h : cstringBody m = .ok p) :
    p.2.length < m.length := by
  fun_induction cstringBody m generalizing p with
  | case1 => cases h
  | case2 =>
      obtain rfl := Except.ok.inj h
      exact Nat.one_pos
  | case3 => cases h
  | case4 c d rest hend =>
      obtain rfl := Except.ok.inj h
      exact Nat.lt_succ_self _
  | case5 d rest hopen ih =>
      cases hrest : cstringBody rest with
      | error e => simp [hrest, bind, Except.bind] at h
      | ok q =>
          simp only [hrest, bind, Except.bind, pure, Except.pure, Except.ok.injEq] at h
          subst h
          exact (ih hrest).trans_le (Nat.le_add_right _ 2)
  | case6 c d rest hopen hc ih =>
      cases hrest : cstringBody (d :: rest) with
      | error e => simp [hrest, bind, Except.bind] at h
      | ok q =>
          simp only [hrest, bind, Except.bind, pure, Except.pure, Except.ok.injEq] at h
          subst h
          exact (ih hrest).trans (Nat.lt_succ_self _)

/-- A quoted value. -/
theorem miGetCstring_follows (var : Option Bytes) (rest : Bytes) :
    Follows (nests, .value) nests (code '"' :: rest) (miGetCstring var (code '"' :: rest)) := by
  have hstep : runsOut (nests, .value) (code '"' :: rest) = runsOut (nests, .text) rest := rfl
  constructor
  · rw [hstep, runsOut_text, miGetCstring, if_pos rfl]
    cases cstringBody rest <;> rfl
  · intro p h
    rw [miGetCstring, if_pos rfl] at h
    cases hbody : cstringBody rest with
    | error e => simp [hbody, bind, Except.bind] at h
    | ok q =>
        simp only [hbody, bind, Except.bind, pure, Except.pure, Except.ok.injEq,
          Option.some.injEq] at h
        subst h
        exact (cstringBody_length hbody).trans (Nat.lt_succ_self _)

/-- What a parser function does with more of the memory is done with less. -/
theorem Follows.map {config : Place.Config} {m' : Bytes} {x : Except Fault (Option (α × Bytes))}
    (h : Follows config nests m' x) (f : α → β) {config' : Place.Config}
    (hconfig : runsOut config' m = runsOut config m') (hshorter : m'.length ≤ m.length) :
    Follows config' nests m (x >>= fun r => pure (r.map fun p => (f p.1, p.2))) := by
  obtain ⟨heq, hlength⟩ := h
  cases x with
  | error e => exact .of_error (hconfig.trans heq)
  | ok r =>
      cases r with
      | none => exact .of_none (hconfig.trans heq)
      | some q =>
          refine ⟨hconfig.trans heq, fun p hp => ?_⟩
          obtain rfl := Option.some.inj (Except.ok.inj hp)
          exact (hlength q rfl).trans_le hshorter

end Values

section Parser

/-- With fuel for twice the memory the parser functions follow the automaton. -/
structure ParserFollows (fuel : Nat) : Prop where
  value : ∀ (nests : List Nest) (var : Option Bytes) (m : Bytes), 2 * m.length ≤ fuel →
    Follows (nests, .value) nests m (miGetValue fuel var m)
  listRes : ∀ (nests : List Nest) (closeC : UInt8) (acc : List MiResults) (last : Bool) (m : Bytes),
    Place.startsResult closeC = false → 2 * m.length + 1 ≤ fuel →
    Follows (.results closeC :: nests, .item) nests m (miGetListRes fuel closeC acc last m)
  listVal : ∀ (nests : List Nest) (acc : List MiResults) (m : Bytes), 2 * m.length + 1 ≤ fuel →
    Follows (.values :: nests, .value) nests m (miGetListVal fuel acc m)
  result : ∀ (nests : List Nest) (m : Bytes), 2 * m.length ≤ fuel →
    FollowsItem nests m (miGetResult fuel m)

theorem ParserFollows.zero : ParserFollows 0 where
  value nests var m h := by
    obtain rfl := List.length_eq_zero_iff.mp (show m.length = 0 by omega)
    exact .of_error rfl
  listRes nests closeC acc last m hclose h := by omega
  listVal nests acc m h := by omega
  result nests m h := by
    obtain rfl := List.length_eq_zero_iff.mp (show m.length = 0 by omega)
    exact .of_nil

variable {fuel : Nat} {nests : List Nest} {m : Bytes}

/-- The character behind a value ends what the value is in, or separates it from the next. -/
theorem Follows.behind {α : Type} {nest : Nest} {close : UInt8} {next : Place}
    {config : Place.Config} {m' : Bytes} {r : α}
    {k : Bytes → Except Fault (Option (α × Bytes))}
    (hstep : ∀ c, Place.stepBehind (nest :: nests) c =
      if c = close then some (nests, .behind)
      else if c = code ',' then some (nest :: nests, next)
      else none)
    (hconfig : runsOut config m = runsOut (nest :: nests, .behind) m')
    (hlength : m'.length ≤ m.length)
    (hk : ∀ tail, tail.length < m'.length → Follows (nest :: nests, next) nests tail (k tail)) :
    Follows config nests m (goOn close r k m') := by
  cases m' with
  | nil => exact .of_error hconfig
  | cons c tail =>
      have htail : tail.length < (c :: tail).length := Nat.lt_succ_self _
      rw [runsOut_cons, Place.step, hstep] at hconfig
      rw [goOn]
      by_cases hclose : c = close
      · rw [if_pos hclose] at hconfig ⊢
        refine ⟨hconfig, fun p hp => ?_⟩
        obtain rfl := Option.some.inj (Except.ok.inj hp)
        exact htail.trans_le hlength
      · rw [if_neg hclose] at hconfig ⊢
        by_cases hcomma : c = code ','
        · rw [if_pos hcomma] at hconfig ⊢
          obtain ⟨heq, hshorter⟩ := hk tail htail
          exact ⟨hconfig.trans heq, fun p hp => (hshorter p hp).trans (htail.trans_le hlength)⟩
        · rw [if_neg hcomma] at hconfig ⊢
          exact .of_none hconfig

theorem ParserFollows.result_succ (h : ParserFollows fuel) (hm : 2 * m.length ≤ fuel + 1) :
    FollowsItem nests m (miGetResult (fuel + 1) m) := by
  have hvalue {var last : Bytes} (hname : miGetVarName m = .ok (some (var, last))) :
      Follows (nests, .value) nests last (miGetValue fuel (some var) last) := by
    have := miGetVarName_length hname
    exact h.value nests (some var) last (by simp only at this; omega)
  refine ⟨?_, ?_, ?_, ?_⟩
  · rintro rfl
    exact ⟨_, rfl⟩
  · rintro c rest rfl hc
    rw [runsOut_item hc, miGetResult]
    cases hname : miGetVarName (c :: rest) with
    | error e => rfl
    | ok p =>
        cases p with
        | none => rfl
        | some p => exact (hvalue hname).eq
  · rintro c rest rfl hc
    rw [miGetResult, miGetVarName_other hc]
    rfl
  · intro p hp
    rw [miGetResult] at hp
    cases hname : miGetVarName m with
    | error e => simp [hname, bind, Except.bind] at hp
    | ok q =>
        cases q with
        | none => simp [hname, bind, Except.bind, pure, Except.pure] at hp
        | some q =>
            simp only [hname, bind, Except.bind] at hp
            exact ((hvalue hname).shorter p hp).trans (miGetVarName_length hname)

theorem ParserFollows.listVal_succ (h : ParserFollows fuel) (acc : List MiResults)
    (hm : 2 * m.length + 1 ≤ fuel + 1) :
    Follows (.values :: nests, .value) nests m (miGetListVal (fuel + 1) acc m) := by
  obtain ⟨heq, hshorter⟩ := h.value (.values :: nests) none m (by omega)
  rw [miGetListVal_eq]
  cases hvalue : miGetValue fuel none m with
  | error e =>
      rw [hvalue] at heq
      exact .of_error heq
  | ok p =>
      rw [hvalue] at heq
      cases p with
      | none => exact .of_none heq
      | some p =>
          obtain ⟨r, m'⟩ := p
          have hlength := hshorter _ hvalue
          exact Follows.behind (fun c => rfl) heq hlength.le fun tail htail =>
            h.listVal nests (acc ++ [r]) tail (by simp only at hlength; omega)

theorem ParserFollows.listRes_succ (h : ParserFollows fuel) {closeC : UInt8}
    (acc : List MiResults) (last : Bool) (hclose : Place.startsResult closeC = false)
    (hm : 2 * m.length + 1 ≤ fuel + 1) :
    Follows (.results closeC :: nests, .item) nests m
      (miGetListRes (fuel + 1) closeC acc last m) := by
  have hitem := h.result (.results closeC :: nests) m (by omega)
  rw [miGetListRes_eq]
  have hnext (rs : List MiResults) (set : Bool) (m' : Bytes) (hlength : m'.length ≤ m.length)
      (heq : runsOut (.results closeC :: nests, .item) m =
        runsOut (.results closeC :: nests, .behind) m') :=
    Follows.behind (r := rs) (fun c => rfl) heq hlength
      fun tail htail => h.listRes nests closeC rs set tail hclose (by omega)
  cases m with
  | nil =>
      obtain ⟨e, he⟩ := hitem.nil rfl
      rw [he]
      exact .of_error rfl
  | cons c rest =>
      by_cases hc : Place.startsResult c = true
      · have heq := hitem.starts c rest rfl hc
        cases hresult : miGetResult fuel (c :: rest) with
        | error e =>
            rw [hresult] at heq
            exact .of_error heq
        | ok p =>
            rw [hresult] at heq
            cases p with
            | none =>
                -- The character a result begins with neither ends nor separates.
                have hne : c ≠ closeC := by
                  rintro rfl
                  rw [hclose] at hc
                  cases hc
                have hcomma : c ≠ code ',' := by
                  rintro rfl
                  exact absurd hc (by decide)
                simp only [bind, Except.bind, goOn, if_neg hne, if_neg hcomma]
                exact .of_none heq
            | some p =>
                obtain ⟨r, m'⟩ := p
                have hlength := (hitem.shorter _ hresult).le
                exact hnext _ true m' hlength heq
      · rw [hitem.other c rest rfl hc]
        have hquote : c ≠ code '"' := by
          rintro rfl
          exact hc (by decide)
        have heq : runsOut (.results closeC :: nests, .item) (c :: rest) =
            runsOut (.results closeC :: nests, .behind) (c :: rest) := by
          rw [runsOut_cons, runsOut_cons, Place.step, Place.stepItem, if_neg hquote, if_neg hc,
            if_neg (List.cons_ne_nil _ _)]
          rfl
        exact hnext _ false (c :: rest) (Nat.le_refl _) heq

/-- A list of results or values, once its first character has been looked at. -/
theorem Follows.opened {c d : UInt8} {tail : Bytes} {nest : Nest} {next : Place}
    {x : Except Fault (Option (List MiResults × Bytes))} (f : List MiResults → MiResults)
    (h : Follows (nest :: nests, next) nests (d :: tail) x)
    (hopen : runsOut (nests, .value) (c :: d :: tail) =
      runsOut (nest :: nests, next) (d :: tail)) :
    Follows (nests, .value) nests (c :: d :: tail)
      (x >>= fun found =>
        match found with
        | some (rs, last) => pure (some (f rs, last))
        | none => pure none) := by
  have hmap := h.map f hopen (Nat.le_succ _)
  cases x with
  | error e => exact hmap
  | ok found => cases found <;> exact hmap

theorem ParserFollows.value_succ (h : ParserFollows fuel) (var : Option Bytes)
    (hm : 2 * m.length ≤ fuel + 1) :
    Follows (nests, .value) nests m (miGetValue (fuel + 1) var m) := by
  rcases m with _ | ⟨c, rest⟩
  · exact .of_error rfl
  · unfold miGetValue
    by_cases hquote : c = code '"'
    · subst hquote
      rw [if_pos rfl]
      exact miGetCstring_follows var rest
    · rw [if_neg hquote]
      by_cases hbrace : c = code '{'
      · subst hbrace
        rw [if_pos rfl]
        rcases rest with _ | ⟨d, tail⟩
        · exact .of_error rfl
        · simp only [List.length_cons] at hm
          by_cases hempty : d = code '}'
          · subst hempty
            simp only [if_true]
            refine ⟨rfl, fun p hp => ?_⟩
            obtain rfl := Option.some.inj (Except.ok.inj hp)
            simp only [List.length_cons]
            omega
          · simp only [if_neg hempty]
            refine (h.listRes nests (code '}') [] false (d :: tail) (by decide)
              (by simp only [List.length_cons]; omega)).opened _ ?_
            rw [runsOut_cons]
            simp only [Place.step, Place.stepValue, if_neg hquote, if_true, runsOut_cons,
              if_neg hempty]
      · rw [if_neg hbrace]
        by_cases hbracket : c = code '['
        · subst hbracket
          rw [if_pos rfl]
          rcases rest with _ | ⟨d, tail⟩
          · exact .of_error rfl
          · simp only [List.length_cons] at hm
            by_cases hempty : d = code ']'
            · subst hempty
              simp only [if_true]
              refine ⟨rfl, fun p hp => ?_⟩
              obtain rfl := Option.some.inj (Except.ok.inj hp)
              simp only [List.length_cons]
              omega
            · simp only [if_neg hempty]
              by_cases hname : miIsVarNameChar d = true
              · simp only [if_pos hname]
                refine (h.listRes nests (code ']') [] false (d :: tail) (by decide)
                  (by simp only [List.length_cons]; omega)).opened _ ?_
                rw [runsOut_cons]
                simp only [Place.step, Place.stepValue, if_neg hquote, if_neg hbrace, if_true,
                  runsOut_cons, if_neg hempty, if_pos hname]
              · simp only [if_neg hname]
                refine (h.listVal nests [] (d :: tail)
                  (by simp only [List.length_cons]; omega)).opened _ ?_
                rw [runsOut_cons]
                simp only [Place.step, Place.stepValue, if_neg hquote, if_neg hbrace, if_true,
                  runsOut_cons, if_neg hempty, if_neg hname]
        · rw [if_neg hbracket]
          refine .of_none ?_
          rw [runsOut_cons, Place.step, Place.stepValue, if_neg hquote, if_neg hbrace,
            if_neg hbracket]

theorem parserFollows (fuel : Nat) : ParserFollows fuel := by
  induction fuel with
  | zero => exact .zero
  | succ fuel ih =>
      exact {
        value := fun nests var m hm => ih.value_succ var hm
        listRes := fun nests closeC acc last m hclose hm => ih.listRes_succ acc last hclose hm
        listVal := fun nests acc m hm => ih.listVal_succ acc hm
        result := fun nests m hm => ih.result_succ hm }

/-- The results of a record are read to the NUL, unless the automaton runs out. -/
theorem miGetResultsAlone_ok_iff (r : MiOutput) (m : Bytes) {fuel : Nat}
    (hfuel : 2 * m.length + 1 ≤ fuel) :
    (∃ o, miGetResultsAlone fuel r m = .ok o) ↔ runsOut ([], .behind) m = false := by
  induction fuel generalizing r m with
  | zero => omega
  | succ fuel ih =>
      rcases m with _ | ⟨c, m⟩
      · exact ok_iff_of_error rfl
      · simp only [List.length_cons] at hfuel
        rw [miGetResultsAlone, runsOut_cons, Place.step, Place.stepBehind]
        by_cases hend : c = 0
        · subst hend
          exact ok_iff_of_ok rfl
        · rw [if_neg hend]
          by_cases hcomma : c = code ','
          · rw [if_pos hcomma, if_pos hcomma]
            have hitem := (parserFollows fuel).result [] m (by omega)
            rcases m with _ | ⟨d, rest⟩
            · obtain ⟨e, he⟩ := hitem.nil rfl
              rw [he]
              exact ok_iff_of_error rfl
            · by_cases hd : Place.startsResult d = true
              · have heq := hitem.starts d rest rfl hd
                simp only [heq]
                cases hresult : miGetResult fuel (d :: rest) with
                | error e => exact ok_iff_of_error rfl
                | ok p =>
                    cases p with
                    | none => exact ok_iff_of_ok rfl
                    | some p =>
                        have hlength := hitem.shorter p hresult
                        simp only [List.length_cons] at hlength hfuel
                        exact ih _ p.2 (by omega)
              · have hquote : d ≠ code '"' := by
                  rintro rfl
                  exact hd (by decide)
                have hstop : runsOut ([], .item) (d :: rest) = false := by
                  rw [runsOut_cons, Place.step, Place.stepItem, if_neg hquote, if_neg hd,
                    if_pos rfl]
                rw [hitem.other d rest rfl hd]
                exact ok_iff_of_ok hstop
          · rw [if_neg hcomma, if_neg hcomma]
            exact ok_iff_of_ok rfl

end Parser

section Lines

/-- A quoted text that no quote ends, with a backslash as its last character. -/
def endsEscaped : Bytes → Bool
  | [] => false
  | [c] => c = code '\\'
  | c :: d :: body =>
      if endOfStr c d then false
      else if c = code '\\' then endsEscaped body
      else endsEscaped (d :: body)

/-- The classes of the records of this type. -/
def classNames (type : UInt8) : List String :=
  if type = code '^' then ["done", "running", "connected", "error", "exit"]
  else if type = code '*' || type = code '+' || type = code '=' then ["stopped", "download"]
  else []

/-- The parser reads more of a stream record than its NUL. -/
def streamRunsOut : Bytes → Bool
  | [] => false
  | c :: body => c = code '"' && endsEscaped body

/-- The parser reads more of a record than its NUL: a quoted text is open at the end. -/
def recordRunsOut (names : List String) (str : Bytes) : Bool :=
  match names.find? fun name => (ascii name).isPrefixOf str with
  | some name => runsOut ([], .behind) (str.drop name.length ++ [0])
  | none => false

/-- The parser reads more of a line than its NUL. -/
def lineRunsOut : Bytes → Bool
  | [] => false
  | type :: str =>
      if type = code '~' || type = code '@' || type = code '&' then streamRunsOut str
      else recordRunsOut (classNames type) str

variable {str : Bytes}

/-- Comparing with a literal stops at the NUL. -/
theorem strncmpEq_line {literal : Bytes} (h : ∀ c ∈ literal, c ≠ 0) (line : Bytes) :
    strncmpEq literal (line ++ [0]) = .ok (literal.isPrefixOf line) := by
  induction literal generalizing line with
  | nil => rfl
  | cons a literal ih =>
      have ha := h a List.mem_cons_self
      cases line with
      | nil =>
          rw [List.nil_append, strncmpEq, if_neg ha.symm]
          rfl
      | cons c line =>
          rw [List.cons_append, strncmpEq, List.isPrefixOf]
          by_cases hc : c = a
          · rw [if_pos hc, ih (fun b hb => h b (List.mem_cons_of_mem a hb))]
            simp [hc]
          · rw [if_neg hc]
            simp [Ne.symm hc]

theorem cstringBody_line {body : Bytes} (h : ∀ c ∈ body, c ≠ 0) :
    (∃ p, cstringBody (body ++ [0]) = .ok p) ↔ endsEscaped body = false := by
  have hbind {x : Except Fault (Bytes × Bytes)} {d : UInt8} :
      (∃ p, (x >>= fun q => pure (d :: q.1, q.2)) = .ok p) ↔ ∃ p, x = .ok p := by
    cases x with
    | error e => exact iff_of_false (by rintro ⟨p, hp⟩; cases hp) (by rintro ⟨p, hp⟩; cases hp)
    | ok q => exact iff_of_true ⟨_, rfl⟩ ⟨q, rfl⟩
  fun_induction endsEscaped body with
  | case1 => exact iff_of_true ⟨_, rfl⟩ rfl
  | case2 c =>
      have hc := h c List.mem_cons_self
      rw [List.singleton_append, cstringBody]
      by_cases hquote : c = code '"'
      · subst hquote
        exact iff_of_true ⟨_, rfl⟩ (by decide)
      · have hopen : ¬ (decide (c = 0) || endOfStr c 0) = true := by simp [hc, endOfStr, hquote]
        rw [if_neg hopen]
        by_cases hescape : c = code '\\'
        · rw [if_pos hescape]
          refine iff_of_false ?_ (by simp [hescape])
          rintro ⟨p, hp⟩
          cases hp
        · rw [if_neg hescape]
          exact iff_of_true ⟨_, rfl⟩ (by simp [hescape])
  | case3 c d body hend =>
      rw [List.cons_append, List.cons_append, cstringBody, if_pos (by simp [hend])]
      exact iff_of_true ⟨_, rfl⟩ rfl
  | case4 d body hopen ih =>
      have hescape : ¬ (decide (code '\\' = 0) || endOfStr (code '\\') d) = true := by
        rw [Bool.or_eq_true, not_or]
        exact ⟨by decide, hopen⟩
      rw [List.cons_append, List.cons_append, cstringBody, if_neg hescape, if_pos rfl]
      exact hbind.trans (ih fun b hb => h b (by simp [hb]))
  | case5 c d body hopen hc ih =>
      have hnul := h c List.mem_cons_self
      have hplain : ¬ (decide (c = 0) || endOfStr c d) = true := by simp [hnul, hopen]
      rw [List.cons_append, List.cons_append, cstringBody, if_neg hplain, if_neg hc]
      exact hbind.trans (ih fun b hb => h b (List.mem_cons_of_mem c hb))

/-- A class is looked for, and the results behind it are read. -/
theorem parseClass_ok_iff (r : MiOutput) {classes : List (String × MiClass)}
    (h : ∀ p ∈ classes, ∀ c ∈ ascii p.1, c ≠ 0) :
    (∃ o, parseClass r (str ++ [0]) classes = .ok o) ↔
      recordRunsOut (classes.map Prod.fst) str = false := by
  rw [recordRunsOut]
  induction classes with
  | nil => exact iff_of_true ⟨none, rfl⟩ rfl
  | cons p classes ih =>
      obtain ⟨name, tclass⟩ := p
      have hname := h _ List.mem_cons_self
      have hrest := ih fun q hq => h q (List.mem_cons_of_mem _ hq)
      rw [parseClass, strncmpEq_line hname, List.map_cons, List.find?_cons]
      cases hstarts : (ascii name).isPrefixOf str with
      | false => exact hrest
      | true =>
          have hlength : name.length ≤ str.length := by
            have hstart := List.isPrefixOf_iff_prefix.mp hstarts
            have := hstart.length_le
            rwa [ascii, List.length_map, String.length_toList] at this
          have hdrop : (str ++ [0]).drop name.length = str.drop name.length ++ [0] :=
            List.drop_append_of_le_length hlength
          have hfuel : 2 * (str.drop name.length ++ [0]).length + 1 ≤ parseFuel (str ++ [0]) := by
            simp only [parseFuel, List.length_append, List.length_drop, List.length_singleton]
            omega
          simp only [bind, Except.bind, if_true, hdrop]
          exact miGetResultsAlone_ok_iff _ _ hfuel

/-- A stream record is read to its NUL unless it ends in an escape. -/
theorem miConsole_ok_iff (r : MiOutput) (hstr : ∀ c ∈ str, c ≠ 0) :
    (∃ o, miConsole r (str ++ [0]) = .ok o) ↔ streamRunsOut str = false := by
  rcases str with _ | ⟨c, body⟩
  · exact iff_of_true ⟨none, rfl⟩ rfl
  · rw [List.cons_append, miConsole, miGetCstring, streamRunsOut]
    by_cases hc : c = code '"'
    · have hbody := cstringBody_line fun b hb => hstr b (List.mem_cons_of_mem c hb)
      rw [if_pos hc, decide_eq_true hc, Bool.true_and, ← hbody]
      cases cstringBody (body ++ [0]) with
      | error e =>
          refine iff_of_false ?_ ?_ <;>
          · rintro ⟨p, hp⟩
            cases hp
      | ok p => exact iff_of_true ⟨_, rfl⟩ ⟨p, rfl⟩
    · rw [if_neg hc]
      exact iff_of_true ⟨none, rfl⟩ (by simp [hc])

theorem miParseResultRecord_ok_iff (r : MiOutput) :
    (∃ o, miParseResultRecord r (str ++ [0]) = .ok o) ↔
      recordRunsOut (classNames (code '^')) str = false :=
  parseClass_ok_iff _ (by decide +kernel)

theorem miParseAsyn_ok_iff (r : MiOutput) {type : UInt8}
    (htype : classNames type = ["stopped", "download"]) :
    (∃ o, miParseAsyn r (str ++ [0]) = .ok o) ↔ recordRunsOut (classNames type) str = false := by
  rw [htype]
  exact parseClass_ok_iff _ (by decide +kernel)

theorem miParseGdbOutput_ok_iff {line : Bytes} (hline : ∀ c ∈ line, c ≠ 0) :
    (∃ o, miParseGdbOutput (line ++ [0]) = .ok o) ↔ lineRunsOut line = false := by
  rcases line with _ | ⟨type, str⟩
  · exact iff_of_true ⟨none, rfl⟩ rfl
  · have hstr : ∀ c ∈ str, c ≠ 0 := fun c hc => hline c (List.mem_cons_of_mem type hc)
    rw [List.cons_append, miParseGdbOutput, lineRunsOut]
    by_cases hresult : type = code '^'
    · subst hresult
      exact miParseResultRecord_ok_iff _
    rw [if_neg hresult]
    by_cases hexec : type = code '*'
    · subst hexec
      exact miParseAsyn_ok_iff _ rfl
    rw [if_neg hexec]
    by_cases hstatus : type = code '+'
    · subst hstatus
      exact miParseAsyn_ok_iff _ rfl
    rw [if_neg hstatus]
    by_cases hnotify : type = code '='
    · subst hnotify
      exact miParseAsyn_ok_iff _ rfl
    rw [if_neg hnotify]
    by_cases hconsole : type = code '~'
    · subst hconsole
      exact miConsole_ok_iff _ hstr
    rw [if_neg hconsole]
    by_cases htarget : type = code '@'
    · subst htarget
      exact miConsole_ok_iff _ hstr
    rw [if_neg htarget]
    by_cases hlog : type = code '&'
    · subst hlog
      exact miConsole_ok_iff _ hstr
    have hnames : classNames type = [] := by simp [classNames, hresult, hexec, hstatus, hnotify]
    rw [if_neg hlog, if_neg (by simp [hconsole, htarget, hlog]), hnames]
    exact iff_of_true ⟨none, rfl⟩ rfl

/-- A line is read to its NUL unless the automaton runs out of it. -/
theorem miGetResponse_ok_iff (po : List MiOutput) {line : Bytes} (hline : ∀ c ∈ line, c ≠ 0) :
    (∃ response, miGetResponse po (line ++ [0]) = .ok response) ↔ lineRunsOut line = false := by
  rw [miGetResponse, strncmpEq_line (by decide +kernel)]
  cases hprompt : (ascii "(gdb)").isPrefixOf line with
  | true =>
      have hsafe : lineRunsOut line = false := by
        have hstart := List.isPrefixOf_iff_prefix.mp hprompt
        obtain ⟨rest, rfl⟩ := hstart
        rfl
      exact iff_of_true ⟨_, rfl⟩ hsafe
  | false =>
      rw [← miParseGdbOutput_ok_iff hline]
      simp only [bind, Except.bind, Bool.false_eq_true, if_false]
      cases miParseGdbOutput (line ++ [0]) with
      | error e =>
          refine iff_of_false ?_ ?_ <;>
          · rintro ⟨o, ho⟩
            cases ho
      | ok o => cases o <;> exact iff_of_true ⟨_, rfl⟩ ⟨_, rfl⟩

end Lines

end ParallelGdb.Mi
