import ParallelGdb.Mi.Automaton
import ParallelGdb.Window.Chunk

/-!
# A chunk is read in its own memory

`read_data` cuts what GDB writes where the connection does, so a token can end
anywhere in a line. Here the memory of a chunk ends with its NUL, and that of a
token with the NUL `strtok` puts behind it.
-/

namespace ParallelGdb

open Library.CString Mi

/-- The tokens of a chunk, cut from memory that `strtok` must not leave. -/
def tokensIn (token : Bytes) : Bytes → Except Fault (List Bytes)
  | [] => .error .overread
  | c :: rest =>
      if c = 0 then .ok (if token = [] then [] else [token])
      else if c = code '\n' then do
        return (if token = [] then [] else [token]) ++ (← tokensIn [] rest)
      else
        tokensIn (token ++ [c]) rest

/-- The line of a token: a carriage return at its end is overwritten. -/
def lineOf (token : Bytes) : Bytes :=
  if token.getLast? = some (code '\r') then token.dropLast else token

/-- Nothing behind the NUL of a chunk is read to cut it. A token has a last character,
and nothing behind its NUL is read to parse it, whatever response it belongs to. -/
def InBounds (data : Bytes) : Prop :=
  ∃ tokens, tokensIn [] (cstr data ++ [0]) = .ok tokens ∧
    ∀ token ∈ tokens, token ≠ [] ∧
      ∀ po, ∃ response, miGetResponse po (lineOf token ++ [0]) = .ok response

section Tokens

variable {data token : Bytes}

/-- Cutting a chunk stops at its NUL. -/
theorem tokensIn_eq (h : ∀ c ∈ data, c ≠ 0) (token : Bytes) :
    tokensIn token (data ++ [0]) = .ok ((strtok token data).map Prod.fst) := by
  induction data generalizing token with
  | nil =>
      rw [List.nil_append, tokensIn, if_pos rfl, strtok]
      split <;> rfl
  | cons c data ih =>
      have hdata := ih fun b hb => h b (List.mem_cons_of_mem c hb)
      rw [List.cons_append, tokensIn, if_neg (h c List.mem_cons_self), strtok]
      by_cases hc : c = code '\n'
      · rw [if_pos hc, if_pos hc, hdata []]
        split <;> rfl
      · rw [if_neg hc, if_neg hc, hdata]

theorem cstr_ne_zero (data : Bytes) : ∀ c ∈ cstr data, c ≠ 0 := by
  intro c hc
  simpa using List.mem_takeWhile_imp hc

/-- A token is a piece of the chunk. -/
theorem token_isInfix {p : Bytes × Bytes} (hp : p ∈ strtok token data) :
    p.1 <:+: token ++ data := by
  induction data generalizing token with
  | nil =>
      rw [strtok] at hp
      split at hp
      · cases hp
      · obtain rfl := List.mem_singleton.mp hp
        exact List.infix_append' [] token []
  | cons d data ih =>
      rw [strtok] at hp
      split at hp
      · rcases List.mem_append.mp hp with hp | hp
        · split at hp
          · cases hp
          · obtain rfl := List.mem_singleton.mp hp
            exact (List.prefix_append token (d :: data)).isInfix
        · exact (ih hp).trans ⟨token ++ [d], [], by simp⟩
      · have hinside := ih hp
        rwa [List.append_assoc, List.singleton_append] at hinside

/-- A token has only characters of the chunk. -/
theorem mem_of_mem_strtok {p : Bytes × Bytes} (hp : p ∈ strtok token data) :
    ∀ c ∈ p.1, c ∈ token ∨ c ∈ data := fun _ hc =>
  List.mem_append.mp ((token_isInfix hp).subset hc)

/-- A token lies in one line. -/
theorem oneLine_of_mem_strtok {p : Bytes × Bytes} (htoken : OneLine token)
    (hp : p ∈ strtok token data) : OneLine p.1 := by
  have hnil : OneLine [] := fun c hc => absurd hc List.not_mem_nil
  induction data generalizing token with
  | nil =>
      rw [strtok] at hp
      split at hp
      · cases hp
      · obtain rfl := List.mem_singleton.mp hp
        exact htoken
  | cons d data ih =>
      rw [strtok] at hp
      split at hp
      · rcases List.mem_append.mp hp with hp | hp
        · split at hp
          · cases hp
          · obtain rfl := List.mem_singleton.mp hp
            exact htoken
        · exact ih hnil hp
      · rename_i hd
        refine ih (fun c hc => ?_) hp
        rcases List.mem_append.mp hc with hc | hc
        · exact htoken c hc
        · obtain rfl := List.mem_singleton.mp hc
          exact hd

/-- `strtok` does not return an empty token. -/
theorem ne_nil_of_mem_strtok {p : Bytes × Bytes} (hp : p ∈ strtok token data) : p.1 ≠ [] := by
  induction data generalizing token with
  | nil =>
      rw [strtok] at hp
      split at hp
      · cases hp
      · rename_i hne
        obtain rfl := List.mem_singleton.mp hp
        exact hne
  | cons d data ih =>
      rw [strtok] at hp
      split at hp
      · rcases List.mem_append.mp hp with hp | hp
        · split at hp
          · cases hp
          · rename_i hne
            obtain rfl := List.mem_singleton.mp hp
            exact hne
        · exact ih hp
      · exact ih hp

theorem lineOf_subset (token : Bytes) : lineOf token ⊆ token := by
  rw [lineOf]
  split
  · exact List.dropLast_subset token
  · exact List.Subset.refl token

/-- The line of a token has no NUL. -/
theorem lineOf_ne_zero {p : Bytes × Bytes} (hp : p ∈ strtok [] (cstr data)) :
    ∀ c ∈ lineOf p.1, c ≠ 0 := by
  intro c hc
  rcases mem_of_mem_strtok hp c (lineOf_subset p.1 hc) with hnone | hdata
  · cases hnone
  · exact cstr_ne_zero data c hdata

/-- The memory at a token is that of its line, with more behind it. -/
theorem lineMemory_eq (token behind : Bytes) :
    ∃ x, lineMemory token behind = lineOf token ++ [0] ++ x := by
  rw [lineMemory, lineOf]
  split
  · exact ⟨0 :: behind, by simp⟩
  · exact ⟨behind, by simp⟩

end Tokens

/-- A chunk that is read in its own memory has no line whose reading runs out. -/
theorem lineRunsOut_of_inBounds {data : Bytes} (h : InBounds data) {p : Bytes × Bytes}
    (hp : p ∈ strtok [] (cstr data)) : lineRunsOut (lineOf p.1) = false := by
  obtain ⟨tokens, heq, htokens⟩ := h
  obtain rfl := Except.ok.inj ((tokensIn_eq (cstr_ne_zero data) []).symm.trans heq)
  exact (miGetResponse_ok_iff [] (lineOf_ne_zero hp)).mp
    ((htokens p.1 (List.mem_map_of_mem hp)).2 [])

/-- A chunk is read in its own memory exactly if none of its lines is a stream that
ends in an escape or a record in which a quoted text is open at the end. -/
theorem inBounds_iff (data : Bytes) :
    InBounds data ↔ ∀ p ∈ strtok [] (cstr data), lineRunsOut (lineOf p.1) = false := by
  constructor
  · intro h p hp
    exact lineRunsOut_of_inBounds h hp
  · intro h
    refine ⟨_, tokensIn_eq (cstr_ne_zero data) [], fun token htoken => ?_⟩
    obtain ⟨p, hp, rfl⟩ := List.mem_map.mp htoken
    exact ⟨ne_nil_of_mem_strtok hp, fun po =>
      (miGetResponse_ok_iff po (lineOf_ne_zero hp)).mpr (h p hp)⟩

/-- The chunk ends behind a backslash, in a quoted text. -/
theorem cutEscape_outOfBounds : ¬ InBounds (ascii "~\"a\\") := by
  rw [inBounds_iff]
  decide +kernel

/-- Of a chunk that is read in its own memory every line is handled as if its memory
ended with its NUL. -/
theorem handleLine_inBounds {n : Nat} {data : Bytes} (h : InBounds data) {rank : Fin n}
    {load : Bytes → SourceFile} (w : UIWindow n) {p : Bytes × Bytes}
    (hp : p ∈ strtok [] (cstr data)) :
    ∃ response, miGetResponse (w.tracker.gdbHandle rank) (lineOf p.1 ++ [0]) = .ok response ∧
      w.handleLine rank load p = w.respond rank load response := by
  obtain ⟨response, hresponse⟩ := (miGetResponse_ok_iff (w.tracker.gdbHandle rank)
    (lineOf_ne_zero hp)).mpr (lineRunsOut_of_inBounds h hp)
  obtain ⟨x, hx⟩ := lineMemory_eq p.1 p.2
  refine ⟨response, hresponse, ?_⟩
  rw [UIWindow.handleLine, hx, miGetResponse_append hresponse x]
  rfl

end ParallelGdb
