import ParallelGdb.Breakpoint.Attempts
import ParallelGdb.Library.Getline
import ParallelGdb.Mi.Command

/-!
# The location of a breakpoint command

`create_breakpoint` writes the path between `-break-insert ` and the line as it is.
GDB reads the location back if the path needs no quotes.
-/

namespace ParallelGdb

open Library.CString Library.Getline Mi

/-- A text is one command, which inserts a breakpoint at the location. A word with a
dash in front would be an option. -/
def NamesLocation (e : Escapes) (text location : Bytes) : Prop :=
  ∃ line, lines (code '\n') text = [line] ∧
    readCommand e line = some (ascii "-break-insert", [location]) ∧
    location.head? ≠ some (code '-')

/-- A path that can be written without quotes. -/
structure Unquoted (path : Bytes) : Prop where
  noSpace : ∀ c ∈ path, isSpace c = false
  noQuote : path.head? ≠ some (code '"')
  noDash : path.head? ≠ some (code '-')

namespace Breakpoint

variable {n : Nat} {e : Escapes} {path : Bytes} {line : Int}

/-- The location `create_breakpoint` asks for. -/
def location (path : Bytes) (line : Int) : Bytes := path ++ ascii ":" ++ decimal line

theorem not_isSpace_decimal (z : Int) : ∀ c ∈ decimal z, isSpace c = false := by
  have hdigits : ∀ k, ∀ c ∈ natDigits k, isSpace c = false :=
    fun k c hc => (isDigit_facts (isDigit_of_mem_natDigits k c hc)).1
  cases z with
  | ofNat k => exact hdigits k
  | negSucc k => exact List.forall_mem_cons.mpr ⟨rfl, hdigits (k + 1)⟩

theorem isSpace_location : (∀ c ∈ location path line, isSpace c = false) ↔
    ∀ c ∈ path, isSpace c = false := by
  rw [location, List.forall_mem_append, List.forall_mem_append]
  exact ⟨fun h => h.1.1, fun h => ⟨⟨h, by decide +kernel⟩, not_isSpace_decimal line⟩⟩

theorem head?_location {c : UInt8} (hc : c ≠ code ':') :
    (location path line).head? = some c ↔ path.head? = some c := by
  rcases path with _ | ⟨d, path⟩
  · exact iff_of_false (by simpa [location, ascii] using hc.symm) nofun
  · rfl

/-- How GDB reads the operation. -/
theorem readCommand_breakInsert (location : Bytes) :
    readCommand e (ascii "-break-insert " ++ location) =
      (arguments e (location.length + 15) (code ' ' :: location)).map
        (ascii "-break-insert", ·) := by
  have hline : ascii "-break-insert " ++ location =
      ascii "-break-insert" ++ code ' ' :: location := rfl
  have hname : ∀ c ∈ ascii "-break-insert", (!isSpace c) = true := by decide +kernel
  have hlength : (ascii "-break-insert" ++ code ' ' :: location).length + 1 =
      location.length + 15 := by
    rw [List.length_append, List.length_cons]
    simp [ascii]
    omega
  have hdigits : (ascii "-break-insert" ++ code ' ' :: location).dropWhile isDigit =
      ascii "-break-insert" ++ code ' ' :: location := List.dropWhile_cons_of_neg (by decide)
  have htake : (ascii "-break-insert" ++ code ' ' :: location).takeWhile (!isSpace ·) =
      ascii "-break-insert" := by
    rw [List.takeWhile_append_of_pos hname]
    simp [isSpace]
  have hdrop : (ascii "-break-insert" ++ code ' ' :: location).dropWhile (!isSpace ·) =
      code ' ' :: location := by
    rw [List.dropWhile_append_of_pos hname]
    simp [isSpace]
  rw [hline, readCommand]
  simp only [hdigits, hlength, htake, hdrop]
  rfl

/-- The command names the location if and only if the path needs no quotes. -/
theorem namesLocation_iff : NamesLocation e (Command.breakInsert path line).text
    (location path line) ↔ Unquoted path := by
  have htext : (Command.breakInsert path line).text =
      ascii "-break-insert " ++ location path line ++ [code '\n'] := by
    simp only [Command.text, location, List.append_assoc]
    rfl
  have hne : location path line ≠ [] :=
    List.append_ne_nil_of_right_ne_nil _ (decimal_ne_nil line)
  have hread : readCommand e (ascii "-break-insert " ++ location path line) =
      some (ascii "-break-insert", [location path line]) ↔
        (∀ c ∈ path, isSpace c = false) ∧ path.head? ≠ some (code '"') := by
    have hpair : ∀ args : Option (List Bytes),
        args.map (ascii "-break-insert", ·) =
          some (ascii "-break-insert", [location path line]) ↔
        args = some [location path line] := by
      intro args
      cases args <;> simp
    have hargs := @arguments_eq_single_iff e ((location path line).length + 13) _ hne
    rw [readCommand_breakInsert, hpair, hargs, isSpace_location, ne_eq,
      head?_location (by decide)]
  have hdash : (location path line).head? ≠ some (code '-') ↔ path.head? ≠ some (code '-') :=
    not_congr (head?_location (by decide))
  rw [NamesLocation, htext, hdash]
  constructor
  · rintro ⟨read, hlines, hcommand, hnoDash⟩
    have hcount := length_lines (code '\n') (ascii "-break-insert " ++ location path line ++
      [code '\n'])
    rw [hlines, List.getLast?_concat, if_pos (Or.inr rfl), List.count_append,
      List.count_singleton_self, List.length_singleton] at hcount
    have hnone : code '\n' ∉ ascii "-break-insert " ++ location path line :=
      List.count_eq_zero.mp (by omega)
    rw [lines_append hnone] at hlines
    rw [← (List.cons.inj hlines).1, hread] at hcommand
    exact ⟨hcommand.1, hcommand.2, hnoDash⟩
  · intro h
    have hnone : code '\n' ∉ ascii "-break-insert " ++ location path line := by
      intro hmem
      rcases List.mem_append.mp hmem with hmem | hmem
      · exact absurd hmem (by decide +kernel)
      · exact absurd (isSpace_location.mpr h.noSpace _ hmem) (by decide)
    exact ⟨_, lines_append hnone [], hread.mpr ⟨h.noSpace, h.noQuote⟩, h.noDash⟩

/-- What `create_breakpoint` sends names its location if and only if the path of the
Breakpoint needs no quotes. -/
theorem createBreakpoint_names_iff (e : Escapes) {bp : Breakpoint n} {t : Tracker n} {r : Fin n}
    {cmd : Command} (h : createCommand r (bp, t) = some cmd) :
    NamesLocation e cmd.text (location bp.fullPath bp.line) ↔ Unquoted bp.fullPath := by
  unfold createCommand at h
  split at h
  · cases h
  · rw [← Option.some.inj h]
    exact namesLocation_iff

/-- Every escape stands for its own character. -/
def literalEscapes : Escapes where
  read
    | [] => none
    | c :: rest => some (c, rest)
  shorter := by
    rintro (_ | ⟨d, s⟩) c rest h
    · cases h
    · obtain ⟨rfl, rfl⟩ := Prod.mk.inj (Option.some.inj h)
      simp

/-- A rank is stopped. -/
def stoppedTracker : Tracker 1 := { Tracker.init 1 with targetState := fun _ => .stopped }

theorem plainFile_named : NamesLocation literalEscapes
    (Command.breakInsert (ascii "/src/a.c") 7).text (location (ascii "/src/a.c") 7) :=
  (@createBreakpoint_names_iff 1 literalEscapes (new 1 7 (ascii "/src/a.c")) stoppedTracker 0 _
    rfl).mpr ⟨by decide +kernel, by decide, by decide⟩

theorem blankFile_not_named :
    createCommand 0 (new 1 7 (ascii "/src/my file.c"), stoppedTracker) =
        some (.breakInsert (ascii "/src/my file.c") 7) ∧
      ¬ NamesLocation literalEscapes (Command.breakInsert (ascii "/src/my file.c") 7).text
        (location (ascii "/src/my file.c") 7) := by
  refine ⟨rfl, ?_⟩
  rintro ⟨line, hlines, hcommand, -⟩
  have hline : lines (code '\n') (Command.breakInsert (ascii "/src/my file.c") 7).text =
      [ascii "-break-insert /src/my file.c:7"] := by decide +kernel
  rw [hline] at hlines
  rw [← (List.cons.inj hlines).1] at hcommand
  exact absurd hcommand (by decide +kernel)

end Breakpoint

end ParallelGdb
