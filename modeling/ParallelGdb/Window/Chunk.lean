import ParallelGdb.Mi.Lines
import ParallelGdb.Window.References
import ParallelGdb.Tabs.Handlers

/-!
# Handling what a GDB connection delivers

`read_data` hands a chunk of what GDB wrote to `handle_data_gdb`, which splits it
into lines and feeds them to the parser. The records wait in the GDB handle of
the rank until the response is complete.
-/

namespace ParallelGdb

open Library.CString Mi

/-- The tokens `strtok` cuts a buffer into at newlines, each with the memory
behind the NUL it ends with. The first argument is the token under way. -/
def strtok : Bytes → Bytes → List (Bytes × Bytes)
  | token, [] => if token = [] then [] else [(token, [])]
  | token, c :: rest =>
      if c = code '\n' then
        (if token = [] then [] else [(token, rest ++ [0])]) ++ strtok [] rest
      else
        strtok (token ++ [c]) rest

/-- The memory at a token: a carriage return at its end is overwritten. -/
def lineMemory (token behind : Bytes) : Bytes :=
  if token.getLast? = some (code '\r') then token.dropLast ++ 0 :: 0 :: behind
  else token ++ 0 :: behind

section Tokens

/-- A newline does not occur in the text. -/
def OneLine (s : Bytes) : Prop := ∀ c ∈ s, c ≠ code '\n'

theorem strtok_append {s : Bytes} (h : OneLine s) (token rest : Bytes) :
    strtok token (s ++ rest) = strtok (token ++ s) rest := by
  induction s generalizing token with
  | nil => rw [List.nil_append, List.append_nil]
  | cons c s ih =>
      rw [List.cons_append, strtok, if_neg (h c (by simp)), ih fun b hb => h b (by simp [hb]),
        List.append_assoc, List.singleton_append]

/-- The first line of a buffer is its first token. -/
theorem strtok_line {s : Bytes} (h : OneLine s) (hne : s ≠ []) (rest : Bytes) :
    strtok [] (s ++ code '\n' :: rest) = (s, rest ++ [0]) :: strtok [] rest := by
  rw [strtok_append h, List.nil_append, strtok, if_pos rfl, if_neg hne, List.singleton_append]

end Tokens

/-- A line as it is delivered, with or without a carriage return. -/
structure SentLine where
  line : Line
  cr : Bool

def SentLine.written (l : SentLine) : Bytes :=
  l.line.written ++ (if l.cr then [code '\r'] else []) ++ [code '\n']

/-- A chunk of whole lines. -/
def chunkOf (lines : List SentLine) : Bytes := lines.flatMap SentLine.written

theorem cstr_chunkOf (lines : List SentLine) : cstr (chunkOf lines) = chunkOf lines := by
  apply cstr_of_forall
  intro c hc
  obtain ⟨l, -, hc⟩ := List.mem_flatMap.mp hc
  simp only [SentLine.written, List.mem_append, List.mem_singleton] at hc
  rcases hc with (hc | hc) | rfl
  · exact (l.line.printed c hc).1
  · split at hc
    · obtain rfl := List.mem_singleton.mp hc
      decide
    · cases hc
  · decide

/-- Whatever follows a delivered line, the parser is given the line and a NUL. -/
theorem lineMemory_written (l : SentLine) (behind : Bytes) :
    ∃ x, lineMemory (l.line.written ++ if l.cr then [code '\r'] else []) behind =
      l.line.written ++ 0 :: x := by
  obtain ⟨c, hlast, hc⟩ := l.line.ends
  unfold lineMemory
  cases l.cr with
  | false => exact ⟨behind, by simp [hlast, hc]⟩
  | true => exact ⟨0 :: behind, by simp⟩

/-- The first token of a chunk of whole lines is its first line. -/
theorem strtok_chunkOf_cons (l : SentLine) (lines : List SentLine) :
    strtok [] (chunkOf (l :: lines)) =
      (l.line.written ++ if l.cr then [code '\r'] else [], chunkOf lines ++ [0]) ::
        strtok [] (chunkOf lines) := by
  have hline : OneLine (l.line.written ++ if l.cr then [code '\r'] else []) := by
    intro c hc
    rcases List.mem_append.mp hc with hc | hc
    · exact (l.line.printed c hc).2
    · split at hc
      · obtain rfl := List.mem_singleton.mp hc
        decide
      · cases hc
  have hne : (l.line.written ++ if l.cr then [code '\r'] else []) ≠ [] := by
    obtain ⟨c, hlast, -⟩ := l.line.ends
    intro hnil
    rw [(List.append_eq_nil_iff.mp hnil).1] at hlast
    cases hlast
  have hchunk : chunkOf (l :: lines) =
      (l.line.written ++ if l.cr then [code '\r'] else []) ++ code '\n' :: chunkOf lines := by
    simp [chunkOf, SentLine.written]
  rw [hchunk, strtok_line hline hne]

/-- A loop over the tokens of a chunk of whole lines runs over the lines. -/
theorem foldlM_strtok_chunkOf {σ : Type} {f : σ → Bytes × Bytes → Except Fault σ}
    {g : σ → Line → Except Fault σ}
    (hfg : ∀ (s : σ) (l : SentLine) (behind : Bytes),
      f s (l.line.written ++ if l.cr then [code '\r'] else [], behind) = g s l.line)
    (lines : List SentLine) (s : σ) :
    (strtok [] (chunkOf lines)).foldlM f s = (lines.map SentLine.line).foldlM g s := by
  induction lines generalizing s with
  | nil => rfl
  | cons l lines ih =>
      rw [strtok_chunkOf_cons, List.foldlM_cons, hfg, List.map_cons, List.foldlM_cons]
      exact congrArg _ (funext ih)

namespace Tracker

variable {n : Nat}

/-- A response that is complete is taken from the handle and interpreted. -/
def respond (r : Fin n) (t : Tracker n) (response : Bool × List MiOutput) :
    Except Fault (Tracker n) :=
  if response.1 then
    handleResponse response.2 r { t with gdbHandle := Function.update t.gdbHandle r [] }
  else
    .ok { t with gdbHandle := Function.update t.gdbHandle r response.2 }

/-- One round of the loop of `handle_data_gdb`. -/
def handleLine (r : Fin n) (t : Tracker n) (token : Bytes × Bytes) :
    Except Fault (Tracker n) := do
  t.respond r (← miGetResponse (t.gdbHandle r) (lineMemory token.1 token.2))

/-- `handle_data_gdb` on the copy of a chunk, which ends at its first NUL. -/
def handleDataGdb (r : Fin n) (t : Tracker n) (data : Bytes) : Except Fault (Tracker n) :=
  (strtok [] (cstr data)).foldlM (handleLine r) t

/-- The chunks of a connection one after the other. -/
def handleChunks (r : Fin n) (t : Tracker n) (chunks : List Bytes) : Except Fault (Tracker n) :=
  chunks.foldlM (handleDataGdb r) t

section Handle

/-- Interpreting a response does not touch the handles. -/
theorem gdbHandle_handleResponse {first : List MiOutput} {r : Fin n} {t u : Tracker n}
    (h : t.handleResponse first r = .ok u) : u.gdbHandle = t.gdbHandle := by
  obtain ⟨v, hv, rfl | ⟨b, bp, number, -, -, rfl⟩⟩ := handleResponse_cases h
  · exact hv.gdbHandle
  · exact hv.gdbHandle

/-- A delivered line adds its record to the response, or ends it. -/
def handleSent (r : Fin n) (t : Tracker n) (l : Line) : Except Fault (Tracker n) :=
  t.respond r (l.completes, t.gdbHandle r ++ l.record.toList)

/-- A chunk of whole lines is handled line by line. -/
theorem handleDataGdb_chunkOf (r : Fin n) (t : Tracker n) (lines : List SentLine) :
    t.handleDataGdb r (chunkOf lines) = (lines.map SentLine.line).foldlM (handleSent r) t := by
  rw [handleDataGdb, cstr_chunkOf]
  refine foldlM_strtok_chunkOf (fun t l behind => ?_) lines t
  obtain ⟨x, hx⟩ := lineMemory_written l behind
  rw [handleLine, hx, miGetResponse_written]
  rfl

/-- However the lines are grouped into chunks. -/
theorem handleChunks_chunkOf (r : Fin n) (t : Tracker n) (groups : List (List SentLine)) :
    t.handleChunks r (groups.map chunkOf) =
      (groups.flatten.map SentLine.line).foldlM (handleSent r) t := by
  rw [handleChunks]
  induction groups generalizing t with
  | nil => rfl
  | cons lines groups ih =>
      rw [List.map_cons, List.foldlM_cons, handleDataGdb_chunkOf, List.flatten_cons,
        List.map_append, List.foldlM_append]
      exact congrArg _ (funext ih)

end Handle

end Tracker

namespace UIWindow

variable {n : Nat}

/-- A response that is complete is taken from the handle and interpreted. -/
def respond (rank : Fin n) (load : Bytes → SourceFile) (w : UIWindow n)
    (response : Bool × List MiOutput) : Except Fault (UIWindow n) :=
  if response.1 then
    handleResponse rank load { w with tracker :=
      { w.tracker with gdbHandle := Function.update w.tracker.gdbHandle rank [] } } response.2
  else
    .ok { w with tracker :=
      { w.tracker with gdbHandle := Function.update w.tracker.gdbHandle rank response.2 } }

/-- One round of the loop of `handle_data_gdb`. -/
def handleLine (rank : Fin n) (load : Bytes → SourceFile) (w : UIWindow n)
    (token : Bytes × Bytes) : Except Fault (UIWindow n) := do
  w.respond rank load
    (← miGetResponse (w.tracker.gdbHandle rank) (lineMemory token.1 token.2))

/-- `handle_data_gdb`. -/
def handleDataGdb (rank : Fin n) (load : Bytes → SourceFile) (w : UIWindow n)
    (data : Bytes) : Except Fault (UIWindow n) := do
  let w ← (strtok [] (cstr data)).foldlM (handleLine rank load) w
  w.checkOverview rank

/-- A delivered line adds its record to the response, or ends it. -/
def handleSent (rank : Fin n) (load : Bytes → SourceFile) (w : UIWindow n)
    (l : Line) : Except Fault (UIWindow n) :=
  w.respond rank load (l.completes, w.tracker.gdbHandle rank ++ l.record.toList)

/-- The window handles a chunk of whole lines line by line. -/
theorem handleDataGdb_chunkOf (rank : Fin n) (load : Bytes → SourceFile)
    (w : UIWindow n) (lines : List SentLine) :
    w.handleDataGdb rank load (chunkOf lines) = (do
      let w ← (lines.map SentLine.line).foldlM (handleSent rank load) w
      w.checkOverview rank) := by
  rw [handleDataGdb, cstr_chunkOf, foldlM_strtok_chunkOf (g := handleSent rank load)]
  intro w l behind
  obtain ⟨x, hx⟩ := lineMemory_written l behind
  rw [handleLine, hx, miGetResponse_written]
  rfl

section Simulation

variable {w : UIWindow n} {es : List (Entry n)} {rank : Fin n}
variable {load : Bytes → SourceFile}

theorem respond_sim (h : w.Shows es) (hn : 0 < n) (response : Bool × List MiOutput) :
    Simulates (w.tracker.respond rank response) (w.respond rank load response)
      fun u => ∃ es', u.Shows es' := by
  unfold Tracker.respond UIWindow.respond
  split
  · exact (handleResponse_sim (h.withTracker _) hn response.2 rank load).mono fun u hu => hu.shown
  · exact simulates_ok rfl ⟨es, h.withTracker _⟩

theorem handleLine_sim (h : w.Shows es) (hn : 0 < n) (token : Bytes × Bytes) :
    Simulates (w.tracker.handleLine rank token) (w.handleLine rank load token)
      fun u => ∃ es', u.Shows es' := by
  unfold Tracker.handleLine UIWindow.handleLine
  cases miGetResponse (w.tracker.gdbHandle rank) (lineMemory token.1 token.2) with
  | error e => rfl
  | ok response => exact respond_sim h hn response

/-- A chunk does to the window what it does to the tracked state. -/
theorem handleDataGdb_sim (h : w.Shows es) (hn : 0 < n) (data : Bytes) :
    Simulates (w.tracker.handleDataGdb rank data) (w.handleDataGdb rank load data)
      fun u => ∃ es', u.Shows es' := by
  have hlines : ∀ (tokens : List (Bytes × Bytes)) (w : UIWindow n), (∃ es, w.Shows es) →
      Simulates (tokens.foldlM (Tracker.handleLine rank) w.tracker)
        (tokens.foldlM (handleLine rank load) w) fun u => ∃ es, u.Shows es := by
    intro tokens
    induction tokens with
    | nil => exact fun w hw => simulates_ok rfl hw
    | cons token tokens ih =>
        rintro w ⟨es, hes⟩
        exact (handleLine_sim hes hn token).bind ih
  have hdata := hlines (strtok [] (cstr data)) w ⟨es, h⟩
  unfold Tracker.handleDataGdb UIWindow.handleDataGdb
  cases hx : (strtok [] (cstr data)).foldlM (Tracker.handleLine rank) w.tracker with
  | error e =>
      rw [hx] at hdata
      have herror : (strtok [] (cstr data)).foldlM (handleLine rank load) w = .error e := hdata
      rw [herror]
      rfl
  | ok t =>
      rw [hx] at hdata
      obtain ⟨u, hu, rfl, es', hes'⟩ := hdata
      obtain ⟨v, hv, hredrawn⟩ := checkOverview_ok hes' rank
      obtain ⟨es'', -, hes''⟩ := hredrawn.shows es' hes'
      refine ⟨v, ?_, hredrawn.tracker, es'', hes''⟩
      rw [hu]
      exact hv

end Simulation

end UIWindow

end ParallelGdb
