import ParallelGdb.Library.RankLoop
import ParallelGdb.Mi.Ends
import ParallelGdb.Mi.Opening
import ParallelGdb.Target.Output
import ParallelGdb.Window.Bounds

/-!
# Where the connection cuts

`read_some` receives what has arrived, so the text GDB writes comes in messages that end
anywhere. The parser is given each piece of a line as a line of its own.
-/

namespace ParallelGdb

open Library.CString Library.RankLoop Mi

/-- What GDB writes: no NUL, and a newline at the end. -/
structure GdbText where
  bytes : Bytes
  noNul : ∀ c ∈ bytes, c ≠ 0
  ended : bytes.getLast? = some (code '\n')

/-- The messages a text is received in. -/
structure Cutting (text : Bytes) where
  messages : List Target.Message
  whole : messages.flatMap Target.Message.bytes = text

/-- The chunks that are handed to `handle_data_gdb`. -/
def Cutting.chunks {text : Bytes} (cutting : Cutting text) : List Bytes :=
  cutting.messages.map Target.Message.bytes

/-- What the window knows of a rank. -/
structure Observed where
  targetState : TargetState
  currentFile : Bytes
  currentLine : Int
  exitCode : Int
  sentStop : Bool
  bkptno2Bkpt : Int → Option BkptId
  /-- The number each Breakpoint has on the rank. -/
  numbers : BkptId → Option Int
  textBufferGdb : Bytes

def Tracker.observed {n : Nat} (r : Fin n) (t : Tracker n) : Observed where
  targetState := t.targetState r
  currentFile := t.currentFile r
  currentLine := t.currentLine r
  exitCode := t.exitCode r
  sentStop := t.sentStop r
  bkptno2Bkpt := t.bkptno2Bkpt r
  numbers b := (t.objects b).map fun bp => bp.numbers r
  textBufferGdb := t.textBuffersGdb r

/-- From every state and in whatever messages it comes, the text is handled and the same
is known of the rank afterwards. -/
def CutIndependent {n : Nat} (r : Fin n) (text : Bytes) : Prop :=
  ∀ (t : Tracker n) (c c' : Cutting text), ∃ u u',
    t.handleChunks r c.chunks = .ok u ∧ t.handleChunks r c'.chunks = .ok u' ∧
      u.observed r = u'.observed r

/-- The parser stays in the memory of a chunk that ends with the piece of a line. -/
def StaysInMemory (piece : Bytes) : Prop :=
  ∃ response, miGetResponse [] (lineMemory piece []) = .ok response

section Cuttings

def singleMessage (c : UInt8) : Target.Message where
  bytes := [c]
  nonempty := List.cons_ne_nil c []
  fits := by
    rw [List.length_singleton, Target.maxLength]
    omega

/-- Each character in a message of its own. -/
def singles (text : Bytes) : List Target.Message := text.map singleMessage

theorem flatMap_singles (text : Bytes) : (singles text).flatMap Target.Message.bytes = text := by
  rw [singles, List.flatMap_map]
  exact List.flatMap_singleton' text

def Cutting.single (text : Bytes) : Cutting text where
  messages := singles text
  whole := flatMap_singles text

/-- Only one piece of the text is received at once. -/
def Cutting.around (before : Bytes) (piece : Target.Message) (after : Bytes) :
    Cutting (before ++ piece.bytes ++ after) where
  messages := singles before ++ piece :: singles after
  whole := by
    rw [List.flatMap_append, List.flatMap_cons, flatMap_singles, flatMap_singles,
      List.append_assoc]

end Cuttings

section Single

variable {n : Nat}

/-- A chunk of one character is no line the parser knows. -/
theorem handleDataGdb_single (r : Fin n) (t : Tracker n) {c : UInt8} (hc : c ≠ 0) :
    t.handleDataGdb r [c] = .ok t := by
  have hrespond : t.respond r (false, t.gdbHandle r) = .ok t := by
    rw [Tracker.respond, if_neg Bool.false_ne_true, Function.update_eq_self]
  have hcstr : cstr [c] = [c] := cstr_of_forall (List.forall_mem_singleton.mpr hc)
  have hresponse : miGetResponse (t.gdbHandle r) (lineMemory [c] []) =
      .ok (false, t.gdbHandle r) := by
    by_cases hcr : c = code '\r'
    · rw [hcr]
      rfl
    · have hmemory : lineMemory [c] [] = [c, 0] := by
        rw [lineMemory, if_neg (by simpa using hcr)]
        rfl
      rw [hmemory, miGetResponse_single]
  rw [Tracker.handleDataGdb, hcstr, strtok]
  by_cases hnewline : c = code '\n'
  · rw [if_pos hnewline]
    rfl
  · rw [if_neg hnewline, strtok, List.nil_append, if_neg (List.cons_ne_nil c []),
      List.foldlM_cons, Tracker.handleLine, hresponse]
    change t.respond r (false, t.gdbHandle r) >>= _ = _
    rw [hrespond]
    rfl

/-- Of a text that comes character by character nothing is handled. -/
theorem handleChunks_singles (r : Fin n) (t : Tracker n) {text : Bytes}
    (htext : ∀ c ∈ text, c ≠ 0) :
    t.handleChunks r ((singles text).map Target.Message.bytes) = .ok t := by
  rw [Tracker.handleChunks]
  induction text with
  | nil => rfl
  | cons c text ih =>
      have hfirst : t.handleDataGdb r (singleMessage c).bytes = .ok t :=
        handleDataGdb_single r t (htext c List.mem_cons_self)
      rw [singles, List.map_cons, List.map_cons, List.foldlM_cons, hfirst]
      exact ih fun d hd => htext d (List.mem_cons_of_mem c hd)

/-- Only the piece that is received at once is handled. -/
theorem handleChunks_around (r : Fin n) (t : Tracker n) {before after : Bytes}
    {piece : Target.Message} (htext : ∀ c ∈ before ++ piece.bytes ++ after, c ≠ 0) :
    t.handleChunks r (Cutting.around before piece after).chunks =
      t.handleDataGdb r piece.bytes := by
  have hbefore : t.handleChunks r ((singles before).map Target.Message.bytes) = .ok t :=
    handleChunks_singles r t fun c hc => htext c (by simp [hc])
  have hafter (u : Tracker n) :
      u.handleChunks r ((singles after).map Target.Message.bytes) = .ok u :=
    handleChunks_singles r u fun c hc => htext c (by simp [hc])
  rw [Tracker.handleChunks] at hbefore
  rw [Tracker.handleChunks, Cutting.chunks, Cutting.around, List.map_append, List.map_cons,
    List.foldlM_append, hbefore]
  change t.handleDataGdb r piece.bytes >>= _ = _
  cases t.handleDataGdb r piece.bytes with
  | error e => rfl
  | ok u => exact hafter u

end Single

section Pieces

variable {n : Nat} {text : Bytes}

/-- A piece of a line is the only token of its chunk. -/
theorem strtok_piece {piece : Bytes} (hline : OneLine piece) (hne : piece ≠ []) :
    strtok [] piece = [(piece, [])] := by
  have h := strtok_append hline [] []
  rwa [List.append_nil, List.nil_append, strtok, if_neg hne] at h

/-- The memory behind a token begins with what is behind it at the end of a chunk. -/
theorem lineMemory_behind (token behind : Bytes) :
    lineMemory token behind = lineMemory token [] ++ behind := by
  rw [lineMemory, lineMemory]
  split
  · simp
  · simp

theorem lineOf_begins (token : Bytes) : lineOf token <+: token := by
  rw [lineOf]
  split
  · exact List.dropLast_prefix token
  · exact List.prefix_rfl

/-- What the memory of a line begins with the line begins with, up to a NUL. -/
theorem begins_of_memory {literal line x : Bytes} (hzero : ∀ c ∈ literal, c ≠ 0)
    (h : literal <+: line ++ [0] ++ x) : literal <+: line := by
  rw [List.append_assoc] at h
  by_cases hlength : literal.length ≤ line.length
  · exact List.prefix_of_prefix_length_le h (List.prefix_append line _) hlength
  · have hline : line ++ [0] <+: literal := by
      rw [← List.append_assoc] at h
      refine List.prefix_of_prefix_length_le (List.prefix_append _ x) h ?_
      rw [List.length_append, List.length_singleton]
      omega
    exact absurd rfl (hzero 0 (hline.subset (by simp)))

/-- What a response ends with can be received in one message. -/
theorem responseEnds_received : ∀ s ∈ responseEnds,
    (∀ c ∈ ascii s, c ≠ 0) ∧ ascii s ≠ [] ∧ (ascii s).length ≤ Target.maxLength := by
  decide +kernel

/-- A piece that neither ends a response nor leaves its memory only adds to the handle. -/
theorem handleLine_unfinished (r : Fin n) (t : Tracker n)
    (hends : ∀ s ∈ responseEnds, ¬ ascii s <:+: text) {p : Bytes × Bytes} (hp : p.1 <:+: text)
    (hstays : StaysInMemory p.1) :
    ∃ handle, t.handleLine r p = .ok { t with gdbHandle := handle } := by
  obtain ⟨⟨complete, records⟩, hresponse⟩ := hstays
  replace hresponse := miGetResponse_append hresponse p.2
  rw [← lineMemory_behind] at hresponse
  rw [Tracker.handleLine, miGetResponse_records hresponse]
  cases complete with
  | false => exact ⟨_, rfl⟩
  | true =>
      obtain ⟨s, hs, hbegins⟩ := begins_of_miGetResponse hresponse
      obtain ⟨x, hx⟩ := lineMemory_eq p.1 p.2
      rw [hx] at hbegins
      have hline := begins_of_memory (responseEnds_received s hs).1 hbegins
      exact absurd ((hline.trans (lineOf_begins p.1)).isInfix.trans hp) (hends s hs)

/-- Without a carriage return at its end, the piece is the line the parser is given. -/
theorem staysInMemory_iff {piece : Bytes} (hzero : ∀ c ∈ piece, c ≠ 0)
    (hcr : piece.getLast? ≠ some (code '\r')) :
    StaysInMemory piece ↔ lineRunsOut piece = false := by
  rw [StaysInMemory, lineMemory, if_neg hcr]
  exact miGetResponse_ok_iff [] hzero

theorem staysInMemory_of_lineOf {piece : Bytes} (hzero : ∀ c ∈ lineOf piece, c ≠ 0)
    (h : lineRunsOut (lineOf piece) = false) : StaysInMemory piece := by
  obtain ⟨response, hresponse⟩ := (miGetResponse_ok_iff [] hzero).mpr h
  obtain ⟨x, hx⟩ := lineMemory_eq piece []
  exact ⟨response, hx ▸ miGetResponse_append hresponse x⟩

/-- A piece that leaves its memory ends with a backslash or goes on behind a quote, so a
piece that does so without a carriage return at its end can be cut, too. -/
theorem staysInMemory_pieces_iff (htext : ∀ c ∈ text, c ≠ 0) :
    (∀ piece, piece <:+: text → OneLine piece → piece.length ≤ Target.maxLength →
      StaysInMemory piece) ↔
    ∀ piece, piece <:+: text → OneLine piece → piece.length ≤ Target.maxLength →
      lineRunsOut piece = false := by
  constructor
  · intro h piece hpiece hline hfits
    by_contra hruns
    rw [Bool.not_eq_false] at hruns
    rcases lineRunsOut_opening hruns with hlast | ⟨v, hv, hend⟩
    · have hstays := h piece hpiece hline hfits
      rw [staysInMemory_iff (fun c hc => htext c (hpiece.subset hc)) (by rw [hlast]; decide),
        hruns] at hstays
      cases hstays
    · have hinside := hv.isInfix.trans hpiece
      have hstays := h _ hinside (fun c hc => hline c (hv.subset hc)) (hv.length_le.trans hfits)
      rw [staysInMemory_iff (fun c hc => htext c (hinside.subset hc))
        (by rw [List.getLast?_concat]; decide), hend] at hstays
      cases hstays
  · intro h piece hpiece hline hfits
    have hbegins := lineOf_begins piece
    have hinside := hbegins.isInfix.trans hpiece
    refine staysInMemory_of_lineOf (fun c hc => htext c (hinside.subset hc)) ?_
    exact h _ hinside (fun c hc => hline c (hbegins.subset hc)) (hbegins.length_le.trans hfits)

/-- Where no piece of the text does, the chunks only add to the handle. -/
theorem handleChunks_unfinished (r : Fin n) (t : Tracker n) (htext : ∀ c ∈ text, c ≠ 0)
    (hends : ∀ s ∈ responseEnds, ¬ ascii s <:+: text)
    (hstays : ∀ piece, piece <:+: text → OneLine piece → piece.length ≤ Target.maxLength →
      StaysInMemory piece) (c : Cutting text) :
    ∃ u, t.handleChunks r c.chunks = .ok u ∧ ∃ handle, u = { t with gdbHandle := handle } := by
  refine foldlM_ok c.chunks (P := fun u => ∃ handle, u = { t with gdbHandle := handle })
    (fun u chunk hchunk hu => ?_) ⟨t.gdbHandle, rfl⟩
  obtain ⟨message, hmessage, rfl⟩ := List.mem_map.mp hchunk
  have hinside : message.bytes <:+: text := by
    have := List.infix_of_mem_flatten (List.mem_map_of_mem (f := Target.Message.bytes) hmessage)
    rwa [← List.flatMap_def, c.whole] at this
  have hcstr : cstr message.bytes = message.bytes :=
    cstr_of_forall fun b hb => htext b (hinside.subset hb)
  rw [Tracker.handleDataGdb, hcstr]
  refine foldlM_ok _ (fun u p hp hu => ?_) hu
  obtain ⟨handle, rfl⟩ := hu
  have hpiece : p.1 <:+: message.bytes := token_isInfix hp
  have hline : OneLine p.1 :=
    oneLine_of_mem_strtok (fun c hc => absurd hc List.not_mem_nil) hp
  have hmemory := hstays p.1 (hpiece.trans hinside) hline (hpiece.length_le.trans message.fits)
  obtain ⟨handle', h⟩ := handleLine_unfinished r { t with gdbHandle := handle } hends
    (hpiece.trans hinside) hmemory
  exact ⟨_, h, handle', rfl⟩

end Pieces

section Lines

variable {n : Nat}

/-- Behind a newline a chunk is cut into tokens as a chunk of its own. -/
theorem strtok_newline {first : Bytes} (hlast : first.getLast? = some (code '\n'))
    (token rest : Bytes) :
    (strtok token (first ++ rest)).map Prod.fst =
      (strtok token first).map Prod.fst ++ (strtok [] rest).map Prod.fst := by
  have hfirst (token x : Bytes) : List.map Prod.fst (if token = [] then [] else [(token, x)]) =
      if token = [] then [] else [token] := by
    split <;> rfl
  induction first generalizing token with
  | nil => cases hlast
  | cons c first ih =>
      rw [List.cons_append, strtok, strtok]
      cases first with
      | nil =>
          obtain rfl : c = code '\n' := Option.some.inj hlast
          rw [if_pos rfl, if_pos rfl, List.map_append, List.map_append, hfirst, hfirst]
          simp only [List.nil_append, strtok, if_true, List.map_nil, List.append_nil]
      | cons d first =>
          rw [List.getLast?_cons_cons] at hlast
          by_cases hc : c = code '\n'
          · rw [if_pos hc, if_pos hc, List.map_append, List.map_append, hfirst, hfirst,
              ih hlast, List.append_assoc]
          · rw [if_neg hc, if_neg hc, ih hlast]

/-- What is behind a line that stays in its memory does not matter to it. -/
theorem handleLine_behind (r : Fin n) (t : Tracker n) {p : Bytes × Bytes}
    (h : StaysInMemory p.1) : t.handleLine r p = t.handleLine r (p.1, []) := by
  obtain ⟨response, hresponse⟩ := h
  have hrecords := miGetResponse_records hresponse (t.gdbHandle r)
  rw [Tracker.handleLine, Tracker.handleLine, lineMemory_behind,
    miGetResponse_append hrecords p.2, hrecords]

/-- A chunk is handled line by line. -/
theorem handleDataGdb_lines (r : Fin n) (t : Tracker n) {data : Bytes}
    (hdata : ∀ c ∈ data, c ≠ 0) (hstays : ∀ line ∈ (strtok [] data).map Prod.fst,
      StaysInMemory line) :
    t.handleDataGdb r data =
      ((strtok [] data).map Prod.fst).foldlM (fun t line => t.handleLine r (line, [])) t := by
  rw [Tracker.handleDataGdb, cstr_of_forall hdata]
  revert hstays
  generalize strtok [] data = tokens
  intro hstays
  induction tokens generalizing t with
  | nil => rfl
  | cons p tokens ih =>
      rw [List.map_cons] at hstays ⊢
      rw [List.foldlM_cons, List.foldlM_cons,
        handleLine_behind r t (hstays p.1 List.mem_cons_self)]
      exact congrArg _ (funext fun u => ih u fun line hline =>
        hstays line (List.mem_cons_of_mem _ hline))

/-- Whole lines are received. -/
def Cutting.BehindNewlines {text : Bytes} (cutting : Cutting text) : Prop :=
  ∀ chunk ∈ cutting.chunks, chunk.getLast? = some (code '\n')

/-- Messages of whole lines are handled as the lines of the text. -/
theorem handleChunks_lines (r : Fin n) (t : Tracker n) {text : Bytes}
    (htext : ∀ c ∈ text, c ≠ 0) (hstays : ∀ line ∈ (strtok [] text).map Prod.fst,
      StaysInMemory line) {cutting : Cutting text} (h : cutting.BehindNewlines) :
    t.handleChunks r cutting.chunks =
      ((strtok [] text).map Prod.fst).foldlM (fun t line => t.handleLine r (line, [])) t := by
  obtain ⟨messages, rfl⟩ := cutting
  rw [Tracker.handleChunks]
  unfold Cutting.BehindNewlines Cutting.chunks at *
  induction messages generalizing t with
  | nil => rfl
  | cons message messages ih =>
      rw [List.map_cons] at h ⊢
      rw [List.flatMap_cons] at htext hstays ⊢
      rw [strtok_newline (h _ List.mem_cons_self)] at hstays ⊢
      rw [List.foldlM_cons, List.foldlM_append,
        handleDataGdb_lines r t (fun c hc => htext c (List.mem_append_left _ hc))
          fun line hline => hstays line (List.mem_append_left _ hline)]
      exact congrArg _ (funext fun u => ih u
        (fun c hc => htext c (List.mem_append_right _ hc))
        (fun line hline => hstays line (List.mem_append_right _ hline))
        fun chunk hchunk => h chunk (List.mem_cons_of_mem _ hchunk))

end Lines

section Differ

variable {n : Nat}

/-- A target runs, and a record that it stopped waits for the end of its response. -/
def waitingStop (n : Nat) : Tracker n :=
  { Tracker.init n with
    targetState := fun _ => .running
    gdbHandle := fun _ => [{ tclass := .stopped }] }

/-- The end of the response stops the target. -/
theorem handleDataGdb_end (r : Fin n) {s : String} (hs : s ∈ responseEnds) :
    ∃ u, (waitingStop n).handleDataGdb r (ascii s) = .ok u ∧ u.targetState r = .stopped := by
  simp only [responseEnds, List.mem_cons, List.not_mem_nil, or_false] at hs
  rcases hs with rfl | rfl
  · exact ⟨_, rfl, Function.update_self r _ _⟩
  · exact ⟨_, rfl, Function.update_self r _ _⟩

/-- Where the cuts do not matter, a piece of the text can be handled as if nothing was
received. -/
theorem CutIndependent.piece {r : Fin n} {before after : Bytes} (piece : Target.Message)
    (htext : ∀ c ∈ before ++ piece.bytes ++ after, c ≠ 0)
    (h : CutIndependent r (before ++ piece.bytes ++ after)) (t : Tracker n) :
    ∃ u, t.handleDataGdb r piece.bytes = .ok u ∧ u.observed r = t.observed r := by
  obtain ⟨u, u', hu, hu', heq⟩ := h t (Cutting.around before piece after) (Cutting.single _)
  rw [handleChunks_around r t htext] at hu
  obtain rfl := Except.ok.inj ((handleChunks_singles r t htext).symm.trans hu')
  exact ⟨u, hu, heq⟩

end Differ

/-- It does not matter where the text is cut exactly if nothing in it can end a response
and the parser does not run out of any piece of a line. -/
theorem cutIndependent_iff {n : Nat} (r : Fin n) (text : GdbText) :
    CutIndependent r text.bytes ↔
      (∀ s ∈ responseEnds, ¬ ascii s <:+: text.bytes) ∧
      ∀ piece, piece <:+: text.bytes → OneLine piece → piece.length ≤ Target.maxLength →
        lineRunsOut piece = false := by
  obtain ⟨bytes, hzero, -⟩ := text
  rw [← staysInMemory_pieces_iff hzero]
  constructor
  · intro h
    constructor
    · rintro s hs ⟨before, after, rfl⟩
      obtain ⟨-, hne, hfits⟩ := responseEnds_received s hs
      obtain ⟨u, hu, heq⟩ := h.piece ⟨ascii s, hne, hfits⟩ hzero (waitingStop n)
      obtain ⟨v, hv, hstopped⟩ := handleDataGdb_end r hs
      obtain rfl := Except.ok.inj (hu.symm.trans hv)
      have hrunning : u.targetState r = .running := congrArg Observed.targetState heq
      rw [hstopped] at hrunning
      cases hrunning
    · rintro piece ⟨before, after, rfl⟩ hline hfits
      by_cases hne : piece = []
      · rw [hne]
        exact ⟨_, rfl⟩
      obtain ⟨u, hu, -⟩ := h.piece ⟨piece, hne, hfits⟩ hzero (Tracker.init n)
      have hcstr : cstr piece = piece := cstr_of_forall fun c hc => hzero c (by simp [hc])
      rw [Tracker.handleDataGdb, hcstr, strtok_piece hline hne, List.foldlM_cons] at hu
      obtain ⟨v, hv, -⟩ := bind_eq_ok.mp hu
      obtain ⟨response, hresponse, -⟩ := bind_eq_ok.mp hv
      exact ⟨response, hresponse⟩
  · rintro ⟨hends, hstays⟩ t c c'
    obtain ⟨u, hu, handle, rfl⟩ := handleChunks_unfinished r t hzero hends hstays c
    obtain ⟨u', hu', handle', rfl⟩ := handleChunks_unfinished r t hzero hends hstays c'
    exact ⟨_, _, hu, hu', rfl⟩

/-- The target has exited. -/
def exitText : GdbText where
  bytes := ascii "*stopped,reason=\"exited-normally\"\n(gdb) \n"
  noNul := by decide +kernel
  ended := by decide +kernel

/-- The text in one message. -/
def wholeExit : Cutting exitText.bytes where
  messages := [⟨exitText.bytes, by decide +kernel, by decide +kernel⟩]
  whole := by decide +kernel

/-- The class of the record is cut in two. -/
def cutExit : Cutting exitText.bytes where
  messages := [⟨ascii "*sto", by decide +kernel, by decide +kernel⟩,
    ⟨ascii "pped,reason=\"exited-normally\"\n(gdb) \n", by decide +kernel, by decide +kernel⟩]
  whole := by decide +kernel

/-- Where the record is cut, the window does not learn of the exit. -/
theorem cutExit_lost :
    ((Tracker.init 1).handleChunks 0 wholeExit.chunks).toOption.map (·.targetState 0) =
      some .exited ∧
    ((Tracker.init 1).handleChunks 0 cutExit.chunks).toOption.map (·.targetState 0) =
      some .unknown ∧
    ¬ CutIndependent (0 : Fin 1) exitText.bytes := by
  have hwhole : ((Tracker.init 1).handleChunks 0 wholeExit.chunks).toOption.map
      (·.targetState 0) = some .exited := by
    decide +kernel
  have hcut : ((Tracker.init 1).handleChunks 0 cutExit.chunks).toOption.map
      (·.targetState 0) = some .unknown := by
    decide +kernel
  refine ⟨hwhole, hcut, fun h => ?_⟩
  obtain ⟨u, u', hu, hu', heq⟩ := h (Tracker.init 1) wholeExit cutExit
  rw [hu] at hwhole
  rw [hu'] at hcut
  have hexited : u.targetState 0 = .exited := Option.some.inj hwhole
  have hunknown : u'.targetState 0 = .unknown := Option.some.inj hcut
  have hstate : u.targetState 0 = u'.targetState 0 := congrArg Observed.targetState heq
  rw [hexited, hunknown] at hstate
  cases hstate

end ParallelGdb
