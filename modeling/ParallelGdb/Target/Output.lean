import ParallelGdb.Library.CString
import ParallelGdb.Library.Utf8

/-!
# The output of the targets

`read_data` hands a copy of each message to the idle queue, the handler appends it
to the text buffer of the rank and to the one of all ranks. The copy ends at the
first NUL, and a text buffer takes nothing that is not valid UTF-8.
-/

namespace ParallelGdb.Target

open Library.CString

variable {n : Nat}

/-- `MAX_LENGTH`. -/
def maxLength : Nat := 8192

/-- What one call of `read_some` receives. -/
structure Message where
  bytes : Bytes
  nonempty : bytes ≠ []
  fits : bytes.length ≤ maxLength

/-- The memory `read_data` receives into. -/
structure ReceiveBuffer where
  data : Bytes
  size : data.length = maxLength + 8

/-- A message is put at the head of the memory and a NUL behind it. -/
def ReceiveBuffer.receive (memory : ReceiveBuffer) (message : Message) : ReceiveBuffer where
  data := message.bytes ++ 0 :: memory.data.drop (message.bytes.length + 1)
  size := by
    have hfits := message.fits
    have hsize := memory.size
    simp only [List.length_append, List.length_cons, List.length_drop]
    omega

/-- `insert` at the end of a text buffer. -/
def insert (buffer data : Bytes) : Bytes := if Library.Utf8.Valid data then buffer ++ data else buffer

/-- The connections of the ranks, which the ports tell apart. -/
inductive Source (n : Nat)
  | gdb (rank : Fin n)
  | trgt (rank : Fin n)
deriving DecidableEq

/-- The receive buffers of the connections, and `m_text_buffers_trgt`: one for each
rank and one for all of them. -/
structure Receiver (n : Nat) where
  memory : Source n → ReceiveBuffer
  textBuffersTrgt : Fin (n + 1) → Bytes

/-- `handle_data_trgt`. -/
def handleDataTrgt (data : Bytes) (rank : Fin n) (buffers : Fin (n + 1) → Bytes) :
    Fin (n + 1) → Bytes :=
  let buffers := Function.update buffers rank.castSucc (insert (buffers rank.castSucc) data)
  let all := insert (buffers (Fin.last n)) (ascii "-----" ++ natDigits rank ++ ascii "-----\n")
  Function.update buffers (Fin.last n) (insert all data)

/-- `handle_data`; what GDB writes goes to other text buffers. -/
def handleData (data : Bytes) (source : Source n) (buffers : Fin (n + 1) → Bytes) :
    Fin (n + 1) → Bytes :=
  match source with
  | .gdb _ => buffers
  | .trgt rank => handleDataTrgt data rank buffers

/-- One round of the loop of `read_data`, and the idle callback it queues. -/
def Receiver.deliver (s : Receiver n) (delivery : Source n × Message) : Receiver n :=
  let memory := (s.memory delivery.1).receive delivery.2
  { memory := Function.update s.memory delivery.1 memory
    textBuffersTrgt := handleData (cstr memory.data) delivery.1 s.textBuffersTrgt }

/-- The messages of the target of a rank. -/
def targetMessages (rank : Fin n) (deliveries : List (Source n × Message)) : List Bytes :=
  (deliveries.filter fun delivery => delivery.1 = .trgt rank).map fun delivery => delivery.2.bytes

/-- What a text buffer takes of a message. -/
def shown (message : Bytes) : Bytes :=
  if Library.Utf8.Valid (cstr message) then cstr message else []

section Shown

theorem insert_cstr (buffer message : Bytes) :
    insert buffer (cstr message) = buffer ++ shown message := by
  unfold insert shown
  split <;> simp

/-- What stood in the memory before is not copied. -/
theorem cstr_receive (memory : ReceiveBuffer) (message : Message) :
    cstr (memory.receive message).data = cstr message.bytes := by
  have hnul : ∀ data rest : Bytes, cstr (data ++ 0 :: rest) = cstr data := by
    intro data rest
    unfold cstr
    induction data with
    | nil => rfl
    | cons c data ih =>
        rw [List.cons_append, List.takeWhile_cons, List.takeWhile_cons, ih]
  exact hnul message.bytes _

/-- A message is shown unchanged exactly if it is a valid text without NUL. -/
theorem shown_eq_iff (message : Bytes) :
    shown message = message ↔ (∀ c ∈ message, c ≠ 0) ∧ Library.Utf8.Valid message := by
  have hcstr : cstr message = message ↔ ∀ c ∈ message, c ≠ 0 := by
    simp [cstr, List.takeWhile_eq_self_iff]
  rw [← hcstr]
  unfold shown
  split
  · rename_i hvalid
    constructor
    · intro h
      exact ⟨h, h ▸ hvalid⟩
    · exact fun h => h.1
  · rename_i hinvalid
    constructor
    · rintro rfl
      exact absurd Library.Utf8.valid_nil hinvalid
    · rintro ⟨h, hvalid⟩
      exact absurd (h.symm ▸ hvalid) hinvalid

theorem length_shown_le (message : Bytes) : (shown message).length ≤ message.length := by
  unfold shown
  split
  · exact (List.takeWhile_sublist _).length_le
  · exact Nat.zero_le _

/-- Nothing is lost in sum exactly if no message loses anything. -/
theorem flatten_shown_eq_iff (messages : List Bytes) :
    (messages.map shown).flatten = messages.flatten ↔ ∀ m ∈ messages, shown m = m := by
  have hlength : ∀ messages : List Bytes,
      (messages.map shown).flatten.length ≤ messages.flatten.length := by
    intro messages
    induction messages with
    | nil => exact le_rfl
    | cons m messages ih =>
        simp only [List.map_cons, List.flatten_cons, List.length_append]
        exact Nat.add_le_add (length_shown_le m) ih
  induction messages with
  | nil => simp
  | cons m messages ih =>
      rw [List.map_cons, List.flatten_cons, List.flatten_cons, List.forall_mem_cons]
      constructor
      · intro h
        have hsum := congrArg List.length h
        have hhead := length_shown_le m
        have htail := hlength messages
        simp only [List.length_append] at hsum
        obtain ⟨hm, hrest⟩ := List.append_inj h (by omega)
        exact ⟨hm, ih.mp hrest⟩
      · rintro ⟨hm, hrest⟩
        rw [hm, ih.mpr hrest]

end Shown

section Runs

variable {s : Receiver n} {rank : Fin n}

/-- A delivery adds to the text buffer of a rank what is shown of the message. -/
theorem deliver_textBuffer (s : Receiver n) (delivery : Source n × Message) (rank : Fin n) :
    (s.deliver delivery).textBuffersTrgt rank.castSucc =
      s.textBuffersTrgt rank.castSucc ++
        ((targetMessages rank [delivery]).map shown).flatten := by
  obtain ⟨source, message⟩ := delivery
  cases source with
  | gdb q => simp [Receiver.deliver, handleData, targetMessages]
  | trgt q =>
      have hlast : rank.castSucc ≠ Fin.last n := (Fin.castSucc_lt_last rank).ne
      simp only [Receiver.deliver, handleData, handleDataTrgt, Function.update_of_ne hlast]
      by_cases hq : q = rank
      · subst hq
        simp [targetMessages, insert_cstr, cstr_receive, shown]
      · have hne : rank.castSucc ≠ q.castSucc := fun h => hq (Fin.castSucc_injective n h.symm)
        simp [targetMessages, hq, hne]

theorem run_textBuffer (s : Receiver n) (deliveries : List (Source n × Message)) (rank : Fin n) :
    (deliveries.foldl Receiver.deliver s).textBuffersTrgt rank.castSucc =
      s.textBuffersTrgt rank.castSucc ++
        ((targetMessages rank deliveries).map shown).flatten := by
  induction deliveries generalizing s with
  | nil => simp [targetMessages]
  | cons delivery rest ih =>
      have hsplit : targetMessages rank (delivery :: rest) =
          targetMessages rank [delivery] ++ targetMessages rank rest := by
        rw [targetMessages, ← List.singleton_append, List.filter_append, List.map_append]
        rfl
      rw [List.foldl_cons, ih, deliver_textBuffer, hsplit, List.map_append, List.flatten_append,
        List.append_assoc]

/-- The text buffer of a rank holds what its target has written exactly if that
is free of NULs and no cut between two messages falls inside a character. -/
theorem target_output_iff (hempty : s.textBuffersTrgt rank.castSucc = [])
    {deliveries : List (Source n × Message)} {text : String}
    (hwritten : (targetMessages rank deliveries).flatten = Library.Utf8.bytes text) :
    (deliveries.foldl Receiver.deliver s).textBuffersTrgt rank.castSucc = Library.Utf8.bytes text ↔
      (∀ c ∈ Library.Utf8.bytes text, c ≠ 0) ∧
        ∀ k, Library.Utf8.Valid ((targetMessages rank deliveries).take k).flatten := by
  rw [run_textBuffer, hempty, List.nil_append, ← hwritten, flatten_shown_eq_iff,
    ← Library.Utf8.forall_valid_iff]
  simp only [shown_eq_iff, imp_and, forall_and]
  refine and_congr_left fun _ => ?_
  simp only [List.mem_flatten, forall_exists_index, and_imp]
  exact ⟨fun h c m hm hc => h m hm c hc, fun h m hm c hc => h c m hm hc⟩

/-- Before anything is received. -/
def Receiver.init (n : Nat) : Receiver n where
  memory := fun _ => ⟨List.replicate (maxLength + 8) 0, List.length_replicate⟩
  textBuffersTrgt := fun _ => []

/-- A message with these bytes from the target of the only rank. -/
def fromTarget (bytes : Bytes) (h : bytes ≠ [] ∧ bytes.length ≤ 3) : Source 1 × Message :=
  (.trgt 0, ⟨bytes, h.1, le_trans h.2 (by decide)⟩)

theorem wholeCharacters_shown :
    ([fromTarget [97, 195, 164] (by decide), fromTarget [10] (by decide)].foldl
      Receiver.deliver (Receiver.init 1)).textBuffersTrgt 0 = Library.Utf8.bytes "aä\n" := by
  have hwritten : (targetMessages 0
      [fromTarget [97, 195, 164] (by decide), fromTarget [10] (by decide)]).flatten =
      Library.Utf8.bytes "aä\n" := by decide
  have hcuts : ∀ k, Library.Utf8.Valid (((targetMessages 0
      [fromTarget [97, 195, 164] (by decide), fromTarget [10] (by decide)]).take k).flatten) :=
    (Library.Utf8.forall_valid_iff _).mp (by decide)
  have hplain : ∀ c ∈ Library.Utf8.bytes "aä\n", c ≠ 0 := by decide +kernel
  have hshown := (@target_output_iff 1 (Receiver.init 1) 0 rfl _ _ hwritten).mpr ⟨hplain, hcuts⟩
  rwa [Fin.castSucc_zero] at hshown

/-- Of a character that is cut nothing is shown, and of a message nothing behind
a NUL. -/
theorem cutCharacter_lost :
    ([fromTarget [195] (by decide), fromTarget [164] (by decide)].foldl
      Receiver.deliver (Receiver.init 1)).textBuffersTrgt 0 ≠ Library.Utf8.bytes "ä" ∧
    ([fromTarget [97, 0, 98] (by decide)].foldl
      Receiver.deliver (Receiver.init 1)).textBuffersTrgt 0 ≠ Library.Utf8.bytes "a\x00b" := by
  have hcut := run_textBuffer (Receiver.init 1)
    [fromTarget [195] (by decide), fromTarget [164] (by decide)] 0
  have hnul := run_textBuffer (Receiver.init 1) [fromTarget [97, 0, 98] (by decide)] 0
  rw [Fin.castSucc_zero] at hcut hnul
  rw [hcut, hnul]
  decide

end Runs

end ParallelGdb.Target
