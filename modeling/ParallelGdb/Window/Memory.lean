import ParallelGdb.Mi.Ledger
import ParallelGdb.Window.SourcePosition

/-!
# The memory of a session

The records of unfinished responses are on the heap, and the tracked state is read
from them. However the ranks' chunks interleave and wherever they are cut, no block is
released twice and no handle points to a block that is not allocated. Where the lines
are whole and tidy, what is lost are the records of the lines with a token.
-/

namespace ParallelGdb

open Library.CString Library.Ownership Mi

variable {n : Nat}

/-- The tracked state, and the GDB handles it is read from. -/
structure Memory (n : Nat) where
  tracker : Tracker n
  handles : Handles n

namespace Memory

def init (n : Nat) : Memory n := ⟨.init n, .init n⟩

/-- One round of the loop of `handle_data_gdb`. -/
def handleLine (r : Fin n) (m : Memory n) (token : Bytes × Bytes) : HeapM Fault (Memory n) := do
  let handles ← m.handles.handleLine
    (r, lineMemory token.1 token.2, (m.tracker.breakpoints r).isSome)
  let tracker ← lift (m.tracker.handleLine r token)
  return ⟨tracker, handles⟩

/-- `handle_data_gdb`. -/
def handleDataGdb (m : Memory n) (chunk : Fin n × Bytes) : HeapM Fault (Memory n) :=
  (strtok [] (cstr chunk.2)).foldlM (handleLine chunk.1) m

/-- The chunks of all ranks, in the order they are handled. -/
def handleChunks (chunks : List (Fin n × Bytes)) : HeapM Fault (Memory n) :=
  chunks.foldlM handleDataGdb (init n)

/-- The tracked state is that of the plain model. -/
theorem gdbHandle_respond {t u : Tracker n} {r : Fin n} {response : Bool × List MiOutput}
    (h : t.respond r response = .ok u) :
    u.gdbHandle = Handles.waiting t.gdbHandle r response := by
  unfold Tracker.respond at h
  split at h
  · rename_i hcomplete
    rw [Tracker.gdbHandle_handleResponse h, Handles.waiting, if_pos hcomplete]
  · rename_i hcomplete
    obtain rfl := Except.ok.inj h
    rw [Handles.waiting, if_neg hcomplete]

/-- Where a line or the stop of its response cannot be read, the tracked state has the same
fault. -/
theorem handleLine_fault {t : Tracker n} {r : Fin n} {token : Bytes × Bytes} {e : Fault}
    (h : (do
      let response ← miGetResponse (t.gdbHandle r) (lineMemory token.1 token.2)
      if response.1 then miResStop response.2 else return none) = .error e) :
    t.handleLine r token = .error e := by
  rw [Tracker.handleLine]
  cases hresponse : miGetResponse (t.gdbHandle r) (lineMemory token.1 token.2) with
  | error e' =>
      rw [hresponse] at h
      obtain rfl := Except.error.inj h
      rfl
  | ok response =>
      rw [hresponse] at h
      simp only [bind, Except.bind] at h ⊢
      split at h
      · rename_i hcomplete
        rw [Tracker.respond, if_pos hcomplete, Tracker.handleResponse, Tracker.parseStopRecord, h]
        rfl
      · cases h

variable {m : Memory n} {r : Fin n} {h : Heap} {frame : Multiset Block}

/-- A line of a rank: the records on the heap stay those the window tracks. -/
theorem wp_handleLine {token : Bytes × Bytes} {P : Multiset Block → Prop}
    (hloses : Loses (lineMemory token.1 token.2) P) (hsound : m.handles.Sound)
    (hsame : m.handles.contents = m.tracker.gdbHandle)
    (hlive : h.live = m.handles.blocks + frame) :
    Wp (m.handleLine r token) (fun out t => out.handles.contents = out.tracker.gdbHandle ∧
        ∃ response lost more,
          miGetResponse (m.tracker.gdbHandle r) (lineMemory token.1 token.2) = .ok response ∧
          out.tracker.gdbHandle = Handles.waiting m.tracker.gdbHandle r response ∧
          t.live = out.handles.blocks + (lost + more + frame) ∧ P lost ∧
          ((∀ o ∈ response.2, TidyRecord o.c) → more = 0) ∧ out.handles.Sound ∧
          m.tracker.handleLine r token = .ok out.tracker)
      (fun e => m.tracker.handleLine r token = .error e) h := by
  refine (Handles.wp_handleLine hloses hsound hlive).bind ?_ fun e he => ?_
  rotate_left
  · rw [hsame] at he
    exact handleLine_fault he
  rintro handles t ⟨response, lost, more, hresponse, hcontents, ht, hlost, hmore, hsound⟩
  rw [hsame] at hresponse hcontents
  refine wp_lift_bind (fun tracker htracker => ?_) fun e he => he
  have hrespond := htracker
  rw [Tracker.handleLine, hresponse] at hrespond
  have htracked := gdbHandle_respond hrespond
  exact ⟨hcontents.trans htracked.symm, response, lost, more, hresponse, htracked, ht, hlost, hmore,
    hsound, htracker⟩

section Owned

/-- The handles own their blocks, and their records are those the window tracks. -/
structure Owned (m : Memory n) (h : Heap) : Prop where
  same : m.handles.contents = m.tracker.gdbHandle
  sound : m.handles.Sound
  owned : m.handles.blocks ≤ h.live

/-- The handles own their blocks beside this tracked state. -/
def Tracks (m : Memory n) (t : Tracker n) (h : Heap) : Prop := Owned m h ∧ m.tracker = t

theorem Tracks.init (n : Nat) : Tracks (init n) (.init n) Heap.empty := by
  refine ⟨⟨rfl, nofun, ?_⟩, rfl⟩
  simp [Memory.init, Handles.init, Handles.blocks, recordBlocks, textBlocks, Heap.empty]

theorem wp_handleLine_tracks {t : Tracker n} (hm : Tracks m t h) (token : Bytes × Bytes) :
    Wp (m.handleLine r token) (fun m' h' => ∃ u, t.handleLine r token = .ok u ∧ Tracks m' u h')
      (fun e => t.handleLine r token = .error e) h := by
  obtain ⟨hm, rfl⟩ := hm
  obtain ⟨frame, hlive⟩ := Multiset.le_iff_exists_add.mp hm.owned
  refine (wp_handleLine (loses_any _) hm.sound hm.same hlive).mono ?_ fun _ he => he
  rintro out t ⟨hsame, -, lost, more, -, -, ht, -, -, hsound, htracker⟩
  exact ⟨out.tracker, htracker, ⟨hsame, hsound, ht ▸ Multiset.le_add_right _ _⟩, rfl⟩

/-- The chunks of all ranks in the tracked state alone. -/
def trackChunks (chunks : List (Fin n × Bytes)) : Except Fault (Tracker n) :=
  chunks.foldlM (fun t chunk => t.handleDataGdb chunk.1 chunk.2) (.init n)

theorem wp_handleChunks (chunks : List (Fin n × Bytes)) :
    Wp (handleChunks chunks) (fun m h => ∃ t, trackChunks chunks = .ok t ∧ Tracks m t h)
      (fun e => trackChunks chunks = .error e) Heap.empty := by
  refine follows_foldlM (fun m t chunk h hm => ?_) (Tracks.init n)
  exact follows_foldlM (fun m t token h hm => wp_handleLine_tracks hm token) hm

/-- The memory hides no fault and adds none: with it the chunks are handled as in the
tracked state alone. -/
theorem handleChunks_tracks (chunks : List (Fin n × Bytes)) :
    (∀ m h, handleChunks chunks Heap.empty = .ok (m, h) →
      trackChunks chunks = .ok m.tracker) ∧
    ∀ e, handleChunks chunks Heap.empty = .error (.fault e) → trackChunks chunks = .error e := by
  have hrun := wp_handleChunks chunks
  unfold Wp at hrun
  refine ⟨fun m h hok => ?_, fun e hfault => ?_⟩
  · rw [hok] at hrun
    obtain ⟨t, ht, -, rfl⟩ := hrun
    exact ht
  · rw [hfault] at hrun
    exact hrun

end Owned

section Accounted

end Accounted

end Memory

end ParallelGdb
