import ParallelGdb.Library.Interleaving
import ParallelGdb.Master.Connections
import ParallelGdb.Window.Alone

/-!
# What the threads deliver

Between a connection and the handler of its data are a thread, which runs whenever it
likes, and the queue of the idle handler, which all threads share. Of each connection
every message is handled once and in order. What the window shows of a rank therefore
depends on what the rank's own connections wrote, and not on the order of the threads.
-/

namespace ParallelGdb.Master

open Library.CString Library.Interleaving Library.Transition Target

variable {n : Nat} {base : Int} {m m' : Master n} {a : Act n}
variable {tr tr' : List (Master n × Act n)}

/-- What a step receives, with the offset of the port. -/
def readItem (_ : Master n) : Act n → Option (Fin (2 * n) × Bytes)
  | .readSome k message => some (k, message.bytes)
  | _ => none

/-- What a step queues. -/
def queueItem (base : Int) (m : Master n) (a : Act n) : Option (Bytes × Int) :=
  (m.readItem a).map fun p => (cstr p.2, threadPort base p.1)

/-- The queued callback a step runs. -/
def idleItem (m : Master n) : Act n → Option (Bytes × Int)
  | .runIdle => m.idle.head?
  | _ => none

/-- The connection a queued callback belongs to. -/
def sourceItem (n : Nat) (base : Int) (p : Bytes × Int) : Option (Source n × Bytes) :=
  (sourceOf n base p.2).map fun c => (c, p.1)

/-- The data a step handles, with the connection it came from. -/
def handledItem (base : Int) (m : Master n) (a : Act n) : Option (Source n × Bytes) :=
  (m.idleItem a).bind (sourceItem n base)

/-- The messages of a connection, in the order they were received. -/
def received (tr : List (Master n × Act n)) (c : Source n) : List Bytes :=
  project c.offset (carried readItem tr)

/-- The data handled in a history. -/
def handled (base : Int) (tr : List (Master n × Act n)) : List (Source n × Bytes) :=
  carried (handledItem base) tr

/-- The data of a connection that is still queued. -/
def queued (base : Int) (m : Master n) (c : Source n) : List Bytes :=
  project c (m.idle.filterMap (sourceItem n base))

section Queue

/-- The idle handler runs the callbacks in the order they were queued. -/
theorem queue_fifo (run : Run (system n base) tr m) :
    carried (queueItem base) tr = carried idleItem tr ++ m.idle := by
  refine fifo Master.idle ?_ ?_ run
  · rintro s ⟨memory, rfl⟩
    rfl
  · intro s a t hstep
    cases (next_effect hstep).2 with
    | readSome hk => simp [queueItem, readItem, idleItem, receive, cstr_receive]
    | gdb hidle hc hwindow => simp [queueItem, readItem, idleItem, hidle, setWindow]
    | trgt hidle hc => simp [queueItem, readItem, idleItem, hidle]
    | @register k c hk hc =>
        cases c <;> simp [queueItem, readItem, idleItem, setThread, setConns, setWindow]
    | @readEof k c hk hc =>
        cases c <;> simp [queueItem, readItem, idleItem, setThread, setConns, setWindow]
    | accept hk => simp [queueItem, readItem, idleItem, setThread]
    | leave hk => simp [queueItem, readItem, idleItem, setThread]
    | readError hk => simp [queueItem, readItem, idleItem]
    | user hphase ha hnext => simp [queueItem, readItem, idleItem]
    | waited hphase hall => simp [queueItem, readItem, idleItem]
    | waits hphase hall => simp [queueItem, readItem, idleItem]
    | cancelWait hphase => simp [queueItem, readItem, idleItem]
    | quit hphase => simp [queueItem, readItem, idleItem]

theorem carried_queueItem (tr : List (Master n × Act n)) :
    carried (queueItem base) tr =
      (carried readItem tr).map fun p => (cstr p.2, threadPort base p.1) := by
  unfold carried queueItem
  rw [List.map_filterMap]

theorem handled_eq (tr : List (Master n × Act n)) :
    handled base tr = (carried idleItem tr).filterMap (sourceItem n base) := by
  unfold handled carried handledItem
  rw [List.filterMap_filterMap]

/-- The ports lead what was received back to its connection. -/
theorem project_sources (hbase : GoodPorts n base) (c : Source n)
    (items : List (Fin (2 * n) × Bytes)) :
    project c ((items.map fun p => (cstr p.2, threadPort base p.1)).filterMap
      (sourceItem n base)) = (project c.offset items).map cstr := by
  induction items with
  | nil => rfl
  | cons p items ih =>
      obtain ⟨k, bytes⟩ := p
      obtain ⟨d, rfl⟩ := exists_offset k
      have hitem : sourceItem n base (cstr bytes, threadPort base d.offset) =
          some (d, cstr bytes) := by
        rw [sourceItem, sourceOf_threadPort hbase]
        rfl
      rw [List.map_cons, List.filterMap_cons_some hitem, ← List.singleton_append,
        ← List.singleton_append (l := items), project_append, project_append, List.map_append, ih]
      congr 1
      by_cases hd : d = c
      · subst hd
        simp
      · have hoffset : d.offset ≠ c.offset := fun h => hd (offset_injective n h)
        rw [project_singleton_of_ne hd, project_singleton_of_ne hoffset]
        rfl

/-- What was received of a connection are its parts of what was handled and of what is
queued. -/
theorem received_eq (hbase : GoodPorts n base) (run : Run (system n base) tr m)
    (c : Source n) : (received tr c).map cstr =
      project c (handled base tr ++ m.idle.filterMap (sourceItem n base)) := by
  rw [received, ← project_sources hbase, ← carried_queueItem, queue_fifo run,
    List.filterMap_append, ← handled_eq]

/-- Every message of a connection is handled once and in order: what was received is
what was handled followed by what is still queued. -/
theorem delivered_in_order (hbase : GoodPorts n base) (run : Run (system n base) tr m)
    (c : Source n) :
    (received tr c).map cstr = project c (handled base tr) ++ queued base m c := by
  rw [received_eq hbase run, project_append]
  rfl

/-- With an empty queue everything that was received was handled. -/
theorem handled_of_idle (hbase : GoodPorts n base) (run : Run (system n base) tr m)
    (hidle : m.idle = []) (c : Source n) :
    project c (handled base tr) = (received tr c).map cstr := by
  rw [received_eq hbase run, hidle, List.filterMap_nil, List.append_nil]

end Queue

section Views

/-- A step that handles data runs the oldest callback; the others leave what the
window shows of the ranks' output. -/
theorem handles_of_effect (heffect : m.Effect base a m') :
    (∃ data port rest c, m.idle = (data, port) :: rest ∧ a = .runIdle ∧
      sourceOf n base port = some c ∧ handledItem base m a = some (c, data)) ∨
    handledItem base m a = none ∧ m'.textBuffersTrgt = m.textBuffersTrgt ∧
      ∀ r, m'.session.window.output r = m.session.window.output r := by
  cases heffect with
  | @gdb data port rest rank window hidle hc hwindow =>
      exact Or.inl ⟨data, port, rest, _, hidle, rfl, hc, by
        simp [handledItem, idleItem, hidle, sourceItem, hc]⟩
  | @trgt data port rest rank hidle hc =>
      exact Or.inl ⟨data, port, rest, _, hidle, rfl, hc, by
        simp [handledItem, idleItem, hidle, sourceItem, hc]⟩
  | @register k c hk hc => cases c <;> exact Or.inr ⟨rfl, rfl, fun r => rfl⟩
  | @readEof k c hk hc => cases c <;> exact Or.inr ⟨rfl, rfl, fun r => rfl⟩
  | user hphase ha hnext =>
      refine Or.inr ⟨rfl, rfl, fun r => ?_⟩
      obtain ⟨objects, breakpoints, sentGdb, hwindow⟩ := Session.user_window ha hnext
      rw [hwindow]
      rfl
  | accept hk => exact Or.inr ⟨rfl, rfl, fun r => rfl⟩
  | leave hk => exact Or.inr ⟨rfl, rfl, fun r => rfl⟩
  | readSome hk => exact Or.inr ⟨rfl, rfl, fun r => rfl⟩
  | readError hk => exact Or.inr ⟨rfl, rfl, fun r => rfl⟩
  | waited hphase hall => exact Or.inr ⟨rfl, rfl, fun r => rfl⟩
  | waits hphase hall => exact Or.inr ⟨rfl, rfl, fun r => rfl⟩
  | cancelWait hphase => exact Or.inr ⟨rfl, rfl, fun r => rfl⟩
  | quit hphase => exact Or.inr ⟨rfl, rfl, fun r => rfl⟩

/-- What is kept of a connection's output. -/
def view (m : Master n) : Source n → Output ⊕ Bytes
  | .gdb rank => .inl (m.session.window.output rank)
  | .trgt rank => .inr (m.textBuffersTrgt rank.castSucc)

/-- What a window of its own would make of the same data. -/
def Alone : Source n → List Bytes → Output ⊕ Bytes → Prop
  | .gdb _, chunks, view => ∃ t : Tracker 1,
      (Tracker.init 1).handleChunks (Fin.last 0) chunks = .ok t ∧
        t.NoBreakpoints ∧ view = .inl (t.output (Fin.last 0))
  | .trgt _, chunks, view => view = .inr (chunks.foldl Target.insert [])

theorem view_alone (run : Run (system n base) tr m) (c : Source n) :
    Alone c (project c (handled base tr)) (m.view c) := by
  refine seen view Alone ?_ ?_ ?_ run c
  · rintro s ⟨memory, rfl⟩ c
    cases c with
    | gdb rank => exact ⟨Tracker.init 1, rfl, .init, rfl⟩
    | trgt rank => rfl
  · intro s a t _ hstep hnone
    obtain ⟨data, port, rest, c, -, -, -, hsome⟩ | ⟨-, htrgt, houtput⟩ :=
      handles_of_effect (next_effect hstep).2
    · rw [hnone] at hsome
      cases hsome
    · funext c
      cases c with
      | gdb rank => exact congrArg Sum.inl (houtput rank)
      | trgt rank => exact congrArg Sum.inr (congrFun htrgt rank.castSucc)
  · intro s a t c x _ hstep hitem
    cases (next_effect hstep).2 with
    | @gdb data port rest rank window hidle hc hwindow =>
        simp only [handledItem, idleItem, hidle, List.head?_cons, Option.bind_some, sourceItem, hc,
          Option.map_some, Option.some.injEq, Prod.mk.injEq] at hitem
        obtain ⟨rfl, rfl⟩ := hitem
        constructor
        · intro d hd
          cases d with
          | gdb q =>
              have hq : q ≠ rank := fun h => hd (h ▸ rfl)
              exact congrArg Sum.inl (Tracker.output_handleDataGdb_of_ne hq hwindow)
          | trgt q => rfl
        · rintro chunks ⟨t, ht, hno, hview⟩
          obtain ⟨u, hu, hno', hsame⟩ :=
            Tracker.handleDataGdb_alone hno (Sum.inl.inj hview) hwindow
          refine ⟨u, ?_, hno', congrArg Sum.inl hsame⟩
          have hlast : Tracker.handleDataGdb (Fin.last 0) t data = .ok u := hu
          rw [Tracker.handleChunks, List.foldlM_append]
          exact Mi.bind_eq_ok.mpr ⟨t, ht, by rw [List.foldlM_cons, hlast]; rfl⟩
    | @trgt data port rest rank hidle hc =>
        simp only [handledItem, idleItem, hidle, List.head?_cons, Option.bind_some, sourceItem, hc,
          Option.map_some, Option.some.injEq, Prod.mk.injEq] at hitem
        obtain ⟨rfl, rfl⟩ := hitem
        have hlast : ∀ q : Fin n, q.castSucc ≠ Fin.last n := fun q => (Fin.castSucc_lt_last q).ne
        constructor
        · intro d hd
          cases d with
          | gdb q => rfl
          | trgt q =>
              have hq : q.castSucc ≠ rank.castSucc :=
                fun h => hd (Fin.castSucc_injective n h ▸ rfl)
              simp [view, handleDataTrgt, hlast q, hq]
        · intro chunks hview
          have hbuffer : s.textBuffersTrgt rank.castSucc = chunks.foldl Target.insert [] :=
            Sum.inr.inj hview
          simp [Alone, view, handleDataTrgt, hlast rank, hbuffer]
    | register hk hc => cases hitem
    | readEof hk hc => cases hitem
    | user hphase ha hnext => cases hitem
    | accept hk => cases hitem
    | leave hk => cases hitem
    | readSome hk => cases hitem
    | readError hk => cases hitem
    | waited hphase hall => cases hitem
    | waits hphase hall => cases hitem
    | cancelWait hphase => cases hitem
    | quit hphase => cases hitem

/-- Each rank is shown as a master of its own would show it. -/
theorem rank_alone (run : Run (system n base) tr m) (rank : Fin n) :
    ∃ t : Tracker 1,
      (Tracker.init 1).handleChunks 0 (project (.gdb rank) (handled base tr)) = .ok t ∧
        m.session.window.output rank = t.output 0 := by
  obtain ⟨t, ht, -, hview⟩ := view_alone run (.gdb rank)
  exact ⟨t, ht, Sum.inl.inj hview⟩

theorem Alone.unique {c : Source n} {chunks : List Bytes} {v w : Output ⊕ Bytes}
    (hv : Alone c chunks v) (hw : Alone c chunks w) : v = w := by
  cases c with
  | gdb rank =>
      obtain ⟨t, ht, -, rfl⟩ := hv
      obtain ⟨u, hu, -, rfl⟩ := hw
      obtain rfl := Except.ok.inj (ht.symm.trans hu)
      rfl
  | trgt rank => exact Eq.trans hv (Eq.symm hw)

theorem foldl_insert_cstr (messages : List Bytes) (buffer : Bytes) :
    (messages.map cstr).foldl Target.insert buffer = buffer ++ (messages.map shown).flatten := by
  induction messages generalizing buffer with
  | nil => simp
  | cons message messages ih =>
      rw [List.map_cons, List.foldl_cons, ih, insert_cstr, List.map_cons, List.flatten_cons,
        List.append_assoc]

/-- With an empty queue the page of a target shows what was received of it, but for the
messages that are not valid UTF-8. -/
theorem target_page (hbase : GoodPorts n base) (run : Run (system n base) tr m)
    (hidle : m.idle = []) (rank : Fin n) :
    m.textBuffersTrgt rank.castSucc = ((received tr (.trgt rank)).map shown).flatten := by
  have hview : m.textBuffersTrgt rank.castSucc =
      (project (.trgt rank) (handled base tr)).foldl Target.insert [] :=
    Sum.inr.inj (view_alone run (.trgt rank))
  rw [hview, handled_of_idle hbase run hidle, foldl_insert_cstr, List.nil_append]

/-- The order in which the threads read and the idle handler runs does not matter: once
the queue is empty, what is shown of a rank depends on what its own connections wrote. -/
theorem order_irrelevant (hbase : GoodPorts n base) (run : Run (system n base) tr m)
    (run' : Run (system n base) tr' m') (hidle : m.idle = []) (hidle' : m'.idle = [])
    (c : Source n) (hsame : received tr c = received tr' c) : m.view c = m'.view c := by
  have hhandled : project c (handled base tr) = project c (handled base tr') := by
    rw [handled_of_idle hbase run hidle, hsame, ← handled_of_idle hbase run' hidle']
  have halone := view_alone run c
  have halone' := view_alone run' c
  rw [hhandled] at halone
  exact halone.unique halone'

/-- What a callback adds to the page of all ranks. -/
def allPage (page : Bytes) : Source n × Bytes → Bytes
  | (.gdb _, _) => page
  | (.trgt rank, data) =>
      Target.insert (Target.insert page (ascii "-----" ++ natDigits rank ++ ascii "-----\n")) data

/-- The page of all ranks shows the messages of all targets in the order they were
handled, each under its rank. Of a message that is not valid UTF-8 it has the rank only. -/
theorem all_page (run : Run (system n base) tr m) :
    m.textBuffersTrgt (Fin.last n) = (handled base tr).foldl allPage [] := by
  induction run with
  | start h =>
      obtain ⟨memory, rfl⟩ := h
      rfl
  | @next tr s a t run h ih =>
      rw [handled, carried_snoc, List.foldl_append, ← handled, ← ih]
      obtain ⟨data, port, rest, c, hidle, rfl, hc, hitem⟩ | ⟨hitem, htrgt, -⟩ :=
        handles_of_effect (next_effect h).2
      · rw [hitem]
        cases (next_effect h).2 with
        | @gdb data' port' rest' rank window hidle' hc' hwindow =>
            rw [hidle] at hidle'
            obtain ⟨hhead, -⟩ := List.cons.inj hidle'
            obtain ⟨rfl, rfl⟩ := Prod.mk.inj hhead
            rw [hc] at hc'
            obtain rfl := Option.some.inj hc'
            rfl
        | @trgt data' port' rest' rank hidle' hc' =>
            rw [hidle] at hidle'
            obtain ⟨hhead, -⟩ := List.cons.inj hidle'
            obtain ⟨rfl, rfl⟩ := Prod.mk.inj hhead
            rw [hc] at hc'
            obtain rfl := Option.some.inj hc'
            have hne : Fin.last n ≠ rank.castSucc := (Fin.castSucc_lt_last rank).ne'
            simp [handleDataTrgt, allPage, hne]
      · rw [hitem, htrgt]
        rfl

/-- A line of GDB and a line of its target. -/
def gdbLine : Message where
  bytes := ascii "~\"a\"\n(gdb)\n"
  nonempty := by decide
  fits := by decide

def targetLine : Message where
  bytes := ascii "b\n"
  nonempty := by decide
  fits := by decide

def connect : List (Act 1) :=
  [.accept gdbPort, .accept trgtPort, .register gdbPort, .register trgtPort, .waitSlavesTimeout]

/-- The two lines are read before any is handled, or one after the other. -/
def readFirst : List (Act 1) :=
  connect ++ [.readSome gdbPort gdbLine, .readSome trgtPort targetLine, .runIdle, .runIdle]

def readInTurn : List (Act 1) :=
  connect ++ [.readSome trgtPort targetLine, .runIdle, .readSome gdbPort gdbLine, .runIdle]

/-- Labels that replay to an empty queue. -/
theorem exists_run_of_labels (labels : List (Act 1))
    (h : (labels.foldlM (next 32768) (init (emptyMemory 1))).any
      (fun m => decide (m.idle = [])) = true) :
    ∃ m : Master 1, Run (system 1 32768) (trace (next 32768) (init (emptyMemory 1)) labels) m ∧
      m.idle = [] := by
  cases hm : labels.foldlM (next 32768) (init (emptyMemory 1)) with
  | none => simp [hm] at h
  | some m =>
      have hstart : Run (system 1 32768) [] (init (emptyMemory 1)) := .start ⟨_, rfl⟩
      exact ⟨m, hstart.trace labels hm, by simpa [hm] using h⟩

theorem line_delivered : ∃ (m : Master 1) (tr : _), Run (system 1 32768) tr m ∧
    (received tr (.gdb 0)).map cstr = project (.gdb 0) (handled 32768 tr) ++
      queued 32768 m (.gdb 0) ∧ received tr (.gdb 0) ≠ [] := by
  obtain ⟨m, run, -⟩ := exists_run_of_labels readFirst (by decide +kernel)
  exact ⟨m, _, run, delivered_in_order (by decide) run (.gdb 0), by decide +kernel⟩

theorem line_shown_alone : ∃ (m : Master 1) (tr : _) (t : Tracker 1),
    Run (system 1 32768) tr m ∧
      (Tracker.init 1).handleChunks 0 (project (.gdb 0) (handled 32768 tr)) = .ok t ∧
      m.session.window.output 0 = t.output 0 := by
  obtain ⟨m, run, -⟩ := exists_run_of_labels readFirst (by decide +kernel)
  obtain ⟨t, ht, hview⟩ := rank_alone run 0
  exact ⟨m, _, t, run, ht, hview⟩

theorem line_on_target_page : ∃ m : Master 1, m.textBuffersTrgt 0 = ascii "b\n" := by
  obtain ⟨m, run, hidle⟩ := exists_run_of_labels readFirst (by decide +kernel)
  have hpage := target_page (by decide) run hidle 0
  exact ⟨m, hpage.trans (by decide +kernel)⟩

theorem line_on_all_page : ∃ m : Master 1, m.textBuffersTrgt 1 = ascii "-----0-----\nb\n" := by
  obtain ⟨m, run, -⟩ := exists_run_of_labels readInTurn (by decide +kernel)
  have hpage := all_page run
  exact ⟨m, hpage.trans (by decide +kernel)⟩

theorem readInTurn_agrees : ∃ (m m' : Master 1) (tr tr' : _),
    Run (system 1 32768) tr m ∧ Run (system 1 32768) tr' m' ∧
      carried readItem tr ≠ carried readItem tr' ∧ ∀ c, m.view c = m'.view c := by
  obtain ⟨m, run, hidle⟩ := exists_run_of_labels readFirst (by decide +kernel)
  obtain ⟨m', run', hidle'⟩ := exists_run_of_labels readInTurn (by decide +kernel)
  refine ⟨m, m', _, _, run, run', by decide +kernel, fun c => ?_⟩
  refine order_irrelevant (by decide) run run' hidle hidle' c ?_
  cases c with
  | gdb rank =>
      obtain rfl := Subsingleton.elim rank 0
      decide +kernel
  | trgt rank =>
      obtain rfl := Subsingleton.elim rank 0
      decide +kernel

end Views

end ParallelGdb.Master
