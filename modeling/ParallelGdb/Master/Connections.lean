import ParallelGdb.Master.Threads
import ParallelGdb.Mi.Extent
import ParallelGdb.Session.Interrupts
import Mathlib

/-!
# The connections of the master

Each port has one thread, each thread one socket, and only this thread stores it. So
a stored connection is the socket of its own port and still there, a port is accepted
once, and when the master starts every slave has connected.
-/

namespace ParallelGdb

open Library.CString Library.Transition Target

namespace Session

variable {n : Nat}

/-- Clicks and dialogs change Breakpoints, slots and sent commands only. -/
theorem user_window {s t : Session n} {a : Act n} (ha : a.isUser = true) (h : s.next a = some t) :
    ∃ objects breakpoints sentGdb,
      t.window = { s.window with objects, breakpoints, sentGdb } := by
  cases next_step h with
  | nothing hd hm => exact ⟨_, _, _, rfl⟩
  | create hd hm => exact ⟨_, _, _, rfl⟩
  | edit hd hm => exact ⟨_, _, _, rfl⟩
  | @delete fullpath line b bp hd hm hobj =>
      have hloop : (Breakpoint.deleteLoop b (bp, s.window)).2.2 =
          s.window.afterOps b bp (s.deleteOp bp) := by
        rw [Breakpoint.deleteLoop_snd, Breakpoint.updateLoop_eq]
      simp only [deleteMark, hloop]
      split <;> exact ⟨_, _, _, rfl⟩
  | cancel hd => exact ⟨_, _, _, rfl⟩
  | @accept b isNew bp buttonStates stopAll hd hobj =>
      simp only [applyDialog, Breakpoint.updateBreakpoints, Breakpoint.updateLoop_eq]
      split
      · exact ⟨_, _, _, rfl⟩
      · obtain hwindow | hwindow := window_finish _ b isNew _ <;> rw [hwindow] <;>
          exact ⟨_, _, _, rfl⟩
  | @updated b isNew message bp hd hobj =>
      obtain hwindow | hwindow := window_finish { s with dialog := none } b isNew bp <;>
        rw [hwindow] <;> exact ⟨_, _, _, rfl⟩
  | deleting hd hobj => exact ⟨_, _, _, rfl⟩
  | response ht => cases ha
  | connect => cases ha

end Session

namespace Tracker

variable {n : Nat}

/-- A chunk leaves the connections alone. -/
theorem conns_handleDataGdb {r : Fin n} {t u : Tracker n} {data : Bytes}
    (h : t.handleDataGdb r data = .ok u) :
    u.connsGdb = t.connsGdb ∧ u.connsTrgt = t.connsTrgt := by
  have hrespond : ∀ {t u : Tracker n} {response : Bool × List Mi.MiOutput},
      t.respond r response = .ok u → u.connsGdb = t.connsGdb ∧ u.connsTrgt = t.connsTrgt := by
    intro t u response h
    unfold respond at h
    split at h
    · obtain ⟨v, hv, rfl | ⟨b, bp, number, -, -, rfl⟩⟩ := handleResponse_cases h
      · exact ⟨hv.connsGdb, hv.connsTrgt⟩
      · exact ⟨hv.connsGdb, hv.connsTrgt⟩
    · obtain rfl := Except.ok.inj h
      exact ⟨rfl, rfl⟩
  unfold handleDataGdb at h
  generalize strtok [] (cstr data) = tokens at h
  induction tokens generalizing t with
  | nil =>
      obtain rfl := Except.ok.inj h
      exact ⟨rfl, rfl⟩
  | cons token rest ih =>
      rw [List.foldlM_cons] at h
      obtain ⟨v, hv, hrest⟩ := Mi.bind_eq_ok.mp h
      obtain ⟨response, -, hv⟩ := Mi.bind_eq_ok.mp hv
      obtain ⟨hgdb, htrgt⟩ := hrespond hv
      obtain ⟨hgdb', htrgt'⟩ := ih hrest
      exact ⟨hgdb'.trans hgdb, htrgt'.trans htrgt⟩

end Tracker

namespace Master

variable {n : Nat} {base : Int} {m m' : Master n} {a : Act n}

/-- Every step has one of these forms. -/
inductive Effect (base : Int) (m : Master n) : Act n → Master n → Prop
  | accept {k : Fin (2 * n)} (h : m.threads k = .accepting) :
      Effect base m (.accept k) (m.setThread k .accepted)
  | register {k : Fin (2 * n)} {c : Source n} (h : m.threads k = .accepted)
      (hc : sourceOf n base (threadPort base k) = some c) :
      Effect base m (.register k) ((m.setConns c (some k)).setThread k .reading)
  | readSome {k : Fin (2 * n)} {message : Message} (h : m.threads k = .reading) :
      Effect base m (.readSome k message) (m.receive base k message)
  | readEof {k : Fin (2 * n)} {c : Source n} (h : m.threads k = .reading)
      (hc : sourceOf n base (threadPort base k) = some c) :
      Effect base m (.readEof k) ((m.setConns c none).setThread k .leaving)
  | readError {k : Fin (2 * n)} (h : m.threads k = .reading) :
      Effect base m (.readError k) { m with phase := .ended }
  | leave {k : Fin (2 * n)} (h : m.threads k = .leaving) :
      Effect base m (.leave k) (m.setThread k .returned)
  | gdb {data : Bytes} {port : Int} {rest : List (Bytes × Int)} {rank : Fin n}
      {window : Tracker n} (h : m.idle = (data, port) :: rest)
      (hc : sourceOf n base port = some (.gdb rank))
      (hwindow : m.session.window.handleDataGdb rank data = .ok window) :
      Effect base m .runIdle (setWindow { m with idle := rest } window)
  | trgt {data : Bytes} {port : Int} {rest : List (Bytes × Int)} {rank : Fin n}
      (h : m.idle = (data, port) :: rest) (hc : sourceOf n base port = some (.trgt rank)) :
      Effect base m .runIdle { m with
        idle := rest
        textBuffersTrgt := Target.handleDataTrgt data rank m.textBuffersTrgt }
  | user {a : Session.Act n} {session : Session n} (hphase : m.phase = .running)
      (ha : a.isUser = true) (h : m.session.next a = some session) :
      Effect base m (.user a) { m with session }
  | waited (hphase : m.phase = .waitSlaves) (hall : n = m.numSlaves) :
      Effect base m .waitSlavesTimeout { m with phase := .running }
  | waits (hphase : m.phase = .waitSlaves) (hall : n ≠ m.numSlaves) :
      Effect base m .waitSlavesTimeout m
  | cancelWait (hphase : m.phase = .waitSlaves) :
      Effect base m .cancelWait { m with phase := .ended }
  | quit (hphase : m.phase = .running) : Effect base m .quit { m with phase := .ended }

theorem next_effect (h : m.next base a = some m') : m.phase ≠ .ended ∧ m.Effect base a m' := by
  unfold next at h
  split at h
  · cases h
  · rename_i hphase
    refine ⟨hphase, ?_⟩
    cases a with
    | accept k =>
        obtain ⟨hk, h⟩ := Option.ite_none_right_eq_some.mp h
        obtain rfl := Option.some.inj h
        exact .accept hk
    | register k =>
        obtain ⟨hk, h⟩ := Option.ite_none_right_eq_some.mp h
        obtain ⟨c, hc, rfl⟩ := Option.map_eq_some_iff.mp h
        exact .register hk hc
    | readSome k message =>
        obtain ⟨hk, h⟩ := Option.ite_none_right_eq_some.mp h
        obtain rfl := Option.some.inj h
        exact .readSome hk
    | readEof k =>
        obtain ⟨hk, h⟩ := Option.ite_none_right_eq_some.mp h
        obtain ⟨c, hc, rfl⟩ := Option.map_eq_some_iff.mp h
        exact .readEof hk hc
    | readError k =>
        obtain ⟨hk, h⟩ := Option.ite_none_right_eq_some.mp h
        obtain rfl := Option.some.inj h
        exact .readError hk
    | leave k =>
        obtain ⟨hk, h⟩ := Option.ite_none_right_eq_some.mp h
        obtain rfl := Option.some.inj h
        exact .leave hk
    | runIdle =>
        simp only [step] at h
        split at h
        · cases h
        · rename_i data port rest hidle
          unfold handleData at h
          obtain ⟨c, hc, h⟩ := Option.bind_eq_some_iff.mp h
          cases c with
          | gdb rank =>
              obtain ⟨window, hwindow, rfl⟩ := Option.map_eq_some_iff.mp h
              cases hdata : m.session.window.handleDataGdb rank data with
              | error e => simp [hdata, Except.toOption] at hwindow
              | ok u =>
                  obtain rfl : u = window := by simpa [hdata, Except.toOption] using hwindow
                  exact .gdb hidle hc hdata
          | trgt rank =>
              obtain rfl := Option.some.inj h
              exact .trgt hidle hc
    | user a =>
        obtain ⟨⟨hrunning, ha⟩, h⟩ := Option.ite_none_right_eq_some.mp h
        obtain ⟨session, hs, rfl⟩ := Option.map_eq_some_iff.mp h
        exact .user hrunning ha hs
    | waitSlavesTimeout =>
        obtain ⟨hwait, h⟩ := Option.ite_none_right_eq_some.mp h
        obtain rfl := Option.some.inj h
        split
        · rename_i hall
          exact .waited hwait hall
        · rename_i hall
          exact .waits hwait hall
    | cancelWait =>
        obtain ⟨hwait, h⟩ := Option.ite_none_right_eq_some.mp h
        obtain rfl := Option.some.inj h
        exact .cancelWait hwait
    | quit =>
        obtain ⟨hrunning, h⟩ := Option.ite_none_right_eq_some.mp h
        obtain rfl := Option.some.inj h
        exact .quit hrunning

section Slots

theorem offset_eq (h : GoodPorts n base) {k : Fin (2 * n)} {c : Source n}
    (hc : sourceOf n base (threadPort base k) = some c) : c.offset = k := by
  obtain ⟨d, rfl⟩ := exists_offset k
  rw [sourceOf_threadPort h] at hc
  exact congrArg Target.Source.offset (Option.some.inj hc).symm

@[simp] theorem threads_setConns (c : Source n) (socket : Option (Fin (2 * n))) :
    (m.setConns c socket).threads = m.threads := by
  cases c <;> rfl

@[simp] theorem phase_setConns (c : Source n) (socket : Option (Fin (2 * n))) :
    (m.setConns c socket).phase = m.phase := by
  cases c <;> rfl

@[simp] theorem conns_setConns (c : Source n) (socket : Option (Fin (2 * n))) :
    (m.setConns c socket).conns = Function.update m.conns c socket := by
  cases c <;> rfl

theorem connsGdb_setConns (c : Source n) (socket : Option (Fin (2 * n))) (rank : Fin n) :
    (m.setConns c socket).session.window.connsGdb rank =
      if c = .gdb rank then socket.isSome else m.session.window.connsGdb rank := by
  cases c with
  | gdb q =>
      by_cases hq : q = rank
      · subst hq
        simp [setConns, setWindow]
      · simp [setConns, setWindow, hq, Function.update_of_ne (Ne.symm hq)]
  | trgt q => simp [setConns, setWindow]

theorem connsTrgt_setConns (c : Source n) (socket : Option (Fin (2 * n))) (rank : Fin n) :
    (m.setConns c socket).session.window.connsTrgt rank =
      if c = .trgt rank then socket.isSome else m.session.window.connsTrgt rank := by
  cases c with
  | gdb q => simp [setConns, setWindow]
  | trgt q =>
      by_cases hq : q = rank
      · subst hq
        simp [setConns, setWindow]
      · simp [setConns, setWindow, hq, Function.update_of_ne (Ne.symm hq)]

/-- All slaves are counted exactly if every connection is stored. -/
theorem numSlaves_eq_iff (m : Master n) : n = m.numSlaves ↔ ∀ c, (m.conns c).isSome = true := by
  have hcount : n = m.numSlaves ↔ ∀ rank ∈ List.finRange n,
      ((m.conns (.gdb rank)).isSome && (m.conns (.trgt rank)).isSome) = true := by
    rw [← List.countP_eq_length, List.length_finRange, numSlaves]
    exact eq_comm
  rw [hcount]
  simp only [List.mem_finRange, true_imp_iff, Bool.and_eq_true]
  constructor
  · intro h c
    cases c with
    | gdb rank => exact (h rank).1
    | trgt rank => exact (h rank).2
  · exact fun h rank => ⟨h _, h _⟩

end Slots

/-- The connection of a thread that is reading is stored, and no other. -/
structure Connected (m : Master n) : Prop where
  conns : ∀ c, m.conns c = if m.threads c.offset = .reading then some c.offset else none
  gdb : ∀ rank, m.session.window.connsGdb rank = (m.conns (.gdb rank)).isSome
  trgt : ∀ rank, m.session.window.connsTrgt rank = (m.conns (.trgt rank)).isSome
  /-- Behind `wait_slaves` no port waits any more. -/
  running : m.phase = .running → ∀ k, m.threads k ≠ .accepting ∧ m.threads k ≠ .accepted

namespace Connected

theorem init (memory : Fin (2 * n) → ReceiveBuffer) : Connected (Master.init memory) where
  conns := fun _ => rfl
  gdb := fun _ => rfl
  trgt := fun _ => rfl
  running := fun h => by cases h

/-- Threads, connections and flags are the same, and the phase if it is running. -/
theorem congr (h : Connected m) (hthreads : m'.threads = m.threads) (hconns : m'.conns = m.conns)
    (hgdb : m'.session.window.connsGdb = m.session.window.connsGdb)
    (htrgt : m'.session.window.connsTrgt = m.session.window.connsTrgt)
    (hphase : m'.phase = .running → m.phase = .running) : Connected m' where
  conns := by
    rw [hthreads, hconns]
    exact h.conns
  gdb := by
    rw [hgdb, hconns]
    exact h.gdb
  trgt := by
    rw [htrgt, hconns]
    exact h.trgt
  running := by
    rw [hthreads]
    exact fun hrunning => h.running (hphase hrunning)

/-- A thread goes on without storing its connection or clearing it. -/
theorem setThread (h : Connected m) {k : Fin (2 * n)} {thread : Thread}
    (hbefore : m.threads k ≠ .reading) (hafter : thread ≠ .reading)
    (hrunning : m.phase = .running → thread ≠ .accepting ∧ thread ≠ .accepted) :
    Connected (m.setThread k thread) where
  conns := by
    intro c
    have hconn : m.conns c = if m.threads c.offset = .reading then some c.offset else none :=
      h.conns c
    by_cases hc : c.offset = k
    · rw [hc, if_neg hbefore] at hconn
      simp [Master.setThread, hc, hconn, hafter]
    · simp [Master.setThread, Function.update_of_ne hc, hconn]
  gdb := h.gdb
  trgt := h.trgt
  running := by
    intro hphase q
    by_cases hq : q = k
    · subst hq
      simpa [Master.setThread] using hrunning hphase
    · simpa [Master.setThread, Function.update_of_ne hq] using h.running hphase q

/-- A thread stores its socket, or clears it. -/
theorem setConns (h : Connected m) {c : Source n} {socket : Option (Fin (2 * n))}
    {thread : Thread}
    (hsocket : socket = if thread = .reading then some c.offset else none)
    (hafter : thread ≠ .accepting ∧ thread ≠ .accepted) :
    Connected ((m.setConns c socket).setThread c.offset thread) where
  conns := by
    intro d
    by_cases hd : d = c
    · subst hd
      simp [Master.setThread, hsocket]
    · have hoffset : d.offset ≠ c.offset := fun heq => hd (offset_injective n heq)
      simp [Master.setThread, Function.update_of_ne hd, Function.update_of_ne hoffset, h.conns d]
  gdb := by
    intro rank
    change (m.setConns c socket).session.window.connsGdb rank = _
    rw [connsGdb_setConns, h.gdb]
    by_cases hc : c = .gdb rank
    · subst hc
      simp [Master.setThread]
    · simp [Master.setThread, hc, Function.update_of_ne (Ne.symm hc)]
  trgt := by
    intro rank
    change (m.setConns c socket).session.window.connsTrgt rank = _
    rw [connsTrgt_setConns, h.trgt]
    by_cases hc : c = .trgt rank
    · subst hc
      simp [Master.setThread]
    · simp [Master.setThread, hc, Function.update_of_ne (Ne.symm hc)]
  running := by
    intro hphase q
    have hrunning : m.phase = .running := by simpa [Master.setThread] using hphase
    by_cases hq : q = c.offset
    · subst hq
      simpa [Master.setThread] using hafter
    · simpa [Master.setThread, Function.update_of_ne hq] using h.running hrunning q

theorem next (h : Connected m) (hbase : GoodPorts n base) (heffect : m.Effect base a m') :
    Connected m' := by
  cases heffect with
  | @accept k hk =>
      exact h.setThread (by simp [hk]) (by simp) fun hphase => absurd hk (h.running hphase k).1
  | @register k c hk hc =>
      obtain rfl := offset_eq hbase hc
      exact h.setConns (by simp) (by simp)
  | readSome hk => exact h.congr rfl rfl rfl rfl id
  | @readEof k c hk hc =>
      obtain rfl := offset_eq hbase hc
      exact h.setConns (by simp) (by simp)
  | readError hk => exact h.congr rfl rfl rfl rfl fun hphase => by cases hphase
  | leave hk => exact h.setThread (by simp [hk]) (by simp) fun _ => by simp
  | gdb hidle hc hwindow =>
      obtain ⟨hgdb, htrgt⟩ := Tracker.conns_handleDataGdb hwindow
      exact h.congr rfl rfl hgdb htrgt id
  | trgt hidle hc => exact h.congr rfl rfl rfl rfl id
  | user hphase ha hnext =>
      obtain ⟨objects, breakpoints, sentGdb, hwindow⟩ := Session.user_window ha hnext
      exact h.congr rfl rfl (by simp [hwindow]) (by simp [hwindow]) id
  | waited hphase hall =>
      refine ⟨h.conns, h.gdb, h.trgt, fun _ k => ?_⟩
      obtain ⟨c, rfl⟩ := exists_offset k
      have hstored := (numSlaves_eq_iff m).mp hall c
      have hreading : m.threads c.offset = .reading := by
        by_contra hnot
        simp [h.conns c, hnot] at hstored
      exact ⟨by simp [hreading], by simp [hreading]⟩
  | waits hphase hall => exact h
  | cancelWait hphase => exact h.congr rfl rfl rfl rfl fun hphase => by cases hphase
  | quit hphase => exact h.congr rfl rfl rfl rfl fun hphase => by cases hphase

end Connected

theorem connected_of_reachable (hbase : GoodPorts n base) (hm : Reachable (system n base) m) :
    Connected m := by
  refine hm.invariant ?_ fun s a t h hstep => h.next hbase (next_effect hstep).2
  rintro s ⟨memory, rfl⟩
  exact Connected.init memory

section Runs

variable {tr : List (Master n × Act n)}

/-- Whatever a pointer of the two arrays is used for, the socket it points to is the
one of its own port and has not been destroyed. -/
theorem stored_socket_open (hbase : GoodPorts n base) (hm : Reachable (system n base) m)
    (c : Source n) (k : Fin (2 * n)) :
    m.conns c = some k ↔ k = c.offset ∧ m.threads k = .reading := by
  rw [(connected_of_reachable hbase hm).conns c]
  split
  · rename_i hreading
    constructor
    · rintro h
      obtain rfl := Option.some.inj h
      exact ⟨rfl, hreading⟩
    · rintro ⟨rfl, -⟩
      rfl
  · rename_i hreading
    constructor
    · intro h
      cases h
    · rintro ⟨rfl, h⟩
      exact absurd h hreading

/-- A thread whose stream has ended does not read again. -/
theorem ended_iff (run : Run (system n base) tr m) (k : Fin (2 * n)) :
    (∃ p ∈ tr, p.2 = .readEof k) ↔ m.threads k = .leaving ∨ m.threads k = .returned := by
  induction run with
  | start h =>
      obtain ⟨memory, rfl⟩ := h
      simp [init]
  | @next tr s a t run h ih =>
      have hsplit : (∃ p ∈ tr ++ [(s, a)], p.2 = .readEof k) ↔
          (∃ p ∈ tr, p.2 = .readEof k) ∨ a = .readEof k := by
        simp [or_and_right, exists_or]
      rw [hsplit, ih]
      have hthread : ∀ {j : Fin (2 * n)} {thread : Thread} {u : Master n},
          u.threads = s.threads → (u.setThread j thread).threads k =
            if k = j then thread else s.threads k := by
        intro j thread u hu
        by_cases hj : k = j
        · simp [setThread, hj]
        · simp [setThread, hj, hu]
      cases (next_effect h).2 with
      | @accept j hj =>
          rw [hthread rfl]
          by_cases hk : k = j
          · subst hk
            simp [hj]
          · simp [hk]
      | @register j c hj hc =>
          rw [hthread (by simp)]
          by_cases hk : k = j
          · subst hk
            simp [hj]
          · simp [hk]
      | readSome hj => simp [receive]
      | @readEof j c hj hc =>
          rw [hthread (by simp)]
          by_cases hk : k = j
          · subst hk
            simp
          · simp [hk, Ne.symm hk]
      | readError hj => simp
      | @leave j hj =>
          rw [hthread rfl]
          by_cases hk : k = j
          · subst hk
            simp [hj]
          · simp [hk]
      | gdb hidle hc hwindow => simp [setWindow]
      | trgt hidle hc => simp
      | user hphase ha hnext => simp
      | waited hphase hall => simp
      | waits hphase hall => simp
      | cancelWait hphase => simp
      | quit hphase => simp

/-- A master that has started has seen every slave connected at once. -/
theorem started_of_running (run : Run (system n base) tr m) (hrunning : m.phase = .running) :
    ∃ p ∈ tr, p.2 = .waitSlavesTimeout ∧ ∀ c : Source n, (p.1.conns c).isSome = true := by
  induction run with
  | start h =>
      obtain ⟨memory, rfl⟩ := h
      cases hrunning
  | @next tr s a t run h ih =>
      have hearlier : s.phase = .running → ∃ p ∈ tr ++ [(s, a)],
          p.2 = .waitSlavesTimeout ∧ ∀ c : Source n, (p.1.conns c).isSome = true := by
        intro hs
        obtain ⟨p, hp, hall⟩ := ih hs
        exact ⟨p, List.mem_append_left _ hp, hall⟩
      cases (next_effect h).2 with
      | accept hk => exact hearlier hrunning
      | register hk hc => exact hearlier (by simpa [setThread] using hrunning)
      | readSome hk => exact hearlier hrunning
      | readEof hk hc => exact hearlier (by simpa [setThread] using hrunning)
      | readError hk => cases hrunning
      | leave hk => exact hearlier hrunning
      | gdb hidle hc hwindow => exact hearlier hrunning
      | trgt hidle hc => exact hearlier hrunning
      | user hphase ha hnext => exact hearlier hphase
      | waited hphase hall =>
          exact ⟨(s, _), by simp, rfl, (numSlaves_eq_iff s).mp hall⟩
      | waits hphase hall => exact hearlier hrunning
      | cancelWait hphase => cases hrunning
      | quit hphase => cases hrunning

/-- The window opens when all slaves are connected, and from then on it is without a
connection exactly if that connection's stream has ended. -/
theorem running_connections (hbase : GoodPorts n base) (run : Run (system n base) tr m)
    (hrunning : m.phase = .running) :
    (∃ p ∈ tr, p.2 = .waitSlavesTimeout ∧ ∀ c : Source n, (p.1.conns c).isSome = true) ∧
      ∀ c : Source n, m.conns c = none ↔ ∃ p ∈ tr, p.2 = .readEof c.offset := by
  refine ⟨started_of_running run hrunning, fun c => ?_⟩
  have hconnected := connected_of_reachable hbase ⟨tr, run⟩
  obtain ⟨haccepting, haccepted⟩ := hconnected.running hrunning c.offset
  rw [ended_iff run, hconnected.conns c]
  cases hthread : m.threads c.offset with
  | accepting => exact absurd hthread haccepting
  | accepted => exact absurd hthread haccepted
  | reading => simp
  | leaving => simp
  | returned => simp

/-- The ports of the only rank. -/
def gdbPort : Fin (2 * 1) := 0

def trgtPort : Fin (2 * 1) := 1

/-- The slave of the only rank connects, and its target closes its connection. -/
def oneSlave : List (Act 1) :=
  [.accept 1, .accept 0, .register 0, .waitSlavesTimeout, .register 1, .waitSlavesTimeout,
    .readEof 1]

theorem length_emptyData : (List.replicate (maxLength + 8) (0 : UInt8)).length = maxLength + 8 :=
  List.length_replicate

def emptyMemory (n : Nat) : Fin (2 * n) → ReceiveBuffer :=
  fun _ => ⟨List.replicate (maxLength + 8) 0, length_emptyData⟩

theorem oneSlave_reachable : ∃ m : Master 1, Reachable (system 1 32768) m ∧
    (∃ tr, Run (system 1 32768) tr m) ∧ m.phase = .running ∧ (m.conns (.gdb 0)).isSome = true := by
  have hinit : Reachable (system 1 32768) (init (emptyMemory 1)) := .start ⟨_, rfl⟩
  obtain ⟨m, hm, hp⟩ := hinit.replay_any oneSlave
    (fun m => decide (m.phase = .running) && (m.conns (.gdb 0)).isSome) (by decide +kernel)
  simp only [Bool.and_eq_true, decide_eq_true_eq] at hp
  exact ⟨m, hm, hm, hp⟩

theorem oneSlave_socket_open : ∃ m : Master 1, ∃ k, m.conns (.gdb 0) = some k ∧
    m.threads k = .reading := by
  obtain ⟨m, hm, -, -, hsome⟩ := oneSlave_reachable
  obtain ⟨k, hk⟩ := Option.isSome_iff_exists.mp hsome
  exact ⟨m, k, hk, ((stored_socket_open (by decide) hm (.gdb 0) k).mp hk).2⟩

theorem oneSlave_connections : ∃ (m : Master 1) (tr : _), Run (system 1 32768) tr m ∧
    ∀ c : Source 1, m.conns c = none ↔ ∃ p ∈ tr, p.2 = .readEof c.offset := by
  obtain ⟨m, -, ⟨tr, run⟩, hrunning, -⟩ := oneSlave_reachable
  exact ⟨m, tr, run, (running_connections (by decide) run hrunning).2⟩

end Runs

end Master

end ParallelGdb
