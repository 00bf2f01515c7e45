import ParallelGdb.Session.System
import ParallelGdb.Startup.Ports
import ParallelGdb.Target.Output
import ParallelGdb.Window.Chunk

/-!
# The threads of the master

A thread for each port accepts one connection and reads it to its end. What it
reads it queues for the idle handler of the GUI thread, which also waits for the
slaves and serves the user. Every order of these steps is possible.
-/

namespace ParallelGdb

open Library.CString Library.Transition Startup Target

/-- How far `start_acceptor` and `read_data` are for a port. -/
inductive Thread
  | accepting
  /-- `read_data` has the socket and has not stored it yet. -/
  | accepted
  | reading
  /-- The stream has ended and the connection is cleared. -/
  | leaving
  /-- The socket is gone with the thread. -/
  | returned
  deriving DecidableEq

/-- What `start_GUI` is at. -/
inductive Phase
  /-- The dialog of `wait_slaves`. -/
  | waitSlaves
  | running
  | ended
  deriving DecidableEq

/-- The master behind `start_servers`. A socket is known by the offset of its port. -/
structure Master (n : Nat) where
  threads : Fin (2 * n) → Thread
  /-- `data` of `read_data`. -/
  memory : Fin (2 * n) → ReceiveBuffer
  /-- `m_conns_gdb` and `m_conns_trgt`. -/
  conns : Source n → Option (Fin (2 * n))
  /-- The queued `handle_data`, oldest first, each with its data and port. -/
  idle : List (Bytes × Int)
  session : Session n
  textBuffersTrgt : Fin (n + 1) → Bytes
  phase : Phase

/-- The port `start_servers` computes, as the thread of the port is given it. -/
def threadPort {n : Nat} (base : Int) (k : Fin (2 * n)) : Int :=
  (portType (base + (k : Nat))).toNat

/-- The connection a port belongs to by `get_rank` and `src_is_gdb`; `none` where
the arrays have no such rank. -/
def sourceOf (n : Nat) (base port : Int) : Option (Source n) := do
  let rank ← getRank n base port
  let isGdb ← srcIsGdb n base port
  if h : 0 ≤ rank ∧ rank < n then
    let rank : Fin n := ⟨rank.toNat, by omega⟩
    return if isGdb then .gdb rank else .trgt rank
  else none

theorem gdb_offset_lt {n : Nat} (rank : Fin n) : (rank : Nat) < 2 * n := by omega

theorem trgt_offset_lt {n : Nat} (rank : Fin n) : n + (rank : Nat) < 2 * n := by omega

/-- The offset of the port of a connection. -/
def Target.Source.offset {n : Nat} : Source n → Fin (2 * n)
  | .gdb rank => ⟨rank, gdb_offset_lt rank⟩
  | .trgt rank => ⟨n + rank, trgt_offset_lt rank⟩

/-- What the user does in the window. -/
def Session.Act.isUser {n : Nat} : Session.Act n → Bool
  | .click _ _ _ | .cancel | .accept _ _ | .dismiss => true
  | .response _ _ | .connect _ _ _ => false

namespace Master

variable {n : Nat}

/-- Behind `start_servers`, where what the memory holds is arbitrary. -/
def init (memory : Fin (2 * n) → ReceiveBuffer) : Master n where
  threads := fun _ => .accepting
  memory := memory
  conns := fun _ => none
  idle := []
  session := Session.init n
  textBuffersTrgt := fun _ => []
  phase := .waitSlaves

def setThread (m : Master n) (k : Fin (2 * n)) (thread : Thread) : Master n :=
  { m with threads := Function.update m.threads k thread }

def setWindow (m : Master n) (window : Tracker n) : Master n :=
  { m with session := { m.session with window } }

/-- `set_conns_gdb` or `set_conns_trgt`. -/
def setConns (m : Master n) (c : Source n) (socket : Option (Fin (2 * n))) : Master n :=
  let m := { m with conns := Function.update m.conns c socket }
  let window := m.session.window
  match c with
  | .gdb rank => m.setWindow { window with
      connsGdb := Function.update window.connsGdb rank socket.isSome }
  | .trgt rank => m.setWindow { window with
      connsTrgt := Function.update window.connsTrgt rank socket.isSome }

/-- `handle_data`. -/
def handleData (base : Int) (data : Bytes) (port : Int) (m : Master n) : Option (Master n) := do
  match ← sourceOf n base port with
  | .gdb rank => (m.session.window.handleDataGdb rank data).toOption.map m.setWindow
  | .trgt rank =>
      some { m with textBuffersTrgt := Target.handleDataTrgt data rank m.textBuffersTrgt }

/-- The count of `wait_slaves_timeout`. -/
def numSlaves (m : Master n) : Nat :=
  (List.finRange n).countP fun rank =>
    (m.conns (.gdb rank)).isSome && (m.conns (.trgt rank)).isSome

/-- `read_some` has received a message: a copy of it is queued. -/
def receive (base : Int) (m : Master n) (k : Fin (2 * n)) (message : Message) : Master n :=
  let memory := (m.memory k).receive message
  { m with
    memory := Function.update m.memory k memory
    idle := m.idle ++ [(cstr memory.data, threadPort base k)] }

inductive Act (n : Nat)
  /-- `acceptor.accept()` returns. -/
  | accept (k : Fin (2 * n))
  /-- `read_data` stores its socket. -/
  | register (k : Fin (2 * n))
  | readSome (k : Fin (2 * n)) (message : Message)
  /-- `read_some` meets the end of the stream. -/
  | readEof (k : Fin (2 * n))
  /-- Any other error is thrown out of the thread. -/
  | readError (k : Fin (2 * n))
  /-- `read_data` returns. -/
  | leave (k : Fin (2 * n))
  /-- The idle handler runs the oldest `handle_data`. -/
  | runIdle
  | user (a : Session.Act n)
  | waitSlavesTimeout
  /-- The dialog of `wait_slaves` is answered. -/
  | cancelWait
  | quit

/-- One step of a master that has not ended. -/
def step (base : Int) (m : Master n) : Act n → Option (Master n)
  | .accept k => if m.threads k = .accepting then some (m.setThread k .accepted) else none
  | .register k =>
      if m.threads k = .accepted then
        (sourceOf n base (threadPort base k)).map fun c =>
          (m.setConns c (some k)).setThread k .reading
      else none
  | .readSome k message => if m.threads k = .reading then some (m.receive base k message) else none
  | .readEof k =>
      if m.threads k = .reading then
        (sourceOf n base (threadPort base k)).map fun c =>
          (m.setConns c none).setThread k .leaving
      else none
  | .readError k => if m.threads k = .reading then some { m with phase := .ended } else none
  | .leave k => if m.threads k = .leaving then some (m.setThread k .returned) else none
  | .runIdle =>
      match m.idle with
      | [] => none
      | (data, port) :: rest => handleData base data port { m with idle := rest }
  | .user a =>
      if m.phase = .running ∧ a.isUser then
        (m.session.next a).map fun session => { m with session }
      else none
  | .waitSlavesTimeout =>
      if m.phase = .waitSlaves then
        some (if n = m.numSlaves then { m with phase := .running } else m)
      else none
  | .cancelWait => if m.phase = .waitSlaves then some { m with phase := .ended } else none
  | .quit => if m.phase = .running then some { m with phase := .ended } else none

def next (base : Int) (m : Master n) (a : Act n) : Option (Master n) :=
  if m.phase = .ended then none else m.step base a

/-- All interleavings of the threads, the idle handler and the user. -/
def system (n : Nat) (base : Int) : System (Master n) (Act n) :=
  System.ofNext (fun m => ∃ memory, m = init memory) (next base)

end Master

/-- The ports of the master are TCP ports. -/
def GoodPorts (n : Nat) (base : Int) : Prop := 1 ≤ base ∧ base + 2 * n ≤ 65536

instance decidableGoodPorts (n : Nat) (base : Int) : Decidable (GoodPorts n base) :=
  inferInstanceAs (Decidable (_ ∧ _))

section Ports

variable {n : Nat} {base : Int}

theorem threadPort_eq (h : GoodPorts n base) (k : Fin (2 * n)) :
    threadPort base k = base + (k : Nat) := by
  have hk := k.isLt
  obtain ⟨hlo, hhi⟩ := h
  exact portType_toNat (by omega) (by omega)

/-- The port of a connection leads back to it. -/
theorem sourceOf_threadPort (h : GoodPorts n base) (c : Source n) :
    sourceOf n base (threadPort base c.offset) = some c := by
  rw [threadPort_eq h]
  obtain ⟨hlo, hhi⟩ := h
  cases c with
  | gdb r =>
      have hr := r.isLt
      obtain ⟨hrank, hsrc⟩ := getRank_gdb (n := n) (b := base) (r := (r : Nat)) (by omega)
        (by omega) (by omega) (by omega)
      simp only [sourceOf, Source.offset, hrank, hsrc, Option.bind_eq_bind, Option.bind_some]
      rw [dif_pos (by omega)]
      simp
  | trgt r =>
      have hr := r.isLt
      obtain ⟨hrank, hsrc⟩ := getRank_trgt (n := n) (b := base) (r := (r : Nat)) (by omega)
        (by omega) (by omega) (by omega)
      have hport : base + ((n + (r : Nat) : Nat) : Int) = base + (r : Nat) + n := by omega
      simp only [sourceOf, Source.offset, hport, hrank, hsrc, Option.bind_eq_bind,
        Option.bind_some]
      rw [dif_pos (by omega)]
      simp

theorem offset_injective (n : Nat) : Function.Injective (Source.offset (n := n)) := by
  intro c d h
  have hval := congrArg Fin.val h
  cases c with
  | gdb r => cases d with
    | gdb q => simpa [Source.offset, Fin.val_inj] using hval
    | trgt q => exact absurd hval (by simp only [Source.offset]; omega)
  | trgt r => cases d with
    | gdb q => exact absurd hval (by simp only [Source.offset]; omega)
    | trgt q => simpa [Source.offset, Fin.val_inj] using hval

/-- Every port belongs to a connection. -/
theorem exists_offset (k : Fin (2 * n)) : ∃ c : Source n, c.offset = k := by
  by_cases hk : (k : Nat) < n
  · exact ⟨.gdb ⟨k, hk⟩, rfl⟩
  · refine ⟨.trgt ⟨k - n, by omega⟩, ?_⟩
    ext
    simp only [Source.offset]
    omega

end Ports

end ParallelGdb
