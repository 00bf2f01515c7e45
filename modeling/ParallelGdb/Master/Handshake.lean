import ParallelGdb.Master.Threads
import ParallelGdb.Slave.Identity

/-!
# Slaves find their threads

The master listens at a port for each connection, and each slave computes its two from
its own rank. They meet: every port is connected to by one socat instance, that of the
connection the thread of the port stores its socket for.
-/

namespace ParallelGdb.Slave

open Library.CString Startup Target

variable {n : Nat} {s : Slave} {base : Int}

/-- The launcher tells every process its rank and their number. -/
def Ranked (s : Slave) (getenv : Fin n → Environment) : Prop :=
  ∀ rank, s.rankText (getenv rank) = some (natDigits rank) ∧
    s.sizeText (getenv rank) = some (natDigits n)

/-- The PTY of a connection. -/
def ttyOf : Source n → Bytes
  | .gdb rank => ttyGdb (rank : Nat)
  | .trgt rank => ttyTrgt (rank : Nat)

/-- The socat instance that belongs to the thread of a port. -/
def socatOf (ip : Bytes) (base : Int) (c : Source n) : List Bytes :=
  [ascii "socat", ascii "TCP:" ++ ip ++ ascii ":" ++ decimal (threadPort base c.offset),
    ascii "PTY,echo=0,link=" ++ ttyOf c]

theorem ttyOf_injective (n : Nat) : Function.Injective (ttyOf (n := n)) := by
  intro c d h
  cases c with
  | gdb r => cases d with
    | gdb q => exact congrArg Source.gdb (Fin.ext (ttyName_injective _ h))
    | trgt q => exact absurd h (ttyGdb_ne_ttyTrgt _ _)
  | trgt r => cases d with
    | gdb q => exact absurd h.symm (ttyGdb_ne_ttyTrgt _ _)
    | trgt q => exact congrArg Source.trgt (Fin.ext (ttyName_injective _ h))

/-- A slave that is told its rank starts the two socat instances of this rank. -/
theorem startProcesses_socatOf {argv : List Bytes} {ip : Bytes} {getenv : Environment}
    (hargv : parseClArgs argv = .ok s) (hip : s.ipAddr = some ip)
    (hport : s.basePortStr = some (decimal base)) (hbase : GoodPorts n base) {rank : Fin n}
    (hranked : s.rankText getenv = some (natDigits rank) ∧
      s.sizeText getenv = some (natDigits n)) :
    ∃ started, start argv getenv = .ok started ∧
      started.startProcesses =
        some (socatOf ip base (.gdb rank), socatOf ip base (.trgt rank)) := by
  have hrank := rank.isLt
  obtain ⟨hrankText, hsizeText⟩ := hranked
  obtain ⟨hlo, hhi⟩ := id hbase
  refine ⟨_, start_eq hargv hport (by omega) hrankText hsizeText (by omega), ?_⟩
  have hports := slavePorts_eq (n := n) (b := base) (r := (rank : Nat)) (by omega) (by omega)
    (by omega) (by omega)
  have hgdb : threadPort base (Source.gdb rank).offset = base + (rank : Nat) :=
    threadPort_eq hbase _
  have htrgt : threadPort base (Source.trgt rank).offset = base + (rank : Nat) + n := by
    rw [threadPort_eq hbase]
    simp only [Source.offset]
    omega
  simp [Started.startProcesses, hports, socatOf, startSocat, hip, hgdb, htrgt, ttyOf]

/-- Each slave starts for each of its connections the socat instance that connects to
the port at which the master waits for this connection, and no two of all these
instances share a port or a PTY. -/
theorem slaves_meet_threads {argv : List Bytes} {ip : Bytes} {getenv : Fin n → Environment}
    (hargv : parseClArgs argv = .ok s) (hip : s.ipAddr = some ip)
    (hport : s.basePortStr = some (decimal base)) (hbase : GoodPorts n base)
    (hranked : s.Ranked getenv) :
    (∀ rank, ∃ started, start argv (getenv rank) = .ok started ∧
      started.startProcesses = some (socatOf ip base (.gdb rank), socatOf ip base (.trgt rank))) ∧
    (∀ c : Source n, sourceOf n base (threadPort base c.offset) = some c) ∧
    Function.Injective (fun c : Source n => threadPort base c.offset) ∧
    Function.Injective (ttyOf (n := n)) := by
  refine ⟨fun rank => startProcesses_socatOf hargv hip hport hbase (hranked rank),
    sourceOf_threadPort hbase, ?_, ttyOf_injective n⟩
  intro c d hports
  have hc := sourceOf_threadPort hbase c
  have hd := sourceOf_threadPort hbase d
  simp only at hports
  rw [hports, hd] at hc
  exact (Option.some.inj hc).symm

/-- Two slaves under mpirun on one host. -/
def twoRanks (rank : Fin 2) : Environment := fun name =>
  if name = ascii "OMPI_COMM_WORLD_RANK" then some (natDigits rank)
  else if name = ascii "OMPI_COMM_WORLD_SIZE" then some (natDigits 2)
  else none

/-- What the two read of their arguments. -/
def twoRanksSlave : Slave where
  argv := ["slave", "-i", "host", "-p", "32768", "a.out"].map ascii
  argsOffset := 6
  ipAddr := some (ascii "host")
  basePortStr := some (ascii "32768")
  target := some (ascii "a.out")

theorem twoRanks_meet : ∃ started,
    start twoRanksSlave.argv (twoRanks 1) = .ok started ∧
      started.startProcesses = some (socatOf (ascii "host") 32768 (Source.gdb (1 : Fin 2)),
        socatOf (ascii "host") 32768 (Source.trgt (1 : Fin 2))) := by
  have hargv : parseClArgs twoRanksSlave.argv = .ok twoRanksSlave := rfl
  have hranked : twoRanksSlave.Ranked twoRanks := fun rank =>
    ⟨rankText_of_launcher rfl rfl (Or.inl rfl), sizeText_of_launcher rfl rfl (Or.inl rfl)⟩
  have hbase : GoodPorts 2 32768 := by decide
  exact (slaves_meet_threads hargv rfl rfl hbase hranked).1 1

end ParallelGdb.Slave
