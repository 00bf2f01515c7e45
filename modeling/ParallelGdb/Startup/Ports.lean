import ParallelGdb.Startup.Values

/-!
# The ports of master and slaves

The master opens two ports for each rank above the base port, each slave computes
its two from its own rank, and the window maps the port a connection came in on
back to a rank. Signed overflow is undefined, so every `int` operation is
checked; the endpoint and the threads take a 16-bit port.
-/

namespace ParallelGdb.Startup

open Library.CString

/-- The result of an `int` operation; `none` where it overflows. -/
def checked (z : Int) : Option Int := if -(2 ^ 31) ≤ z ∧ z < 2 ^ 31 then some z else none

theorem checked_eq_some {z y : Int} :
    checked z = some y ↔ y = z ∧ -(2 ^ 31) ≤ z ∧ z < 2 ^ 31 := by
  simp only [checked, Option.ite_none_right_eq_some, Option.some.injEq]
  constructor
  · rintro ⟨hrange, rfl⟩
    exact ⟨rfl, hrange⟩
  · rintro ⟨rfl, hrange⟩
    exact ⟨hrange, rfl⟩

theorem checked_of_bounds {z : Int} (hlo : -(2 ^ 31) ≤ z) (hhi : z < 2 ^ 31) :
    checked z = some z := checked_eq_some.mpr ⟨rfl, hlo, hhi⟩

/-- The conversion of an `int` to `asio::ip::port_type`. -/
def portType (port : Int) : UInt16 := UInt16.ofInt port

/-- The ports `start_servers` computes, in order. -/
def startServers (numProcesses basePort : Int) : Option (List Int) := do
  let count ← checked (2 * numProcesses)
  (List.range count.toNat).mapM fun (offset : Nat) => checked (basePort + offset)

/-- `src_is_gdb`. -/
def srcIsGdb (numProcesses basePort port : Int) : Option Bool := do
  let limit ← checked (basePort + numProcesses)
  return decide (port < limit)

/-- `get_rank`. -/
def getRank (numProcesses basePort port : Int) : Option Int := do
  let limit ← checked (basePort + numProcesses)
  let rank ← checked (port - basePort)
  if port < limit then return rank else checked (rank - numProcesses)

/-- `set_base_port` of the slave. -/
def setBasePort (basePortStr : Bytes) : Option Int :=
  match stoi basePortStr with
  | some (value, pos) => if pos ≠ basePortStr.length then none else some value
  | none => none

/-- The ports `start_processes` of the slave computes: for GDB and for the target. -/
def slavePorts (basePort rank size : Int) : Option (Int × Int) := do
  let gdb ← checked (basePort + rank)
  let trgt ← checked (gdb + size)
  return (gdb, trgt)

/-- The ports of the master are good, and a slave's are read back as its own. -/
structure PortsAgree (numProcesses basePort : Int) (ports : List Int) : Prop where
  computed : startServers numProcesses basePort = some ports
  length : ports.length = 2 * numProcesses
  distinct : ports.Nodup
  valid : ∀ port ∈ ports, 1 ≤ port ∧ port ≤ 65535
  unchanged : ∀ port ∈ ports, ((portType port).toNat : Int) = port
  /-- `read_data` stores the connection at an index of the arrays. -/
  indexed : ∀ port ∈ ports, ∃ rank, 0 ≤ rank ∧ rank < numProcesses ∧
    getRank numProcesses basePort (portType port).toNat = some rank
  /-- The slave gets the base port as text. -/
  slaves : ∀ rank, 0 ≤ rank → rank < numProcesses → ∃ slaveBase gdb trgt,
    setBasePort (decimal basePort) = some slaveBase ∧
      slavePorts slaveBase rank numProcesses = some (gdb, trgt) ∧
      gdb ∈ ports ∧ trgt ∈ ports ∧
      getRank numProcesses basePort (portType gdb).toNat = some rank ∧
      srcIsGdb numProcesses basePort (portType gdb).toNat = some true ∧
      getRank numProcesses basePort (portType trgt).toNat = some rank ∧
      srcIsGdb numProcesses basePort (portType trgt).toNat = some false

section MapM

variable {α β : Type}

theorem mapM_of_forall {f : α → Option β} {g : α → β} {l : List α}
    (h : ∀ x ∈ l, f x = some (g x)) : l.mapM f = some (l.map g) := by
  induction l with
  | nil => rfl
  | cons x rest ih =>
      rw [List.mapM_cons, h x (by simp), ih fun y hy => h y (by simp [hy])]
      rfl

theorem mem_of_mapM {f : α → Option β} {l : List α} {ys : List β} (h : l.mapM f = some ys)
    {x : α} (hx : x ∈ l) : ∃ y ∈ ys, f x = some y := by
  induction l generalizing ys with
  | nil => simp at hx
  | cons z rest ih =>
      rw [List.mapM_cons] at h
      obtain ⟨y, hy, h⟩ := Option.bind_eq_some_iff.mp h
      obtain ⟨zs, hzs, h⟩ := Option.bind_eq_some_iff.mp h
      obtain rfl := Option.some.inj h
      rcases List.mem_cons.mp hx with rfl | hx
      · exact ⟨y, by simp, hy⟩
      · obtain ⟨w, hw, hfx⟩ := ih hzs hx
        exact ⟨w, by simp [hw], hfx⟩

end MapM

section Computed

variable {n b : Int}

/-- Without overflow the ports are the base port plus each offset. -/
theorem startServers_eq (hn : 0 < n) (hb : 0 ≤ b) (hfit : b + 2 * n ≤ 2 ^ 31)
    (hcount : 2 * n < 2 ^ 31) :
    startServers n b = some ((List.range (2 * n).toNat).map fun (offset : Nat) => b + (offset : Int)) := by
  have hcheck : checked (2 * n) = some (2 * n) := checked_of_bounds (by omega) hcount
  unfold startServers
  rw [hcheck]
  apply mapM_of_forall
  intro offset ho
  have hlt := List.mem_range.mp ho
  exact checked_of_bounds (by omega) (by omega)

/-- Whatever ports are computed, there is one for each offset. -/
theorem mem_startServers {ports : List Int} (h : startServers n b = some ports)
    {offset : Nat} (ho : (offset : Int) < 2 * n) : b + offset ∈ ports := by
  obtain ⟨count, hcount, hports⟩ := Option.bind_eq_some_iff.mp h
  obtain ⟨rfl, -⟩ := checked_eq_some.mp hcount
  have hmem : offset ∈ List.range (2 * n).toNat := List.mem_range.mpr (by omega)
  obtain ⟨port, hport, hcheck⟩ := mem_of_mapM hports hmem
  obtain ⟨rfl, -⟩ := checked_eq_some.mp hcheck
  exact hport

theorem portType_toNat {port : Int} (hlo : 0 ≤ port) (hhi : port ≤ 65535) :
    ((portType port).toNat : Int) = port := by
  rw [portType, UInt16.ofInt, UInt16.toNat_ofNat']
  omega

theorem getRank_gdb {r : Int} (hb : 0 ≤ b) (hr : 0 ≤ r) (hrn : r < n) (hfit : b + n < 2 ^ 31) :
    getRank n b (b + r) = some r ∧ srcIsGdb n b (b + r) = some true := by
  have hlimit : checked (b + n) = some (b + n) := checked_of_bounds (by omega) hfit
  have hrank : checked (b + r - b) = some r := by
    rw [show b + r - b = r by omega]
    exact checked_of_bounds (by omega) (by omega)
  have hbelow : b + r < b + n := by omega
  constructor
  · simp only [getRank, hlimit, hrank, Option.bind_eq_bind, Option.bind_some, if_pos hbelow]
    rfl
  · simp only [srcIsGdb, hlimit, Option.bind_eq_bind, Option.bind_some, decide_eq_true hbelow]
    rfl

theorem getRank_trgt {r : Int} (hb : 0 ≤ b) (hr : 0 ≤ r) (hrn : r < n)
    (hfit : b + 2 * n < 2 ^ 31) :
    getRank n b (b + r + n) = some r ∧ srcIsGdb n b (b + r + n) = some false := by
  have hlimit : checked (b + n) = some (b + n) := checked_of_bounds (by omega) (by omega)
  have hrank : checked (b + r + n - b) = some (r + n) := by
    rw [show b + r + n - b = r + n by omega]
    exact checked_of_bounds (by omega) (by omega)
  have hsub : checked (r + n - n) = some r := by
    rw [show r + n - n = r by omega]
    exact checked_of_bounds (by omega) (by omega)
  have habove : ¬ b + r + n < b + n := by omega
  constructor
  · simp only [getRank, hlimit, hrank, Option.bind_eq_bind, Option.bind_some, if_neg habove, hsub]
  · simp only [srcIsGdb, hlimit, Option.bind_eq_bind, Option.bind_some, decide_eq_false habove]
    rfl

/-- A slave reads its base port back from the command line. -/
theorem setBasePort_decimal (hb : 0 ≤ b) (hlt : b < 2 ^ 31) : setBasePort (decimal b) = some b := by
  obtain ⟨k, rfl⟩ := Int.eq_ofNat_of_zero_le hb
  have hread : stoi (decimal (k : Int)) = some ((k : Int), (decimal (k : Int)).length) :=
    stoi_natDigits (by omega)
  simp [setBasePort, hread]

theorem slavePorts_eq {r : Int} (hb : 0 ≤ b) (hr : 0 ≤ r) (hrn : r < n)
    (hfit : b + 2 * n < 2 ^ 31) : slavePorts b r n = some (b + r, b + r + n) := by
  have hgdb : checked (b + r) = some (b + r) := checked_of_bounds (by omega) (by omega)
  have htrgt : checked (b + r + n) = some (b + r + n) :=
    checked_of_bounds (by omega) (by omega)
  simp [slavePorts, hgdb, htrgt]

end Computed

/-- An accepted configuration gives good ports exactly if the base port is not
zero and all ports fit below the last one. -/
theorem portsAgree_iff {d : DialogContent} {v : StartupValues}
    (h : readValues false d = (v, true)) :
    (∃ ports, PortsAgree v.numberOfProcesses v.basePort ports) ↔
      1 ≤ v.basePort ∧ v.basePort + 2 * v.numberOfProcesses ≤ 65536 := by
  obtain ⟨hn, -, hb, -⟩ := readValues_accepted h
  generalize v.numberOfProcesses = n at hn ⊢
  generalize v.basePort = b at hb ⊢
  constructor
  · rintro ⟨ports, hagree⟩
    have hfirst := hagree.valid _ (mem_startServers hagree.computed
      (show ((0 : Nat) : Int) < 2 * n by omega))
    have hlast := hagree.valid _ (mem_startServers hagree.computed
      (show (((2 * n - 1).toNat : Nat) : Int) < 2 * n by omega))
    omega
  · rintro ⟨hbase, hfit⟩
    have hcomputed := startServers_eq hn hb (by omega) (by omega)
    have hbounds : ∀ port ∈ (List.range (2 * n).toNat).map fun (offset : Nat) => b + (offset : Int),
        ∃ offset : Int, 0 ≤ offset ∧ offset < 2 * n ∧ port = b + offset := by
      intro port hport
      obtain ⟨offset, ho, rfl⟩ := List.mem_map.mp hport
      have hlt := List.mem_range.mp ho
      exact ⟨offset, by omega, by omega, rfl⟩
    have hsame : ∀ port ∈ (List.range (2 * n).toNat).map fun (offset : Nat) => b + (offset : Int),
        ((portType port).toNat : Int) = port := by
      intro port hport
      obtain ⟨offset, hlo, hhi, rfl⟩ := hbounds port hport
      exact portType_toNat (by omega) (by omega)
    refine ⟨_, hcomputed, ?_, ?_, ?_, hsame, ?_, ?_⟩
    · rw [List.length_map, List.length_range]
      omega
    · apply List.Nodup.map _ List.nodup_range
      intro i j hij
      simpa using hij
    · intro port hport
      obtain ⟨offset, hlo, hhi, rfl⟩ := hbounds port hport
      omega
    · intro port hport
      rw [hsame port hport]
      obtain ⟨offset, hlo, hhi, rfl⟩ := hbounds port hport
      rcases lt_or_ge offset n with hgdb | htrgt
      · exact ⟨offset, hlo, hgdb, (getRank_gdb hb hlo hgdb (by omega)).1⟩
      · refine ⟨offset - n, by omega, by omega, ?_⟩
        rw [show b + offset = b + (offset - n) + n by omega]
        exact (getRank_trgt hb (by omega) (by omega) (by omega)).1
    · intro r hr hrn
      have hgdb :
          b + r ∈ (List.range (2 * n).toNat).map fun (offset : Nat) => b + (offset : Int) := by
        refine List.mem_map.mpr ⟨r.toNat, List.mem_range.mpr (by omega), by omega⟩
      have htrgt :
          b + r + n ∈ (List.range (2 * n).toNat).map fun (offset : Nat) => b + (offset : Int) := by
        refine List.mem_map.mpr ⟨(r + n).toNat, List.mem_range.mpr (by omega), by omega⟩
      refine ⟨b, b + r, b + r + n, setBasePort_decimal hb (by omega),
        slavePorts_eq hb hr hrn (by omega), hgdb, htrgt, ?_⟩
      rw [hsame _ hgdb, hsame _ htrgt]
      obtain ⟨hrank, hsrc⟩ := getRank_gdb hb hr hrn (by omega)
      obtain ⟨hrank', hsrc'⟩ := getRank_trgt hb hr hrn (by omega)
      exact ⟨hrank, hsrc, hrank', hsrc'⟩

/-- A custom launcher with the given number of processes and base port. -/
def customContent (numberOfProcesses basePort : String) : DialogContent where
  launcherMpirun := false
  launcherSrun := false
  launcherCustom := true
  ssh := false
  launcherArgs := []
  slavePath := []
  ipAddress := []
  targetPath := []
  targetArgs := []
  sshAddress := []
  sshUser := []
  sshPassword := []
  numberOfProcesses := ascii numberOfProcesses
  processesPerNode := []
  numNodes := []
  basePort := ascii basePort

theorem portsAgree_default :
    ∃ ports, PortsAgree (parseContent (customContent "4" "32768")).numberOfProcesses
      (parseContent (customContent "4" "32768")).basePort ports := by
  have h : readValues false (customContent "4" "32768") =
      (parseContent (customContent "4" "32768"), true) := rfl
  exact (portsAgree_iff h).mpr (by decide)

/-- The last base port is accepted, and the target port of the only rank is no
TCP port any more. -/
theorem last_base_port_disagrees :
    (readValues false (customContent "1" "65535")).2 = true ∧
      ¬ ∃ ports, PortsAgree (readValues false (customContent "1" "65535")).1.numberOfProcesses
        (readValues false (customContent "1" "65535")).1.basePort ports := by
  refine ⟨rfl, ?_⟩
  rintro ⟨ports, hagree⟩
  have hports : startServers 1 65535 = some [65535, 65536] := rfl
  obtain rfl := Option.some.inj (hports.symm.trans hagree.computed)
  exact absurd (hagree.valid 65536 (by simp)).2 (by decide)

end ParallelGdb.Startup
