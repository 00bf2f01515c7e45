import ParallelGdb.Exchange.Steps

/-!
# What a GDB will hold

With commands under way, the state of a Breakpoint is to be compared with the
table its GDB will have once it has run them all; `Holds` says so. The ledger
collects what places, numbers and the table of one GDB have to do with each
other, and each step of that GDB keeps both.
-/

namespace ParallelGdb

open Library.CString Library.Transition Mi Breakpoint

/-- The command inserts a breakpoint for `b`. -/
def Sent.Inserts (sent : Sent) (b : BkptId) : Prop :=
  sent.sender = b ∧ ∃ fullPath line, sent.cmd = .breakInsert fullPath line

/-- The command deletes the breakpoint numbered `k`. -/
def Sent.Deletes (sent : Sent) (k : Nat) : Prop := sent.cmd = .breakDelete k

namespace Gdb

/-- GDB will hold a breakpoint of `b` once it has accepted every insert and run
every delete in its input. -/
def Holds (g : Gdb) (b : BkptId) : Prop :=
  (∃ sent ∈ g.commands, sent.Inserts b) ∨
    ∃ k, g.table k = some b ∧ ∀ sent ∈ g.commands, ¬ sent.Deletes k

/-- GDB gave `number` to the most recent insert of `b`. -/
def assignedLast (g : Gdb) (b : BkptId) (number : Int) : Bool :=
  match g.lastInsert b with
  | none => false
  | some i => g.assigned.any fun p => decide (p.1 = i ∧ (p.2 : Int) = number)

theorem assignedLast_iff (g : Gdb) (b : BkptId) (number : Int) :
    g.assignedLast b number = true ↔
      ∃ i m, g.lastInsert b = some i ∧ (i, m) ∈ g.assigned ∧ number = (m : Int) := by
  unfold assignedLast
  cases h : g.lastInsert b with
  | none => simp
  | some i =>
      simp only [List.any_eq_true, decide_eq_true_eq, Option.some.injEq]
      constructor
      · rintro ⟨⟨j, m⟩, hmem, rfl, rfl⟩
        exact ⟨j, m, rfl, hmem, rfl⟩
      · rintro ⟨j, m, rfl, hmem, rfl⟩
        exact ⟨(i, m), hmem, rfl, rfl⟩

end Gdb

/-- How places, numbers and the table of one GDB hang together. -/
structure Ledger (g : Gdb) : Prop where
  serial_lt : ∀ sent ∈ g.commands, sent.serial < g.nextSerial
  serials : (g.commands.map Sent.serial).Nodup
  last_lt : ∀ b i, g.lastInsert b = some i → i < g.nextSerial
  last_inj : ∀ b c i, g.lastInsert b = some i → g.lastInsert c = some i → b = c
  assigned_lt : ∀ i m, (i, m) ∈ g.assigned → i < g.nextSerial
  functional : ∀ i k m, (i, k) ∈ g.assigned → (i, m) ∈ g.assigned → k = m
  distinct : ∀ i j k, (i, k) ∈ g.assigned → (j, k) ∈ g.assigned → i = j
  /-- An insert GDB has not read is the most recent one of its sender. -/
  awaited : ∀ sent ∈ g.commands, ∀ b, sent.Inserts b →
    g.lastInsert b = some sent.serial ∧ ∀ m, (sent.serial, m) ∉ g.assigned
  numbered : ∀ b k, g.table k = some b → ∃ i, (i, k) ∈ g.assigned
  /-- What stays in the table belongs to the most recent insert of its owner. -/
  newest : ∀ b k, g.table k = some b → (∀ sent ∈ g.commands, ¬ sent.Deletes k) →
    ∃ i, g.lastInsert b = some i ∧ (i, k) ∈ g.assigned
  deletes : ∀ sent ∈ g.commands, ∀ number, sent.cmd = .breakDelete number →
    ∃ i k, (i, k) ∈ g.assigned ∧ number = ((k : Nat) : Int)

namespace Ledger

variable {g : Gdb}

theorem init : Ledger Gdb.init := by
  constructor <;> simp [Gdb.init]

/-- Answers are not part of the ledger. -/
theorem setAnswers (h : Ledger g) (answers : List Reply) :
    Ledger { g with answers := answers } where
  serial_lt := h.serial_lt
  serials := h.serials
  last_lt := h.last_lt
  last_inj := h.last_inj
  assigned_lt := h.assigned_lt
  functional := h.functional
  distinct := h.distinct
  awaited := h.awaited
  numbered := h.numbered
  newest := h.newest
  deletes := h.deletes

section Receive

variable {p : BkptId × Command}

theorem commands_receive (g : Gdb) (p : BkptId × Command) :
    (g.receive p).commands = g.commands ++ [⟨g.nextSerial, p.1, p.2⟩] := rfl

/-- The two facts about places that every arriving command keeps. -/
theorem receive_serials (h : Ledger g) (p : BkptId × Command) :
    (∀ sent ∈ (g.receive p).commands, sent.serial < (g.receive p).nextSerial) ∧
      ((g.receive p).commands.map Sent.serial).Nodup := by
  constructor
  · intro sent hsent
    rcases List.mem_append.mp hsent with hsent | hsent
    · exact Nat.lt_succ_of_lt (h.serial_lt sent hsent)
    · obtain rfl := List.mem_singleton.mp hsent
      exact Nat.lt_succ_self _
  · rw [commands_receive, List.map_append, List.nodup_append]
    refine ⟨h.serials, by simp, ?_⟩
    intro i hi j hj hij
    obtain ⟨sent, hsent, rfl⟩ := List.mem_map.mp hi
    obtain rfl : j = g.nextSerial := by simpa using hj
    exact absurd hij (Nat.ne_of_lt (h.serial_lt sent hsent))

/-- A Breakpoint GDB holds nothing of inserts one. -/
theorem receive_insert (h : Ledger g) {b : BkptId} (hb : ¬ g.Holds b) (fullPath : Bytes)
    (line : Int) : Ledger (g.receive (b, .breakInsert fullPath line)) := by
  have hself : (g.receive (b, .breakInsert fullPath line)).lastInsert b =
      some g.nextSerial := Function.update_self b _ _
  have hother : ∀ c, c ≠ b →
      (g.receive (b, .breakInsert fullPath line)).lastInsert c = g.lastInsert c :=
    fun c hcb => Function.update_of_ne hcb _ _
  constructor
  · exact (h.receive_serials _).1
  · exact (h.receive_serials _).2
  · intro c i hi
    by_cases hcb : c = b
    · rw [hcb, hself] at hi
      obtain rfl := Option.some.inj hi
      exact Nat.lt_succ_self _
    · rw [hother c hcb] at hi
      exact Nat.lt_succ_of_lt (h.last_lt c i hi)
  · intro c d i hc hd
    by_cases hcb : c = b <;> by_cases hdb : d = b
    · rw [hcb, hdb]
    · rw [hcb, hself] at hc
      rw [hother d hdb] at hd
      obtain rfl := Option.some.inj hc
      exact absurd (h.last_lt d _ hd) (Nat.lt_irrefl _)
    · rw [hother c hcb] at hc
      rw [hdb, hself] at hd
      obtain rfl := Option.some.inj hd
      exact absurd (h.last_lt c _ hc) (Nat.lt_irrefl _)
    · rw [hother c hcb] at hc
      rw [hother d hdb] at hd
      exact h.last_inj c d i hc hd
  · exact fun i m hm => Nat.lt_succ_of_lt (h.assigned_lt i m hm)
  · exact h.functional
  · exact h.distinct
  · intro sent hsent c hc
    rcases List.mem_append.mp hsent with hold | hsent
    · have hcb : c ≠ b := by
        rintro rfl
        exact hb (Or.inl ⟨sent, hold, hc⟩)
      rw [hother c hcb]
      exact h.awaited sent hold c hc
    · obtain rfl := List.mem_singleton.mp hsent
      obtain ⟨rfl, -⟩ := hc
      refine ⟨hself, fun m hm => ?_⟩
      exact absurd (h.assigned_lt _ m hm) (Nat.lt_irrefl _)
  · exact h.numbered
  · intro c k hk hno
    have hno' : ∀ sent ∈ g.commands, ¬ sent.Deletes k :=
      fun sent hsent => hno sent (List.mem_append_left _ hsent)
    have hcb : c ≠ b := by
      rintro rfl
      exact hb (Or.inr ⟨k, hk, hno'⟩)
    rw [hother c hcb]
    exact h.newest c k hk hno'
  · intro sent hsent number hcmd
    rcases List.mem_append.mp hsent with hsent | hsent
    · exact h.deletes sent hsent number hcmd
    · obtain rfl := List.mem_singleton.mp hsent
      exact absurd hcmd (by simp)

/-- A delete arrives with a number GDB has assigned. -/
theorem receive_delete (h : Ledger g) (b : BkptId) {i m : Nat} (hm : (i, m) ∈ g.assigned) :
    Ledger (g.receive (b, .breakDelete m)) := by
  constructor
  · exact (h.receive_serials _).1
  · exact (h.receive_serials _).2
  · exact fun c i hi => Nat.lt_succ_of_lt (h.last_lt c i hi)
  · exact h.last_inj
  · exact fun i m hm => Nat.lt_succ_of_lt (h.assigned_lt i m hm)
  · exact h.functional
  · exact h.distinct
  · intro sent hsent c hc
    rcases List.mem_append.mp hsent with hsent | hsent
    · exact h.awaited sent hsent c hc
    · obtain rfl := List.mem_singleton.mp hsent
      obtain ⟨-, fullPath, line, hcmd⟩ := hc
      exact absurd hcmd (by simp)
  · exact h.numbered
  · intro c k hk hno
    exact h.newest c k hk fun sent hsent => hno sent (List.mem_append_left _ hsent)
  · intro sent hsent number hcmd
    rcases List.mem_append.mp hsent with hsent | hsent
    · exact h.deletes sent hsent number hcmd
    · obtain rfl := List.mem_singleton.mp hsent
      exact ⟨i, m, hm, (Command.breakDelete.inj hcmd).symm⟩

theorem holds_receive_insert (g : Gdb) (b : BkptId) (fullPath : Bytes) (line : Int)
    (c : BkptId) :
    (g.receive (b, .breakInsert fullPath line)).Holds c ↔ c = b ∨ g.Holds c := by
  have htable : (g.receive (b, .breakInsert fullPath line)).table = g.table := rfl
  simp only [Gdb.Holds, commands_receive, htable, List.mem_append, List.mem_singleton,
    or_and_right, exists_or, exists_eq_left, or_imp, forall_and, forall_eq, Sent.Inserts,
    Sent.Deletes, Command.breakInsert.injEq, reduceCtorEq, not_false_eq_true, and_true]
  constructor
  · rintro ((h | ⟨rfl, -⟩) | h)
    · exact Or.inr (Or.inl h)
    · exact Or.inl rfl
    · exact Or.inr (Or.inr h)
  · rintro (rfl | h | h)
    · exact Or.inl (Or.inr ⟨rfl, fullPath, line, rfl, rfl⟩)
    · exact Or.inl (Or.inl h)
    · exact Or.inr h

/-- A delete with the number of the most recent insert of its sender takes
away what GDB holds of the sender, and nothing else. -/
theorem holds_receive_delete (h : Ledger g) {b : BkptId} {i m : Nat}
    (hlast : g.lastInsert b = some i) (hm : (i, m) ∈ g.assigned) (c : BkptId) :
    (g.receive (b, .breakDelete m)).Holds c ↔ c ≠ b ∧ g.Holds c := by
  constructor
  · rintro (⟨sent, hsent, hc⟩ | ⟨k, hk, hno⟩)
    · rcases List.mem_append.mp hsent with hold | hsent
      · refine ⟨?_, Or.inl ⟨sent, hold, hc⟩⟩
        rintro rfl
        obtain ⟨hlast', hfree⟩ := h.awaited sent hold c hc
        obtain rfl := Option.some.inj (hlast.symm.trans hlast')
        exact hfree m hm
      · obtain rfl := List.mem_singleton.mp hsent
        obtain ⟨-, fullPath, line, hcmd⟩ := hc
        exact absurd hcmd (by simp)
    · have hno' : ∀ sent ∈ g.commands, ¬ sent.Deletes k :=
        fun sent hsent => hno sent (List.mem_append_left _ hsent)
      refine ⟨?_, Or.inr ⟨k, hk, hno'⟩⟩
      rintro rfl
      obtain ⟨j, hj, hjk⟩ := h.newest c k hk hno'
      obtain rfl := Option.some.inj (hlast.symm.trans hj)
      obtain rfl := h.functional i k m hjk hm
      exact hno ⟨g.nextSerial, c, .breakDelete k⟩ (by simp [commands_receive]) rfl
  · rintro ⟨hcb, ⟨sent, hsent, hc⟩ | ⟨k, hk, hno⟩⟩
    · exact Or.inl ⟨sent, List.mem_append_left _ hsent, hc⟩
    · refine Or.inr ⟨k, hk, fun sent hsent => ?_⟩
      rcases List.mem_append.mp hsent with hsent | hsent
      · exact hno sent hsent
      · -- the number of `b` is no other Breakpoint's
        obtain rfl := List.mem_singleton.mp hsent
        intro hdel
        obtain rfl : m = k := by
          simpa [Sent.Deletes] using hdel
        obtain ⟨j, hj, hjk⟩ := h.newest c m hk hno
        obtain rfl := h.distinct j i m hjk hm
        exact hcb (h.last_inj c b j hj hlast)

end Receive

section Run

variable {sent : Sent} {rest : List Sent}

/-- What an accepted insert changes: it is read, numbered and in the table. -/
theorem accept (h : Ledger g) (hc : g.commands = sent :: rest) {fullPath : Bytes} {line : Int}
    (hcmd : sent.cmd = .breakInsert fullPath line) {number : Nat}
    (hfresh : ∀ i, (i, number) ∉ g.assigned) : Ledger (g.accept sent rest number) := by
  have hrest : ∀ sent' ∈ rest, sent' ∈ g.commands := fun sent' h' => by simp [hc, h']
  have hhead : sent ∈ g.commands := by simp [hc]
  obtain ⟨hlast, hfree⟩ := h.awaited sent hhead sent.sender ⟨rfl, fullPath, line, hcmd⟩
  have hnodup := h.serials
  rw [hc, List.map_cons, List.nodup_cons] at hnodup
  have hassigned : ∀ i k, (i, k) ∈ (g.accept sent rest number).assigned ↔
      (i = sent.serial ∧ k = number) ∨ (i, k) ∈ g.assigned := by
    intro i k
    simp [Gdb.accept]
  constructor
  · exact fun sent' h' => h.serial_lt sent' (hrest sent' h')
  · exact hnodup.2
  · exact h.last_lt
  · exact h.last_inj
  · intro i m hm
    rcases (hassigned i m).mp hm with ⟨rfl, -⟩ | hm
    · exact h.last_lt _ _ hlast
    · exact h.assigned_lt i m hm
  · intro i k m hk hm
    rcases (hassigned i k).mp hk with ⟨hi, hk⟩ | hk <;>
      rcases (hassigned i m).mp hm with ⟨hi', hm⟩ | hm
    · rw [hk, hm]
    · exact absurd (hi ▸ hm) (hfree m)
    · exact absurd (hi' ▸ hk) (hfree k)
    · exact h.functional i k m hk hm
  · intro i j k hi hj
    rcases (hassigned i k).mp hi with ⟨hi, hk⟩ | hi <;>
      rcases (hassigned j k).mp hj with ⟨hj, hk'⟩ | hj
    · rw [hi, hj]
    · exact absurd (hk ▸ hj) (hfresh j)
    · exact absurd (hk' ▸ hi) (hfresh i)
    · exact h.distinct i j k hi hj
  · intro sent' h' b hb
    obtain ⟨hlast', hfree'⟩ := h.awaited sent' (hrest sent' h') b hb
    refine ⟨hlast', fun m hm => ?_⟩
    rcases (hassigned _ m).mp hm with ⟨heq, -⟩ | hm
    · exact hnodup.1 (heq ▸ List.mem_map_of_mem h')
    · exact hfree' m hm
  · intro b k hk
    simp only [Gdb.accept, Function.update_apply] at hk
    split at hk
    · rename_i heq
      exact ⟨sent.serial, (hassigned _ _).mpr (Or.inl ⟨rfl, heq⟩)⟩
    · obtain ⟨i, hi⟩ := h.numbered b k hk
      exact ⟨i, (hassigned _ _).mpr (Or.inr hi)⟩
  · intro b k hk hno
    simp only [Gdb.accept, Function.update_apply] at hk
    split at hk
    · rename_i heq
      obtain rfl := Option.some.inj hk
      exact ⟨sent.serial, hlast, (hassigned _ _).mpr (Or.inl ⟨rfl, heq⟩)⟩
    · have hno' : ∀ sent' ∈ g.commands, ¬ sent'.Deletes k := by
        intro sent' h'
        rcases List.mem_cons.mp (hc ▸ h') with rfl | h'
        · simp [Sent.Deletes, hcmd]
        · exact hno sent' h'
      obtain ⟨i, hi, hik⟩ := h.newest b k hk hno'
      exact ⟨i, hi, (hassigned _ _).mpr (Or.inr hik)⟩
  · intro sent' h' number' hcmd'
    obtain ⟨i, k, hik, hk⟩ := h.deletes sent' (hrest sent' h') number' hcmd'
    exact ⟨i, k, (hassigned _ _).mpr (Or.inr hik), hk⟩

/-- Accepting an insert keeps what GDB will hold. -/
theorem holds_accept (h : Ledger g) (hc : g.commands = sent :: rest) {fullPath : Bytes}
    {line : Int} (hcmd : sent.cmd = .breakInsert fullPath line) {number : Nat}
    (hfresh : ∀ i, (i, number) ∉ g.assigned) (b : BkptId) :
    (g.accept sent rest number).Holds b ↔ g.Holds b := by
  have hrest : ∀ sent' ∈ rest, sent' ∈ g.commands := fun sent' h' => by simp [hc, h']
  have hfreshTable : g.table number = none := by
    cases ht : g.table number with
    | none => rfl
    | some c =>
        obtain ⟨i, hi⟩ := h.numbered c number ht
        exact absurd hi (hfresh i)
  constructor
  · rintro (⟨sent', h', hb⟩ | ⟨k, hk, hno⟩)
    · exact Or.inl ⟨sent', hrest sent' h', hb⟩
    · simp only [Gdb.accept, Function.update_apply] at hk
      split at hk
      · obtain rfl := Option.some.inj hk
        exact Or.inl ⟨sent, by simp [hc], rfl, fullPath, line, hcmd⟩
      · refine Or.inr ⟨k, hk, fun sent' h' => ?_⟩
        rcases List.mem_cons.mp (hc ▸ h') with rfl | h'
        · simp [Sent.Deletes, hcmd]
        · exact hno sent' h'
  · rintro (⟨sent', h', hb⟩ | ⟨k, hk, hno⟩)
    · rcases List.mem_cons.mp (hc ▸ h') with rfl | h'
      · obtain ⟨rfl, -⟩ := hb
        refine Or.inr ⟨number, Function.update_self _ _ _, fun sent'' h'' hdel => ?_⟩
        obtain ⟨i, k, hik, hk⟩ := h.deletes sent'' (hrest sent'' h'') number hdel
        obtain rfl : number = k := by exact_mod_cast hk
        exact hfresh i hik
      · exact Or.inl ⟨sent', h', hb⟩
    · refine Or.inr ⟨k, ?_, fun sent' h' => hno sent' (hrest sent' h')⟩
      have hne : k ≠ number := by
        rintro rfl
        simp [hfreshTable] at hk
      simpa [Gdb.accept, Function.update_of_ne hne] using hk

/-- A delete GDB reads carries a number it has assigned; the table loses its
entry if it still has one. -/
theorem remove_eq (h : Ledger g) (hc : g.commands = sent :: rest) {number : Int}
    (hcmd : sent.cmd = .breakDelete number) :
    ∃ (k : Nat) (answers : List Reply), number = k ∧
      g.remove sent rest number =
        { g with
          commands := rest
          answers := answers
          table := Function.update g.table k none } := by
  obtain ⟨i, k, -, rfl⟩ := h.deletes sent (by simp [hc]) number hcmd
  cases ht : g.table k with
  | some b =>
      refine ⟨k, g.answers ++ [⟨sent.serial, sent.sender, .deleted⟩], rfl, ?_⟩
      simp [Gdb.remove, ht]
  | none =>
      refine ⟨k, g.answers ++ [⟨sent.serial, sent.sender, .noSuchNumber⟩], rfl, ?_⟩
      have hsame : Function.update g.table k none = g.table := by
        rw [← ht, Function.update_eq_self]
      simp [Gdb.remove, ht, hsame]

theorem remove (h : Ledger g) (hc : g.commands = sent :: rest) {number : Int}
    (hcmd : sent.cmd = .breakDelete number) : Ledger (g.remove sent rest number) := by
  obtain ⟨k, answers, rfl, heq⟩ := h.remove_eq hc hcmd
  have hrest : ∀ sent' ∈ rest, sent' ∈ g.commands := fun sent' h' => by simp [hc, h']
  have hnodup := h.serials
  rw [hc, List.map_cons, List.nodup_cons] at hnodup
  have htable : ∀ b j, Function.update g.table k none j = some b →
      g.table j = some b ∧ j ≠ k := by
    intro b j hj
    rw [Function.update_apply] at hj
    split at hj
    · simp at hj
    · exact ⟨hj, ‹_›⟩
  rw [heq]
  constructor
  · exact fun sent' h' => h.serial_lt sent' (hrest sent' h')
  · exact hnodup.2
  · exact h.last_lt
  · exact h.last_inj
  · exact h.assigned_lt
  · exact h.functional
  · exact h.distinct
  · exact fun sent' h' => h.awaited sent' (hrest sent' h')
  · exact fun b j hj => h.numbered b j (htable b j hj).1
  · intro b j hj hno
    obtain ⟨hj, hne⟩ := htable b j hj
    refine h.newest b j hj fun sent' h' => ?_
    rcases List.mem_cons.mp (hc ▸ h') with rfl | h'
    · simpa [Sent.Deletes, hcmd, eq_comm] using hne
    · exact hno sent' h'
  · exact fun sent' h' => h.deletes sent' (hrest sent' h')

/-- Running a delete keeps what GDB will hold. -/
theorem holds_remove (h : Ledger g) (hc : g.commands = sent :: rest) {number : Int}
    (hcmd : sent.cmd = .breakDelete number) (b : BkptId) :
    (g.remove sent rest number).Holds b ↔ g.Holds b := by
  obtain ⟨k, answers, rfl, heq⟩ := h.remove_eq hc hcmd
  have hhead : ∀ c, ¬ sent.Inserts c := by
    rintro c ⟨-, fullPath, line, hcmd'⟩
    exact absurd (hcmd.symm.trans hcmd') (by simp)
  rw [heq]
  simp only [Gdb.Holds, hc, List.exists_mem_cons_iff, hhead, false_or, List.forall_mem_cons]
  refine or_congr Iff.rfl (exists_congr fun j => ?_)
  rw [Function.update_apply]
  by_cases hj : j = k
  · subst hj
    simp [Sent.Deletes, hcmd]
  · have hdel : ¬ sent.Deletes j := by
      simpa [Sent.Deletes, hcmd, eq_comm] using hj
    simp [hj, hdel]

end Run

end Ledger

end ParallelGdb
