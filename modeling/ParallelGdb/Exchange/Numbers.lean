import ParallelGdb.Exchange.Steps

/-!
# Which Breakpoint gets which number

The window has one slot per rank for the Breakpoint whose number it awaits, so
a number reaches the right object only if at most one insert is open on the
rank. The invariant links the slot to that insert and each recorded number to
the insert it was assigned to.
-/

namespace ParallelGdb

open Library.CString Library.Transition Mi Breakpoint

namespace Gdb

/-- The most recent insert of the Breakpoint was accepted, and the window has
handled the answer. -/
def knows (g : Gdb) (b : BkptId) : Bool :=
  match g.lastInsert b with
  | none => false
  | some i => (g.assigned.any fun p => p.1 = i) && !g.opens.contains (i, b)

theorem knows_iff (g : Gdb) (b : BkptId) :
    g.knows b = true ↔
      ∃ i m, g.lastInsert b = some i ∧ (i, m) ∈ g.assigned ∧ (i, b) ∉ g.opens := by
  unfold knows
  cases h : g.lastInsert b with
  | none => simp
  | some i => simp

@[simp] theorem opens_receive_delete (g : Gdb) (b : BkptId) (number : Int) :
    (g.receive (b, .breakDelete number)).opens = g.opens := by
  simp [opens, receive, Sent.insertOf]

theorem opens_receive_insert {g : Gdb} (h : g.opens = []) (b : BkptId) (fullPath : Bytes)
    (line : Int) :
    (g.receive (b, .breakInsert fullPath line)).opens = [(g.nextSerial, b)] := by
  simp only [opens, List.append_eq_nil_iff] at h
  simp [opens, receive, Sent.insertOf, h.1, h.2]

end Gdb

/-- What links the window's slot and numbers for a rank to the rank's GDB. -/
structure Linked {n : Nat} (t : Tracker n) (r : Fin n) (g : Gdb) : Prop where
  last_lt : ∀ b i, g.lastInsert b = some i → i < g.nextSerial
  last_inj : ∀ b b' i, g.lastInsert b = some i → g.lastInsert b' = some i → b = b'
  assigned_lt : ∀ i m, (i, m) ∈ g.assigned → i < g.nextSerial
  waiting : ∀ p ∈ g.commands.filterMap Sent.insertOf, ∀ m, (p.1, m) ∉ g.assigned
  answered : ∀ reply ∈ g.answers, ∀ k, reply.answer = .inserted k →
    k < 2 ^ 31 ∧ ∀ m, (reply.serial, m) ∈ g.assigned ↔ m = k
  single : g.opens = [] ∨
    ∃ i b, g.opens = [(i, b)] ∧ t.breakpoints r = some b ∧ g.lastInsert b = some i
  known : ∀ b i m bp, g.lastInsert b = some i → (i, m) ∈ g.assigned → (i, b) ∉ g.opens →
    t.objects b = some bp → bp.numbers r = m

namespace Linked

variable {n : Nat} {t t' : Tracker n} {r : Fin n} {g : Gdb}

/-- Only the slot and the recorded numbers of the rank matter. -/
theorem congr (h : Linked t r g) (hslot : t'.breakpoints r = t.breakpoints r)
    (hobj : ∀ b bp', t'.objects b = some bp' →
      ∃ bp, t.objects b = some bp ∧ bp'.numbers r = bp.numbers r) : Linked t' r g where
  last_lt := h.last_lt
  last_inj := h.last_inj
  assigned_lt := h.assigned_lt
  waiting := h.waiting
  answered := h.answered
  single := by
    rw [hslot]
    exact h.single
  known := by
    intro b i m bp' hlast hm hopen hbp'
    obtain ⟨bp, hbp, hnum⟩ := hobj b bp' hbp'
    rw [hnum]
    exact h.known b i m bp hlast hm hopen hbp

/-- The Breakpoint that sent the open insert holds the slot. -/
theorem slot_of_open (h : Linked t r g) {i : Nat} {b : BkptId} (ho : (i, b) ∈ g.opens) :
    g.opens = [(i, b)] ∧ t.breakpoints r = some b ∧ g.lastInsert b = some i := by
  rcases h.single with hnil | ⟨j, b', hone, hslot, hlast⟩
  · simp [hnil] at ho
  · obtain ⟨rfl, rfl⟩ : i = j ∧ b = b' := by simpa [hone] using ho
    exact ⟨hone, hslot, hlast⟩

/-- A delete command changes neither the open inserts nor the numbers. -/
theorem receive_delete (h : Linked t r g) (b : BkptId) (number : Int) :
    Linked t r (g.receive (b, .breakDelete number)) where
  last_lt := fun b' i hlast => Nat.lt_succ_of_lt (h.last_lt b' i hlast)
  last_inj := h.last_inj
  assigned_lt := fun i m hm => Nat.lt_succ_of_lt (h.assigned_lt i m hm)
  waiting := by simpa [Gdb.receive, Sent.insertOf] using h.waiting
  answered := h.answered
  single := by
    rw [Gdb.opens_receive_delete]
    exact h.single
  known := fun b' i m bp hlast hm hopen hbp =>
    h.known b' i m bp hlast hm (by simpa using hopen) hbp

/-- An insert sent while none is open takes the slot. -/
theorem receive_insert (h : Linked t r g) (ho : g.opens = []) (b : BkptId) (fullPath : Bytes)
    (line : Int) (hslot : t.breakpoints r = some b) :
    Linked t r (g.receive (b, .breakInsert fullPath line)) where
  last_lt := by
    intro b' i hlast
    simp only [Gdb.receive, Function.update_apply] at hlast ⊢
    split at hlast
    · obtain rfl := Option.some.inj hlast
      exact Nat.lt_succ_self _
    · exact Nat.lt_succ_of_lt (h.last_lt b' i hlast)
  last_inj := by
    intro b' b'' i h' h''
    simp only [Gdb.receive, Function.update_apply] at h' h''
    split at h' <;> split at h''
    · simp_all
    · obtain rfl := Option.some.inj h'
      exact absurd (h.last_lt b'' _ h'') (Nat.lt_irrefl _)
    · obtain rfl := Option.some.inj h''
      exact absurd (h.last_lt b' _ h') (Nat.lt_irrefl _)
    · exact h.last_inj b' b'' i h' h''
  assigned_lt := fun i m hm => Nat.lt_succ_of_lt (h.assigned_lt i m hm)
  waiting := by
    intro p hp m hm
    simp only [Gdb.receive, List.filterMap_append, List.mem_append] at hp
    rcases hp with hp | hp
    · exact h.waiting p hp m hm
    · obtain rfl : p = (g.nextSerial, b) := by simpa [Sent.insertOf] using hp
      exact absurd (h.assigned_lt _ m hm) (Nat.lt_irrefl _)
  answered := h.answered
  single := Or.inr ⟨g.nextSerial, b, Gdb.opens_receive_insert ho b fullPath line, hslot,
    by simp [Gdb.receive]⟩
  known := by
    intro b' i m bp hlast hm hopen hbp
    simp only [Gdb.receive, Function.update_apply] at hlast
    split at hlast
    · obtain rfl := Option.some.inj hlast
      exact absurd (h.assigned_lt _ m hm) (Nat.lt_irrefl _)
    · exact h.known b' i m bp hlast hm (by simp [ho]) hbp

/-- An accepted insert is still open; its number is on the way. -/
theorem accept (h : Linked t r g) {sent : Sent} {rest : List Sent}
    (hc : g.commands = sent :: rest) {fullPath : Bytes} {line : Int}
    (hcmd : sent.cmd = .breakInsert fullPath line) {number : Nat} (hnum : number < 2 ^ 31) :
    Linked t r (g.accept sent rest number) := by
  have hins : sent.insertOf = some (sent.serial, sent.sender) := by simp [Sent.insertOf, hcmd]
  have hmem : (sent.serial, sent.sender) ∈ g.commands.filterMap Sent.insertOf := by
    simp [hc, hins]
  obtain ⟨hone, hslot, hlast⟩ :=
    h.slot_of_open (i := sent.serial) (b := sent.sender) (List.mem_append_left _ hmem)
  -- the head of the input is the only open insert
  obtain ⟨hrest, hans⟩ : rest.filterMap Sent.insertOf = [] ∧
      g.answers.filterMap Reply.insertOf = [] := by
    simpa [Gdb.opens, hc, hins] using hone
  have hopens : (g.accept sent rest number).opens = g.opens := by
    simp [Gdb.opens, Gdb.accept, hc, hins, hrest, hans, Reply.insertOf]
  have hunassigned := h.waiting _ hmem
  constructor
  · exact h.last_lt
  · exact h.last_inj
  · intro i m hm
    rcases List.mem_cons.mp hm with heq | hm
    · obtain ⟨rfl, rfl⟩ := Prod.mk.inj heq
      exact h.last_lt _ _ hlast
    · exact h.assigned_lt i m hm
  · simp [Gdb.accept, hrest]
  · intro reply hreply k hk
    rcases List.mem_append.mp hreply with hreply | hreply
    · have hno : reply.insertOf = none := List.filterMap_eq_nil_iff.mp hans reply hreply
      simp [Reply.insertOf, hk] at hno
    · obtain rfl := List.mem_singleton.mp hreply
      obtain rfl := Answer.inserted.inj hk
      refine ⟨hnum, fun m => ?_⟩
      simp [Gdb.accept, hunassigned m]
  · exact Or.inr ⟨sent.serial, sent.sender, hopens.trans hone, hslot, hlast⟩
  · intro b i m bp hb hm hopen hbp
    rw [hopens] at hopen
    rcases List.mem_cons.mp hm with heq | hm
    · obtain ⟨rfl, rfl⟩ := Prod.mk.inj heq
      obtain rfl := h.last_inj _ _ _ hb hlast
      exact absurd (by simp [hone]) hopen
    · exact h.known b i m bp hb hm hopen hbp

/-- After a rejection no insert is open. -/
theorem reject (h : Linked t r g) {sent : Sent} {rest : List Sent}
    (hc : g.commands = sent :: rest) {fullPath : Bytes} {line : Int}
    (hcmd : sent.cmd = .breakInsert fullPath line) :
    Linked t r (g.reject sent rest) ∧ (g.reject sent rest).opens = [] := by
  have hins : sent.insertOf = some (sent.serial, sent.sender) := by simp [Sent.insertOf, hcmd]
  have hmem : (sent.serial, sent.sender) ∈ g.commands.filterMap Sent.insertOf := by
    simp [hc, hins]
  obtain ⟨hone, hslot, hlast⟩ :=
    h.slot_of_open (i := sent.serial) (b := sent.sender) (List.mem_append_left _ hmem)
  obtain ⟨hrest, hans⟩ : rest.filterMap Sent.insertOf = [] ∧
      g.answers.filterMap Reply.insertOf = [] := by
    simpa [Gdb.opens, hc, hins] using hone
  have hopens : (g.reject sent rest).opens = [] := by
    simp [Gdb.opens, Gdb.reject, hrest, hans, Reply.insertOf]
  refine ⟨?_, hopens⟩
  constructor
  · exact h.last_lt
  · exact h.last_inj
  · exact h.assigned_lt
  · simp [Gdb.reject, hrest]
  · intro reply hreply k hk
    rcases List.mem_append.mp hreply with hreply | hreply
    · exact h.answered reply hreply k hk
    · obtain rfl := List.mem_singleton.mp hreply
      exact absurd hk (by simp)
  · exact Or.inl hopens
  · intro b i m bp hb hm _ hbp
    refine h.known b i m bp hb hm ?_ hbp
    intro hopen
    obtain ⟨rfl, rfl⟩ : i = sent.serial ∧ b = sent.sender := by simpa [hone] using hopen
    exact h.waiting _ hmem m hm

/-- Running a delete touches no insert. -/
theorem remove (h : Linked t r g) {sent : Sent} {rest : List Sent}
    (hc : g.commands = sent :: rest) {number : Int} (hcmd : sent.cmd = .breakDelete number) :
    Linked t r (g.remove sent rest number) ∧
      (g.remove sent rest number).opens = g.opens := by
  have hins : sent.insertOf = none := by simp [Sent.insertOf, hcmd]
  have hcommands : g.commands.filterMap Sent.insertOf = rest.filterMap Sent.insertOf := by
    simp [hc, hins]
  have hopens : (g.remove sent rest number).opens = g.opens := by
    unfold Gdb.remove
    split <;> simp [Gdb.opens, hcommands, Reply.insertOf]
  refine ⟨?_, hopens⟩
  have hfields : (g.remove sent rest number).lastInsert = g.lastInsert ∧
      (g.remove sent rest number).assigned = g.assigned ∧
      (g.remove sent rest number).nextSerial = g.nextSerial ∧
      (g.remove sent rest number).commands = rest := by
    unfold Gdb.remove
    split <;> exact ⟨rfl, rfl, rfl, rfl⟩
  obtain ⟨hl, ha, hn, hcs⟩ := hfields
  have hanswers : ∀ reply ∈ (g.remove sent rest number).answers, ∀ k,
      reply.answer = .inserted k → reply ∈ g.answers := by
    intro reply hreply k hk
    unfold Gdb.remove at hreply
    split at hreply <;>
    · rcases List.mem_append.mp hreply with hreply | hreply
      · exact hreply
      · obtain rfl := List.mem_singleton.mp hreply
        exact absurd hk (by simp)
  constructor
  · rw [hl, hn]
    exact h.last_lt
  · rw [hl]
    exact h.last_inj
  · rw [ha, hn]
    exact h.assigned_lt
  · rw [hcs, ha, ← hcommands]
    exact h.waiting
  · intro reply hreply k hk
    rw [ha]
    exact h.answered reply (hanswers reply hreply k hk) k hk
  · rw [hopens, hl]
    exact h.single
  · rw [hopens, hl, ha]
    exact h.known

/-- Handling an answer closes the insert it belongs to and records its number
with the Breakpoint that sent it. -/
theorem handle (h : Linked t r g) {reply : Reply} {rest : List Reply}
    (ha : g.answers = reply :: rest) {w : Tracker n}
    (hp : t.parseBreakpoint reply.answer.records r = .ok w) :
    (w = t ∧ ∀ k, reply.answer ≠ .inserted k) ∨
      ∃ bp k, reply.answer = .inserted k ∧ t.breakpoints r = some reply.sender ∧
        t.objects reply.sender = some bp ∧
        w = t.registerBreakpoint r reply.sender bp k ∧ k < 2 ^ 31 := by
  by_cases hins : ∃ k, reply.answer = .inserted k
  · obtain ⟨k, hk⟩ := hins
    obtain ⟨hnum, -⟩ := h.answered reply (by simp [ha]) k hk
    have hmem : (reply.serial, reply.sender) ∈ g.answers.filterMap Reply.insertOf := by
      simp [ha, Reply.insertOf, hk]
    obtain ⟨-, hslot, -⟩ := h.slot_of_open (List.mem_append_right _ hmem)
    rw [hk] at hp
    cases hobj : t.objects reply.sender with
    | none =>
        simp only [Tracker.parseBreakpoint, hslot, miResBkpt_inserted hnum] at hp
        simp [bind, Except.bind, hobj] at hp
    | some bp =>
        rw [t.parseBreakpoint_inserted r hnum hslot hobj] at hp
        exact Or.inr ⟨bp, k, hk, hslot, rfl, (Except.ok.inj hp).symm, hnum⟩
  · have hother : ∀ k, reply.answer ≠ .inserted k := fun k hk => hins ⟨k, hk⟩
    rw [t.parseBreakpoint_idle r reply.answer (Or.inr hother)] at hp
    exact Or.inl ⟨(Except.ok.inj hp).symm, hother⟩

/-- The same step seen from the rank's invariant. -/
theorem handled (h : Linked t r g) {reply : Reply} {rest : List Reply}
    (ha : g.answers = reply :: rest) {w : Tracker n}
    (hp : t.parseBreakpoint reply.answer.records r = .ok w) :
    Linked w r { g with answers := rest } := by
  have hrestmem : ∀ rep ∈ rest, rep ∈ g.answers := fun rep hrep => by simp [ha, hrep]
  rcases h.handle ha hp with ⟨rfl, hother⟩ | ⟨bp, k, hk, hslot, hobj, rfl, -⟩
  · have hno : reply.insertOf = none := by
      cases hans : reply.answer with
      | inserted k => exact absurd hans (hother k)
      | rejected => simp [Reply.insertOf, hans]
      | deleted => simp [Reply.insertOf, hans]
      | noSuchNumber => simp [Reply.insertOf, hans]
    have hopens : Gdb.opens { g with answers := rest } = g.opens := by
      simp [Gdb.opens, ha, hno]
    constructor
    · exact h.last_lt
    · exact h.last_inj
    · exact h.assigned_lt
    · exact h.waiting
    · exact fun rep hrep => h.answered rep (hrestmem rep hrep)
    · rw [hopens]
      exact h.single
    · rw [hopens]
      exact h.known
  · have hmem : (reply.serial, reply.sender) ∈ g.answers.filterMap Reply.insertOf := by
      simp [ha, Reply.insertOf, hk]
    obtain ⟨hone, -, hlast⟩ := h.slot_of_open (List.mem_append_right _ hmem)
    obtain ⟨-, hassigned⟩ := h.answered reply (by simp [ha]) k hk
    have hopens : Gdb.opens { g with answers := rest } = [] := by
      have hlen := congrArg List.length hone
      simp only [Gdb.opens, ha, List.filterMap_cons, Reply.insertOf, hk, List.length_append,
        List.length_cons, List.length_nil] at hlen
      apply List.eq_nil_of_length_eq_zero
      simp only [Gdb.opens, List.length_append]
      omega
    constructor
    · exact h.last_lt
    · exact h.last_inj
    · exact h.assigned_lt
    · exact h.waiting
    · exact fun rep hrep => h.answered rep (hrestmem rep hrep)
    · exact Or.inl hopens
    · intro b i m bp' hb hm _ hbp'
      simp only [Tracker.registerBreakpoint, Tracker.store, Function.update_apply] at hbp'
      split at hbp'
      · rename_i heq
        subst heq
        obtain rfl := Option.some.inj hbp'
        obtain rfl : reply.serial = i := Option.some.inj (hlast.symm.trans hb)
        simp [setNumber, (hassigned m).mp hm]
      · rename_i hne
        exact h.known b i m bp' hb hm (by simp [hone, hne]) hbp'

end Linked

namespace Exchange

variable {n : Nat}

/-- The commands a step writes to a rank's GDB. -/
def sends (s : Exchange n) (a : Label n) (r : Fin n) : List (BkptId × Command) :=
  match s.next a with
  | some t => (t.window.sentGdb r).drop (s.window.sentGdb r).length
  | none => []

/-- A number reaches the Breakpoint whose own insert it was assigned to, and a
delete carries the number of the most recent insert of its sender. -/
def Unmixed (s : Exchange n) (a : Label n) : Prop :=
  (∀ r reply rest b bp number, a = .handle r → (s.gdb r).answers = reply :: rest →
    s.window.breakpoints r = some b →
    s.window.parseBreakpoint reply.answer.records r =
      .ok (s.window.registerBreakpoint r b bp number) →
    reply.sender = b ∧ ∃ k : Nat, reply.answer = .inserted k ∧ number = k) ∧
  ∀ r b number, (b, .breakDelete number) ∈ s.sends a r →
    ∃ i m, (s.gdb r).lastInsert b = some i ∧ (i, m) ∈ (s.gdb r).assigned ∧ number = (m : Int)

/-- The user inserts on a rank only while no insert is open there, and deletes
a Breakpoint only where its most recent insert was accepted and handled. -/
def careful (s : Exchange n) (a : Label n) : Bool :=
  match s.operation a with
  | none => true
  | some (b, op) => (List.finRange n).all fun r =>
      match op r with
      | .insert => (s.gdb r).opens.isEmpty
      | .delete => (s.gdb r).knows b
      | _ => true

/-- The steps of `tr` were all careful. -/
abbrev Careful (s : Exchange n) (a : Label n) : Prop := s.careful a = true

theorem careful_insert {s : Exchange n} {a : Label n} (hc : s.Careful a) {b : BkptId}
    {op : Fin n → RankOp} (hop : s.operation a = some (b, op)) {r : Fin n}
    (hr : op r = .insert) : (s.gdb r).opens = [] := by
  simp only [Careful, careful, hop, List.all_eq_true] at hc
  have := hc r (List.mem_finRange r)
  simpa [hr] using this

theorem careful_delete {s : Exchange n} {a : Label n} (hc : s.Careful a) {b : BkptId}
    {op : Fin n → RankOp} (hop : s.operation a = some (b, op)) {r : Fin n}
    (hr : op r = .delete) : (s.gdb r).knows b = true := by
  simp only [Careful, careful, hop, List.all_eq_true] at hc
  have := hc r (List.mem_finRange r)
  simpa [hr] using this

/-- Every rank is linked. -/
def AllLinked (s : Exchange n) : Prop := ∀ r, Linked s.window r (s.gdb r)

theorem allLinked_initial {s : Exchange n} (h : Initial s) : s.AllLinked := by
  obtain ⟨-, -, -, -, hgdb⟩ := h
  intro r
  rw [hgdb r]
  constructor <;> simp [Gdb.init, Gdb.opens]

@[simp] theorem fold_numbers (a : Label n) (bp : Breakpoint n) (op : Fin n → RankOp) :
    (a.fold (bp.afterOps op)).numbers = bp.numbers := by
  cases a <;> rfl

theorem allLinked_operated {s : Exchange n} (h : s.AllLinked) {a : Label n}
    (hc : s.Careful a) {b : BkptId} {bp : Breakpoint n} {op : Fin n → RankOp}
    (hop : s.operation a = some (b, op)) (hobj : s.window.objects b = some bp) :
    (s.operated a b bp op).AllLinked := by
  intro r
  have hnumbers : ∀ b' bp', (s.operated a b bp op).window.objects b' = some bp' →
      ∃ bp'', s.window.objects b' = some bp'' ∧ bp'.numbers r = bp''.numbers r := by
    intro b' bp' hbp'
    simp only [operated, Tracker.store, Tracker.afterOps, Function.update_apply] at hbp'
    split at hbp'
    · rename_i heq
      subst heq
      obtain rfl := Option.some.inj hbp'
      exact ⟨bp, hobj, by simp⟩
    · exact ⟨bp', hbp', rfl⟩
  have hslot : (s.operated a b bp op).window.breakpoints r =
      (op r).slot b (s.window.breakpoints r) := rfl
  have hgdb : (s.operated a b bp op).gdb r =
      ((op r).sent b bp r).foldl Gdb.receive (s.gdb r) := rfl
  have hsame : ∀ t', t'.breakpoints r = s.window.breakpoints r →
      t'.objects = (s.operated a b bp op).window.objects → Linked t' r (s.gdb r) := by
    intro t' hbr hob
    exact (h r).congr hbr (hob ▸ hnumbers)
  cases hr : op r with
  | keep =>
      rw [hgdb, hr]
      exact hsame _ (by rw [hslot, hr]; rfl) rfl
  | refusedInsert =>
      rw [hgdb, hr]
      exact hsame _ (by rw [hslot, hr]; rfl) rfl
  | refusedDelete =>
      rw [hgdb, hr]
      exact hsame _ (by rw [hslot, hr]; rfl) rfl
  | delete =>
      rw [hgdb, hr]
      exact (hsame _ (by rw [hslot, hr]; rfl) rfl).receive_delete b (bp.numbers r)
  | insert =>
      have ho := careful_insert hc hop hr
      have hlinked : Linked (s.operated a b bp op).window r (s.gdb r) :=
        ⟨(h r).last_lt, (h r).last_inj, (h r).assigned_lt, (h r).waiting, (h r).answered,
          Or.inl ho, fun b' i m bp' hl hm hn hb' => by
            obtain ⟨bp'', hob, hnum⟩ := hnumbers b' bp' hb'
            exact hnum ▸ (h r).known b' i m bp'' hl hm hn hob⟩
      rw [hgdb, hr]
      exact hlinked.receive_insert ho b bp.fullPath bp.line (by rw [hslot, hr]; rfl)

/-- A step at one rank's GDB leaves the other ranks linked. -/
theorem allLinked_setGdb {s : Exchange n} (h : s.AllLinked) {r : Fin n} {g : Gdb}
    (hg : Linked s.window r g) : (s.setGdb r g).AllLinked := by
  intro q
  by_cases hq : q = r
  · subst hq
    simpa [setGdb] using hg
  · simpa [setGdb, Function.update_of_ne hq] using h q

theorem allLinked_step {s t : Exchange n} {a : Label n} (h : s.AllLinked)
    (hc : s.Careful a) (hstep : s.next a = some t) : t.AllLinked := by
  cases next_step hstep with
  | operate hop hobj => exact allLinked_operated h hc hop hobj
  | target r state => exact fun q => (h q).congr rfl fun b bp hb => ⟨bp, hb, rfl⟩
  | @accept r number sent rest fullPath line hcmds hcmd hfresh =>
      have hnum : number < 2 ^ 31 := by
        simp only [fresh, Bool.and_eq_true, decide_eq_true_eq] at hfresh
        exact hfresh.1.2
      exact allLinked_setGdb h ((h r).accept hcmds hcmd hnum)
  | @reject r sent rest fullPath line hcmds hcmd =>
      exact allLinked_setGdb h ((h r).reject hcmds hcmd).1
  | @remove r sent rest number hcmds hcmd =>
      exact allLinked_setGdb h ((h r).remove hcmds hcmd).1
  | @handle r reply rest w ha hp =>
      intro q
      by_cases hq : q = r
      · subst hq
        simpa [setGdb] using (h q).handled ha hp
      · have hgdb : ({ s.setGdb r { s.gdb r with answers := rest } with
            window := w } : Exchange n).gdb q = s.gdb q := by
          simp [setGdb, Function.update_of_ne hq]
        rw [hgdb]
        rcases (h r).handle ha hp with ⟨rfl, -⟩ | ⟨bp, k, -, -, hobj, rfl, -⟩
        · exact h q
        · refine (h q).congr ?_ ?_
          · simp [Tracker.registerBreakpoint, Function.update_of_ne hq]
          · intro b' bp' hb'
            simp only [Tracker.registerBreakpoint, Tracker.store,
              Function.update_apply] at hb'
            split at hb'
            · rename_i heq
              subst heq
              obtain rfl := Option.some.inj hb'
              exact ⟨bp, hobj, by simp [setNumber, Function.update_of_ne hq]⟩
            · exact ⟨bp', hb', rfl⟩

/-- The commands of a step are those of the operation it performs. -/
theorem sends_eq (s : Exchange n) (a : Label n) (r : Fin n) :
    s.sends a r = [] ∨ ∃ b bp op, s.operation a = some (b, op) ∧
      s.window.objects b = some bp ∧ s.sends a r = (op r).sent b bp r := by
  unfold sends
  cases hstep : s.next a with
  | none => exact Or.inl rfl
  | some t =>
      cases next_step hstep with
      | @operate _ b op bp hop hobj =>
          refine Or.inr ⟨b, bp, op, hop, hobj, ?_⟩
          simp [operated, Tracker.store, Tracker.afterOps]
      | target q state => exact Or.inl (by simp)
      | accept hcmds hcmd hfresh => exact Or.inl (by simp [setGdb])
      | reject hcmds hcmd => exact Or.inl (by simp [setGdb])
      | remove hcmds hcmd => exact Or.inl (by simp [setGdb])
      | handle ha hp =>
          obtain rfl | ⟨b, bp, number, -, -, rfl⟩ := Tracker.parseBreakpoint_cases hp
          · exact Or.inl (by simp)
          · exact Or.inl (by simp [Tracker.registerBreakpoint, Tracker.store])

/-- In a linked state a careful step mixes no numbers up. -/
theorem unmixed_of_linked {s : Exchange n} (h : s.AllLinked) {a : Label n}
    (hc : s.Careful a) : s.Unmixed a := by
  constructor
  · rintro r reply rest b bp number rfl ha hslot hp
    rcases (h r).handle ha hp with ⟨hsame, -⟩ | ⟨bp', k, hk, hslot', -, hreg, -⟩
    · have hnone := congrFun (congrArg Tracker.breakpoints hsame) r
      simp [Tracker.registerBreakpoint, hslot] at hnone
    · obtain rfl : b = reply.sender := Option.some.inj (hslot.symm.trans hslot')
      refine ⟨rfl, k, hk, ?_⟩
      have hobjs := congrFun (congrArg Tracker.objects hreg) reply.sender
      simp only [Tracker.registerBreakpoint, Tracker.store, Function.update_self,
        Option.some.injEq] at hobjs
      have hnums := congrFun (congrArg Breakpoint.numbers hobjs) r
      simpa [setNumber] using hnums
  · intro r b number hmem
    rcases sends_eq s a r with hnil | ⟨b', bp, op, hop, hobj, hsent⟩
    · simp [hnil] at hmem
    · rw [hsent] at hmem
      cases hr : op r with
      | keep => simp [hr, RankOp.sent] at hmem
      | refusedInsert => simp [hr, RankOp.sent] at hmem
      | refusedDelete => simp [hr, RankOp.sent] at hmem
      | insert => simp [hr, RankOp.sent] at hmem
      | delete =>
          obtain ⟨rfl, rfl⟩ : b = b' ∧ number = bp.numbers r := by
            simpa [hr, RankOp.sent] using hmem
          obtain ⟨i, m, hlast, hm, hopen⟩ := (Gdb.knows_iff _ _).mp (careful_delete hc hop hr)
          exact ⟨i, m, hlast, hm, (h r).known b i m bp hlast hm hopen hobj⟩

/-- In every run whose steps are all careful, no step mixes numbers up. -/
theorem careful_run_unmixed {tr : List (Exchange n × Label n)} {s : Exchange n}
    (run : Run (system n) tr s) (hc : Meets Careful tr) : Meets Unmixed tr := by
  intro p hp
  obtain ⟨pre, prefixRun, hpre⟩ := run.of_mem hc hp
  have hlinked : p.1.AllLinked := prefixRun.guarded (I := AllLinked)
    (fun s h => allLinked_initial h)
    (fun s a t hI hca hstep => allLinked_step hI hca hstep) hpre
  exact unmixed_of_linked hlinked (hc p hp)

/-- A rank stops, one Breakpoint is inserted, answered, and deleted again. -/
def quietLabels (r : Fin n) : List (Label n) :=
  [.target r .stopped, .create 0 r, .accept r 7, .handle r, .delete 0 r, .remove r, .handle r]

theorem careful_run_unmixed_quiet :
    Meets Unmixed (trace next (start 1) (quietLabels 0)) := by
  have hrun : ∃ t, (quietLabels 0).foldlM next (start 1) = some t :=
    Option.isSome_iff_exists.mp (by decide)
  obtain ⟨t, ht⟩ := hrun
  refine careful_run_unmixed ((Run.start (initial_start 1)).trace (quietLabels 0) ht) ?_
  have hall : (trace next (start 1) (quietLabels 0)).all (fun p => p.1.careful p.2) = true := by
    decide
  exact fun p hp => List.all_eq_true.mp hall p hp

/-- Two quick creations: the first answer reaches the second Breakpoint. -/
theorem quick_creations_mixed :
    ∃ s a, Reachable (system 1) s ∧ (s.next a).isSome ∧ ¬ s.Unmixed a := by
  obtain ⟨s, hs, hp⟩ := (Reachable.start (M := system 1) (initial_start 1)).replay_any
    [.target 0 .stopped, .create 0 0, .create 1 0, .accept 0 1]
    (fun s => decide ((s.gdb 0).answers = [⟨0, 0, .inserted 1⟩]) &&
      decide (s.window.breakpoints 0 = some 1) && (s.window.objects 1).isSome &&
      (s.next (.handle 0)).isSome) (by decide)
  simp only [Bool.and_eq_true, decide_eq_true_eq] at hp
  obtain ⟨⟨⟨ha, hslot⟩, hobj⟩, hnext⟩ := hp
  obtain ⟨bp, hbp⟩ := Option.isSome_iff_exists.mp hobj
  refine ⟨s, .handle 0, hs, hnext, fun hun => ?_⟩
  have hnum : 1 < 2 ^ 31 := by decide
  have hreg := s.window.parseBreakpoint_inserted 0 hnum hslot hbp
  have hsender := (hun.1 0 ⟨0, 0, .inserted 1⟩ [] 1 bp 1 rfl ha hslot hreg).1
  exact absurd hsender (by decide)

end Exchange

end ParallelGdb
