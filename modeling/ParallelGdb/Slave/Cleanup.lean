import ParallelGdb.Slave.Children
import Mathlib.Tactic.Common

/-!
# The signals of `kill_children`

`kill_children` goes by the stored PIDs, and no `waitpid` clears one. So every
child that is left gets its signal, and so does every PID that was collected:
a slave spares the PIDs it collected exactly where it collects none.
-/

namespace ParallelGdb.Slave

open Library.Transition

/-- The processes not started before a point. -/
def Point.unstarted : Point → List Role
  | .forkSocatGdb => [.socatGdb, .socatTrgt, .gdb]
  | .forkSocatTrgt => [.socatTrgt, .gdb]
  | .waitSocatGdb | .waitSocatTrgt _ | .existsTtyGdb _ | .existsTtyTrgt _ _ | .forkGdb => [.gdb]
  | .monitorGdb | .monitorSocatGdb _ | .monitorSocatTrgt _ => []
  | .killGdb _ | .killSocatGdb _ | .killSocatTrgt _ | .returned _ => []

/-- The processes `kill_children` has come to. -/
def Point.killed : Point → List Role
  | .forkSocatGdb | .forkSocatTrgt | .forkGdb => []
  | .waitSocatGdb | .waitSocatTrgt _ | .existsTtyGdb _ | .existsTtyTrgt _ _ => []
  | .monitorGdb | .monitorSocatGdb _ | .monitorSocatTrgt _ | .killGdb _ => []
  | .killSocatGdb _ => [.gdb]
  | .killSocatTrgt _ => [.gdb, .socatGdb]
  | .returned _ => [.gdb, .socatGdb, .socatTrgt]

namespace Main

variable {m t : Main} {a : Action}

/-- What a step does to the children, the stored PIDs and the log. -/
inductive Effect (m t : Main) : Action → Prop
  | forked {role : Role} {r : Pid} (possible : m.Forks r) (first : role ∈ m.point.unstarted)
      (pids : t.pidOf = Function.update m.pidOf role r)
      (children : t.children = (m.addChild role r).children)
      (log : t.log = (m.addChild role r).log)
      (unstarted : ∀ q ∈ t.point.unstarted, q ∈ m.point.unstarted ∧ q ≠ role)
      (before : m.point.killed = []) (after : t.point.killed = []) : Effect m t (.fork r)
  | waited {pid r : Pid} (polled : m.polled = some pid) (possible : m.Waits pid r)
      (pids : t.pidOf = m.pidOf)
      (children : t.children = (m.collect r).children) (log : t.log = (m.collect r).log)
      (unstarted : ∀ q ∈ t.point.unstarted, q ∈ m.point.unstarted)
      (before : m.point.killed = []) (after : t.point.killed = []) : Effect m t (.waitpid r)
  | killed {role : Role} (pids : t.pidOf = m.pidOf) (children : t.children = m.children)
      (log : t.log = (m.killChild role).log) (unstarted : t.point.unstarted = [])
      (killed : t.point.killed = m.point.killed ++ [role]) : Effect m t .kill
  | exits (pid : Pid) (eq : t = m.exitChild pid) : Effect m t (.childExits pid)
  | quiet {a : Action} (pids : t.pidOf = m.pidOf) (children : t.children = m.children)
      (log : t.log = m.log) (unstarted : ∀ q ∈ t.point.unstarted, q ∈ m.point.unstarted)
      (killed : t.point.killed = m.point.killed) (hwait : ∀ r, a ≠ .waitpid r) : Effect m t a

section Accessors

@[simp] theorem pidOf_atPoint (p : Point) : (m.atPoint p).pidOf = m.pidOf := by
  funext q
  cases q <;> rfl

@[simp] theorem pidOf_storePid (role : Role) (r : Pid) :
    (m.storePid role r).pidOf = Function.update m.pidOf role r := by
  funext q
  cases role <;> cases q <;> simp [storePid, pidOf]

@[simp] theorem pidOf_addChild (role : Role) (r : Pid) :
    (m.addChild role r).pidOf = m.pidOf := by
  funext q
  cases q <;> simp only [pidOf, addChild] <;> split <;> rfl

@[simp] theorem pidOf_collect (r : Pid) : (m.collect r).pidOf = m.pidOf := by
  funext q
  cases q <;> simp only [pidOf, collect] <;> split <;> rfl

@[simp] theorem pidOf_killChild (role : Role) : (m.killChild role).pidOf = m.pidOf := by
  rw [killChild]
  split
  · funext q
    cases q <;> rfl
  · rfl

@[simp] theorem children_storePid (role : Role) (r : Pid) :
    (m.storePid role r).children = m.children := by
  cases role <;> rfl

@[simp] theorem log_storePid (role : Role) (r : Pid) : (m.storePid role r).log = m.log := by
  cases role <;> rfl

@[simp] theorem children_killChild (role : Role) : (m.killChild role).children = m.children := by
  rw [killChild]
  split <;> rfl

@[simp] theorem children_atPoint (p : Point) : (m.atPoint p).children = m.children := rfl

@[simp] theorem log_atPoint (p : Point) : (m.atPoint p).log = m.log := rfl

@[simp] theorem point_atPoint (p : Point) : (m.atPoint p).point = p := rfl

end Accessors

section Effects

/-- A start or a round ends in front of another system call and changes nothing else. -/
theorem startedProcesses_eq (m : Main) :
    ∃ p : Point, p.unstarted = [] ∧ p.killed = [] ∧ m.startedProcesses = m.atPoint p := by
  rw [startedProcesses]
  split
  · exact ⟨.monitorGdb, rfl, rfl, rfl⟩
  · exact ⟨.killGdb .failure, rfl, rfl, rfl⟩

theorem startedSocats_eq (m : Main) :
    ∃ p : Point, p.unstarted ⊆ [.gdb] ∧ p.killed = [] ∧ m.startedSocats = m.atPoint p := by
  rw [startedSocats]
  split
  · exact ⟨.waitSocatGdb, by simp [Point.unstarted], rfl, rfl⟩
  · obtain ⟨p, hp, hkilled, heq⟩ := m.startedProcesses_eq
    exact ⟨p, by simp [hp], hkilled, heq⟩

theorem monitored_eq (m : Main) (exited : Int32) :
    ∃ p : Point, p.unstarted = [] ∧ p.killed = [] ∧ m.monitored exited = m.atPoint p := by
  rw [monitored]
  split
  · exact ⟨.monitorGdb, rfl, rfl, rfl⟩
  · exact ⟨.killGdb .success, rfl, rfl, rfl⟩

/-- GDB has no PID yet, so a failing `wait_for_socat` leaves the stored PIDs. -/
theorem waitedForSocat_eq (hgdb : m.pidGdb = -1) (exited : Int32) (foundGdb foundTrgt : Bool) :
    ∃ p : Point, p.unstarted ⊆ [.gdb] ∧ p.killed = [] ∧
      m.waitedForSocat exited foundGdb foundTrgt = m.atPoint p := by
  rw [waitedForSocat]
  split
  · exact ⟨.forkGdb, by simp [Point.unstarted], rfl, rfl⟩
  · split
    · exact ⟨.waitSocatGdb, by simp [Point.unstarted], rfl, rfl⟩
    · have hsame : m.storePid .gdb (-1) = m := by rw [← hgdb]; rfl
      obtain ⟨p, hp, hkilled, heq⟩ := m.startedProcesses_eq
      exact ⟨p, by simp [hp], hkilled, by rw [hsame, heq]⟩

/-- A `fork` ends in front of a system call with the PID stored. -/
theorem effect_of_fork {role : Role} {r : Pid} {p : Point} (hr : m.Forks r)
    (hfirst : role ∈ m.point.unstarted) (hbefore : m.point.killed = [])
    (hun : ∀ q ∈ p.unstarted, q ∈ m.point.unstarted ∧ q ≠ role) (hafter : p.killed = [])
    (ht : t = ((m.addChild role r).storePid role r).atPoint p) : Effect m t (.fork r) := by
  subst ht
  exact .forked hr hfirst (by simp) (by simp) (by simp) hun hbefore hafter

theorem forked_effect {r : Pid} (hr : m.Forks r) (h : m.forked r = some t) :
    Effect m t (.fork r) := by
  rw [forked] at h
  split at h <;> rename_i hp
  · obtain rfl := Option.some.inj h
    exact effect_of_fork hr (by simp [hp, Point.unstarted]) (by simp [hp, Point.killed])
      (by simp [hp, Point.unstarted]) rfl rfl
  · obtain rfl := Option.some.inj h
    obtain ⟨p, hun, hkilled, heq⟩ := startedSocats_eq ((m.addChild .socatTrgt r).storePid _ r)
    refine effect_of_fork hr (by simp [hp, Point.unstarted]) (by simp [hp, Point.killed]) ?_
      hkilled heq
    intro q hq
    have hgdb := List.mem_singleton.mp (hun hq)
    simp [hp, Point.unstarted, hgdb]
  · obtain rfl := Option.some.inj h
    obtain ⟨p, hun, hkilled, heq⟩ := startedProcesses_eq ((m.addChild .gdb r).storePid _ r)
    exact effect_of_fork hr (by simp [hp, Point.unstarted]) (by simp [hp, Point.killed])
      (by simp [hun]) hkilled heq
  · cases h

theorem effect_of_waitpid {pid r : Pid} {p : Point} (hpid : m.polled = some pid)
    (hr : m.Waits pid r) (hbefore : m.point.killed = [])
    (hun : ∀ q ∈ p.unstarted, q ∈ m.point.unstarted) (hafter : p.killed = [])
    (ht : t = (m.collect r).atPoint p) : Effect m t (.waitpid r) := by
  subst ht
  exact .waited hpid hr (by simp) rfl rfl hun hbefore hafter

theorem polledWith_effect {pid r : Pid} (hpid : m.polled = some pid) (hr : m.Waits pid r)
    (h : m.polledWith r = some t) : Effect m t (.waitpid r) := by
  cases hp : m.point with
  | waitSocatGdb =>
      simp only [polledWith, hp] at h
      exact effect_of_waitpid hpid hr (by simp [hp, Point.killed]) (by simp [hp, Point.unstarted])
        rfl (Option.some.inj h).symm
  | waitSocatTrgt exited =>
      simp only [polledWith, hp] at h
      exact effect_of_waitpid hpid hr (by simp [hp, Point.killed]) (by simp [hp, Point.unstarted])
        rfl (Option.some.inj h).symm
  | monitorGdb =>
      simp only [polledWith, hp] at h
      exact effect_of_waitpid hpid hr (by simp [hp, Point.killed]) (by simp [Point.unstarted])
        rfl (Option.some.inj h).symm
  | monitorSocatGdb exited =>
      simp only [polledWith, hp] at h
      exact effect_of_waitpid hpid hr (by simp [hp, Point.killed]) (by simp [Point.unstarted])
        rfl (Option.some.inj h).symm
  | monitorSocatTrgt exited =>
      simp only [polledWith, hp] at h
      obtain ⟨p, hun, hkilled, heq⟩ := (m.collect r).monitored_eq (exited ||| r)
      refine effect_of_waitpid hpid hr (by simp [hp, Point.killed]) (by simp [hun]) hkilled ?_
      rw [← heq]
      exact (Option.some.inj h).symm
  | _ => simp [polled, hp] at hpid

theorem existsTty_effect (hgdb : .gdb ∈ m.point.unstarted → m.pidGdb = -1)
    (h : m.existsTty = some t) : Effect m t .pathExists := by
  rw [existsTty] at h
  split at h <;> rename_i hp
  · obtain rfl := Option.some.inj h
    exact .quiet (by simp) rfl rfl (by simp [hp, Point.unstarted]) (by simp [hp, Point.killed])
      nofun
  · obtain rfl := Option.some.inj h
    obtain ⟨p, hun, hkilled, heq⟩ :=
      waitedForSocat_eq (hgdb (by simp [hp, Point.unstarted])) _ _ m.ttyTrgt
    rw [heq]
    refine .quiet (by simp) rfl rfl ?_ (by rw [hp]; exact hkilled) nofun
    intro q hq
    simpa [hp, Point.unstarted] using hun hq
  · cases h

theorem effect_of_kill {role : Role} {p : Point} (hun : p.unstarted = [])
    (hkilled : p.killed = m.point.killed ++ [role])
    (ht : t = (m.killChild role).atPoint p) : Effect m t .kill := by
  subst ht
  exact .killed (by simp) (by simp) rfl hun hkilled

theorem killed_effect (h : m.killed = some t) : Effect m t .kill := by
  rw [killed] at h
  split at h <;> rename_i hp
  · exact effect_of_kill rfl (by simp [hp, Point.killed]) (Option.some.inj h).symm
  · exact effect_of_kill rfl (by simp [hp, Point.killed]) (Option.some.inj h).symm
  · exact effect_of_kill rfl (by simp [hp, Point.killed]) (Option.some.inj h).symm
  · cases h

theorem next_effect (hgdb : .gdb ∈ m.point.unstarted → m.pidGdb = -1)
    (h : m.next a = some t) : Effect m t a := by
  cases a with
  | fork r =>
      obtain ⟨hr, h⟩ := Option.ite_none_right_eq_some.mp h
      exact forked_effect hr h
  | waitpid r =>
      rw [next] at h
      split at h
      · rename_i pid hpid
        obtain ⟨hr, h⟩ := Option.ite_none_right_eq_some.mp h
        exact polledWith_effect hpid hr h
      · cases h
  | pathExists => exact existsTty_effect hgdb h
  | kill => exact killed_effect h
  | childExits pid => exact .exits pid (Option.some.inj h).symm
  | ttyGdbAppears =>
      obtain rfl := Option.some.inj h
      exact .quiet rfl rfl rfl (fun _ hq => hq) rfl nofun
  | ttyTrgtAppears =>
      obtain rfl := Option.some.inj h
      exact .quiet rfl rfl rfl (fun _ hq => hq) rfl nofun

end Effects

section Invariant

/-- The signal `kill_children` has for a process. -/
def signals (m : Main) (role : Role) : List Event :=
  if 0 < m.pidOf role then [.signal (m.pidOf role) role.killSignal] else []

/-- What holds between any two system calls of the slave. -/
structure Kept (m : Main) : Prop where
  /-- A child is found by the PID stored for it. -/
  stored : ∀ c ∈ m.children, m.pidOf c.role = c.pid ∧ 0 < c.pid
  /-- A child was forked. -/
  forked : ∀ c ∈ m.children, .forked c.pid c.role ∈ m.log
  /-- The PID of a collected child stays stored. -/
  owned : ∀ pid, .collected pid ∈ m.log → 0 < pid ∧ ∃ role, m.pidOf role = pid
  unstarted : ∀ role ∈ m.point.unstarted, m.pidOf role = -1
  /-- The log ends with the signals of `kill_children`, and has no others. -/
  sent : ∃ front, (∀ pid sig, .signal pid sig ∉ front) ∧
    m.log = front ++ m.point.killed.flatMap m.signals

theorem kept_init : Kept init where
  stored := nofun
  forked := nofun
  owned := nofun
  unstarted := by decide
  sent := ⟨[], nofun, rfl⟩

theorem signals_congr (hpids : t.pidOf = m.pidOf) : t.signals = m.signals := by
  funext role
  rw [signals, signals, hpids]

/-- Outside `kill_children` the log may grow by what is no signal. -/
theorem Kept.sent_append (hm : m.Kept) (hbefore : m.point.killed = [])
    (hafter : t.point.killed = []) {more : List Event} (hlog : t.log = m.log ++ more)
    (hmore : ∀ pid sig, .signal pid sig ∉ more) :
    ∃ front, (∀ pid sig, .signal pid sig ∉ front) ∧
      t.log = front ++ t.point.killed.flatMap t.signals := by
  obtain ⟨front, hfront, hm⟩ := hm.sent
  rw [hbefore, List.flatMap_nil, List.append_nil] at hm
  refine ⟨front ++ more, fun pid sig => ?_, ?_⟩
  · rw [List.mem_append]
    exact not_or.mpr ⟨hfront pid sig, hmore pid sig⟩
  · rw [hafter, List.flatMap_nil, List.append_nil, hlog, hm]

theorem log_addChild (role : Role) (r : Pid) :
    (m.addChild role r).log = m.log ++ if 0 < r then [.forked r role] else [] := by
  rw [addChild]
  split <;> simp

theorem log_collect (r : Pid) :
    (m.collect r).log = m.log ++ if 0 < r then [.collected r] else [] := by
  rw [collect]
  split <;> simp

theorem log_killChild (role : Role) : (m.killChild role).log = m.log ++ m.signals role := by
  rw [killChild, signals]
  split <;> simp

theorem mem_children_addChild {role : Role} {r : Pid} {c : Child} :
    c ∈ (m.addChild role r).children ↔ c ∈ m.children ∨ (0 < r ∧ c = ⟨r, role, false⟩) := by
  rw [addChild]
  split
  · rename_i h
    simp [h, or_comm]
  · rename_i h
    simp [h]

theorem mem_children_collect {r : Pid} {c : Child} :
    c ∈ (m.collect r).children ↔ c ∈ m.children ∧ (0 < r → c.pid ≠ r) := by
  rw [collect]
  split
  · rename_i h
    simp [h]
  · rename_i h
    simp [h]

/-- A fork fills a place that no child and no collected PID refers to. -/
theorem Kept.fork (hm : m.Kept) {role : Role} {r : Pid} (hfirst : role ∈ m.point.unstarted)
    (hpids : t.pidOf = Function.update m.pidOf role r)
    (hchildren : t.children = (m.addChild role r).children)
    (hlog : t.log = (m.addChild role r).log)
    (hun : ∀ q ∈ t.point.unstarted, q ∈ m.point.unstarted ∧ q ≠ role)
    (hbefore : m.point.killed = []) (hafter : t.point.killed = []) : t.Kept := by
  have hfree := hm.unstarted role hfirst
  have hother {q : Role} (hq : 0 < m.pidOf q) : t.pidOf q = m.pidOf q := by
    rw [hpids, Function.update_of_ne]
    rintro rfl
    rw [hfree] at hq
    exact absurd hq (by decide)
  rw [log_addChild] at hlog
  refine ⟨fun c hc => ?_, fun c hc => ?_, fun pid hpid => ?_, fun q hq => ?_, ?_⟩
  · rw [hchildren, mem_children_addChild] at hc
    rcases hc with hc | ⟨hr, rfl⟩
    · obtain ⟨hpid, hpos⟩ := hm.stored c hc
      exact ⟨by rw [hother (by rw [hpid]; exact hpos), hpid], hpos⟩
    · exact ⟨by rw [hpids, Function.update_self], hr⟩
  · rw [hchildren, mem_children_addChild] at hc
    rw [hlog, List.mem_append]
    rcases hc with hc | ⟨hr, rfl⟩
    · exact Or.inl (hm.forked c hc)
    · rw [if_pos hr]
      exact Or.inr (List.mem_singleton.mpr rfl)
  · rw [hlog, List.mem_append] at hpid
    rcases hpid with hpid | hpid
    · obtain ⟨hpos, q, hq⟩ := hm.owned pid hpid
      exact ⟨hpos, q, by rw [hother (by rw [hq]; exact hpos), hq]⟩
    · split at hpid <;> simp at hpid
  · obtain ⟨hq, hne⟩ := hun q hq
    rw [hpids, Function.update_of_ne hne, hm.unstarted q hq]
  · refine hm.sent_append hbefore hafter hlog fun pid sig => ?_
    split <;> simp

/-- The PID of a collected child is the one stored for it. -/
theorem Kept.waitpid (hm : m.Kept) {pid r : Pid} (hr : m.Waits pid r)
    (hpids : t.pidOf = m.pidOf) (hchildren : t.children = (m.collect r).children)
    (hlog : t.log = (m.collect r).log)
    (hun : ∀ q ∈ t.point.unstarted, q ∈ m.point.unstarted)
    (hbefore : m.point.killed = []) (hafter : t.point.killed = []) : t.Kept := by
  rw [log_collect] at hlog
  refine ⟨fun c hc => ?_, fun c hc => ?_, fun p hp => ?_, fun q hq => ?_, ?_⟩
  · rw [hchildren, mem_children_collect] at hc
    rw [hpids]
    exact hm.stored c hc.1
  · rw [hchildren, mem_children_collect] at hc
    rw [hlog]
    exact List.mem_append_left _ (hm.forked c hc.1)
  · rw [hpids]
    rw [hlog, List.mem_append] at hp
    rcases hp with hp | hp
    · exact hm.owned p hp
    · split at hp
      · rename_i hpos
        obtain rfl : p = r := by simpa using hp
        refine ⟨hpos, ?_⟩
        rcases hr with ⟨c, hc, -, rfl⟩ | ⟨rfl, -, -⟩ | ⟨rfl, -⟩
        · exact ⟨c.role, (hm.stored c (List.mem_filter.mp hc).1).1⟩
        · exact absurd hpos (by decide)
        · exact absurd hpos (by decide)
      · simp at hp
  · rw [hpids]
    exact hm.unstarted q (hun q hq)
  · refine hm.sent_append hbefore hafter hlog fun pid sig => ?_
    split <;> simp

theorem Kept.kill (hm : m.Kept) {role : Role} (hpids : t.pidOf = m.pidOf)
    (hchildren : t.children = m.children) (hlog : t.log = (m.killChild role).log)
    (hun : t.point.unstarted = [])
    (hkilled : t.point.killed = m.point.killed ++ [role]) : t.Kept := by
  rw [log_killChild] at hlog
  refine ⟨fun c hc => ?_, fun c hc => ?_, fun p hp => ?_, fun q hq => ?_, ?_⟩
  · rw [hpids]
    exact hm.stored c (hchildren ▸ hc)
  · rw [hlog]
    exact List.mem_append_left _ (hm.forked c (hchildren ▸ hc))
  · rw [hpids]
    rw [hlog, List.mem_append] at hp
    rcases hp with hp | hp
    · exact hm.owned p hp
    · rw [signals] at hp
      split at hp <;> simp at hp
  · rw [hun] at hq
    exact absurd hq List.not_mem_nil
  · obtain ⟨front, hfront, hm⟩ := hm.sent
    refine ⟨front, hfront, ?_⟩
    rw [hlog, hm, hkilled, signals_congr hpids, List.flatMap_append, List.append_assoc,
      List.flatMap_singleton]

theorem Kept.exits (hm : m.Kept) (pid : Pid) : (m.exitChild pid).Kept := by
  have hold {c : Child} (hc : c ∈ (m.exitChild pid).children) :
      ∃ d ∈ m.children, d.pid = c.pid ∧ d.role = c.role := by
    obtain ⟨d, hd, rfl⟩ := List.mem_map.mp hc
    refine ⟨d, hd, ?_⟩
    split <;> exact ⟨rfl, rfl⟩
  refine ⟨fun c hc => ?_, fun c hc => ?_, hm.owned, hm.unstarted, hm.sent⟩
  · obtain ⟨d, hd, hpid, hrole⟩ := hold hc
    rw [← hpid, ← hrole]
    exact hm.stored d hd
  · obtain ⟨d, hd, hpid, hrole⟩ := hold hc
    rw [← hpid, ← hrole]
    exact hm.forked d hd

theorem Kept.next (hm : m.Kept) (h : m.next a = some t) : t.Kept := by
  cases next_effect (hm.unstarted .gdb) h with
  | forked possible first pids children log unstarted before after =>
      exact hm.fork first pids children log unstarted before after
  | waited polled possible pids children log unstarted before after =>
      exact hm.waitpid possible pids children log unstarted before after
  | killed pids children log unstarted killed => exact hm.kill pids children log unstarted killed
  | exits pid eq =>
      subst eq
      exact hm.exits pid
  | quiet pids children log unstarted killed hwait =>
      refine ⟨?_, ?_, ?_, fun q hq => ?_, ?_⟩
      · rw [children, pids]
        exact hm.stored
      · rw [children, log]
        exact hm.forked
      · rw [pids, log]
        exact hm.owned
      · rw [pids]
        exact hm.unstarted q (unstarted q hq)
      · rw [log, killed, signals_congr pids]
        exact hm.sent

theorem kept_of_run {tr : List (Main × Action)} (run : Run system tr m) : m.Kept :=
  Reachable.invariant (fun _ h => h ▸ kept_init) (fun _ _ _ hs h => hs.next h) ⟨tr, run⟩

end Invariant

section Cleanup

/-- Every child that is left was sent its signal, behind its start. -/
def SignalsChildren (m : Main) : Prop :=
  ∀ c ∈ m.children, ∃ front rest,
    m.log = front ++ .signal c.pid c.role.killSignal :: rest ∧ .forked c.pid c.role ∈ front

/-- No signal was sent to a PID after the exit of its child had been collected. -/
def SparesCollected (m : Main) : Prop :=
  ∀ front pid sig rest, m.log = front ++ .signal pid sig :: rest → .collected pid ∉ front

def CleansUp (m : Main) : Prop := m.SignalsChildren ∧ m.SparesCollected

/-- A `waitpid` is called while none of the children it asks for has exited. -/
def CollectsNone (m : Main) : Action → Prop
  | .waitpid _ => ∀ pid, m.polled = some pid → ∀ c ∈ m.waited pid, ¬ c.exited
  | _ => True

/-- `waitpid` finds an exited child if it is there. -/
theorem waits_pos_iff (hm : m.Kept) {pid r : Pid} (hr : m.Waits pid r) :
    0 < r ↔ ∃ c ∈ m.waited pid, c.exited := by
  rcases hr with ⟨c, hc, hexited, rfl⟩ | ⟨rfl, -, hrun⟩ | ⟨rfl, hnone⟩
  · have hpos := (hm.stored c (List.mem_filter.mp hc).1).2
    exact iff_of_true hpos ⟨c, hc, hexited⟩
  · refine iff_of_false (by decide) ?_
    rintro ⟨c, hc, hexited⟩
    exact hrun c hc hexited
  · refine iff_of_false (by decide) ?_
    rintro ⟨c, hc, -⟩
    rw [hnone] at hc
    exact absurd hc List.not_mem_nil

/-- One step collects a PID if and only if it finds an exited child. -/
theorem collected_next_iff (hm : m.Kept) (h : m.next a = some t) :
    (∀ pid, .collected pid ∉ t.log) ↔
      (∀ pid, .collected pid ∉ m.log) ∧ m.CollectsNone a := by
  cases next_effect (hm.unstarted .gdb) h with
  | forked possible first pids children log unstarted before after =>
      rw [log, log_addChild]
      simp only [CollectsNone, and_true, List.mem_append, not_or]
      refine forall_congr' fun pid => and_iff_left ?_
      split <;> simp
  | @waited pid r polled possible pids children log unstarted before after =>
      rw [log, log_collect]
      have hnone : m.CollectsNone (.waitpid r) ↔ ¬ 0 < r := by
        rw [waits_pos_iff hm possible, CollectsNone, polled]
        simp
      rw [hnone]
      simp only [List.mem_append, not_or, forall_and]
      refine and_congr_right' ?_
      split <;> simp_all
  | killed pids children log unstarted killed =>
      rw [log, log_killChild]
      simp only [CollectsNone, and_true, List.mem_append, not_or]
      refine forall_congr' fun pid => and_iff_left ?_
      rw [signals]
      split <;> simp
  | exits pid eq =>
      subst eq
      exact (and_iff_left trivial).symm
  | quiet pids children log unstarted killed hwait =>
      rw [log]
      refine (and_iff_left ?_).symm
      cases a with
      | waitpid r => exact absurd rfl (hwait r)
      | _ => trivial

/-- A run collects nothing if and only if none of its `waitpid` finds an exited child. -/
theorem collected_run_iff {tr : List (Main × Action)} (run : Run system tr m) :
    (∀ pid, .collected pid ∉ m.log) ↔ Meets CollectsNone tr := by
  induction run with
  | start h =>
      obtain rfl := h
      exact iff_of_true nofun (meets_nil _)
  | next run h ih => rw [collected_next_iff (kept_of_run run) h, meets_snoc, ih]

variable {tr : List (Main × Action)} {result : ExitState}

/-- The log of a slave that has returned: the signals for all stored PIDs behind the rest. -/
theorem log_of_returned (run : Run system tr m) (h : m.point = .returned result) :
    ∃ front, (∀ pid sig, .signal pid sig ∉ front) ∧
      m.log = front ++ [Role.gdb, .socatGdb, .socatTrgt].flatMap m.signals := by
  have hsent := (kept_of_run run).sent
  rwa [h] at hsent

/-- Every child that is left gets its signal, whatever the schedule. -/
theorem signalsChildren_of_returned (run : Run system tr m) (h : m.point = .returned result) :
    m.SignalsChildren := by
  intro c hc
  obtain ⟨hpid, hpos⟩ := (kept_of_run run).stored c hc
  have hforked := (kept_of_run run).forked c hc
  obtain ⟨front, hfront, hlog⟩ := log_of_returned run h
  have hmem : Event.signal c.pid c.role.killSignal ∈
      [Role.gdb, .socatGdb, .socatTrgt].flatMap m.signals := by
    refine List.mem_flatMap.mpr ⟨c.role, by cases c.role <;> simp, ?_⟩
    rw [signals, hpid, if_pos hpos]
    exact List.mem_singleton.mpr rfl
  obtain ⟨before, rest, hsplit⟩ := List.append_of_mem hmem
  refine ⟨front ++ before, rest, by rw [hlog, hsplit, List.append_assoc], ?_⟩
  rw [hlog] at hforked
  rcases List.mem_append.mp hforked with hforked | hforked
  · exact List.mem_append_left _ hforked
  · obtain ⟨role, -, hrole⟩ := List.mem_flatMap.mp hforked
    rw [signals] at hrole
    split at hrole <;> simp at hrole

/-- A collected PID is still stored, so its signal comes behind its collection. -/
theorem sparesCollected_iff (run : Run system tr m) (h : m.point = .returned result) :
    m.SparesCollected ↔ ∀ pid, .collected pid ∉ m.log := by
  constructor
  · intro hspares pid hpid
    obtain ⟨hpos, role, hrole⟩ := (kept_of_run run).owned pid hpid
    obtain ⟨front, hfront, hlog⟩ := log_of_returned run h
    have hmem : Event.signal pid role.killSignal ∈
        [Role.gdb, .socatGdb, .socatTrgt].flatMap m.signals := by
      refine List.mem_flatMap.mpr ⟨role, by cases role <;> simp, ?_⟩
      rw [signals, hrole, if_pos hpos]
      exact List.mem_singleton.mpr rfl
    obtain ⟨before, rest, hsplit⟩ := List.append_of_mem hmem
    refine hspares (front ++ before) pid role.killSignal rest
      (by rw [hlog, hsplit, List.append_assoc]) (List.mem_append_left _ ?_)
    rw [hlog] at hpid
    rcases List.mem_append.mp hpid with hpid | hpid
    · exact hpid
    · obtain ⟨q, -, hq⟩ := List.mem_flatMap.mp hpid
      rw [signals] at hq
      split at hq <;> simp at hq
  · intro hnone front pid sig rest hlog hpid
    exact hnone pid (by rw [hlog]; exact List.mem_append_left _ hpid)

/-- A slave cleans up exactly its own children if and only if it returns without
having collected one. -/
theorem cleansUp_iff (run : Run system tr m) (h : m.point = .returned result) :
    m.CleansUp ↔ Meets CollectsNone tr := by
  rw [CleansUp, sparesCollected_iff run h, collected_run_iff run]
  exact and_iff_right (signalsChildren_of_returned run h)

/-- Both socats are polled while they run; then the fork of GDB fails, and they are sent
their signals. -/
def failedForkActions : List Action :=
  [.fork 2, .fork 3, .ttyGdbAppears, .ttyTrgtAppears, .waitpid 0, .waitpid 0, .pathExists,
    .pathExists, .fork (-1), .kill, .kill, .kill]

theorem failedFork_cleansUp :
    ∃ tr m, Run system tr m ∧ m.point = .returned .failure ∧ m.CleansUp := by
  have hrun := (Run.start (M := system) rfl).trace failedForkActions (t :=
    { init with
      point := .returned .failure
      pidSocatGdb := 2
      pidSocatTrgt := 3
      children := [⟨3, .socatTrgt, false⟩, ⟨2, .socatGdb, false⟩]
      ttyGdb := true
      ttyTrgt := true
      log := [.forked 2 .socatGdb, .forked 3 .socatTrgt, .signal 2 .sigint,
        .signal 3 .sigint] }) (by decide)
  have hrunning : (trace next init failedForkActions).all
      (fun p => p.1.children.all fun c => !c.exited) = true := by decide
  have hmeets : Meets CollectsNone (trace next init failedForkActions) := by
    intro p hp
    have hchildren := List.all_eq_true.mp (List.all_eq_true.mp hrunning p hp)
    unfold CollectsNone
    split
    · intro pid _ c hc
      simpa using hchildren c (List.mem_filter.mp hc).1
    · trivial
  exact ⟨_, _, hrun, rfl, (cleansUp_iff hrun rfl).mpr hmeets⟩

/-- GDB exits and is collected by `monitor_processes`; then its PID is sent a signal. -/
theorem gdbExit_signalled :
    ∃ tr m, Run system tr m ∧ m.point = .returned .success ∧ ¬ m.CleansUp := by
  have hrun := (Run.start (M := system) rfl).trace
    [.fork 2, .fork 3, .ttyGdbAppears, .ttyTrgtAppears, .waitpid 0, .waitpid 0, .pathExists,
      .pathExists, .fork 4, .childExits 4, .waitpid 4, .waitpid 0, .waitpid 0,
      .kill, .kill, .kill] (t :=
      { init with
        point := .returned .success
        pidSocatGdb := 2
        pidSocatTrgt := 3
        pidGdb := 4
        children := [⟨3, .socatTrgt, false⟩, ⟨2, .socatGdb, false⟩]
        ttyGdb := true
        ttyTrgt := true
        log := [.forked 2 .socatGdb, .forked 3 .socatTrgt, .forked 4 .gdb, .collected 4,
          .signal 4 .sigkill, .signal 2 .sigint, .signal 3 .sigint] }) (by decide)
  refine ⟨_, _, hrun, rfl, ?_⟩
  rintro ⟨-, hspares⟩
  exact hspares [.forked 2 .socatGdb, .forked 3 .socatTrgt, .forked 4 .gdb, .collected 4] 4
    .sigkill [.signal 2 .sigint, .signal 3 .sigint] rfl (by simp)

end Cleanup

end Main

end ParallelGdb.Slave
