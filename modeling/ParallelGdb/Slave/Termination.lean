import ParallelGdb.Slave.Cleanup

/-!
# The end of the slave

A slave polls its processes in rounds, and a round without an exit is followed by
another one. Once one of its processes has exited no round is: the poll of its PID
gives zero no more, so the slave comes to `kill_children` and returns.
-/

namespace ParallelGdb.Slave

open Library.Transition

/-- A `fork`, `waitpid`, `path_exists` or `kill` of the slave, and not something around
it. `usleep` and `sleep` are no actions. -/
def Action.isOwn : Action → Bool
  | .fork _ | .waitpid _ | .pathExists | .kill => true
  | .childExits _ | .ttyGdbAppears | .ttyTrgtAppears => false

/-- The calls left in front of `main`'s `return` once the process with this role has
exited. A round that is behind the poll of its PID without having seen an exit is
followed by one more. -/
def Point.callsLeft (role : Role) : Point → Nat
  | .forkSocatGdb => 13
  | .forkSocatTrgt => 12
  | .waitSocatGdb => 11
  | .waitSocatTrgt exited => if exited = 0 ∧ role ≠ .socatTrgt then 14 else 10
  | .existsTtyGdb exited => if exited = 0 then 13 else 9
  | .existsTtyTrgt exited _ => if exited = 0 then 12 else 8
  | .forkGdb => 7
  | .monitorGdb => 6
  | .monitorSocatGdb exited => if exited = 0 ∧ role = .gdb then 8 else 5
  | .monitorSocatTrgt exited => if exited = 0 ∧ role ≠ .socatTrgt then 7 else 4
  | .killGdb _ => 3
  | .killSocatGdb _ => 2
  | .killSocatTrgt _ => 1
  | .returned _ => 0

theorem Point.callsLeft_le (role : Role) (p : Point) : p.callsLeft role ≤ 14 := by
  cases p <;> simp only [callsLeft] <;> (try split) <;> omega

namespace Main

variable {m t : Main} {a : Action} {role : Role} {r : Pid}

/-- The process with this role was started, and no child with its PID runs. -/
def Dead (m : Main) (role : Role) : Prop :=
  0 < m.pidOf role ∧ ∀ c ∈ m.children, c.pid = m.pidOf role → c.exited = true

section Dead

theorem pidOf_exitChild (pid : Pid) : (m.exitChild pid).pidOf = m.pidOf := by
  funext q
  cases q <;> rfl

theorem dead_of_exit (hm : m.Kept) {c : Child} (hc : c ∈ m.children) :
    (m.exitChild c.pid).Dead c.role := by
  obtain ⟨hpid, hpos⟩ := hm.stored c hc
  rw [Dead, pidOf_exitChild, hpid]
  refine ⟨hpos, fun d hd hdpid => ?_⟩
  obtain ⟨e, he, rfl⟩ := List.mem_map.mp hd
  split at hdpid <;> rename_i h
  · rw [if_pos h]
  · exact absurd hdpid h

/-- A started process keeps its PID. -/
theorem pidOf_next (hm : m.Kept) (hpos : 0 < m.pidOf role) (h : m.next a = some t) :
    t.pidOf role = m.pidOf role := by
  cases next_effect (hm.unstarted .gdb) h with
  | @forked q r possible first pids children log unstarted before after =>
      rw [pids, Function.update_of_ne]
      rintro rfl
      rw [hm.unstarted role first] at hpos
      exact absurd hpos (by decide)
  | waited polled possible pids => rw [pids]
  | killed pids => rw [pids]
  | exits pid eq => rw [eq, pidOf_exitChild]
  | quiet pids => rw [pids]

/-- No child but the one of a `fork` with its PID makes a process run again. -/
theorem Dead.next (hd : m.Dead role) (hm : m.Kept) (ha : a ≠ .fork (m.pidOf role))
    (h : m.next a = some t) : t.Dead role := by
  obtain ⟨hpos, hd⟩ := hd
  have hpid := pidOf_next hm hpos h
  refine ⟨hpid ▸ hpos, fun c hc hcpid => ?_⟩
  rw [hpid] at hcpid
  cases next_effect (hm.unstarted .gdb) h with
  | forked possible first pids children =>
      rw [children, mem_children_addChild] at hc
      rcases hc with hc | ⟨-, rfl⟩
      · exact hd c hc hcpid
      · exact absurd (congrArg Action.fork hcpid) ha
  | waited polled possible pids children =>
      rw [children, mem_children_collect] at hc
      exact hd c hc.1 hcpid
  | killed pids children => exact hd c (children ▸ hc) hcpid
  | exits pid eq =>
      subst eq
      obtain ⟨d, hdc, rfl⟩ := List.mem_map.mp hc
      split
      · rfl
      · rename_i hne
        rw [if_neg hne] at hcpid
        exact hd d hdc hcpid
  | quiet pids children => exact hd c (children ▸ hc) hcpid

/-- The poll of a process that has exited does not give zero. -/
theorem Dead.waits_ne_zero (hd : m.Dead role) (hr : m.Waits (m.pidOf role) r) : r ≠ 0 := by
  rintro rfl
  obtain ⟨hpos, hd⟩ := hd
  have hdead : ∀ c ∈ m.waited (m.pidOf role), c.exited = true := by
    intro c hc
    obtain ⟨hc, hpid⟩ := List.mem_filter.mp hc
    refine hd c hc ((of_decide_eq_true hpid).resolve_right fun h => ?_)
    rw [h] at hpos
    exact absurd hpos (by decide)
  rcases hr with ⟨c, hc, -, hpid⟩ | ⟨-, hne, hrun⟩ | ⟨hzero, -⟩
  · obtain ⟨-, h⟩ := List.mem_filter.mp hc
    rcases of_decide_eq_true h with h | h
    · rw [← h, hpid] at hpos
      exact absurd hpos (by decide)
    · rw [h] at hpos
      exact absurd hpos (by decide)
  · obtain ⟨c, hc⟩ := List.exists_mem_of_ne_nil _ hne
    exact hrun c hc (hdead c hc)
  · exact absurd hzero (by decide)

end Dead

section CallsLeft

theorem callsLeft_startedProcesses (m : Main) (role : Role) :
    m.startedProcesses.point.callsLeft role ≤ 6 := by
  rw [startedProcesses]
  split <;> simp [Point.callsLeft]

theorem callsLeft_startedSocats (m : Main) (role : Role) :
    m.startedSocats.point.callsLeft role ≤ 11 := by
  rw [startedSocats]
  split
  · simp [Point.callsLeft]
  · exact le_trans (m.callsLeft_startedProcesses role) (by omega)

/-- A round of `wait_for_socat` that has seen an exit is the last one. -/
theorem callsLeft_waitedForSocat (m : Main) (role : Role) (exited : Int32)
    (foundGdb foundTrgt : Bool) :
    (m.waitedForSocat exited foundGdb foundTrgt).point.callsLeft role ≤
      if exited = 0 then 11 else 7 := by
  rw [waitedForSocat]
  split
  · simp only [point_atPoint, Point.callsLeft]
    split <;> omega
  · split <;> rename_i h
    · simp [h.symm, Point.callsLeft]
    · rw [if_neg (Ne.symm h)]
      exact le_trans (callsLeft_startedProcesses _ role) (by omega)

/-- A round of `monitor_processes` that has seen an exit is the last one. -/
theorem callsLeft_monitored (m : Main) (role : Role) (exited : Int32) :
    (m.monitored exited).point.callsLeft role = if exited = 0 then 6 else 3 := by
  rw [monitored]
  split <;> rename_i h
  · simp [h.symm, Point.callsLeft]
  · rw [if_neg (Ne.symm h)]
    rfl

theorem callsLeft_forked (h : m.forked r = some t) :
    t.point.callsLeft role < m.point.callsLeft role := by
  rw [forked] at h
  split at h <;> rename_i hp
  · obtain rfl := Option.some.inj h
    simp [hp, Point.callsLeft]
  · obtain rfl := Option.some.inj h
    rw [hp]
    exact Nat.lt_succ_of_le (callsLeft_startedSocats _ role)
  · obtain rfl := Option.some.inj h
    rw [hp]
    exact Nat.lt_succ_of_le (callsLeft_startedProcesses _ role)
  · cases h

theorem callsLeft_existsTty (h : m.existsTty = some t) :
    t.point.callsLeft role < m.point.callsLeft role := by
  rw [existsTty] at h
  split at h
  · rename_i exited hp
    obtain rfl := Option.some.inj h
    simp only [hp, point_atPoint, Point.callsLeft]
    split <;> omega
  · rename_i exited foundGdb hp
    obtain rfl := Option.some.inj h
    have hle := m.callsLeft_waitedForSocat role exited foundGdb m.ttyTrgt
    rw [hp, Point.callsLeft]
    refine lt_of_le_of_lt hle ?_
    split <;> omega
  · cases h

theorem callsLeft_killed (h : m.killed = some t) :
    t.point.callsLeft role < m.point.callsLeft role := by
  rw [killed] at h
  split at h <;> rename_i hp
  · obtain rfl := Option.some.inj h
    simp [hp, Point.callsLeft]
  · obtain rfl := Option.some.inj h
    simp [hp, Point.callsLeft]
  · obtain rfl := Option.some.inj h
    simp [hp, Point.callsLeft]
  · cases h

/-- The poll of the process that has exited ends the rounds; one in front of it in the
same round does not, and one behind it does not begin another. -/
theorem callsLeft_polledWith (hgdb : role = .gdb → .gdb ∉ m.point.unstarted)
    (hseen : m.polled = some (m.pidOf role) → r ≠ 0) (h : m.polledWith r = some t) :
    t.point.callsLeft role < m.point.callsLeft role := by
  cases hp : m.point with
  | waitSocatGdb =>
      simp only [polledWith, hp] at h
      obtain rfl := Option.some.inj h
      cases role with
      | socatGdb =>
          have hr : r ≠ 0 := hseen (by rw [polled, hp]; rfl)
          simp [Point.callsLeft, hr]
      | socatTrgt => simp [Point.callsLeft]
      | gdb => exact absurd (by simp [hp, Point.unstarted]) (hgdb rfl)
  | waitSocatTrgt exited =>
      simp only [polledWith, hp] at h
      obtain rfl := Option.some.inj h
      have hr (htrgt : role = .socatTrgt) : r ≠ 0 := hseen (by rw [polled, hp, htrgt]; rfl)
      simp only [point_atPoint, Point.callsLeft, Int32.or_eq_zero_iff]
      split <;> split <;> first | omega | tauto
  | monitorGdb =>
      simp only [polledWith, hp] at h
      obtain rfl := Option.some.inj h
      have hr (hrole : role = .gdb) : r ≠ 0 := hseen (by rw [polled, hp, hrole]; rfl)
      simp only [point_atPoint, Point.callsLeft, Int32.or_eq_zero_iff]
      split <;> first | omega | tauto
  | monitorSocatGdb exited =>
      simp only [polledWith, hp] at h
      obtain rfl := Option.some.inj h
      have hr (hrole : role = .socatGdb) : r ≠ 0 := hseen (by rw [polled, hp, hrole]; rfl)
      simp only [point_atPoint, Point.callsLeft, Int32.or_eq_zero_iff]
      cases role <;> split <;> split <;> first | omega | simp_all
  | monitorSocatTrgt exited =>
      simp only [polledWith, hp] at h
      obtain rfl := Option.some.inj h
      have hr (htrgt : role = .socatTrgt) : r ≠ 0 := hseen (by rw [polled, hp, htrgt]; rfl)
      rw [callsLeft_monitored]
      simp only [Point.callsLeft, Int32.or_eq_zero_iff]
      split <;> split <;> first | omega | tauto
  | _ => simp [polledWith, hp] at h

/-- Every call of the slave is one call less in front of its `return`. -/
theorem callsLeft_next (hm : m.Kept) (hd : m.Dead role) (ha : a.isOwn = true)
    (h : m.next a = some t) : t.point.callsLeft role < m.point.callsLeft role := by
  cases a with
  | fork r =>
      obtain ⟨-, h⟩ := Option.ite_none_right_eq_some.mp h
      exact callsLeft_forked h
  | waitpid r =>
      rw [next] at h
      split at h
      · rename_i pid hpid
        obtain ⟨hr, h⟩ := Option.ite_none_right_eq_some.mp h
        refine callsLeft_polledWith ?_ (fun hrole => ?_) h
        · rintro rfl hun
          rw [Dead, hm.unstarted .gdb hun] at hd
          exact absurd hd.1 (by decide)
        · obtain rfl : pid = m.pidOf role := Option.some.inj (hpid.symm.trans hrole)
          exact hd.waits_ne_zero hr
      · cases h
  | pathExists => exact callsLeft_existsTty h
  | kill => exact callsLeft_killed h
  | childExits pid => exact absurd ha Bool.false_ne_true
  | ttyGdbAppears => exact absurd ha Bool.false_ne_true
  | ttyTrgtAppears => exact absurd ha Bool.false_ne_true

/-- What happens around the slave does not move it. -/
theorem point_next_of_not_isOwn (ha : a.isOwn = false) (h : m.next a = some t) :
    t.point = m.point := by
  cases a with
  | childExits pid =>
      obtain rfl := Option.some.inj h
      rfl
  | ttyGdbAppears =>
      obtain rfl := Option.some.inj h
      rfl
  | ttyTrgtAppears =>
      obtain rfl := Option.some.inj h
      rfl
  | fork r => exact absurd ha Bool.noConfusion
  | waitpid r => exact absurd ha Bool.noConfusion
  | pathExists => exact absurd ha Bool.noConfusion
  | kill => exact absurd ha Bool.noConfusion

end CallsLeft

section Termination

/-- Some value is always possible for a `waitpid`. -/
theorem exists_waits (m : Main) (pid : Pid) : ∃ r, m.Waits pid r := by
  by_cases hexited : ∃ c ∈ m.waited pid, c.exited = true
  · obtain ⟨c, hc, h⟩ := hexited
    exact ⟨c.pid, Or.inl ⟨c, hc, h, rfl⟩⟩
  · by_cases hnone : m.waited pid = []
    · exact ⟨-1, Or.inr (Or.inr ⟨rfl, hnone⟩)⟩
    · exact ⟨0, Or.inr (Or.inl ⟨rfl, hnone, fun c hc h => hexited ⟨c, hc, h⟩⟩)⟩

/-- A slave that has not returned has a call to make. -/
theorem exists_next (h : ∀ result, m.point ≠ .returned result) :
    ∃ a t, a.isOwn = true ∧ m.next a = some t := by
  have hfork (h : (m.forked (-1)).isSome) : ∃ a t, a.isOwn = true ∧ m.next a = some t := by
    obtain ⟨t, ht⟩ := Option.isSome_iff_exists.mp h
    exact ⟨.fork (-1), t, rfl, by simp only [next, if_pos (show m.Forks (-1) from Or.inl rfl), ht]⟩
  have hpoll (pid : Pid) (hpid : m.polled = some pid)
      (h : ∀ r, (m.polledWith r).isSome) : ∃ a t, a.isOwn = true ∧ m.next a = some t := by
    obtain ⟨r, hr⟩ := m.exists_waits pid
    obtain ⟨t, ht⟩ := Option.isSome_iff_exists.mp (h r)
    exact ⟨.waitpid r, t, rfl, by simp only [next, hpid, if_pos hr, ht]⟩
  cases hp : m.point with
  | returned result => exact absurd hp (h result)
  | forkSocatGdb | forkSocatTrgt | forkGdb => exact hfork (by simp [forked, hp])
  | waitSocatGdb | waitSocatTrgt _ | monitorGdb | monitorSocatGdb _ | monitorSocatTrgt _ =>
      exact hpoll _ (by rw [polled, hp]) fun r => by simp [polledWith, hp]
  | existsTtyGdb _ | existsTtyTrgt _ _ =>
      exact ⟨.pathExists, _, rfl, by rw [next, existsTty, hp]⟩
  | killGdb _ | killSocatGdb _ | killSocatTrgt _ =>
      exact ⟨.kill, _, rfl, by rw [next, killed, hp]⟩

/-- From the exit of one of its processes a slave makes at most fourteen calls beside
`usleep` and `sleep`, whatever they return and whatever happens in between. It has one to
make as long as it has not returned, and when it has, every child that is left was sent
its signal. The PID of the process that exited must not be given to a new one. -/
theorem returns_after_exit {tr : List (Main × Action)} (run : Run system tr m) {c : Child}
    (hc : c ∈ m.children) {labels : List Action}
    (h : labels.foldlM next (m.exitChild c.pid) = some t) (hfresh : .fork c.pid ∉ labels) :
    labels.countP Action.isOwn ≤ 14 ∧
      ((∀ result, t.point ≠ .returned result) → ∃ a u, a.isOwn = true ∧ t.next a = some u) ∧
      ∀ result, t.point = .returned result → t.SignalsChildren := by
  have hm := kept_of_run run
  have hpid := (hm.stored c hc).1
  have hexit : m.next (.childExits c.pid) = some (m.exitChild c.pid) := rfl
  have hstart : (m.exitChild c.pid).Kept ∧ (m.exitChild c.pid).Dead c.role ∧
      (m.exitChild c.pid).pidOf c.role = c.pid :=
    ⟨hm.exits c.pid, dead_of_exit hm hc, by rw [pidOf_exitChild, hpid]⟩
  obtain ⟨-, hle⟩ := countP_add_measure_le Action.isOwn (· ≠ .fork c.pid)
    (fun m => m.Kept ∧ m.Dead c.role ∧ m.pidOf c.role = c.pid)
    (fun m => m.point.callsLeft c.role)
    (fun s a u hs ha hstep => by
      obtain ⟨hkept, hdead, hstored⟩ := hs
      refine ⟨⟨hkept.next hstep, hdead.next hkept (hstored ▸ ha) hstep,
        (pidOf_next hkept hdead.1 hstep).trans hstored⟩, ?_⟩
      cases hown : a.isOwn with
      | true => exact callsLeft_next hkept hdead hown hstep
      | false => exact le_of_eq (by rw [point_next_of_not_isOwn hown hstep]; rfl))
    hstart (fun a ha h => hfresh (h ▸ ha)) h
  have hfourteen := (m.exitChild c.pid).point.callsLeft_le c.role
  refine ⟨by omega, exists_next, fun result hresult => ?_⟩
  exact signalsChildren_of_returned ((Run.next run hexit).trace labels h) hresult

/-- GDB exits behind its poll in a round: the next round sees it, and the slave returns. -/
theorem returns_after_gdbExit :
    ∃ tr m, ∃ labels : List Action, ∃ t : Main, Run system tr m ∧ m.point = .monitorSocatGdb 0 ∧
      labels.foldlM next (m.exitChild 4) = some t ∧ t.point = .returned .success ∧
      labels.countP Action.isOwn ≤ 14 ∧ t.SignalsChildren := by
  let polled : Main :=
    { init with
      point := .monitorSocatGdb 0
      pidSocatGdb := 2
      pidSocatTrgt := 3
      pidGdb := 4
      children := [⟨4, .gdb, false⟩, ⟨3, .socatTrgt, false⟩, ⟨2, .socatGdb, false⟩]
      ttyGdb := true
      ttyTrgt := true
      log := [.forked 2 .socatGdb, .forked 3 .socatTrgt, .forked 4 .gdb] }
  have hrun := (Run.start (M := system) rfl).trace
    [.fork 2, .fork 3, .ttyGdbAppears, .ttyTrgtAppears, .waitpid 0, .waitpid 0, .pathExists,
      .pathExists, .fork 4, .waitpid 0] (t := polled) (by decide)
  let after : List Action :=
    [.waitpid 0, .waitpid 0, .waitpid 4, .waitpid 0, .waitpid 0, .kill, .kill, .kill]
  obtain ⟨t, ht, hpoint⟩ : ∃ t, after.foldlM next (polled.exitChild 4) = some t ∧
      t.point = .returned .success := ⟨_, rfl, rfl⟩
  obtain ⟨hle, -, hend⟩ :=
    returns_after_exit hrun (c := ⟨4, .gdb, false⟩) (by simp [polled]) ht (by decide)
  exact ⟨_, polled, after, t, hrun, rfl, ht, hpoint, hle, hend _ hpoint⟩

end Termination

end Main

end ParallelGdb.Slave
