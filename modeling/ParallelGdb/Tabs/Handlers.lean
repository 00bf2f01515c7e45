import ParallelGdb.Tabs.InStep
import ParallelGdb.Window.Status

/-!
# Handling GDB output with tabs and overview

The passes over a response as the window runs them: to what they do to the
tracked state comes what they do to the overview, the tabs and the idle queue.
While the window shows its entries, they fail only where the tracked state
fails, and what they track does not depend on the tabs.
-/

namespace ParallelGdb

open Library.CString Mi Std

variable {n : Nat}

/-- The source file a stop record reports. -/
def Tracker.stopPath (stop : MiStop) : Option Bytes := (stopPosition stop).map Prod.fst

namespace UIWindow

/-- The first part of `parse_stop_record`. -/
def hitBreakpoint (stop : MiStop) (rank : Fin n) (w : UIWindow n) :
    Except Fault (UIWindow n) := do
  return { w with tracker := ← w.tracker.hitBreakpoint stop rank }

/-- The second part: an exit reason clears the labels of the rank. -/
def recordExit (stop : MiStop) (rank : Fin n) (w : UIWindow n) : UIWindow n :=
  if stop.reason.isExit then
    clearLabelsOverview { w with tracker := w.tracker.recordExit stop rank } rank
  else
    w

/-- The third part: the overview, the tabs and the scroll follow the position. -/
def showPosition (stop : MiStop) (rank : Fin n) (load : Bytes → SourceFile)
    (w : UIWindow n) : Except Fault (UIWindow n) :=
  match Tracker.stopPosition stop with
  | some (fullpath, line) => do
      let w ← w.setPosition rank fullpath line
      let w ← w.appendSourceFile fullpath (load fullpath)
      return w.scrollToLine rank
  | none => .ok w

/-- What `parse_stop_record` does with the stop record it found. -/
def applyStop (stop : MiStop) (rank : Fin n) (load : Bytes → SourceFile)
    (w : UIWindow n) : Except Fault (UIWindow n) := do
  let w ← w.hitBreakpoint stop rank
  (w.recordExit stop rank).showPosition stop rank load

/-- `parse_stop_record`. -/
def parseStopRecord (first : List MiOutput) (rank : Fin n)
    (load : Bytes → SourceFile) (w : UIWindow n) : Except Fault (UIWindow n) := do
  match ← miResStop first with
  | none => return w
  | some stop => w.applyStop stop rank load

/-- `parse_breakpoint`. -/
def parseBreakpoint (first : List MiOutput) (rank : Fin n) (w : UIWindow n) :
    Except Fault (UIWindow n) := do
  return { w with tracker := ← w.tracker.parseBreakpoint first rank }

/-- The three passes over one response, in the order of `handle_data_gdb`. -/
def handleResponse (rank : Fin n) (load : Bytes → SourceFile) (w : UIWindow n)
    (first : List MiOutput) : Except Fault (UIWindow n) := do
  let w := { w with tracker := w.tracker.parseTargetState first rank }
  let w ← w.parseStopRecord first rank load
  w.parseBreakpoint first rank

/-- `handle_data_gdb` from the responses a chunk completes on. -/
def handleResponses (rank : Fin n) (load : Bytes → SourceFile)
    (responses : List (List MiOutput)) (w : UIWindow n) : Except Fault (UIWindow n) := do
  let w ← responses.foldlM (handleResponse rank load) w
  w.checkOverview rank

/-- The window does to the tracked state what `x` does, and fails where `x` does. -/
def Simulates (x : Except Fault (Tracker n)) (y : Except Fault (UIWindow n))
    (Q : UIWindow n → Prop) : Prop :=
  match x with
  | .error e => y = .error e
  | .ok t => ∃ u, y = .ok u ∧ u.tracker = t ∧ Q u

namespace Simulates

variable {x : Except Fault (Tracker n)} {y : Except Fault (UIWindow n)}
variable {Q R : UIWindow n → Prop}

/-- One after the other. -/
theorem bind (h : Simulates x y Q) {f : Tracker n → Except Fault (Tracker n)}
    {g : UIWindow n → Except Fault (UIWindow n)}
    (hfg : ∀ u, Q u → Simulates (f u.tracker) (g u) R) : Simulates (x >>= f) (y >>= g) R := by
  cases x with
  | error e =>
      obtain rfl : y = .error e := h
      rfl
  | ok t =>
      obtain ⟨u, rfl, rfl, hQ⟩ := h
      exact hfg u hQ

theorem mono (h : Simulates x y Q) (hQR : ∀ u, Q u → R u) : Simulates x y R := by
  cases x with
  | error e => exact h
  | ok t =>
      obtain ⟨u, hy, ht, hQ⟩ := h
      exact ⟨u, hy, ht, hQR u hQ⟩

end Simulates

theorem simulates_ok {t : Tracker n} {u : UIWindow n} {Q : UIWindow n → Prop}
    (ht : u.tracker = t) (hQ : Q u) : Simulates (.ok t) (.ok u) Q := ⟨u, rfl, ht, hQ⟩

/-- A pass over the tracked state alone. -/
theorem simulates_tracker (x : Except Fault (Tracker n)) (w : UIWindow n) :
    Simulates x (do return { w with tracker := ← x }) fun u => ∃ t, u = { w with tracker := t } := by
  cases x with
  | error e => rfl
  | ok t => exact ⟨{ w with tracker := t }, rfl, rfl, t, rfl⟩

/-- The files of the pages. -/
def paths (w : UIWindow n) : List Bytes := w.pages.map Page.path

/-- From `w` to `u` a rank has been shown at these paths. -/
structure Advanced (rank : Fin n) (reached : List Bytes) (w u : UIWindow n) : Prop where
  shown : ∃ es, u.Shows es
  paths : ∀ p, p ∈ u.paths ↔ p ∈ w.paths ∨ p ∈ reached
  followRank : u.followRank = w.followRank
  idle : ∀ q, q ∈ u.idle ↔ q ∈ w.idle ∨ (q = rank ∧ w.follows rank = true ∧ reached ≠ [])

namespace Advanced

variable {rank : Fin n} {w u v : UIWindow n}

theorem trans {ps qs : List Bytes} (h : Advanced rank ps w u) (h' : Advanced rank qs u v) :
    Advanced rank (ps ++ qs) w v where
  shown := h'.shown
  paths := by
    intro p
    rw [h'.paths, h.paths, List.mem_append, or_assoc]
  followRank := h'.followRank.trans h.followRank
  idle := by
    intro q
    have hfollows : u.follows rank = w.follows rank := by
      rw [follows, follows, h.followRank]
    rw [h'.idle, h.idle, hfollows, or_assoc]
    simp only [ne_eq, List.append_eq_nil_iff, not_and_or]
    tauto

/-- Nothing but the tracked state and the labels has changed. -/
theorem of_same (hshown : ∃ es, u.Shows es) (hpages : u.paths = w.paths)
    (hfollow : u.followRank = w.followRank) (hidle : u.idle = w.idle) :
    Advanced rank [] w u where
  shown := hshown
  paths := by simp [hpages]
  followRank := hfollow
  idle := by simp [hidle]

/-- The tabs do not see a change of the tracked state. -/
theorem of_tracker {ps : List Bytes} {t : Tracker n}
    (h : Advanced rank ps { w with tracker := t } u) : Advanced rank ps w u :=
  ⟨h.shown, h.paths, h.followRank, h.idle⟩

end Advanced

section Passes

variable {w : UIWindow n} {es : List (Entry n)}

theorem Shows.withTracker (h : w.Shows es) (t : Tracker n) :
    Shows { w with tracker := t } es := h.congr rfl rfl rfl rfl rfl

theorem Shows.paths_eq (h : w.Shows es) : w.paths = es.map Entry.path := h.paths

theorem Redrawn.advanced {u : UIWindow n} (h : w.Shows es) (hu : Redrawn w u) (rank : Fin n) :
    Advanced rank [] w u := by
  obtain ⟨es', hpages, hes'⟩ := hu.shows es h
  refine .of_same ⟨es', hes'⟩ ?_ hu.sameRanks.followRank hu.sameRanks.idle
  unfold UIWindow.paths
  rw [hes'.pages, h.pages, hpages]

theorem recordExit_sim (h : w.Shows es) (stop : MiStop) (rank : Fin n) :
    (w.recordExit stop rank).tracker = w.tracker.recordExit stop rank ∧
      Advanced rank [] w (w.recordExit stop rank) := by
  unfold UIWindow.recordExit
  split
  · have hredrawn := redrawn_clearLabelsOverview
      { w with tracker := w.tracker.recordExit stop rank } rank
    exact ⟨hredrawn.tracker, (hredrawn.advanced (h.withTracker _) rank).of_tracker⟩
  · rename_i hexit
    refine ⟨?_, .of_same ⟨es, h⟩ rfl rfl rfl⟩
    rw [Tracker.recordExit, if_neg hexit]

/-- The tab of a file is opened and a scroll queued. -/
theorem appendSourceFile_scroll (h : w.Shows es) (hn : 0 < n) (rank : Fin n) (fullpath : Bytes)
    (file : SourceFile) :
    ∃ u, w.appendSourceFile fullpath file = .ok u ∧
      (u.scrollToLine rank).tracker = w.tracker ∧
      Advanced rank [fullpath] w (u.scrollToLine rank) := by
  obtain ⟨u, es', hu, hes', hsame, hpages⟩ := appendSourceFile_ok h hn fullpath file
  have hfollows : u.follows rank = w.follows rank := by
    rw [follows, follows, hsame.followRank]
  have hscroll : u.scrollToLine rank =
      { u with idle := u.idle ++ if w.follows rank then [rank] else [] } := by
    rw [scrollToLine, hfollows]
    split <;> simp
  have hpaths : u.paths =
      if fullpath ∈ w.paths then w.paths else w.paths ++ [fullpath] := by
    rw [h.paths_eq, UIWindow.paths, hes'.pages, hpages]
    split
    · exact List.map_map
    · simp only [List.map_append, List.map_map, List.map_singleton]
      rfl
  refine ⟨u, hu, ?_⟩
  rw [hscroll]
  refine ⟨hsame.tracker, ⟨es', hes'.congr rfl rfl rfl rfl rfl⟩, fun p => ?_,
    hsame.followRank, fun q => ?_⟩
  · rw [List.mem_singleton]
    change p ∈ u.paths ↔ _
    rw [hpaths]
    by_cases hmem : fullpath ∈ w.paths
    · rw [if_pos hmem]
      exact ⟨Or.inl, fun hp => hp.elim id fun hp => hp ▸ hmem⟩
    · rw [if_neg hmem, List.mem_append, List.mem_singleton]
  · simp only [hsame.idle]
    cases w.follows rank <;> simp

/-- The tab of the position is opened and a scroll to it queued. -/
theorem showPosition_sim (h : w.Shows es) (hn : 0 < n) (stop : MiStop) (rank : Fin n)
    (load : Bytes → SourceFile) :
    Simulates (.ok (w.tracker.recordPosition stop rank)) (w.showPosition stop rank load)
      (Advanced rank (Tracker.stopPath stop).toList w) := by
  unfold UIWindow.showPosition Tracker.recordPosition Tracker.stopPath
  cases Tracker.stopPosition stop with
  | none => exact simulates_ok rfl (.of_same ⟨es, h⟩ rfl rfl rfl)
  | some position =>
      obtain ⟨fullpath, line⟩ := position
      obtain ⟨u, hu, hredrawn⟩ := setPosition_ok h rank fullpath line
      have hmoved := (hredrawn.advanced (h.withTracker _) rank).of_tracker
      obtain ⟨es', hes'⟩ := hmoved.shown
      obtain ⟨v, hv, htracker, hadvanced⟩ :=
        appendSourceFile_scroll hes' hn rank fullpath (load fullpath)
      refine ⟨v.scrollToLine rank, ?_, htracker.trans hredrawn.tracker, hmoved.trans hadvanced⟩
      simp only [hu, hv, bind, Except.bind, pure, Except.pure]

/-- What the window does with a stop. -/
theorem applyStop_sim (h : w.Shows es) (hn : 0 < n) (stop : MiStop) (rank : Fin n)
    (load : Bytes → SourceFile) :
    Simulates (w.tracker.applyStop stop rank) (w.applyStop stop rank load)
      (Advanced rank (Tracker.stopPath stop).toList w) := by
  apply (simulates_tracker (w.tracker.hitBreakpoint stop rank) w).bind
  rintro u ⟨t, rfl⟩
  obtain ⟨hexit, hadvanced⟩ := recordExit_sim (h.withTracker t) stop rank
  obtain ⟨es', hes'⟩ := hadvanced.shown
  rw [← hexit]
  exact (showPosition_sim hes' hn stop rank load).mono fun u hu => hadvanced.of_tracker.trans hu

/-- The source file the stop of a response is in. -/
def responsePath (first : List MiOutput) : Option Bytes :=
  match miResStop first with
  | .ok (some stop) => Tracker.stopPath stop
  | _ => none

theorem parseStopRecord_sim (h : w.Shows es) (hn : 0 < n) (first : List MiOutput) (rank : Fin n)
    (load : Bytes → SourceFile) :
    Simulates (w.tracker.parseStopRecord first rank) (w.parseStopRecord first rank load)
      (Advanced rank (responsePath first).toList w) := by
  unfold Tracker.parseStopRecord UIWindow.parseStopRecord responsePath
  cases miResStop first with
  | error e => rfl
  | ok found =>
      cases found with
      | none => exact simulates_ok rfl (.of_same ⟨es, h⟩ rfl rfl rfl)
      | some stop => exact applyStop_sim h hn stop rank load

/-- A response does to the window what it does to the tracked state. -/
theorem handleResponse_sim (h : w.Shows es) (hn : 0 < n) (first : List MiOutput) (rank : Fin n)
    (load : Bytes → SourceFile) :
    Simulates (w.tracker.handleResponse first rank) (w.handleResponse rank load first)
      (Advanced rank (responsePath first).toList w) := by
  have hstop := parseStopRecord_sim (h.withTracker (w.tracker.parseTargetState first rank)) hn
    first rank load
  apply hstop.bind
  intro u hu
  apply (simulates_tracker (u.tracker.parseBreakpoint first rank) u).mono
  rintro v ⟨t, rfl⟩
  obtain ⟨es', hes'⟩ := hu.shown
  have hlast : Advanced rank [] u { u with tracker := t } :=
    .of_same ⟨es', hes'.withTracker t⟩ rfl rfl rfl
  simpa using hu.of_tracker.trans hlast

/-- Of a response that goes through: what is tracked and what has been shown. -/
theorem handleResponse_advances (h : w.Shows es) (hn : 0 < n) {first : List MiOutput}
    {rank : Fin n} {load : Bytes → SourceFile} {u : UIWindow n}
    (hu : w.handleResponse rank load first = .ok u) :
    w.tracker.handleResponse first rank = .ok u.tracker ∧
      Advanced rank (responsePath first).toList w u := by
  have hsim := handleResponse_sim h hn first rank load
  cases ht : w.tracker.handleResponse first rank with
  | error e =>
      rw [ht, hu] at hsim
      cases hsim
  | ok t =>
      rw [ht, hu] at hsim
      obtain ⟨v, hv, rfl, hadvanced⟩ := hsim
      obtain rfl := Except.ok.inj hv
      exact ⟨rfl, hadvanced⟩

end Passes

end UIWindow

end ParallelGdb
