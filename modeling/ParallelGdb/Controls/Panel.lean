import ParallelGdb.Controls.Buttons
import ParallelGdb.Window.Tracker

/-!
# Sending to the selected ranks

The buttons and hot-keys of the window, and its two entries, send to the ranks that are
selected in a grid of check buttons. GDB is sent no command while its target runs; the
interrupt goes to the target itself, also for the ranks selected for GDB.
-/

namespace ParallelGdb

open Library.CString Library.CellGrid

/-- The GDB and the target section of the window. -/
inductive Side
  | gdb
  | target
  deriving DecidableEq

structure Panel (n : Nat) where
  /-- `gdb-send-select-grid` and `target-send-select-grid`. -/
  grids : Side → Grid CheckButton
  /-- The texts of `gdb-send-entry` and `target-send-entry`. -/
  entries : Side → Bytes
  targetState : Fin n → TargetState
  /-- Whether `m_conns_gdb[rank]` and `m_conns_trgt[rank]` are sockets. -/
  conns : Side → Fin n → Bool
  /-- What was written to the sockets, oldest first. -/
  sent : Side → Fin n → List Bytes
  /-- The message dialogs that were shown. -/
  messages : List String

namespace Panel

variable {n : Nat}

/-- The window as `init` leaves it. -/
def init (n : Nat) : Panel n where
  grids := fun _ => CheckGrid.initGrid (maxButtonsPerRow n) n
  entries := fun _ => []
  targetState := fun _ => .unknown
  conns := fun _ _ => false
  sent := fun _ _ => []
  messages := []

/-- `send_data`. -/
def sendData (socket : Side) (rank : Fin n) (data : Bytes) (p : Panel n) : Panel n :=
  if p.conns socket rank then
    { p with
      sent := Function.update p.sent socket
        (Function.update (p.sent socket) rank (p.sent socket rank ++ [data])) }
  else p

/-- A round of a loop over the ranks that are selected in a grid. -/
def sendRound (grid socket : Side) (allowed : TargetState → Bool) (data : Bytes)
    (acc : Bool × Panel n) (rank : Fin n) : Option (Bool × Panel n) := do
  let button ← CheckGrid.buttonOf (maxButtonsPerRow n) (acc.2.grids grid) rank
  if button.active then
    return (true,
      if allowed (acc.2.targetState rank) then acc.2.sendData socket rank data else acc.2)
  return acc

/-- The loop, and the message where no rank is selected. -/
def sendSelected (grid socket : Side) (allowed : TargetState → Bool) (message : String)
    (data : Bytes) (p : Panel n) : Option (Bool × Panel n) := do
  let (one, p) ← (List.finRange n).foldlM (sendRound grid socket allowed data) (false, p)
  return (one, if one then p else { p with messages := p.messages ++ [message] })

/-- `send_data_to_active`. -/
def sendDataToActive (socket : Side) (cmd : Bytes) (p : Panel n) : Option (Panel n) := do
  let (_, p) ← p.sendSelected .gdb socket (fun state => socket = .target || state ≠ .running)
    "No Process selected." cmd
  return p

/-- What `interact_with_gdb` sends for a key, and where to. -/
def commandOf (keyValue : Nat) : Option (Side × Bytes) :=
  if keyValue = 0xffc2 then some (.gdb, ascii "next\n")
  else if keyValue = 0xffc3 then some (.gdb, ascii "step\n")
  else if keyValue = 0xffc4 then some (.gdb, ascii "finish\n")
  else if keyValue = 0xffc5 then some (.gdb, ascii "continue\n")
  else if keyValue = 0xffc6 then some (.target, [3])
  else if keyValue = 0xffc9 then some (.gdb, ascii "run\n")
  else none

/-- `interact_with_gdb`. That F4 closes the unused tabs does not concern the panel. -/
def interactWithGdb (keyValue : Nat) (p : Panel n) : Option (Panel n) :=
  match commandOf keyValue with
  | some (socket, cmd) => p.sendDataToActive socket cmd
  | none => some p

/-- `send_input`. -/
def sendInput (side : Side) (p : Panel n) : Option (Panel n) := do
  let (one, p) ← p.sendSelected side side (fun _ => true)
    "No Process selected.\nNoting has been sent." (p.entries side ++ ascii "\n")
  return if one then { p with entries := Function.update p.entries side [] } else p

/-- `toggle_all`. -/
def toggleAll (side : Side) (p : Panel n) : Option (Panel n) :=
  (CheckGrid.toggleAll (maxButtonsPerRow n) n (p.grids side)).map fun grid =>
    { p with grids := Function.update p.grids side grid }

/-- What can happen to the window. -/
inductive Event (n : Nat)
  /-- A click on a cell of a grid. -/
  | click (side : Side) (left top : Int)
  | toggleAll (side : Side)
  /-- A key, or the button with its value. -/
  | key (keyValue : Nat)
  | type (side : Side) (text : Bytes)
  /-- The button beside an entry, or the entry itself. -/
  | send (side : Side)
  /-- A response of a GDB changes the state of its target. -/
  | report (rank : Fin n) (state : TargetState)
  /-- A connection is opened or closed. -/
  | connect (side : Side) (rank : Fin n) (isOpen : Bool)

def handle (p : Panel n) : Event n → Option (Panel n)
  | .click side left top =>
      some { p with grids :=
        Function.update p.grids side (CheckGrid.click left top (p.grids side)) }
  | .toggleAll side => p.toggleAll side
  | .key keyValue => p.interactWithGdb keyValue
  | .type side text => some { p with entries := Function.update p.entries side text }
  | .send side => p.sendInput side
  | .report rank state =>
      some { p with targetState := Function.update p.targetState rank state }
  | .connect side rank isOpen =>
      some { p with conns :=
        Function.update p.conns side (Function.update (p.conns side) rank isOpen) }

end Panel

/-- The panel as it is meant: a flag for each rank, and what was sent to each rank. -/
structure Selection (n : Nat) where
  checked : Side → Fin n → Bool
  entries : Side → Bytes
  targetState : Fin n → TargetState
  conns : Side → Fin n → Bool
  sent : Side → Fin n → List Bytes
  messages : List String

namespace Selection

variable {n : Nat}

def init (n : Nat) : Selection n where
  checked := fun _ _ => true
  entries := fun _ => []
  targetState := fun _ => .unknown
  conns := fun _ _ => false
  sent := fun _ _ => []
  messages := []

/-- Whether a rank is selected in a grid. -/
def one (c : Selection n) (grid : Side) : Bool := (List.finRange n).any (c.checked grid)

/-- Each selected rank that may be sent to, and is connected, gets the text. -/
def deliver (grid socket : Side) (allowed : TargetState → Bool) (data : Bytes)
    (c : Selection n) : Selection n :=
  { c with
    sent := fun side rank =>
      if side = socket && c.checked grid rank && allowed (c.targetState rank) &&
          c.conns socket rank then
        c.sent side rank ++ [data]
      else c.sent side rank }

/-- Where none is selected there is a message. -/
def note (grid : Side) (message : String) (c : Selection n) : Selection n :=
  if c.one grid then c else { c with messages := c.messages ++ [message] }

def handle (c : Selection n) : Panel.Event n → Selection n
  | .click side left top =>
      { c with
        checked := Function.update c.checked side
          ((CheckGrid.rankAt (maxButtonsPerRow n) n left top).elim (c.checked side) fun rank =>
            Function.update (c.checked side) rank !c.checked side rank) }
  | .toggleAll side =>
      { c with checked := Function.update c.checked side fun _ => !c.one side }
  | .key keyValue =>
      match Panel.commandOf keyValue with
      | some (socket, cmd) =>
          (c.deliver .gdb socket (fun state => socket = .target || state ≠ .running) cmd).note
            .gdb "No Process selected."
      | none => c
  | .type side text => { c with entries := Function.update c.entries side text }
  | .send side =>
      let c := (c.deliver side side (fun _ => true) (c.entries side ++ ascii "\n")).note side
        "No Process selected.\nNoting has been sent."
      if c.one side then { c with entries := Function.update c.entries side [] } else c
  | .report rank state =>
      { c with targetState := Function.update c.targetState rank state }
  | .connect side rank isOpen =>
      { c with conns :=
        Function.update c.conns side (Function.update (c.conns side) rank isOpen) }

end Selection

namespace Panel

variable {n : Nat}

/-- The grids show the flags of the selection, and all else is the same. -/
structure Shows (p : Panel n) (c : Selection n) : Prop where
  grids : ∀ side, CheckGrid.Holds (maxButtonsPerRow n) (c.checked side) (p.grids side)
  entries : p.entries = c.entries
  targetState : p.targetState = c.targetState
  conns : p.conns = c.conns
  sent : p.sent = c.sent
  messages : p.messages = c.messages

theorem shows_init (n : Nat) : Shows (init n) (Selection.init n) :=
  ⟨fun _ => CheckGrid.holds_fill _ _, rfl, rfl, rfl, rfl, rfl⟩

section Sending

variable {p : Panel n} {c : Selection n} {grid socket : Side} {allowed : TargetState → Bool}
  {data : Bytes}

/-- Only some of the ranks are served yet. -/
def served (grid socket : Side) (allowed : TargetState → Bool) (data : Bytes)
    (ranks : List (Fin n)) (c : Selection n) : Selection n :=
  { c with
    sent := fun side rank =>
      if rank ∈ ranks then (c.deliver grid socket allowed data).sent side rank
      else c.sent side rank }

theorem served_cons {rank : Fin n} {rest : List (Fin n)} (hrank : rank ∉ rest) :
    served grid socket allowed data (rank :: rest) c =
      served grid socket allowed data rest (served grid socket allowed data [rank] c) := by
  have hsent : (served grid socket allowed data (rank :: rest) c).sent =
      (served grid socket allowed data rest (served grid socket allowed data [rank] c)).sent := by
    funext side other
    by_cases hother : other = rank
    · subst hother
      simp [served, hrank]
    · simp [served, hother, Selection.deliver]
  exact congrArg (fun sent => { c with sent }) hsent

variable (grid socket allowed data)

/-- A rank is sent the text if it is selected, may be sent to and is connected. -/
theorem Shows.sendRound (h : Shows p c) (one : Bool) (rank : Fin n) :
    ∃ p', sendRound grid socket allowed data (one, p) rank =
        some (one || c.checked grid rank, p') ∧
      Shows p' (served grid socket allowed data [rank] c) := by
  have hbutton := (h.grids grid).buttonOf rank
  -- Where nothing is sent, the logs stay as they are.
  have hkeep (hno : c.checked grid rank = false ∨ allowed (c.targetState rank) = false ∨
      c.conns socket rank = false) : served grid socket allowed data [rank] c = c := by
    have hsent : (served grid socket allowed data [rank] c).sent = c.sent := by
      funext side other
      simp only [served, List.mem_singleton, Selection.deliver]
      split
      · rename_i hother
        subst hother
        rcases hno with hno | hno | hno <;> simp [hno]
      · rfl
    exact congrArg (fun sent => { c with sent }) hsent
  cases hchecked : c.checked grid rank with
  | false =>
      refine ⟨p, ?_, by rwa [hkeep (Or.inl hchecked)]⟩
      rw [Panel.sendRound, hbutton, hchecked, Bool.or_false]
      rfl
  | true =>
      have hround : Panel.sendRound grid socket allowed data (one, p) rank = some (true,
          if allowed (c.targetState rank) then p.sendData socket rank data else p) := by
        rw [Panel.sendRound, hbutton, hchecked, ← h.targetState]
        rfl
      rw [hround, Bool.or_true]
      refine ⟨_, rfl, ?_⟩
      cases hallowed : allowed (c.targetState rank) with
      | false => rwa [hkeep (Or.inr (Or.inl hallowed))]
      | true =>
          rw [if_pos rfl, sendData, h.conns]
          cases hconn : c.conns socket rank with
          | false => rwa [hkeep (Or.inr (Or.inr hconn))]
          | true =>
              rw [if_pos rfl]
              refine ⟨h.grids, h.entries, h.targetState, rfl, ?_, h.messages⟩
              funext side other
              simp only [served, List.mem_singleton, Selection.deliver, h.sent]
              by_cases hside : side = socket
              · subst hside
                by_cases hother : other = rank
                · subst hother
                  simp [hchecked, hallowed, hconn]
                · simp [hother]
              · simp [hside]

theorem Shows.sendRounds (h : Shows p c) (items : List (Fin n)) (hnodup : items.Nodup)
    (one : Bool) :
    ∃ p', items.foldlM (Panel.sendRound grid socket allowed data) (one, p) =
        some (one || items.any (c.checked grid), p') ∧
      Shows p' (served grid socket allowed data items c) := by
  induction items generalizing p c one with
  | nil => exact ⟨p, by simp, h⟩
  | cons rank rest ih =>
      obtain ⟨hrank, hrest⟩ := List.nodup_cons.mp hnodup
      obtain ⟨p', hp', hshows⟩ := h.sendRound grid socket allowed data one rank
      obtain ⟨p'', hp'', hshows'⟩ := ih hshows hrest (one || c.checked grid rank)
      refine ⟨p'', ?_, ?_⟩
      · rw [List.foldlM_cons, hp']
        refine hp''.trans ?_
        rw [List.any_cons, Bool.or_assoc]
        rfl
      · rw [served_cons hrank]
        exact hshows'

/-- The whole loop delivers, and tells whether any rank is selected. -/
theorem Shows.sendSelected (h : Shows p c) (message : String) :
    ∃ p', p.sendSelected grid socket allowed message data = some (c.one grid, p') ∧
      Shows p' ((c.deliver grid socket allowed data).note grid message) := by
  obtain ⟨p', hp', hshows⟩ := h.sendRounds grid socket allowed data (List.finRange n)
    (List.nodup_finRange n) false
  have hall : served grid socket allowed data (List.finRange n) c =
      c.deliver grid socket allowed data := by
    simp [served, Selection.deliver]
  rw [Bool.false_or] at hp'
  rw [hall] at hshows
  refine ⟨if c.one grid then p' else { p' with messages := p'.messages ++ [message] }, ?_, ?_⟩
  · rw [Panel.sendSelected, hp']
    rfl
  · have hone : (c.deliver grid socket allowed data).one grid = c.one grid := rfl
    rw [Selection.note, hone]
    split
    · exact hshows
    · exact ⟨hshows.grids, hshows.entries, hshows.targetState, hshows.conns, hshows.sent,
        congrArg (· ++ [message]) hshows.messages⟩

end Sending

section Events

variable {p : Panel n} {c : Selection n}

theorem Shows.interactWithGdb (h : Shows p c) (keyValue : Nat) :
    ∃ p', p.interactWithGdb keyValue = some p' ∧ Shows p' (c.handle (.key keyValue)) := by
  rw [Panel.interactWithGdb, Selection.handle]
  cases commandOf keyValue with
  | none => exact ⟨p, rfl, h⟩
  | some command =>
      obtain ⟨socket, cmd⟩ := command
      obtain ⟨p', hp', hshows⟩ := h.sendSelected .gdb socket
        (fun state => socket = .target || state ≠ .running) cmd "No Process selected."
      refine ⟨p', ?_, hshows⟩
      simp only [sendDataToActive, hp']
      rfl

theorem Shows.sendInput (h : Shows p c) (side : Side) :
    ∃ p', p.sendInput side = some p' ∧ Shows p' (c.handle (.send side)) := by
  obtain ⟨p', hp', hshows⟩ := h.sendSelected side side (fun _ => true)
    (c.entries side ++ ascii "\n") "No Process selected.\nNoting has been sent."
  refine ⟨if c.one side then { p' with entries := Function.update p'.entries side [] } else p',
    ?_, ?_⟩
  · rw [Panel.sendInput, h.entries, hp']
    rfl
  · -- Delivering and noting leave the flags.
    have hone : ((c.deliver side side (fun _ => true) (c.entries side ++ ascii "\n")).note side
        "No Process selected.\nNoting has been sent.").one side = c.one side := by
      unfold Selection.note
      split <;> rfl
    simp only [Selection.handle, hone]
    split
    · exact ⟨hshows.grids, congrArg (Function.update · side []) hshows.entries,
        hshows.targetState, hshows.conns, hshows.sent, hshows.messages⟩
    · exact hshows

/-- Another grid, with the flags it shows. -/
theorem Shows.update (h : Shows p c) {side : Side} {grid : Grid CheckButton}
    {flags : Fin n → Bool} (hgrid : CheckGrid.Holds (maxButtonsPerRow n) flags grid) :
    Shows { p with grids := Function.update p.grids side grid }
      { c with checked := Function.update c.checked side flags } := by
  refine ⟨fun other => ?_, h.entries, h.targetState, h.conns, h.sent, h.messages⟩
  by_cases hother : other = side
  · subst hother
    simpa using hgrid
  · simpa [hother] using h.grids other

theorem Shows.toggleAll (h : Shows p c) (side : Side) :
    ∃ p', p.toggleAll side = some p' ∧ Shows p' (c.handle (.toggleAll side)) := by
  obtain ⟨grid, hgrid, hholds⟩ := (h.grids side).toggleAll
  refine ⟨_, ?_, h.update hholds⟩
  rw [Panel.toggleAll, hgrid, Option.map_some]

/-- What happens to the panel happens to the selection. -/
theorem Shows.handle (h : Shows p c) (e : Event n) :
    ∃ p', p.handle e = some p' ∧ Shows p' (c.handle e) := by
  cases e with
  | click side left top => exact ⟨_, rfl, h.update ((h.grids side).click left top)⟩
  | toggleAll side => exact h.toggleAll side
  | key keyValue => exact h.interactWithGdb keyValue
  | type side text =>
      exact ⟨_, rfl, h.grids, congrArg (Function.update · side text) h.entries, h.targetState,
        h.conns, h.sent, h.messages⟩
  | send side => exact h.sendInput side
  | report rank state =>
      exact ⟨_, rfl, h.grids, h.entries, congrArg (Function.update · rank state) h.targetState,
        h.conns, h.sent, h.messages⟩
  | connect side rank isOpen =>
      refine ⟨_, rfl, h.grids, h.entries, h.targetState, ?_, h.sent, h.messages⟩
      simp only [h.conns, Selection.handle]

/-- Whatever happens to the window, no cell of a rank is empty, and each rank is sent what
its own flag, state and connection ask for. -/
theorem run_shows (events : List (Event n)) :
    ∃ p, events.foldlM Panel.handle (init n) = some p ∧
      Shows p (events.foldl Selection.handle (Selection.init n)) := by
  have hrun (events : List (Event n)) {p : Panel n} {c : Selection n} (h : Shows p c) :
      ∃ p', events.foldlM Panel.handle p = some p' ∧
        Shows p' (events.foldl Selection.handle c) := by
    induction events generalizing p c with
    | nil => exact ⟨p, rfl, h⟩
    | cons e rest ih =>
        obtain ⟨p', hp', hshows⟩ := h.handle e
        obtain ⟨p'', hp'', hshows'⟩ := ih hshows
        refine ⟨p'', ?_, hshows'⟩
        rw [List.foldlM_cons, hp']
        exact hp''
  exact hrun events (shows_init n)

end Events

end Panel

end ParallelGdb
