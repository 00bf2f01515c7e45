import ParallelGdb.Controls.Buttons
import ParallelGdb.Tabs.Window

/-!
# The FollowDialog

The radio buttons of the ranks and two more form one group, in which one button is
active. The dialog opens with the button of what is followed, and is asked again for
the rank that was chosen.
-/

namespace ParallelGdb

open Library.CString Library.CellGrid Library.RankLoop

variable {n : Nat}

/-- `FOLLOW_NONE`. -/
def followNone : Int := -2

/-- The group of the radio buttons: those in `radiobuttons-grid`, and
`follow-all-radiobutton` and `follow-none-radiobutton`. -/
structure FollowDialog where
  grid : Grid CheckButton
  all : Bool
  none : Bool

namespace FollowDialog

/-- A button of the group. -/
inductive Radio
  | cell (left top : Int)
  | all
  | none

def turnOff (grid : Grid CheckButton) : Grid CheckButton :=
  grid.mapItems fun button => { button with active := false }

/-- `set_active(true)`, or a click on a button: all others of the group are turned off. -/
def setActive (d : FollowDialog) : Radio → FollowDialog
  | .all => ⟨turnOff d.grid, true, false⟩
  | .none => ⟨turnOff d.grid, false, true⟩
  | .cell left top =>
      if (d.grid.itemAt left top).isSome then
        ⟨(turnOff d.grid).modifyAt (fun button => { button with active := true }) left top,
          false, false⟩
      else d

/-- A round of the loop of the constructor: the button joins the group, is activated if
its rank is followed, and is attached. -/
def attachRound (current : Int) (grid : Grid CheckButton) (rank : Fin n) : Grid CheckButton :=
  let grid := if (rank : Int) = current then turnOff grid else grid
  grid.attach ⟨decimal (rank : Nat), (rank : Int) = current⟩
    (CheckGrid.cell (maxButtonsPerRow n) rank).1 (CheckGrid.cell (maxButtonsPerRow n) rank).2

/-- The constructor. The first button of a group is active. -/
def new (n : Nat) (current : Int) : FollowDialog :=
  let first : Grid CheckButton := Grid.attach [] ⟨ascii "0", true⟩ 0 0
  let d : FollowDialog :=
    ⟨forEach (attachRound current) ((List.finRange n).drop 1) first, false, false⟩
  let d := if current = followAll then d.setActive .all else d
  if current = followNone then d.setActive .none else d

/-- The loop of `on_dialog_response`. Where no button is active nothing is set. -/
def activeRank (grid : Grid CheckButton) : List (Fin n) → Option Int
  | [] => Option.none
  | rank :: rest => do
      let button ← CheckGrid.buttonOf (maxButtonsPerRow n) grid rank
      if button.active then return (rank : Int)
      activeRank grid rest

/-- `on_dialog_response` for OK. -/
def response (n : Nat) (d : FollowDialog) : Option Int :=
  if d.all then some followAll
  else if d.none then some followNone
  else activeRank d.grid (List.finRange n)

/-- What a rank to follow can be. -/
def Valid (n : Nat) (follow : Int) : Prop := followNone ≤ follow ∧ follow < n

theorem valid_all (n : Nat) : Valid n followAll :=
  ⟨by decide, lt_of_lt_of_le (by decide) (Int.natCast_nonneg n)⟩

theorem valid_none (n : Nat) : Valid n followNone :=
  ⟨le_refl _, lt_of_lt_of_le (by decide) (Int.natCast_nonneg n)⟩

/-- The active button is that of what is followed. -/
structure Shows (n : Nat) (d : FollowDialog) (follow : Int) : Prop where
  grid : CheckGrid.Holds (maxButtonsPerRow n) (fun rank : Fin n => decide ((rank : Int) = follow))
    d.grid
  all : d.all = decide (follow = followAll)
  none : d.none = decide (follow = followNone)

/-- What a click follows. -/
def chosen (n : Nat) (follow : Int) : Radio → Int
  | .cell left top =>
      (CheckGrid.rankAt (maxButtonsPerRow n) n left top).elim follow fun rank => (rank : Int)
  | .all => followAll
  | .none => followNone

section Opening

variable {grid : Grid CheckButton} {flags : Fin n → Bool} {done : List (Fin n)} {current : Int}

theorem attached_turnOff (h : CheckGrid.Attached (maxButtonsPerRow n) done flags grid) :
    CheckGrid.Attached (maxButtonsPerRow n) done (fun _ => false) (turnOff grid) := by
  refine ⟨fun c hc => ?_, fun left top => ?_⟩
  · obtain ⟨d, hd, rfl⟩ := List.mem_map.mp hc
    exact h.single d hd
  · rw [turnOff, Grid.itemAt_mapItems, h.itemAt, Option.map_map]
    rfl

/-- The flags while the buttons are attached: that of the first rank, until that of the
followed one is. -/
def opening (current : Int) (done : List (Fin n)) (rank : Fin n) : Bool :=
  if done.any fun other => (other : Int) = current then (rank : Int) = current
  else (rank : Nat) = 0

theorem attached_round {rank : Fin n} (hrank : rank ∉ done) (hzero : (rank : Nat) ≠ 0)
    (h : CheckGrid.Attached (maxButtonsPerRow n) done (opening current done) grid) :
    CheckGrid.Attached (maxButtonsPerRow n) (rank :: done) (opening current (rank :: done))
      (attachRound current grid rank) := by
  unfold attachRound
  by_cases hcurrent : (rank : Int) = current
  · have hopening : opening current (rank :: done) =
        fun other : Fin n => decide ((other : Int) = current) := by
      funext other
      simp [opening, hcurrent]
    have hoff := (attached_turnOff h).congr (opening current (rank :: done)) fun other ho => by
      have hne : (other : Int) ≠ current := by
        intro heq
        rw [← hcurrent] at heq
        exact hrank (Fin.ext (Int.ofNat_inj.mp heq) ▸ ho)
      simp [hopening, hne]
    have hattach := hoff.attach rank
    rw [hopening] at hattach ⊢
    rw [if_pos hcurrent]
    exact hattach
  · have hopening : opening current (rank :: done) = opening current done := by
      funext other
      simp [opening, hcurrent]
    have hflag : opening current done rank = decide ((rank : Int) = current) := by
      simp [opening, hcurrent, hzero]
    have hattach := h.attach rank
    rw [hflag] at hattach
    rw [hopening, if_neg hcurrent]
    exact hattach

theorem attached_rounds (done items : List (Fin n)) (hnodup : (items.reverse ++ done).Nodup)
    (hzero : ∀ rank ∈ items, (rank : Nat) ≠ 0)
    (h : CheckGrid.Attached (maxButtonsPerRow n) done (opening current done) grid) :
    CheckGrid.Attached (maxButtonsPerRow n) (items.reverse ++ done)
      (opening current (items.reverse ++ done)) (forEach (attachRound current) items grid) := by
  induction items generalizing done grid with
  | nil => exact h
  | cons rank rest ih =>
      rw [List.reverse_cons, List.append_assoc] at hnodup ⊢
      have hrank : rank ∉ done := (List.nodup_cons.mp (List.nodup_append.mp hnodup).2.1).1
      exact ih (rank :: done) hnodup
        (fun other hother => hzero other (List.mem_cons_of_mem rank hother))
        (attached_round hrank (hzero rank List.mem_cons_self) h)

/-- Behind the loop the button of the followed rank is active, or the first one. -/
theorem holds_rounds (hn : 0 < n) (current : Int) :
    CheckGrid.Holds (maxButtonsPerRow n) (opening current (List.finRange n))
      (forEach (attachRound current) ((List.finRange n).drop 1)
        (Grid.attach [] ⟨ascii "0", true⟩ 0 0)) := by
  obtain ⟨m, rfl⟩ := Nat.exists_eq_succ_of_ne_zero hn.ne'
  have hfirst : CheckGrid.Attached (maxButtonsPerRow (m + 1)) [(0 : Fin (m + 1))]
      (opening current [0]) (Grid.attach [] ⟨ascii "0", true⟩ 0 0) := by
    have hattach := (CheckGrid.Attached.nil (maxButtonsPerRow (m + 1))
      (opening current [(0 : Fin (m + 1))])).attach 0
    have hflag : opening current [(0 : Fin (m + 1))] 0 = true := by
      by_cases hcurrent : (0 : Int) = current
      · simp [opening, ← hcurrent]
      · simp [opening, hcurrent]
    simp only [hflag, CheckGrid.cell, Fin.val_zero, Nat.zero_mod, Nat.zero_div] at hattach
    exact hattach
  have hrounds := attached_rounds [0] ((List.finRange m).map Fin.succ)
    (by
      rw [← List.reverse_cons, List.nodup_reverse, ← List.finRange_succ]
      exact List.nodup_finRange _)
    (by simp) hfirst
  rw [← List.reverse_cons, ← List.finRange_succ] at hrounds
  have hopening : opening current (List.finRange (m + 1)).reverse =
      opening (n := m + 1) current (List.finRange (m + 1)) := by
    funext rank
    rw [opening, opening, List.any_reverse]
  rw [hopening] at hrounds
  have hitems : (List.finRange (m + 1)).drop 1 = (List.finRange m).map Fin.succ := by
    rw [List.finRange_succ, List.drop_one, List.tail_cons]
  rw [hitems]
  exact hrounds.holds (by simp)

theorem holds_turnOff (h : CheckGrid.Holds (maxButtonsPerRow n) flags grid) :
    CheckGrid.Holds (maxButtonsPerRow n) (fun _ : Fin n => false) (turnOff grid) :=
  (attached_turnOff h.attached).holds (List.mem_finRange)

end Opening

section Clicks

variable {d : FollowDialog} {follow : Int}

/-- The flag of no rank is set where none is followed. -/
theorem flags_eq_false (hfollow : follow < 0) :
    (fun rank : Fin n => decide ((rank : Int) = follow)) = fun _ => false := by
  funext rank
  have hne : (rank : Int) ≠ follow := by omega
  simp [hne]

/-- A click on a button follows its rank. -/
theorem shows_setActive {flags : Fin n → Bool}
    (h : CheckGrid.Holds (maxButtonsPerRow n) flags d.grid) :
    Shows n (d.setActive .all) followAll ∧ Shows n (d.setActive .none) followNone ∧
      ∀ rank : Fin n, Shows n (d.setActive (.cell (CheckGrid.cell (maxButtonsPerRow n) rank).1
        (CheckGrid.cell (maxButtonsPerRow n) rank).2)) (rank : Int) := by
  have hoff := holds_turnOff h
  refine ⟨⟨?_, rfl, rfl⟩, ⟨?_, rfl, rfl⟩, fun rank => ?_⟩
  · rw [flags_eq_false (by decide)]
    exact hoff
  · rw [flags_eq_false (by decide)]
    exact hoff
  · have hsome := h.buttonOf rank
    rw [CheckGrid.buttonOf] at hsome
    rw [setActive, hsome, if_pos Option.isSome_some]
    have hflags : (fun other : Fin n => decide ((other : Int) = (rank : Int))) =
        Function.update (fun _ => false) rank true := by
      funext other
      by_cases hother : other = rank
      · simp [hother]
      · have hne : (other : Int) ≠ (rank : Int) :=
          fun heq => hother (Fin.ext (Int.ofNat_inj.mp heq))
        simp [hother, hne]
    refine ⟨?_, ?_, ?_⟩
    · rw [hflags]
      exact hoff.modifyAt (fun _ => true) rank
    · rw [decide_eq_false (by unfold followAll; omega)]
    · rw [decide_eq_false (by unfold followNone; omega)]

/-- The dialog opens with the button of what is followed. -/
theorem shows_new (hn : 0 < n) (hvalid : Valid n follow) : Shows n (new n follow) follow := by
  have hrounds := holds_rounds hn follow
  have hset := shows_setActive (d := ⟨_, false, false⟩) hrounds
  by_cases hall : follow = followAll
  · have hnone : followAll ≠ followNone := by decide
    rw [new, hall, if_pos rfl, if_neg hnone]
    exact hall ▸ hset.1
  by_cases hnone : follow = followNone
  · have hne : followNone ≠ followAll := by decide
    rw [new, hnone, if_neg hne, if_pos rfl]
    exact hnone ▸ hset.2.1
  · rw [new, if_neg hall, if_neg hnone]
    refine ⟨?_, (decide_eq_false hall).symm, (decide_eq_false hnone).symm⟩
    obtain ⟨k, rfl⟩ : ∃ k : Nat, follow = k := by
      refine Int.eq_ofNat_of_zero_le ?_
      have hlow := hvalid.1
      unfold followNone at hlow hnone
      unfold followAll at hall
      omega
    have hk : k < n := by exact_mod_cast hvalid.2
    have hany : ((List.finRange n).any fun other => ((other : Nat) : Int) = (k : Int)) = true :=
      List.any_eq_true.mpr ⟨⟨k, hk⟩, List.mem_finRange _, by simp⟩
    have hopening : opening (k : Int) (List.finRange n) =
        fun rank : Fin n => decide ((rank : Int) = (k : Int)) := by
      funext rank
      rw [opening, if_pos hany]
    rw [← hopening]
    exact hrounds

theorem Shows.setActive (h : Shows n d follow) (hvalid : Valid n follow) (radio : Radio) :
    Shows n (d.setActive radio) (chosen n follow radio) ∧ Valid n (chosen n follow radio) := by
  obtain ⟨hall, hnone, hcell⟩ := shows_setActive h.grid
  cases radio with
  | all => exact ⟨hall, valid_all n⟩
  | none => exact ⟨hnone, valid_none n⟩
  | cell left top =>
      rw [chosen]
      cases hrank : CheckGrid.rankAt (maxButtonsPerRow n) n left top with
      | none =>
          have hitem : ¬(d.grid.itemAt left top).isSome = true := by
            rw [h.grid.itemAt, hrank]
            exact Bool.false_ne_true
          rw [FollowDialog.setActive, if_neg hitem]
          exact ⟨h, hvalid⟩
      | some rank =>
          have hshows := hcell rank
          rw [(CheckGrid.rankAt_eq_some rank).mp hrank] at hshows
          refine ⟨hshows, ?_, Int.ofNat_lt.mpr rank.isLt⟩
          exact le_trans (by decide : followNone ≤ 0) (Int.natCast_nonneg _)

theorem Shows.response (h : Shows n d follow) (hvalid : Valid n follow) :
    d.response n = some follow := by
  have hloop (items : List (Fin n)) (hmem : ∃ rank ∈ items, (rank : Int) = follow) :
      activeRank d.grid items = some follow := by
    induction items with
    | nil => simp at hmem
    | cons rank rest ih =>
        rw [activeRank, h.grid.buttonOf]
        by_cases hrank : (rank : Int) = follow
        · simp [hrank]
        · obtain ⟨other, hother, heq⟩ := hmem
          rcases List.mem_cons.mp hother with rfl | hother
          · exact absurd heq hrank
          · simpa [hrank] using ih ⟨other, hother, heq⟩
  rw [FollowDialog.response, h.all, h.none]
  by_cases hall : follow = followAll
  · simp [hall]
  by_cases hnone : follow = followNone
  · simp [hnone, followAll, followNone]
  · have hk : 0 ≤ follow := by
      have hlow := hvalid.1
      unfold followNone at hlow hnone
      unfold followAll at hall
      omega
    simp only [hall, hnone, decide_false, Bool.false_eq_true, if_false]
    refine hloop _ ⟨⟨follow.toNat, ?_⟩, List.mem_finRange _, Int.toNat_of_nonneg hk⟩
    have hlt := hvalid.2
    omega

end Clicks

end FollowDialog

section Following

/-- The label of `follow-process-button`. -/
def followLabel (follow : Int) : Bytes :=
  if follow = followAll then ascii "Following All Processes"
  else if follow = followNone then ascii "Following No Process"
  else ascii "Following Process: " ++ decimal follow

/-- `m_follow_rank`, and the label of the button that changes it. -/
structure Following where
  rank : Int
  label : Bytes

namespace Following

/-- What the constructor and the label in `window.glade` say. -/
def init : Following := ⟨followAll, ascii "Following All Processes"⟩

/-- `on_follow_button_clicked`: the user clicks in the dialog, and ends it with OK or not. -/
def onFollowButtonClicked (n : Nat) (s : Following) (session : List FollowDialog.Radio × Bool) :
    Option Following :=
  let d := session.1.foldl FollowDialog.setActive (.new n s.rank)
  if session.2 then (d.response n).map fun rank => ⟨rank, followLabel rank⟩ else some s

/-- What is followed after the dialog. -/
def next (n : Nat) (follow : Int) (session : List FollowDialog.Radio × Bool) : Int :=
  if session.2 then session.1.foldl (FollowDialog.chosen n) follow else follow

/-- Whatever is clicked in however many dialogs, the rank that is followed is the last
one chosen with OK, it is one the window can follow, and the button names it. -/
theorem follows_chosen (hn : 0 < n) (sessions : List (List FollowDialog.Radio × Bool)) :
    ∃ s, sessions.foldlM (onFollowButtonClicked n) init = some s ∧
      s.rank = sessions.foldl (next n) followAll ∧ FollowDialog.Valid n s.rank ∧
      s.label = followLabel s.rank := by
  have hclicks (radios : List FollowDialog.Radio) {d : FollowDialog} {follow : Int}
      (h : FollowDialog.Shows n d follow) (hvalid : FollowDialog.Valid n follow) :
      FollowDialog.Shows n (radios.foldl FollowDialog.setActive d)
          (radios.foldl (FollowDialog.chosen n) follow) ∧
        FollowDialog.Valid n (radios.foldl (FollowDialog.chosen n) follow) := by
    induction radios generalizing d follow with
    | nil => exact ⟨h, hvalid⟩
    | cons radio rest ih =>
        obtain ⟨hshows, hnext⟩ := h.setActive hvalid radio
        exact ih hshows hnext
  have hrun (sessions : List (List FollowDialog.Radio × Bool)) {s : Following}
      (hvalid : FollowDialog.Valid n s.rank) (hlabel : s.label = followLabel s.rank) :
      ∃ s', sessions.foldlM (onFollowButtonClicked n) s = some s' ∧
        s'.rank = sessions.foldl (next n) s.rank ∧ FollowDialog.Valid n s'.rank ∧
        s'.label = followLabel s'.rank := by
    induction sessions generalizing s with
    | nil => exact ⟨s, rfl, rfl, hvalid, hlabel⟩
    | cons session rest ih =>
        obtain ⟨radios, isOk⟩ := session
        obtain ⟨hshows, hnext⟩ := hclicks radios (FollowDialog.shows_new hn hvalid) hvalid
        cases isOk with
        | false => exact ih hvalid hlabel
        | true =>
            obtain ⟨s', hs', hrest⟩ := ih (s := ⟨_, followLabel _⟩) hnext rfl
            refine ⟨s', ?_, hrest⟩
            rw [List.foldlM_cons, onFollowButtonClicked, if_pos rfl, hshows.response hnext]
            exact hs'
  exact hrun sessions (FollowDialog.valid_all n) rfl

/-- Rank 9 of twelve is chosen, and then another dialog is closed without OK. -/
theorem ninth_follows : ∃ s,
    [([FollowDialog.Radio.none, .cell 1 1], true), ([.all], false)].foldlM
      (onFollowButtonClicked 12) init = some s ∧ s.label = ascii "Following Process: 9" := by
  obtain ⟨s, hs, hrank, -, hlabel⟩ := follows_chosen (n := 12) (by decide)
    [([FollowDialog.Radio.none, .cell 1 1], true), ([.all], false)]
  refine ⟨s, hs, ?_⟩
  rw [hlabel, hrank]
  decide +kernel

end Following

end Following

end ParallelGdb
