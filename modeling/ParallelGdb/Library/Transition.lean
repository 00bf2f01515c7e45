import Mathlib

/-!
# Labelled transition systems and their runs

A run records every step it took together with the state the step was taken
in, so a condition on steps can be stated of the whole history and an
invariant of every state the history visits.
-/

namespace Library.Transition

variable {S A : Type*}

/-- Initial states, and what a label may do to a state. -/
structure System (S A : Type*) where
  init : S → Prop
  step : S → A → S → Prop

/-- `Run M tr s`: from an initial state, the steps of `tr` were taken in this
order and led to `s`. Each entry is a state and the label taken there. -/
inductive Run (M : System S A) : List (S × A) → S → Prop
  | start {s} (h : M.init s) : Run M [] s
  | next {tr s a t} (run : Run M tr s) (h : M.step s a t) : Run M (tr ++ [(s, a)]) t

/-- The states some run ends in. -/
def Reachable (M : System S A) (s : S) : Prop := ∃ tr, Run M tr s

/-- Every step of the history met the condition. -/
def Meets (C : S → A → Prop) (tr : List (S × A)) : Prop := ∀ p ∈ tr, C p.1 p.2

@[simp] theorem meets_nil (C : S → A → Prop) : Meets C [] := by
  simp [Meets]

theorem meets_snoc (C : S → A → Prop) (tr : List (S × A)) (s : S) (a : A) :
    Meets C (tr ++ [(s, a)]) ↔ Meets C tr ∧ C s a := by
  simp only [Meets, List.mem_append, List.mem_singleton]
  constructor
  · intro h
    exact ⟨fun p hp => h p (Or.inl hp), h (s, a) (Or.inr rfl)⟩
  · rintro ⟨hpre, hlast⟩ p (hp | rfl)
    · exact hpre p hp
    · exact hlast

theorem Reachable.start {M : System S A} {s : S} (h : M.init s) : Reachable M s :=
  ⟨[], Run.start h⟩

theorem Reachable.next {M : System S A} {s t : S} {a : A}
    (hs : Reachable M s) (h : M.step s a t) : Reachable M t := by
  obtain ⟨tr, run⟩ := hs
  exact ⟨tr ++ [(s, a)], Run.next run h⟩

/-- What holds initially and survives every step that meets `C` holds at the
end of every run whose steps all meet `C`. -/
theorem Run.guarded {M : System S A} {C : S → A → Prop} {I : S → Prop}
    (hinit : ∀ s, M.init s → I s)
    (hstep : ∀ s a t, I s → C s a → M.step s a t → I t)
    {tr s} (run : Run M tr s) (hC : Meets C tr) : I s := by
  induction run with
  | start h => exact hinit _ h
  | @next tr s a t run h ih =>
      obtain ⟨hpre, hlast⟩ := (meets_snoc C tr s a).mp hC
      exact hstep s a t (ih hpre) hlast h

/-- The unguarded case: an invariant of every step holds of every reachable state. -/
theorem Reachable.invariant {M : System S A} {I : S → Prop}
    (hinit : ∀ s, M.init s → I s) (hstep : ∀ s a t, I s → M.step s a t → I t)
    {s} (hs : Reachable M s) : I s := by
  obtain ⟨tr, run⟩ := hs
  exact run.guarded (C := fun _ _ => True) hinit (fun s a t hI _ h => hstep s a t hI h)
    (fun _ _ => trivial)

/-- Where each step of a system is matched by a step of another one, or leaves its state,
each state that is reached is matched by a reachable one. -/
theorem Reachable.simulated {T B : Type*} {M : System S A} {N : System T B} {R : S → T → Prop}
    (hinit : ∀ s, M.init s → ∃ t, N.init t ∧ R s t)
    (hstep : ∀ s a s' t, Reachable N t → R s t → M.step s a s' →
      ∃ t', (t' = t ∨ ∃ b, N.step t b t') ∧ R s' t')
    {s} (hs : Reachable M s) : ∃ t, Reachable N t ∧ R s t := by
  apply hs.invariant (I := fun s => ∃ t, Reachable N t ∧ R s t)
  · intro s h
    obtain ⟨t, ht, hR⟩ := hinit s h
    exact ⟨t, Reachable.start ht, hR⟩
  · rintro s a s' ⟨t, ht, hR⟩ h
    obtain ⟨t', rfl | ⟨b, hb⟩, hR'⟩ := hstep s a s' t ht hR h
    · exact ⟨t', ht, hR'⟩
    · exact ⟨t', ht.next hb, hR'⟩

/-- A step of the history was taken in a state the run reached by an earlier
part of the same history. -/
theorem Run.of_mem {M : System S A} {C : S → A → Prop} {tr s}
    (run : Run M tr s) (hC : Meets C tr) {p : S × A} (hp : p ∈ tr) :
    ∃ pre, Run M pre p.1 ∧ Meets C pre := by
  induction run with
  | start h => simp at hp
  | @next tr s a t run h ih =>
      obtain ⟨hpre, -⟩ := (meets_snoc C tr s a).mp hC
      rcases List.mem_append.mp hp with hp | hp
      · exact ih hpre hp
      · obtain rfl := List.mem_singleton.mp hp
        exact ⟨tr, run, hpre⟩

/-- A step of the history was taken at the end of what comes before it. -/
theorem Run.split {M : System S A} {pre post : List (S × A)} {p : S × A} {t : S}
    (run : Run M (pre ++ p :: post) t) : Run M pre p.1 ∧ ∃ u, M.step p.1 p.2 u := by
  induction post using List.reverseRecOn generalizing t with
  | nil =>
      generalize htr : pre ++ [p] = tr at run
      cases run with
      | start h => simp at htr
      | @next tr s a t run h =>
          obtain ⟨rfl, hlast⟩ := List.append_inj' htr rfl
          obtain rfl := List.singleton_inj.mp hlast
          exact ⟨run, t, h⟩
  | append_singleton post q ih =>
      rw [← List.cons_append, ← List.append_assoc] at run
      generalize htr : pre ++ p :: post ++ [q] = tr at run
      cases run with
      | start h => simp at htr
      | @next tr s a t run h =>
          obtain ⟨rfl, -⟩ := List.append_inj' htr rfl
          exact ih run

/-- Where the condition is exactly what one step needs to keep the invariant,
the steps of a run meet it if and only if every state of the run has the
invariant. `J` collects what every step keeps anyway. -/
theorem Run.meets_iff {M : System S A} {C : S → A → Prop} {I J : S → Prop}
    (hinit : ∀ s, M.init s → I s ∧ J s)
    (hJ : ∀ s a t, J s → M.step s a t → J t)
    (hstep : ∀ s a t, J s → I s → M.step s a t → (I t ↔ C s a))
    {tr s} (run : Run M tr s) :
    ((∀ p ∈ tr, I p.1) ∧ I s) ↔ Meets C tr := by
  have hJs : ∀ {tr s}, Run M tr s → J s := by
    intro tr s run
    induction run with
    | start h => exact (hinit _ h).2
    | next run h ih => exact hJ _ _ _ ih h
  induction run with
  | start h => simpa using (hinit _ h).1
  | @next tr s a t run h ih =>
      constructor
      · rintro ⟨hvisited, hlast⟩
        have hs : I s := hvisited (s, a) (by simp)
        have hpre : Meets C tr := ih.mp ⟨fun p hp => hvisited p (by simp [hp]), hs⟩
        exact (meets_snoc C tr s a).mpr ⟨hpre, (hstep s a t (hJs run) hs h).mp hlast⟩
      · intro hC
        obtain ⟨hpre, hC⟩ := (meets_snoc C tr s a).mp hC
        obtain ⟨hvisited, hs⟩ := ih.mpr hpre
        refine ⟨fun p hp => ?_, (hstep s a t (hJs run) hs h).mpr hC⟩
        rcases List.mem_append.mp hp with hp | hp
        · exact hvisited p hp
        · obtain rfl := List.mem_singleton.mp hp
          exact hs

section Functional

/-- The system of a partial step function. -/
def System.ofNext (init : S → Prop) (next : S → A → Option S) : System S A where
  init := init
  step := fun s a t => next s a = some t

/-- Labels that replay from a state a run ends in extend this run. -/
theorem Reachable.replay {init : S → Prop} {next : S → A → Option S} {s t : S}
    (hs : Reachable (System.ofNext init next) s) (labels : List A)
    (h : labels.foldlM next s = some t) : Reachable (System.ofNext init next) t := by
  induction labels generalizing s with
  | nil =>
      obtain rfl : s = t := by simpa using h
      exact hs
  | cons a rest ih =>
      rw [List.foldlM_cons] at h
      obtain ⟨u, hu, hrest⟩ := Option.bind_eq_some_iff.mp h
      exact ih (hs.next hu) hrest

/-- A replay whose last state passes a test shows a reachable state that does. -/
theorem Reachable.replay_any {init : S → Prop} {next : S → A → Option S} {s : S}
    (hs : Reachable (System.ofNext init next) s) (labels : List A) (p : S → Bool)
    (h : (labels.foldlM next s).any p = true) :
    ∃ t, Reachable (System.ofNext init next) t ∧ p t = true := by
  cases ht : labels.foldlM next s with
  | none => simp [ht] at h
  | some t => exact ⟨t, hs.replay labels ht, by simpa [ht] using h⟩

/-- The steps a list of labels takes from a state, as far as they are possible. -/
def trace (next : S → A → Option S) : S → List A → List (S × A)
  | _, [] => []
  | s, a :: rest =>
      (s, a) ::
        match next s a with
        | some t => trace next t rest
        | none => []

/-- A trace takes its own labels. -/
theorem label_mem_of_mem_trace {next : S → A → Option S} {s : S} {labels : List A} {p : S × A}
    (hp : p ∈ trace next s labels) : p.2 ∈ labels := by
  induction labels generalizing s with
  | nil => cases hp
  | cons a rest ih =>
      rw [trace] at hp
      rcases List.mem_cons.mp hp with rfl | hp
      · exact List.mem_cons_self
      · cases hnext : next s a with
        | none =>
            rw [hnext] at hp
            cases hp
        | some t =>
            rw [hnext] at hp
            exact List.mem_cons_of_mem a (ih hp)

theorem Run.trace {init : S → Prop} {next : S → A → Option S} {tr : List (S × A)} {s t : S}
    (run : Run (System.ofNext init next) tr s) (labels : List A)
    (h : labels.foldlM next s = some t) :
    Run (System.ofNext init next) (tr ++ Transition.trace next s labels) t := by
  induction labels generalizing s tr with
  | nil =>
      obtain rfl : s = t := by simpa using h
      simpa [Transition.trace] using run
  | cons a rest ih =>
      rw [List.foldlM_cons] at h
      obtain ⟨u, hu, hrest⟩ := Option.bind_eq_some_iff.mp h
      have hrun := ih (Run.next run hu) hrest
      simpa [Transition.trace, hu] using hrun

/-- A measure that every counted step lowers and no other step raises bounds how many
counted steps a replay takes. -/
theorem countP_add_measure_le {next : S → A → Option S} (counted : A → Bool) (C : A → Prop)
    (I : S → Prop) (measure : S → Nat)
    (hstep : ∀ s a t, I s → C a → next s a = some t →
      I t ∧ measure t + (counted a).toNat ≤ measure s)
    {s t : S} {labels : List A} (hs : I s) (hC : ∀ a ∈ labels, C a)
    (h : labels.foldlM next s = some t) :
    I t ∧ labels.countP counted + measure t ≤ measure s := by
  induction labels generalizing s with
  | nil =>
      obtain rfl : s = t := by simpa using h
      exact ⟨hs, by simp⟩
  | cons a rest ih =>
      rw [List.foldlM_cons] at h
      obtain ⟨u, hu, hrest⟩ := Option.bind_eq_some_iff.mp h
      obtain ⟨hI, hle⟩ := hstep s a u hs (hC a List.mem_cons_self) hu
      obtain ⟨ht, hrun⟩ := ih hI (fun b hb => hC b (List.mem_cons_of_mem a hb)) hrest
      refine ⟨ht, ?_⟩
      rw [List.countP_cons]
      cases hcounted : counted a <;> simp only [hcounted, Bool.toNat_true, Bool.toNat_false,
        if_true, if_false, Bool.false_eq_true] at hle ⊢ <;> omega

end Functional

end Library.Transition
