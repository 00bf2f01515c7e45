import Mathlib.Data.List.Induction

/-!
# Clients of a protocol

A client makes calls and is told a reply to each. A protocol tells which calls are
allowed where. The rules below derive from the protocol's steps that a client makes
allowed calls only, and where the protocol is when it ends.
-/

namespace Library.Typestate

variable {S C R α β : Type}

/-- Computations that make calls; the calls and their replies are logged. -/
abbrev Client (C R : Type) := StateM (List (C × R))

def call (reply : C → R) (c : C) : Client C R R := fun log => (reply c, log ++ [(c, reply c)])

/-- From `s` the client makes calls the protocol allows, and ends with `Q`. -/
def Follows (next : S → C × R → Option S) (x : Client C R α) (s : S) (Q : α → S → Prop) :
    Prop :=
  ∀ log, ∃ calls t, (x log).2 = log ++ calls ∧ calls.foldlM next s = some t ∧ Q (x log).1 t

variable {next : S → C × R → Option S} {s t : S} {Q Q' : α → S → Prop}

theorem follows_pure {a : α} (hQ : Q a s) : Follows next (pure a) s Q :=
  fun log => ⟨[], s, (List.append_nil log).symm, rfl, hQ⟩

/-- One call after the other. -/
theorem Follows.bind {x : Client C R α} {f : α → Client C R β} {P : β → S → Prop}
    (h : Follows next x s Q) (hf : ∀ a t, Q a t → Follows next (f a) t P) :
    Follows next (x >>= f) s P := by
  intro log
  obtain ⟨calls, t, hlog, hcalls, hQ⟩ := h log
  obtain ⟨calls', u, hlog', hcalls', hP⟩ := hf _ t hQ (log ++ calls)
  refine ⟨calls ++ calls', u, ?_, ?_, ?_⟩
  · rw [← List.append_assoc, ← hlog', ← hlog]
    rfl
  · rw [List.foldlM_append, hcalls]
    exact hcalls'
  · rw [← hlog] at hP
    exact hP

/-- A call, and the rest for the reply it gets. -/
theorem follows_call_bind {reply : C → R} {c : C} {f : R → Client C R α}
    (hnext : next s (c, reply c) = some t) (hf : Follows next (f (reply c)) t Q) :
    Follows next (call reply c >>= f) s Q := by
  have hcall : Follows next (call reply c) s fun r u => r = reply c ∧ u = t := by
    intro log
    refine ⟨[(c, reply c)], t, rfl, ?_, rfl, rfl⟩
    rw [List.foldlM_cons, hnext]
    rfl
  refine hcall.bind ?_
  rintro r u ⟨rfl, rfl⟩
  exact hf

/-- What every call keeps holds of a log the protocol allows. -/
theorem log_invariant {I : List (C × R) → S → Prop} {calls : List (C × R)}
    (hcalls : calls.foldlM next s = some t) (hstart : I [] s)
    (hnext : ∀ log s c t, I log s → next s c = some t → I (log ++ [c]) t) : I calls t := by
  induction calls using List.reverseRecOn generalizing t with
  | nil =>
      obtain rfl := Option.some.inj hcalls
      exact hstart
  | append_singleton log c ih =>
      rw [List.foldlM_append] at hcalls
      obtain ⟨u, hu, hlast⟩ := Option.bind_eq_some_iff.mp hcalls
      rw [List.foldlM_cons] at hlast
      obtain ⟨t', ht, hend⟩ := Option.bind_eq_some_iff.mp hlast
      obtain rfl := Option.some.inj hend
      exact hnext log u c t' (ih hu) ht

end Library.Typestate
