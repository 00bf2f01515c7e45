import Mathlib

/-!
# Blocks of a heap

A heap is known by the blocks that are allocated. A computation on it may fail,
and it is stuck where it releases a block that is not allocated. The rules below
reason about a computation from its end: what must hold of the heap before it,
for a postcondition to hold behind it and no release to be stuck.
-/

namespace Library.Ownership

/-- The name of a block; none is used twice. -/
abbrev Block := Nat

/-- The allocated blocks, and the name the next one gets. -/
structure Heap where
  live : Multiset Block
  fresh : Block
  nodup : live.Nodup
  bound : ∀ p ∈ live, p < fresh

namespace Heap

theorem nodup_alloc (h : Heap) : (h.fresh ::ₘ h.live).Nodup :=
  Multiset.nodup_cons.mpr ⟨fun hmem => (h.bound _ hmem).false, h.nodup⟩

theorem bound_alloc (h : Heap) (p : Block) (hp : p ∈ h.fresh ::ₘ h.live) : p < h.fresh + 1 := by
  rcases Multiset.mem_cons.mp hp with rfl | hp
  · exact Nat.lt_succ_self _
  · exact Nat.lt_succ_of_lt (h.bound p hp)

theorem bound_release (h : Heap) (p q : Block) (hq : q ∈ h.live.erase p) : q < h.fresh :=
  h.bound q (Multiset.mem_of_mem_erase hq)

def empty : Heap := ⟨0, 0, Multiset.nodup_zero, by simp⟩

def alloc (h : Heap) : Heap := ⟨h.fresh ::ₘ h.live, h.fresh + 1, h.nodup_alloc, h.bound_alloc⟩

def release (h : Heap) (p : Block) : Heap :=
  ⟨h.live.erase p, h.fresh, h.nodup.erase p, h.bound_release p⟩

end Heap

/-- Why a computation ends early. -/
inductive Stuck (ε : Type*)
  | fault (e : ε)
  /-- A block was released that is not allocated. -/
  | badFree

/-- Computations that allocate and release blocks. -/
abbrev HeapM (ε α : Type) := StateT Heap (Except (Stuck ε)) α

variable {ε α β : Type}

/-- A computation without a heap. -/
def lift (x : Except ε α) : HeapM ε α := fun h =>
  match x with
  | .ok a => .ok (a, h)
  | .error e => .error (.fault e)

def alloc : HeapM ε Block := fun h => .ok (h.fresh, h.alloc)

def release (p : Block) : HeapM ε Unit := fun h =>
  if p ∈ h.live then .ok ((), h.release p) else .error .badFree

/-- What must hold of a heap for the computation to end with `Q`, to fail with `E` at
most and to release no block that is not allocated. -/
def Wp (x : HeapM ε α) (Q : α → Heap → Prop) (E : ε → Prop) (h : Heap) : Prop :=
  match x h with
  | .ok (a, h') => Q a h'
  | .error (.fault e) => E e
  | .error .badFree => False

section Rules

variable {Q R : α → Heap → Prop} {E E' : ε → Prop} {h : Heap} {x : HeapM ε α}

theorem wp_bind {f : α → HeapM ε β} {P : β → Heap → Prop} :
    Wp (x >>= f) P E h ↔ Wp x (fun a => Wp (f a) P E) E h := by
  simp only [Wp, bind, StateT.bind, Except.bind]
  split <;> rename_i heq
  · split at heq <;> simp_all
  · split at heq <;> simp_all
  · split at heq <;> simp_all

theorem wp_throw (e : ε) : Wp (lift (.error e) : HeapM ε α) Q E h ↔ E e := Iff.rfl

theorem Wp.mono (hx : Wp x Q E h) (hQ : ∀ a t, Q a t → R a t) (hE : ∀ e, E e → E' e) :
    Wp x R E' h := by
  unfold Wp at hx ⊢
  split at hx
  · exact hQ _ _ hx
  · exact hE _ hx
  · exact hx

theorem Wp.and (hx : Wp x Q E h) (hy : Wp x R E' h) :
    Wp x (fun a t => Q a t ∧ R a t) (fun e => E e ∧ E' e) h := by
  unfold Wp at hx hy ⊢
  split at hx
  · rename_i hrun
    rw [hrun] at hy
    exact ⟨hx, hy⟩
  · rename_i hrun
    rw [hrun] at hy
    exact ⟨hx, hy⟩
  · exact hx

/-- One computation behind another that is known by its own postcondition. -/
theorem Wp.bind {f : α → HeapM ε β} {P : β → Heap → Prop} (hx : Wp x Q E h)
    (hf : ∀ a t, Q a t → Wp (f a) P E' t) (hE : ∀ e, E e → E' e) : Wp (x >>= f) P E' h :=
  wp_bind.mpr (hx.mono hf hE)

theorem wp_lift_bind {y : Except ε α} {f : α → HeapM ε β} {P : β → Heap → Prop}
    (hf : ∀ a, y = .ok a → Wp (f a) P E h) (hE : ∀ e, y = .error e → E e) :
    Wp (lift y >>= f) P E h := by
  rw [wp_bind]
  cases y with
  | ok a => exact hf a rfl
  | error e => exact hE e rfl

/-- A new block is owned beside what was allocated before. -/
theorem wp_alloc {Q : Block → Heap → Prop}
    (hQ : ∀ p t, t.live = p ::ₘ h.live → Q p t) : Wp (alloc : HeapM ε Block) Q E h :=
  hQ h.fresh h.alloc rfl

theorem wp_alloc_bind {f : Block → HeapM ε α}
    (hf : ∀ p t, t.live = p ::ₘ h.live → Wp (f p) Q E t) : Wp (alloc >>= f) Q E h :=
  wp_bind.mpr (wp_alloc hf)

/-- A block that is owned can be released. -/
theorem wp_release {Q : Unit → Heap → Prop} {p : Block} {frame : Multiset Block}
    (hp : h.live = p ::ₘ frame) (hQ : ∀ t, t.live = frame → Q () t) :
    Wp (release p : HeapM ε Unit) Q E h := by
  have hmem : p ∈ h.live := by
    rw [hp]
    exact Multiset.mem_cons_self p frame
  unfold Wp release
  rw [if_pos hmem]
  exact hQ _ ((congrArg (Multiset.erase · p) hp).trans (Multiset.erase_cons_head p frame))

end Rules

section Results

variable {P : α → Prop} {Q : β → Prop} {x : HeapM ε α}

/-- Whatever heap the computation begins with, its result satisfies `P` if it has one. -/
def Returns (x : HeapM ε α) (P : α → Prop) : Prop := ∀ h a t, x h = .ok (a, t) → P a

theorem returns_any (x : HeapM ε α) : Returns x fun _ => True := fun _ _ _ _ => trivial

theorem returns_pure {a : α} (ha : P a) : Returns (pure a : HeapM ε α) P := by
  rintro h b t hb
  obtain ⟨rfl, -⟩ := Prod.mk.inj (Except.ok.inj hb)
  exact ha

theorem returns_throw (e : ε) : Returns (lift (.error e)) P := by
  rintro h a t ha
  cases ha

theorem Returns.bind {f : α → HeapM ε β} (hx : Returns x P) (hf : ∀ a, P a → Returns (f a) Q) :
    Returns (x >>= f) Q := by
  intro h b u hb
  cases hrun : x h with
  | error e => simp [StateT.bind, hrun, Bind.bind, Except.bind] at hb
  | ok out =>
      obtain ⟨a, t⟩ := out
      simp only [Bind.bind, StateT.bind, hrun, Except.bind] at hb
      exact hf a (hx h a t hrun) t b u hb

theorem Wp.returns {R : α → Heap → Prop} {E : ε → Prop} {h : Heap} (hx : Wp x R E h)
    (hP : Returns x P) : Wp x (fun a t => R a t ∧ P a) E h := by
  unfold Wp at hx ⊢
  split at hx
  · rename_i a t hrun
    exact ⟨hx, hP h a t hrun⟩
  · exact hx
  · exact hx

end Results

section Refinement

variable {γ δ : Type} {R : α → β → Prop} {S : γ → δ → Prop} {y : Except ε β}

/-- From any heap the computation releases nothing wrongly and ends as one without a heap
does, with results that are related. -/
def Refines (R : α → β → Prop) (x : HeapM ε α) (y : Except ε β) : Prop :=
  ∀ h, Wp x (fun a _ => ∃ b, y = .ok b ∧ R a b) (fun e => y = .error e) h

theorem refines_pure {a : α} {b : β} (h : R a b) :
    Refines (ε := ε) R (pure a) (.ok b) := fun _ => ⟨b, rfl, h⟩

theorem refines_throw (e : ε) : Refines R (lift (.error e)) (.error e) := fun _ => rfl

theorem Refines.bind {x : HeapM ε α} {f : α → HeapM ε γ} {g : β → Except ε δ}
    (hx : Refines R x y) (hf : ∀ a b, R a b → Refines S (f a) (g b)) :
    Refines S (x >>= f) (y >>= g) := by
  intro h
  refine (hx h).bind ?_ fun e he => by rw [he]; rfl
  rintro a t ⟨b, rfl, hR⟩
  exact hf a b hR t

/-- What is done with the result on one side only. -/
theorem Refines.map {T : γ → β → Prop} {x : HeapM ε α} {f : α → γ} (hx : Refines R x y)
    (hf : ∀ a b, R a b → T (f a) b) : Refines T (x >>= fun a => pure (f a)) y := by
  intro h
  refine (hx h).bind ?_ fun e he => he
  rintro a t ⟨b, hy, hR⟩
  exact ⟨b, hy, hf a b hR⟩

theorem refines_lift_ok {z : Except ε γ} {c : γ} {f : γ → HeapM ε α} (hz : z = .ok c)
    (hf : Refines R (f c) y) : Refines R (lift z >>= f) y := by
  subst hz
  exact hf

theorem refines_lift_error {z : Except ε γ} {e : ε} {f : γ → HeapM ε α} (hz : z = .error e) :
    Refines R (lift z >>= f) (.error e) := by
  subst hz
  exact refines_throw e

theorem refines_alloc_bind {f : Block → HeapM ε α} (hf : ∀ p, Refines R (f p) y) :
    Refines R (alloc >>= f) y :=
  fun _ => wp_alloc_bind fun p t _ => hf p t

/-- Two loops over the same list, where the invariant relates their states. -/
theorem follows_foldlM {σ τ ι : Type} {f : σ → ι → HeapM ε σ} {g : τ → ι → Except ε τ}
    {I : σ → τ → Heap → Prop}
    (hstep : ∀ s t i h, I s t h →
      Wp (f s i) (fun s' h' => ∃ t', g t i = .ok t' ∧ I s' t' h') (fun e => g t i = .error e) h)
    {l : List ι} {s : σ} {t : τ} {h : Heap} (hs : I s t h) :
    Wp (l.foldlM f s) (fun s' h' => ∃ t', l.foldlM g t = .ok t' ∧ I s' t' h')
      (fun e => l.foldlM g t = .error e) h := by
  induction l generalizing s t h with
  | nil => exact ⟨t, rfl, hs⟩
  | cons i rest ih =>
      simp only [List.foldlM_cons]
      refine (hstep s t i h hs).bind ?_ fun e he => by rw [he]; rfl
      rintro s' h' ⟨t', ht', hs'⟩
      rw [ht']
      exact ih hs'

theorem lift_bind (z : Except ε α) (f : α → Except ε β) :
    (lift (z >>= f) : HeapM ε β) = lift z >>= fun a => lift (f a) := by
  cases z <;> rfl

end Refinement

end Library.Ownership
