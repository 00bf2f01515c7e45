import Mathlib

/-!
# Dictionaries that tabulate a list

A dictionary tabulates a list of pairs if a key leads to exactly the values it
is paired with. Entering the pairs of a list with distinct keys one by one
tabulates the list.
-/

namespace Library.Tabulate

open Std

variable {κ β : Type*} [Ord κ] [TransOrd κ]

def Tabulates (d : ExtTreeMap κ β) (pairs : List (κ × β)) : Prop :=
  ∀ k v, d[k]? = some v ↔ (k, v) ∈ pairs

theorem tabulates_empty : Tabulates (∅ : ExtTreeMap κ β) [] := by
  simp [Tabulates]

namespace Tabulates

variable {d : ExtTreeMap κ β} {pairs : List (κ × β)}

theorem mem_iff (h : Tabulates d pairs) (k : κ) : k ∈ d ↔ k ∈ pairs.map Prod.fst := by
  rw [ExtTreeMap.mem_iff_isSome_getElem?, Option.isSome_iff_exists, List.mem_map]
  constructor
  · rintro ⟨v, hv⟩
    exact ⟨(k, v), (h k v).mp hv, rfl⟩
  · rintro ⟨⟨k', v⟩, hkv, rfl⟩
    exact ⟨v, (h k' v).mpr hkv⟩

variable [LawfulEqOrd κ]

/-- A new key is entered behind the old ones. -/
theorem insert (h : Tabulates d pairs) {k : κ} (v : β) (hk : k ∉ pairs.map Prod.fst) :
    Tabulates (d.insert k v) (pairs ++ [(k, v)]) := by
  intro k' v'
  rw [ExtTreeMap.getElem?_insert, List.mem_append, List.mem_singleton]
  by_cases heq : k = k'
  · subst heq
    have hnot : ∀ w, (k, w) ∉ pairs := fun w hw => hk (List.mem_map_of_mem hw)
    simp [hnot, eq_comm]
  · simp [heq, Ne.symm heq, h k' v']

/-- The loop over a dictionary meets exactly the pairs of the list. -/
theorem mem_toList (h : Tabulates d pairs) (p : κ × β) : p ∈ d.toList ↔ p ∈ pairs := by
  obtain ⟨k, v⟩ := p
  rw [ExtTreeMap.mem_toList_iff_getElem?_eq_some, h k v]

end Tabulates

end Library.Tabulate
