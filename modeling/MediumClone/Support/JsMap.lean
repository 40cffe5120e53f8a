import Mathlib.Data.List.Nodup
import Mathlib.Logic.Function.Basic

/-!
# Support — JsMap

JavaScript's `Map`, as the function its `get` is: `none` is `undefined`.  Where the entries of
`new Map(entries)` have different keys, each is what its key finds (`get_ofEntries`).  An array is a
list; a callback that may throw is mapped over it by `mapM`.
-/

namespace Js

abbrev Map (κ ν : Type) := κ → Option ν

namespace Map

variable {κ ν : Type} [DecidableEq κ] {k : κ} {v : ν} {entries : List (κ × ν)} {m : Map κ ν}

def empty : Map κ ν := fun _ => none

def set (m : Map κ ν) (k : κ) (v : ν) : Map κ ν := Function.update m k (some v)

/-- `new Map(entries)`. -/
def ofEntries (entries : List (κ × ν)) : Map κ ν := entries.foldl (fun m e => m.set e.1 e.2) empty

theorem foldl_set_of_notMem (h : k ∉ entries.map Prod.fst) :
    entries.foldl (fun m e => m.set e.1 e.2) m k = m k := by
  induction entries generalizing m with
  | nil => rfl
  | cons e entries ih =>
      rw [List.map_cons, List.mem_cons, not_or] at h
      rw [List.foldl_cons, ih h.2, set, Function.update_of_ne h.1]

theorem foldl_set_of_mem (hn : (entries.map Prod.fst).Nodup) (h : (k, v) ∈ entries) :
    entries.foldl (fun m e => m.set e.1 e.2) m k = some v := by
  induction entries generalizing m with
  | nil => cases h
  | cons e entries ih =>
      obtain ⟨he, hn⟩ := List.nodup_cons.mp hn
      rcases List.mem_cons.mp h with rfl | h
      · rw [List.foldl_cons, foldl_set_of_notMem he, set, Function.update_self]
      · rw [List.foldl_cons, ih hn h]

theorem get_ofEntries_eq_none (h : k ∉ entries.map Prod.fst) : ofEntries entries k = none :=
  foldl_set_of_notMem h

theorem get_ofEntries (hn : (entries.map Prod.fst).Nodup) :
    ofEntries entries k = some v ↔ (k, v) ∈ entries := by
  constructor
  · intro h
    by_cases hk : k ∈ entries.map Prod.fst
    · obtain ⟨⟨k, w⟩, he, rfl⟩ := List.mem_map.mp hk
      rw [ofEntries, foldl_set_of_mem hn he] at h
      cases h
      exact he
    · rw [get_ofEntries_eq_none hk] at h
      cases h
  · exact foldl_set_of_mem hn

end Map

/-- `array.map(f)` with an `f` that may throw, where it does not. -/
theorem mapM_eq_pure {m : Type → Type} [Monad m] [LawfulMonad m] {α β : Type} {f : α → m β}
    {g : α → β} {l : List α} (h : ∀ a ∈ l, f a = pure (g a)) : l.mapM f = pure (l.map g) := by
  induction l with
  | nil => rfl
  | cons a l ih =>
      rw [List.mapM_cons, h a List.mem_cons_self, ih fun b hb => h b (List.mem_cons_of_mem a hb)]
      simp

end Js
