import Mathlib.Data.List.Nodup
import Mathlib.Data.List.Basic

/-!
# Support — Keyed

A table is a list of rows of which no two have one key: `(l.map key).Nodup`.  A row is then found by
its key, and what is deleted, appended under a fresh key or changed in place leaves a table.
-/

namespace Sys.Keyed

variable {α κ : Type*} {key : α → κ} {l : List α} {k : κ} {x y : α}

theorem eq_of_key (h : (l.map key).Nodup) (hx : x ∈ l) (hy : y ∈ l) (hk : key x = key y) :
    x = y :=
  List.inj_on_of_nodup_map h hx hy hk

theorem concat (h : (l.map key).Nodup) (hx : ∀ y ∈ l, key y ≠ key x) :
    ((l ++ [x]).map key).Nodup := by
  rw [List.map_append]
  refine List.Nodup.append h (List.nodup_singleton _) ?_
  simpa [List.disjoint_singleton] using hx

theorem filter {p : α → Bool} (h : (l.map key).Nodup) : ((l.filter p).map key).Nodup :=
  h.sublist (List.filter_sublist.map key)

theorem map {f : α → α} (hf : ∀ x, key (f x) = key x) (h : (l.map key).Nodup) :
    ((l.map f).map key).Nodup := by
  rw [List.map_map]
  simpa only [Function.comp_def, hf] using h

theorem find_eq_none [DecidableEq κ] : l.find? (key · = k) = none ↔ ∀ x ∈ l, key x ≠ k := by
  simp

theorem find_eq_some [DecidableEq κ] (h : (l.map key).Nodup) :
    l.find? (key · = k) = some x ↔ x ∈ l ∧ key x = k := by
  constructor
  · intro hf
    exact ⟨List.mem_of_find?_eq_some hf, by simpa using List.find?_some hf⟩
  · rintro ⟨hx, rfl⟩
    cases hf : l.find? (key · = key x) with
    | none => exact absurd rfl (find_eq_none.mp hf x hx)
    | some y =>
        have hy : key y = key x := by simpa using List.find?_some hf
        rw [eq_of_key h (List.mem_of_find?_eq_some hf) hx hy]

/-- What has another key than `k` is not touched by removing the rows of `k`. -/
theorem filter_filter_ne [DecidableEq κ] {k' : κ} (h : k' ≠ k) :
    (l.filter (key · ≠ k)).filter (key · = k') = l.filter (key · = k') := by
  rw [List.filter_filter]
  refine List.filter_congr fun x _ => ?_
  by_cases hx : key x = k' <;> simp [hx, h]

/-- The rows of one key are among those of several. -/
theorem filter_filter_mem [DecidableEq κ] {ks : List κ} (h : k ∈ ks) :
    (l.filter (key · ∈ ks)).filter (key · = k) = l.filter (key · = k) := by
  rw [List.filter_filter]
  refine List.filter_congr fun x _ => ?_
  by_cases hx : key x = k <;> simp [hx, h]

theorem filter_eq_singleton [DecidableEq κ] (h : (l.map key).Nodup) (hx : x ∈ l) :
    l.filter (key · = key x) = [x] := by
  induction l with
  | nil => cases hx
  | cons y l ih =>
      obtain ⟨hy, hl⟩ := List.nodup_cons.mp h
      rcases List.mem_cons.mp hx with rfl | hx
      · rw [List.filter_cons_of_pos (by simp), List.filter_eq_nil_iff.mpr]
        intro z hz hk
        exact hy (List.mem_map.mpr ⟨z, hz, by simpa using hk⟩)
      · rw [List.filter_cons_of_neg, ih hl hx]
        intro hk
        exact hy (List.mem_map.mpr ⟨x, hx, by simpa [eq_comm] using hk⟩)

/-- Rows that point to the table, no two to the same row, are as many as the rows they point to. -/
theorem length_filter_refs [DecidableEq κ] {β : Type*} {refs : List β} {fk : β → κ}
    (h : (l.map key).Nodup) (hfk : (refs.map fk).Nodup)
    (hrefs : ∀ r ∈ refs, ∃ x ∈ l, key x = fk r) :
    (l.filter fun x => key x ∈ refs.map fk).length = refs.length := by
  have hperm : ((l.filter fun x => key x ∈ refs.map fk).map key).Perm (refs.map fk) := by
    refine (List.perm_ext_iff_of_nodup (filter h) hfk).mpr fun k => ?_
    constructor
    · intro hk
      obtain ⟨x, hx, rfl⟩ := List.mem_map.mp hk
      exact of_decide_eq_true (List.mem_filter.mp hx).2
    · intro hk
      obtain ⟨r, hr, rfl⟩ := List.mem_map.mp hk
      obtain ⟨x, hx, hxr⟩ := hrefs r hr
      refine List.mem_map.mpr ⟨x, List.mem_filter.mpr ⟨hx, decide_eq_true ?_⟩, hxr⟩
      rwa [hxr]
  simpa using hperm.length_eq

end Sys.Keyed
