import MediumClone.Support.JsText
import Mathlib.Algebra.Order.Ring.Int
import Mathlib.Data.List.Induction

/-!
# Support — JsRecord

An object that is used as a table: its own properties, in the order they were created.  JavaScript
lists names that look like an array index before the others; this order is not modelled, and no
result depends on it.

* `set`: a property is created at the end, or keeps its place.  `put` is the assignment
  `record[key] = value`, which for `__proto__` creates no property.  `assign` is `Object.assign`.
* `ofEntries`: the assignments of a list, one after the other, to `{}`.  Assigned to another record
  it is the same assignments (`assign_ofEntries`).
* `total`: the weights of all values.  Of a list of assignments the record keeps the whole weight
  exactly when every value that a later one replaces weighs nothing (`total_ofEntries_iff`).
-/

namespace Js

abbrev Record (α : Type*) := List (Str × α)

namespace Record

variable {α : Type*}

def set (key : Str) (value : α) : Record α → Record α
  | [] => [(key, value)]
  | (k, v) :: record => if k = key then (k, value) :: record else (k, v) :: set key value record

/-- The name whose assignment sets the prototype. -/
def PROTO : Str := "__proto__".toList

def put (key : Str) (value : α) (record : Record α) : Record α :=
  if key = PROTO then record else record.set key value

def assign (record source : Record α) : Record α :=
  source.foldl (fun r e => r.put e.1 e.2) record

def ofEntries (entries : List (Str × α)) : Record α := entries.foldl (fun r e => r.set e.1 e.2) []

variable {k k' : Str} {v v' : α} {r r' : Record α} {entries : List (Str × α)}

theorem put_of_ne (h : k ≠ PROTO) : r.put k v = r.set k v := if_neg h

theorem mem_keys_set : k' ∈ (r.set k v).map Prod.fst ↔ k' ∈ r.map Prod.fst ∨ k' = k := by
  induction r with
  | nil => simp [set]
  | cons e r ih =>
      obtain ⟨k₁, v₁⟩ := e
      by_cases h : k₁ = k
      · subst h
        simp only [set, if_true, List.map_cons, List.mem_cons]
        tauto
      · simp only [set, if_neg h, List.map_cons, List.mem_cons, ih, or_assoc]

theorem mem_keys_ofEntries : k ∈ (ofEntries entries).map Prod.fst ↔ k ∈ entries.map Prod.fst := by
  induction entries using List.reverseRecOn with
  | nil => rfl
  | append_singleton entries e ih =>
      rw [ofEntries, List.foldl_append]
      change k ∈ (set e.1 e.2 (ofEntries entries)).map Prod.fst ↔ _
      rw [mem_keys_set, ih]
      simp

/-! ### The order of assignments -/

theorem set_set : (r.set k v).set k v' = r.set k v' := by
  induction r with
  | nil => simp [set]
  | cons e r ih =>
      obtain ⟨k₁, v₁⟩ := e
      by_cases h : k₁ = k
      · simp [set, h]
      · simp [set, h, ih]

/-- A property that is there keeps its place, so it may be set first. -/
theorem set_comm (h : k ∈ r.map Prod.fst) (hne : k ≠ k') :
    (r.set k' v').set k v = (r.set k v).set k' v' := by
  induction r with
  | nil => cases h
  | cons e r ih =>
      obtain ⟨k₁, v₁⟩ := e
      by_cases hk : k₁ = k
      · subst hk
        simp [set, hne]
      · have hmem : k ∈ r.map Prod.fst := (List.mem_cons.mp h).resolve_left (Ne.symm hk)
        by_cases hk' : k₁ = k'
        · subst hk'
          simp [set, hk]
        · simp [set, hk, hk', ih hmem]

theorem foldl_set_comm (h : k ∉ entries.map Prod.fst) (hk : k ∈ r.map Prod.fst) :
    (entries.foldl (fun r e => r.set e.1 e.2) r).set k v =
      entries.foldl (fun r e => r.set e.1 e.2) (r.set k v) := by
  induction entries generalizing r with
  | nil => rfl
  | cons e entries ih =>
      rw [List.map_cons, List.mem_cons, not_or] at h
      rw [List.foldl_cons, List.foldl_cons, ih h.2 (mem_keys_set.mpr (.inl hk)),
        set_comm hk h.1]

theorem nodup_keys_set (h : (r.map Prod.fst).Nodup) : ((r.set k v).map Prod.fst).Nodup := by
  induction r with
  | nil => simp [set]
  | cons e r ih =>
      obtain ⟨k₁, v₁⟩ := e
      obtain ⟨hnot, hn⟩ := List.nodup_cons.mp h
      by_cases hk : k₁ = k
      · rw [set, if_pos hk]
        exact List.nodup_cons.mpr ⟨hnot, hn⟩
      · rw [set, if_neg hk]
        refine List.nodup_cons.mpr ⟨?_, ih hn⟩
        intro hmem
        rcases mem_keys_set.mp hmem with hmem | heq
        · exact hnot hmem
        · exact hk heq

theorem nodup_keys_ofEntries (entries : List (Str × α)) :
    ((ofEntries entries).map Prod.fst).Nodup := by
  induction entries using List.reverseRecOn with
  | nil => exact List.nodup_nil
  | append_singleton entries e ih =>
      rw [ofEntries, List.foldl_append]
      exact nodup_keys_set ih

/-- The entries of `r'` with one more assignment. -/
theorem foldl_set_set (hn : (r'.map Prod.fst).Nodup) (r : Record α) :
    (r'.set k v).foldl (fun r e => r.set e.1 e.2) r =
      (r'.foldl (fun r e => r.set e.1 e.2) r).set k v := by
  induction r' generalizing r with
  | nil => rfl
  | cons e r' ih =>
      obtain ⟨k₁, v₁⟩ := e
      obtain ⟨hnot, hn⟩ := List.nodup_cons.mp hn
      by_cases hk : k₁ = k
      · subst hk
        rw [set, if_pos rfl, List.foldl_cons, List.foldl_cons,
          foldl_set_comm hnot (mem_keys_set.mpr (.inr rfl)), set_set]
      · rw [set, if_neg hk, List.foldl_cons, List.foldl_cons, ih hn]

theorem assign_ofEntries (h : PROTO ∉ entries.map Prod.fst) (r : Record α) :
    r.assign (ofEntries entries) = entries.foldl (fun r e => r.set e.1 e.2) r := by
  have hset : r.assign (ofEntries entries) =
      (ofEntries entries).foldl (fun r e => r.set e.1 e.2) r := by
    refine List.foldl_ext _ _ r fun r e he => put_of_ne ?_
    rintro heq
    exact h (mem_keys_ofEntries.mp (heq ▸ List.mem_map_of_mem he))
  rw [hset]
  clear hset h
  induction entries using List.reverseRecOn with
  | nil => rfl
  | append_singleton entries e ih =>
      rw [ofEntries, List.foldl_append, List.foldl_append]
      change (set e.1 e.2 (ofEntries entries)).foldl _ r = _
      rw [foldl_set_set (nodup_keys_ofEntries entries), ih]
      rfl

/-! ### What is kept -/

theorem lookup_set : (r.set k v).lookup k' = if k' = k then some v else r.lookup k' := by
  induction r with
  | nil =>
      by_cases h : k' = k
      · simp [set, h]
      · simp [set, h, List.lookup_cons, beq_eq_false_iff_ne.mpr h]
  | cons e r ih =>
      obtain ⟨k₁, v₁⟩ := e
      by_cases hk : k₁ = k
      · subst hk
        by_cases h : k' = k₁
        · simp [set, h]
        · simp [set, h, List.lookup_cons, beq_eq_false_iff_ne.mpr h]
      · rw [set, if_neg hk, List.lookup_cons, List.lookup_cons, ih]
        by_cases h : k' = k₁
        · have hne : k' ≠ k := fun heq => hk (h.symm.trans heq)
          simp [h, hk]
        · simp [beq_eq_false_iff_ne.mpr h]

/-- The last assignment counts. -/
theorem lookup_ofEntries (entries : List (Str × α)) :
    (ofEntries entries).lookup k = ((entries.filter (·.1 = k)).getLast?).map Prod.snd := by
  induction entries using List.reverseRecOn with
  | nil => rfl
  | append_singleton entries e ih =>
      rw [ofEntries, List.foldl_append]
      change (set e.1 e.2 (ofEntries entries)).lookup k = _
      rw [lookup_set, ih, List.filter_append]
      by_cases h : k = e.1
      · simp [h]
      · simp [h, Ne.symm h]

section Total

variable (w : α → ℕ)

def total (r : Record α) : ℕ := (r.map fun e => w e.2).sum

variable {w}

theorem total_set : total w (r.set k v) + ((r.lookup k).elim 0 w) = total w r + w v := by
  induction r with
  | nil => simp [set, total]
  | cons e r ih =>
      obtain ⟨k₁, v₁⟩ := e
      by_cases hk : k₁ = k
      · subst hk
        simp [set, total]
        omega
      · have hne : (k == k₁) = false := beq_eq_false_iff_ne.mpr (Ne.symm hk)
        simp only [total] at ih
        simp only [set, if_neg hk, total, List.map_cons, List.sum_cons, List.lookup_cons, hne]
        omega

/-- When all that was replaced so far weighs nothing: the value of a key weighs nothing exactly
when every assignment to it does. -/
theorem weight_lookup_iff
    (h : entries.Pairwise fun x y => x.1 = y.1 → w x.2 = 0) :
    ((ofEntries entries).lookup k).elim 0 w = 0 ↔ ∀ x ∈ entries, x.1 = k → w x.2 = 0 := by
  rcases hlast : (entries.filter (·.1 = k)).getLast? with _ | y
  · rw [lookup_ofEntries, hlast]
    have hnone := List.getLast?_eq_none_iff.mp hlast
    refine ⟨fun _ x hx hk => ?_, fun _ => rfl⟩
    have hmem : x ∈ entries.filter (·.1 = k) := List.mem_filter.mpr ⟨hx, decide_eq_true hk⟩
    rw [hnone] at hmem
    cases hmem
  · rw [lookup_ofEntries, hlast]
    change w y.2 = 0 ↔ _
    obtain ⟨before, hsplit⟩ := List.getLast?_eq_some_iff.mp hlast
    have hy : y ∈ entries.filter (·.1 = k) := List.mem_of_getLast? hlast
    have hyk : y.1 = k := of_decide_eq_true (List.mem_filter.mp hy).2
    have hpair := h.filter (fun x => decide (x.1 = k))
    rw [hsplit, List.pairwise_append] at hpair
    refine ⟨fun hw x hx hk => ?_, fun hall => hall y (List.mem_filter.mp hy).1 hyk⟩
    have hmem : x ∈ entries.filter (·.1 = k) := List.mem_filter.mpr ⟨hx, decide_eq_true hk⟩
    rw [hsplit, List.mem_append, List.mem_singleton] at hmem
    rcases hmem with hmem | rfl
    · exact hpair.2.2 x hmem y (List.mem_singleton_self y) (hk.trans hyk.symm)
    · exact hw

/-- A value that weighs something is kept, when all that is replaced weighs nothing. -/
theorem lookup_ofEntries_of_weight
    (h : entries.Pairwise fun x y => x.1 = y.1 → w x.2 = 0) {e : Str × α} (he : e ∈ entries)
    (hw : w e.2 ≠ 0) : (ofEntries entries).lookup e.1 = some e.2 := by
  induction entries using List.reverseRecOn with
  | nil => cases he
  | append_singleton entries y ih =>
      obtain ⟨hp, -, hlast⟩ := List.pairwise_append.mp h
      rw [ofEntries, List.foldl_append]
      change (set y.1 y.2 (ofEntries entries)).lookup e.1 = _
      rw [lookup_set]
      rcases List.mem_append.mp he with he | he
      · have hne : e.1 ≠ y.1 := fun heq => hw (hlast e he y (List.mem_singleton_self y) heq)
        rw [if_neg hne]
        exact ih hp he
      · rw [List.mem_singleton.mp he, if_pos rfl]

theorem total_ofEntries_le (entries : List (Str × α)) :
    total w (ofEntries entries) ≤ (entries.map fun e => w e.2).sum := by
  induction entries using List.reverseRecOn with
  | nil => exact le_rfl
  | append_singleton entries e ih =>
      have hset := total_set (w := w) (r := ofEntries entries) (k := e.1) (v := e.2)
      rw [ofEntries, List.foldl_append]
      change total w (set e.1 e.2 (ofEntries entries)) ≤ _
      rw [List.map_append, List.sum_append, List.map_singleton, List.sum_singleton]
      omega

theorem total_ofEntries_iff (entries : List (Str × α)) :
    total w (ofEntries entries) = (entries.map fun e => w e.2).sum ↔
      entries.Pairwise fun x y => x.1 = y.1 → w x.2 = 0 := by
  induction entries using List.reverseRecOn with
  | nil => simp [ofEntries, total]
  | append_singleton entries e ih =>
      have hset := total_set (w := w) (r := ofEntries entries) (k := e.1) (v := e.2)
      have hle := total_ofEntries_le (w := w) entries
      rw [List.pairwise_append, ← ih]
      change total w ((entries ++ [e]).foldl _ []) = _ ↔ _
      rw [List.foldl_append, List.map_append, List.sum_append, List.map_singleton,
        List.sum_singleton]
      change total w (set e.1 e.2 (ofEntries entries)) = _ ↔ _
      constructor
      · intro h
        have heq : total w (ofEntries entries) = (entries.map fun e => w e.2).sum := by omega
        have hzero : ((ofEntries entries).lookup e.1).elim 0 w = 0 := by omega
        refine ⟨heq, List.pairwise_singleton .., ?_⟩
        intro x hx y hy hk
        cases List.mem_singleton.mp hy
        exact (weight_lookup_iff (ih.mp heq)).mp hzero x hx hk
      · rintro ⟨heq, -, hlast⟩
        have hzero := (weight_lookup_iff (k := e.1) (ih.mp heq)).mpr fun x hx hk =>
          hlast x hx e (List.mem_singleton_self e) hk
        omega

end Total

end Record

end Js
