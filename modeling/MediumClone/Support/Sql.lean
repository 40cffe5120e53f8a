import MediumClone.Support.Keyed
import Mathlib.Algebra.Order.Ring.Int
import Mathlib.Data.List.Dedup
import Mathlib.Data.List.Sort

/-!
# Support — Sql

The meaning of the clauses of a query, on lists of rows.

* `innerJoin`, `EXISTS` as `List.any`, `WHERE` as `List.filter`.
* `orderBy key`: `ORDER BY key`, ties in the order they come.  Rows with different keys have one
  order only (`orderBy_eq_of_perm`), so a selection commutes with it (`filter_orderBy`).
* `page offset limit`: `OFFSET … LIMIT …`.  Consecutive pages, of any sizes, are together the rows
  from the first offset on (`flatten_pages`).
* `countDistinct`, `groupBy`.
-/

namespace Sys.Sql

variable {α β κ : Type*}

/-! ### Joins -/

def innerJoin (l : List α) (r : List β) (onRow : α → β → Bool) : List (α × β) :=
  l.flatMap fun a => (r.filter (onRow a)).map (a, ·)

variable {l l' : List α} {r : List β} {onRow : α → β → Bool} {a : α} {b : β}

@[simp] theorem mem_innerJoin : (a, b) ∈ innerJoin l r onRow ↔ a ∈ l ∧ b ∈ r ∧ onRow a b := by
  simp [innerJoin]

theorem innerJoin_filter {p : α → Bool} :
    innerJoin (l.filter p) r onRow = (innerJoin l r onRow).filter fun x => p x.1 := by
  induction l with
  | nil => rfl
  | cons a l ih =>
      simp only [innerJoin, List.flatMap_cons, List.filter_append] at ih ⊢
      by_cases h : p a
      · rw [List.filter_cons_of_pos h, List.flatMap_cons, ih]
        simp [List.filter_map, Function.comp_def, h]
      · rw [List.filter_cons_of_neg h, ih]
        simp [List.filter_map, Function.comp_def, h]

/-- Every row on the left has its one row on the right. -/
theorem innerJoin_eq_map [DecidableEq κ] {key : β → κ} {fk : α → κ} {g : α → β}
    (hr : (r.map key).Nodup) (hl : ∀ a ∈ l, g a ∈ r ∧ key (g a) = fk a) :
    (innerJoin l r fun a b => key b = fk a) = l.map fun a => (a, g a) := by
  induction l with
  | nil => rfl
  | cons a l ih =>
      obtain ⟨hb, hk⟩ := hl a List.mem_cons_self
      have hone : r.filter (fun b' => key b' = fk a) = [g a] := by
        rw [← hk]
        exact Keyed.filter_eq_singleton hr hb
      have hrest := ih fun a' ha' => hl a' (List.mem_cons_of_mem a ha')
      rw [innerJoin] at hrest ⊢
      rw [List.flatMap_cons, hrest, hone, List.map_cons]
      rfl

theorem map_fst_innerJoin [DecidableEq κ] {key : β → κ} {fk : α → κ} (hr : (r.map key).Nodup)
    (hl : ∀ a ∈ l, ∃ b ∈ r, key b = fk a) :
    (innerJoin l r fun a b => key b = fk a).map Prod.fst = l := by
  cases r with
  | nil =>
      cases l with
      | nil => rfl
      | cons a l => exact absurd (hl a List.mem_cons_self) (by simp)
  | cons b₀ r =>
      have hg : ∀ a ∈ l, ((b₀ :: r).find? (key · = fk a)).getD b₀ ∈ b₀ :: r ∧
          key (((b₀ :: r).find? (key · = fk a)).getD b₀) = fk a := by
        intro a ha
        obtain ⟨b, hb, hk⟩ := hl a ha
        rw [(Keyed.find_eq_some hr).mpr ⟨hb, hk⟩]
        exact ⟨hb, hk⟩
      rw [innerJoin_eq_map hr hg, List.map_map]
      exact List.map_id l

/-! ### Order -/

section Order

variable [LinearOrder κ] {key : α → κ}

def orderBy (key : α → κ) (l : List α) : List α := l.insertionSort fun a b => key a ≤ key b

local instance total_key : Std.Total fun a b : α => key a ≤ key b :=
  ⟨fun a b => le_total (key a) (key b)⟩

local instance trans_key : IsTrans α fun a b => key a ≤ key b := ⟨fun _ _ _ => le_trans⟩

theorem perm_orderBy : (orderBy key l).Perm l := List.perm_insertionSort _ l

theorem sorted_orderBy : (orderBy key l).Pairwise fun a b => key a ≤ key b :=
  List.pairwise_insertionSort _ l

@[simp] theorem mem_orderBy : a ∈ orderBy key l ↔ a ∈ l := perm_orderBy.mem_iff

@[simp] theorem length_orderBy : (orderBy key l).length = l.length := perm_orderBy.length_eq

theorem map_orderBy (key : α → κ) (f : β → α) (l : List β) :
    (orderBy (fun b => key (f b)) l).map f = orderBy key (l.map f) :=
  List.map_insertionSort _ _ f l fun _ _ _ _ => Iff.rfl

theorem orderBy_eq_self (h : l.Pairwise fun a b => key a ≤ key b) : orderBy key l = l :=
  h.insertionSort_eq

/-- Rows with different keys have one order only. -/
theorem eq_orderBy (hn : (l.map key).Nodup) (hp : l'.Perm l)
    (hs : l'.Pairwise fun a b => key a ≤ key b) : l' = orderBy key l := by
  refine List.Perm.eq_of_pairwise (fun a b ha hb hab hba => ?_) hs sorted_orderBy
    (hp.trans perm_orderBy.symm)
  exact Keyed.eq_of_key hn (hp.mem_iff.mp ha) (mem_orderBy.mp hb) (le_antisymm hab hba)

theorem filter_orderBy {p : α → Bool} (hn : (l.map key).Nodup) :
    (orderBy key l).filter p = orderBy key (l.filter p) :=
  eq_orderBy (Keyed.filter hn) (perm_orderBy.filter p) (sorted_orderBy.filter p)

end Order

/-! ### Pages -/

def page (offset limit : ℕ) (l : List α) : List α := (l.drop offset).take limit

/-- The pages of sizes `limits`, one after another from `offset` on. -/
def pages : ℕ → List ℕ → List α → List (List α)
  | _, [], _ => []
  | offset, limit :: limits, l => page offset limit l :: pages (offset + limit) limits l

theorem flatten_pages {offset : ℕ} {limits : List ℕ} :
    (pages offset limits l).flatten = page offset limits.sum l := by
  induction limits generalizing offset with
  | nil => simp [pages, page]
  | cons limit limits ih =>
      rw [pages, List.flatten_cons, ih, page, page, page, List.sum_cons, List.take_add,
        List.drop_drop]

theorem page_eq_nil {offset limit : ℕ} (h : l.length ≤ offset) : page offset limit l = [] := by
  rw [page, List.drop_eq_nil_of_le h, List.take_nil]

theorem page_map {f : α → β} {offset limit : ℕ} :
    page offset limit (l.map f) = (page offset limit l).map f := by
  rw [page, ← List.map_drop, ← List.map_take]
  rfl

/-- The rows whose keys are on the page are the page. -/
theorem filter_mem_page [DecidableEq κ] {key : α → κ} {offset limit : ℕ}
    (h : (l.map key).Nodup) :
    l.filter (fun x => key x ∈ (page offset limit l).map key) = page offset limit l := by
  have hsplit : l = l.take offset ++ (page offset limit l ++ (l.drop offset).drop limit) := by
    rw [page, List.take_append_drop, List.take_append_drop]
  generalize l.take offset = before at hsplit
  generalize (l.drop offset).drop limit = rest at hsplit
  generalize page offset limit l = inside at hsplit ⊢
  subst hsplit
  rw [List.map_append, List.map_append, List.nodup_append, List.nodup_append] at h
  obtain ⟨-, ⟨-, -, hrest⟩, hbefore⟩ := h
  rw [List.filter_append, List.filter_append, List.filter_eq_nil_iff.mpr,
    List.filter_eq_self.mpr, List.filter_eq_nil_iff.mpr, List.nil_append, List.append_nil]
  · intro x hx hk
    obtain ⟨y, hy, hyx⟩ := List.mem_map.mp (of_decide_eq_true hk)
    exact hrest _ (List.mem_map_of_mem hy) _ (List.mem_map_of_mem hx) hyx
  · exact fun x hx => decide_eq_true (List.mem_map_of_mem hx)
  · intro x hx hk
    have hk := of_decide_eq_true hk
    exact hbefore _ (List.mem_map_of_mem hx) _ (List.mem_append_left _ hk) rfl

/-! ### Counts and groups -/

variable [DecidableEq κ] {key : α → κ} {k : κ}

/-- `COUNT(DISTINCT key)`. -/
def countDistinct (key : α → κ) (l : List α) : ℕ := (l.map key).dedup.length

theorem countDistinct_of_nodup (h : (l.map key).Nodup) : countDistinct key l = l.length := by
  rw [countDistinct, h.dedup, List.length_map]

/-- `GROUP BY key`: each key with its rows. -/
def groupBy (key : α → κ) (l : List α) : List (κ × List α) :=
  (l.map key).dedup.map fun k => (k, l.filter (key · = k))

theorem nodup_groupBy : ((groupBy key l).map Prod.fst).Nodup := by
  simpa [groupBy, Function.comp_def] using List.nodup_dedup (l.map key)

theorem mem_groupBy {rows : List α} :
    (k, rows) ∈ groupBy key l ↔ (∃ a ∈ l, key a = k) ∧ rows = l.filter (key · = k) := by
  simp only [groupBy, List.mem_map, List.mem_dedup, Prod.mk.injEq]
  constructor
  · rintro ⟨k', hk, rfl, rfl⟩
    exact ⟨hk, rfl⟩
  · rintro ⟨hk, rfl⟩
    exact ⟨k, hk, rfl, rfl⟩

end Sys.Sql
