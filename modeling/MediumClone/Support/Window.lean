import Mathlib.Algebra.Order.Ring.Int
import Mathlib.Data.List.Basic
import Mathlib.Data.List.TakeWhile
import Mathlib.Tactic.Common

/-!
# Support — Window

Fixed windows.  Things happen at times that do not decrease.  The first opens a window of length
`W`; whatever happens less than `W` later belongs to it, and what happens next opens another
(`windows`).  A window is what happens in a half-open interval (`windows_eq_filter`).

A counter that is created with an expiry counts the current window (`current_concat`).  What is
counted at most `n` times in each window is counted at most `2 * n` times in every half-open
interval of length `W`, since no more than two windows meet one (`countP_interval_le`).
-/

namespace Sys

section

variable {α : Type*} (time : α → ℤ) (W : ℤ)

/-- The windows of `l`, in order. -/
def windows : List α → List (List α)
  | [] => []
  | a :: l =>
    (a :: l.takeWhile fun b => time b < time a + W) ::
      windows (l.dropWhile fun b => time b < time a + W)
termination_by l => l.length
decreasing_by exact Nat.lt_succ_of_le (List.length_dropWhile_le ..)

/-- The last window. -/
def current (l : List α) : List α := (windows time W l).getLast?.getD []

/-- The last window is open at `t`. -/
def OpenAt (l : List α) (t : ℤ) : Prop := ∃ a ∈ (current time W l).head?, t < time a + W

instance (l : List α) (t : ℤ) : Decidable (OpenAt time W l t) :=
  inferInstanceAs (Decidable (∃ a ∈ (current time W l).head?, t < time a + W))

variable {time W} {l : List α} {a : α}

@[simp] theorem windows_nil : windows time W [] = [] := by
  rw [windows]

theorem windows_cons : windows time W (a :: l) =
    (a :: l.takeWhile fun b => time b < time a + W) ::
      windows time W (l.dropWhile fun b => time b < time a + W) := by
  rw [windows]

theorem windows_ne_nil (h : l ≠ []) : windows time W l ≠ [] := by
  cases l with
  | nil => exact absurd rfl h
  | cons a l =>
      rw [windows_cons]
      exact List.cons_ne_nil _ _

theorem current_cons_of_ne {r : List α} (hr : r ≠ [])
    (h : l.dropWhile (fun b => time b < time a + W) = r) :
    current time W (a :: l) = current time W r := by
  rw [current, windows_cons, h, List.getLast?_cons_of_ne_nil (windows_ne_nil hr), current]

/-- **One more.**  It belongs to the window that is open, and opens one if none is. -/
theorem windows_concat : windows time W (l ++ [a]) =
    if OpenAt time W l (time a) then
      (windows time W l).dropLast ++ [current time W l ++ [a]]
    else windows time W l ++ [[a]] := by
  induction l using windows.induct time W with
  | case1 =>
      rw [if_neg (by simp [OpenAt, current]), List.nil_append, windows_cons]
      simp
  | case2 b l ih =>
      by_cases hall : ∀ x ∈ l, time x < time b + W
      · have htake : l.takeWhile (fun x => time x < time b + W) = l :=
          List.takeWhile_eq_self_iff.mpr (by simpa using hall)
        have hdrop : l.dropWhile (fun x => time x < time b + W) = [] :=
          List.dropWhile_eq_nil_iff.mpr (by simpa using hall)
        have hone : windows time W (b :: l) = [b :: l] := by
          rw [windows_cons, htake, hdrop, windows_nil]
        have hcur : current time W (b :: l) = b :: l := by
          rw [current, hone]
          rfl
        have hopen : OpenAt time W (b :: l) (time a) ↔ time a < time b + W := by
          simp [OpenAt, hcur]
        rw [hone, hcur, List.cons_append, windows_cons, List.takeWhile_append_of_pos (by simpa),
          List.dropWhile_append_of_pos (by simpa)]
        by_cases ha : time a < time b + W
        · rw [if_pos (hopen.mpr ha)]
          simp [ha]
        · rw [if_neg (mt hopen.mp ha)]
          simp [ha, windows_cons]
      · have hr : l.dropWhile (fun x => time x < time b + W) ≠ [] := by
          simpa [List.dropWhile_eq_nil_iff] using hall
        have htake : (l ++ [a]).takeWhile (fun x => time x < time b + W) =
            l.takeWhile fun x => time x < time b + W := by
          rw [List.takeWhile_append, if_neg]
          intro hlen
          have hsplit := congrArg List.length
            (List.takeWhile_append_dropWhile (p := fun x => time x < time b + W) (l := l))
          rw [List.length_append] at hsplit
          exact hr (List.eq_nil_of_length_eq_zero (by omega))
        have hdrop : (l ++ [a]).dropWhile (fun x => time x < time b + W) =
            l.dropWhile (fun x => time x < time b + W) ++ [a] := by
          rw [List.dropWhile_append, if_neg (by simpa using hr)]
        have hcur : current time W (b :: l) = current time W _ := current_cons_of_ne hr rfl
        have hopen : OpenAt time W (b :: l) (time a) ↔ OpenAt time W _ (time a) :=
          Eq.to_iff (congrArg (fun w : List α => ∃ x ∈ w.head?, time a < time x + W) hcur)
        rw [List.cons_append, windows_cons, htake, hdrop, ih, windows_cons, hcur]
        by_cases ho : OpenAt time W (b :: l) (time a)
        · rw [if_pos ho, if_pos (hopen.mp ho), List.dropLast_cons_of_ne_nil (windows_ne_nil hr),
            List.cons_append]
        · rw [if_neg ho, if_neg (mt hopen.mpr ho), List.cons_append]

theorem current_concat : current time W (l ++ [a]) =
    if OpenAt time W l (time a) then current time W l ++ [a] else [a] := by
  rw [current, windows_concat]
  split
  · rw [List.getLast?_concat]
    rfl
  · rw [List.getLast?_concat]
    rfl

/-! ### Counting -/

theorem countP_current_le {p : α → Bool} {n : ℕ} (hn : ∀ w ∈ windows time W l, w.countP p ≤ n) :
    (current time W l).countP p ≤ n := by
  rw [current]
  cases hlast : (windows time W l).getLast? with
  | none => exact Nat.zero_le n
  | some w => exact hn w (List.mem_of_getLast? hlast)

theorem flatten_windows : (windows time W l).flatten = l := by
  induction l using windows.induct time W with
  | case1 => rw [windows_nil, List.flatten_nil]
  | case2 a l ih =>
      rw [windows_cons, List.flatten_cons, ih, List.cons_append, List.takeWhile_append_dropWhile]

/-- What comes after the first window. -/
theorem le_of_mem_dropWhile (hl : l.Pairwise fun a b => time a ≤ time b) {t : ℤ} {b : α}
    (hb : b ∈ l.dropWhile fun x => time x < t) : t ≤ time b := by
  induction l with
  | nil => cases hb
  | cons x l ih =>
      rw [List.dropWhile_cons] at hb
      split at hb
      · exact ih (List.pairwise_cons.mp hl).2 hb
      · rename_i hx
        have hx : t ≤ time x := by simpa using hx
        rcases List.mem_cons.mp hb with rfl | hb
        · exact hx
        · exact hx.trans ((List.pairwise_cons.mp hl).1 b hb)

/-- What the first window leaves is sorted. -/
theorem sorted_dropWhile {t : ℤ} (hl : (a :: l).Pairwise fun a b => time a ≤ time b) :
    (l.dropWhile fun b => time b < t).Pairwise fun a b => time a ≤ time b :=
  (List.pairwise_cons.mp hl).2.sublist (List.dropWhile_sublist _)

theorem lt_of_mem_takeWhile {t : ℤ} {b : α} (hb : b ∈ l.takeWhile fun x => time x < t) :
    time b < t := by
  simpa using List.mem_takeWhile_imp hb

theorem mem_of_mem_windows {w : List α} (hw : w ∈ windows time W l) (ha : a ∈ w) : a ∈ l := by
  rw [← @flatten_windows _ time W l]
  exact List.mem_flatten.mpr ⟨w, hw, ha⟩

/-- A window is what happens in an interval. -/
theorem windows_eq_filter (hW : 0 < W) (hl : l.Pairwise fun a b => time a ≤ time b) {w : List α}
    (hw : w ∈ windows time W l) :
    ∃ a ∈ w.head?, w = l.filter fun b => time a ≤ time b ∧ time b < time a + W := by
  induction l using windows.induct time W with
  | case1 =>
      rw [windows_nil] at hw
      cases hw
  | case2 a l ih =>
      have hsorted := (List.pairwise_cons.mp hl).2
      have hsplit : l = l.takeWhile (fun b => time b < time a + W) ++
          l.dropWhile (fun b => time b < time a + W) := List.takeWhile_append_dropWhile.symm
      rw [windows_cons] at hw
      rcases List.mem_cons.mp hw with rfl | hw
      · refine ⟨a, rfl, ?_⟩
        rw [List.filter_cons_of_pos (by simpa using hW)]
        conv_rhs => rw [hsplit]
        rw [List.filter_append, List.filter_eq_self.mpr, List.filter_eq_nil_iff.mpr,
          List.append_nil]
        · intro b hb
          have hge := le_of_mem_dropWhile hsorted hb
          simp only [decide_eq_true_eq]
          omega
        · intro b hb
          have hle := (List.pairwise_cons.mp hl).1 b ((List.takeWhile_sublist _).mem hb)
          simpa using ⟨hle, lt_of_mem_takeWhile hb⟩
      · obtain ⟨c, hc, heq⟩ := ih (sorted_dropWhile hl) hw
        have hge : time a + W ≤ time c :=
          le_of_mem_dropWhile hsorted (mem_of_mem_windows hw (List.mem_of_mem_head? hc))
        refine ⟨c, hc, heq.trans ?_⟩
        rw [List.filter_cons_of_neg (by simp only [decide_eq_true_eq]; omega)]
        conv_rhs => rw [hsplit]
        have hnone : (l.takeWhile fun b => time b < time a + W).filter
            (fun b => time c ≤ time b ∧ time b < time c + W) = [] := by
          refine List.filter_eq_nil_iff.mpr ?_
          intro b hb
          have hlt := lt_of_mem_takeWhile hb
          simp only [decide_eq_true_eq]
          omega
        rw [List.filter_append, hnone, List.nil_append]

/-- An interval that starts before the first window meets no other. -/
theorem countP_first_le (hl : l.Pairwise fun a b => time a ≤ time b) {p : α → Bool} {n : ℕ}
    (hn : ∀ w ∈ windows time W l, w.countP p ≤ n) {t : ℤ} (ht : ∀ b ∈ l, t ≤ time b) :
    l.countP (fun a => p a ∧ t ≤ time a ∧ time a < t + W) ≤ n := by
  cases l with
  | nil => exact Nat.zero_le _
  | cons a l =>
      have hsplit : a :: l = (a :: l.takeWhile fun b => time b < time a + W) ++
          l.dropWhile (fun b => time b < time a + W) := by
        rw [List.cons_append, List.takeWhile_append_dropWhile]
      have hzero : (l.dropWhile fun b => time b < time a + W).countP
          (fun a => p a ∧ t ≤ time a ∧ time a < t + W) = 0 := by
        refine List.countP_eq_zero.mpr ?_
        intro b hb
        have hge := le_of_mem_dropWhile (List.pairwise_cons.mp hl).2 hb
        have hle := ht a List.mem_cons_self
        simp only [decide_eq_true_eq]
        omega
      rw [hsplit, List.countP_append, hzero, Nat.add_zero]
      refine (List.countP_mono_left ?_).trans (hn _ (windows_cons ▸ List.mem_cons_self))
      exact fun b _ hb => (of_decide_eq_true hb).1

/-- **What is counted in an interval.**  An interval of length `W` meets two windows at most. -/
theorem countP_interval_le (hW : 0 < W) (hl : l.Pairwise fun a b => time a ≤ time b)
    {p : α → Bool} {n : ℕ} (hn : ∀ w ∈ windows time W l, w.countP p ≤ n) (t : ℤ) :
    l.countP (fun a => p a ∧ t ≤ time a ∧ time a < t + W) ≤ 2 * n := by
  induction l using windows.induct time W with
  | case1 => exact Nat.zero_le _
  | case2 a l ih =>
      have hsorted := (List.pairwise_cons.mp hl).2
      have hsplit : a :: l = (a :: l.takeWhile fun b => time b < time a + W) ++
          l.dropWhile (fun b => time b < time a + W) := by
        rw [List.cons_append, List.takeWhile_append_dropWhile]
      rw [windows_cons] at hn
      have hfirst := hn _ List.mem_cons_self
      have hrest := fun w hw => hn w (List.mem_cons_of_mem _ hw)
      have hweak : ∀ b, decide (p b = true ∧ t ≤ time b ∧ time b < t + W) = true → p b = true :=
        fun b hb => (of_decide_eq_true hb).1
      rw [hsplit, List.countP_append]
      by_cases ht : t < time a + W
      · -- no third window opens before the interval ends
        have hle₁ := (List.countP_mono_left (l := a :: l.takeWhile fun b => time b < time a + W)
          fun b _ => hweak b).trans hfirst
        have hle₂ : (l.dropWhile fun b => time b < time a + W).countP
            (fun a => p a ∧ t ≤ time a ∧ time a < t + W) ≤ n := by
          refine countP_first_le (sorted_dropWhile hl) hrest ?_
          intro b hb
          have hge := le_of_mem_dropWhile hsorted hb
          omega
        omega
      · -- the first window is over when the interval starts
        have hzero : (a :: l.takeWhile fun b => time b < time a + W).countP
            (fun a => p a ∧ t ≤ time a ∧ time a < t + W) = 0 := by
          refine List.countP_eq_zero.mpr ?_
          intro b hb
          have hlt : time b < time a + W := by
            rcases List.mem_cons.mp hb with rfl | hb
            · omega
            · exact lt_of_mem_takeWhile hb
          simp only [decide_eq_true_eq]
          omega
        rw [hzero, Nat.zero_add]
        exact ih (sorted_dropWhile hl) hrest

end

end Sys
