import MediumClone.Support.JsText
import Mathlib.Algebra.Order.Ring.Int
import Mathlib.Data.List.Chain
import Mathlib.Data.List.DropRight

/-!
# Support — JsReplace

Texts that are made words with single separators, by `replace` with regular expressions.

* `replaceRuns p sep` replaces `[p]+`, each run of characters of `p`, by one separator.
* `trimEnds` and `trimEnd` remove `^sep+|sep+$` and `sep+$`.

What `replaceRuns` gives is `Neat`, and so is every part of it.  A neat text without separators at
its ends is words joined by separators (`joined_of_neat`), and the rewrites leave it as it is.
-/

namespace Js

def replaceRuns (p : Char → Bool) (sep : Char) : Str → Str
  | [] => []
  | c :: s =>
    if p c then
      if s.head?.any p then replaceRuns p sep s else sep :: replaceRuns p sep s
    else c :: replaceRuns p sep s

def trimEnd (sep : Char) (s : Str) : Str := s.rdropWhile (· == sep)

def trimEnds (sep : Char) (s : Str) : Str := trimEnd sep (s.dropWhile (· == sep))

/-- `s.length`, which counts UTF-16 code units. -/
def length16 (s : Str) : ℕ := (s.map fun c => if c.toNat < 0x10000 then 1 else 2).sum

/-- The text is `[…]+(sep[…]+)*`, with the characters of `word`. -/
def Joined (word : Char → Bool) (sep : Char) (s : Str) : Prop :=
  ∃ words, words ≠ [] ∧ (∀ w ∈ words, w ≠ [] ∧ ∀ c ∈ w, word c = true) ∧
    s = [sep].intercalate words

/-- Characters of words and separators, no two separators in a row. -/
structure Neat (word : Char → Bool) (sep : Char) (s : Str) : Prop where
  chars : ∀ c ∈ s, word c = true ∨ c = sep
  single : s.IsChain fun a b => ¬ (a = sep ∧ b = sep)

variable {word p : Char → Bool} {sep c : Char} {s t : Str}

/-! ### Parts of neat texts -/

theorem Neat.part (h : Neat word sep s) (ht : t <:+: s) : Neat word sep t :=
  ⟨fun c hc => h.chars c (ht.subset hc), List.IsChain.infix h.single ht⟩

theorem trimEnd_isPrefix : trimEnd sep s <+: s := List.rdropWhile_prefix _ s

theorem getLast?_trimEnd : ∀ c ∈ (trimEnd sep s).getLast?, c ≠ sep := by
  intro c hc
  rcases hne : trimEnd sep s with _ | ⟨d, t⟩
  · rw [hne] at hc
    cases hc
  · have hnil : s.rdropWhile (· == sep) ≠ [] := by
      intro h
      rw [trimEnd, h] at hne
      cases hne
    have hlast := List.rdropWhile_last_not (· == sep) s hnil
    rw [trimEnd, List.getLast?_eq_some_getLast hnil] at hc
    cases hc
    simpa using hlast

theorem trimEnd_eq_self (h : ∀ c ∈ s.getLast?, c ≠ sep) : trimEnd sep s = s := by
  rw [trimEnd, List.rdropWhile_eq_self_iff]
  intro hne
  simpa using h _ (List.getLast?_eq_some_getLast hne)

/-- A part from the start on starts as the whole does. -/
theorem head?_of_isPrefix (h : t <+: s) : ∀ c ∈ t.head?, c ∈ s.head? := by
  obtain ⟨u, rfl⟩ := h
  intro c hc
  cases t with
  | nil => cases hc
  | cons d t => exact hc

theorem head?_trimEnds : ∀ c ∈ (trimEnds sep s).head?, c ≠ sep := by
  intro c hc
  have hc := head?_of_isPrefix trimEnd_isPrefix c hc
  have hnot := List.head?_dropWhile_not (· == sep) s
  rw [Option.mem_def.mp hc] at hnot
  simpa using hnot

theorem trimEnds_isInfix : trimEnds sep s <:+: s :=
  trimEnd_isPrefix.isInfix.trans (List.dropWhile_suffix _).isInfix

theorem trimEnds_eq_self (hhead : ∀ c ∈ s.head?, c ≠ sep) (hlast : ∀ c ∈ s.getLast?, c ≠ sep) :
    trimEnds sep s = s := by
  have hdrop : s.dropWhile (· == sep) = s := by
    cases s with
    | nil => rfl
    | cons c s => exact List.dropWhile_cons_of_neg (by simpa using hhead c rfl)
  rw [trimEnds, hdrop, trimEnd_eq_self hlast]

/-! ### Runs -/

/-- A text that starts with another character keeps its start. -/
theorem head?_replaceRuns (h : s.head?.any p = false) : (replaceRuns p sep s).head? = s.head? := by
  cases s with
  | nil => rfl
  | cons c s => rw [replaceRuns, if_neg (by simpa using h)]; rfl

/-- What is no separator is made one, and the characters kept are none. -/
theorem neat_replaceRuns (hp : ∀ c, p c = false → word c = true ∧ c ≠ sep) (s : Str) :
    Neat word sep (replaceRuns p sep s) := by
  induction s with
  | nil => exact ⟨nofun, List.IsChain.nil⟩
  | cons c s ih =>
      rw [replaceRuns]
      cases hc : p c with
      | true =>
          rw [if_pos rfl]
          cases hhead : s.head?.any p with
          | true => exact ih
          | false =>
              refine ⟨List.forall_mem_cons.mpr ⟨.inr rfl, ih.chars⟩, ih.single.cons ?_⟩
              rintro d hd ⟨-, rfl⟩
              rw [head?_replaceRuns hhead] at hd
              rw [Option.mem_def.mp hd] at hhead
              exact (hp d hhead).2 rfl
      | false =>
          refine ⟨List.forall_mem_cons.mpr ⟨.inl (hp c hc).1, ih.chars⟩, ih.single.cons ?_⟩
          rintro d - ⟨rfl, -⟩
          exact (hp c hc).2 rfl

/-- In a neat text every run is one separator already. -/
theorem replaceRuns_eq_self (h : Neat word sep s) (hp : ∀ c, word c = true → p c = false) :
    replaceRuns p sep s = s := by
  induction s with
  | nil => rfl
  | cons c s ih =>
      have hs := ih (h.part (List.suffix_cons c s).isInfix)
      rw [replaceRuns]
      rcases h.chars c List.mem_cons_self with hc | rfl
      · rw [if_neg (by simp [hp c hc]), hs]
      · have hhead : s.head?.any p = false := by
          cases hs : s.head? with
          | none => rfl
          | some d =>
              have hne : d ≠ c := fun heq => h.single.rel_head? hs ⟨rfl, heq⟩
              have hd : d ∈ c :: s := List.mem_cons_of_mem c (List.mem_of_mem_head? hs)
              exact hp d ((h.chars d hd).resolve_right hne)
        rw [hhead, if_neg Bool.false_ne_true, hs, ite_self]

/-! ### Words -/

/-- Words are read off from the start: a character and a separator end one, and a character before
a word lengthens it. -/
theorem joined_of_neat {s : Str} (h : Neat word sep s) (hne : s ≠ [])
    (hhead : ∀ c ∈ s.head?, c ≠ sep) (hlast : ∀ c ∈ s.getLast?, c ≠ sep) : Joined word sep s := by
  match s with
  | [] => exact absurd rfl hne
  | [c] =>
      have hc := (h.chars c List.mem_cons_self).resolve_right (hhead c rfl)
      exact ⟨[[c]], by simp, by simpa using hc, by simp⟩
  | c :: d :: s =>
      have hc := (h.chars c List.mem_cons_self).resolve_right (hhead c rfl)
      have htail : Neat word sep (d :: s) := h.part (List.suffix_cons c _).isInfix
      have hend : ∀ e ∈ (d :: s).getLast?, e ≠ sep := fun e he =>
        hlast e (by rwa [List.getLast?_cons_cons])
      by_cases hd : d = sep
      · cases s with
        | nil => exact absurd hd (hend d rfl)
        | cons e s =>
            have hnext : ∀ f ∈ (e :: s).head?, f ≠ sep := fun f hf heq =>
              htail.single.rel_head? hf ⟨hd, heq⟩
            obtain ⟨words, hwords, hall, heq⟩ := joined_of_neat
              (htail.part (List.suffix_cons d _).isInfix) (List.cons_ne_nil e s) hnext
              (fun f hf => hend f (by rwa [List.getLast?_cons_cons]))
            refine ⟨[c] :: words, by simp, List.forall_mem_cons.mpr ⟨by simpa using hc, hall⟩, ?_⟩
            rw [List.intercalate_cons_of_ne_nil hwords, ← heq, hd]
            rfl
      · obtain ⟨words, hwords, hall, heq⟩ := joined_of_neat htail (List.cons_ne_nil d s)
          (fun e he => by cases he; exact hd) hend
        cases words with
        | nil => exact absurd rfl hwords
        | cons w words =>
            obtain ⟨⟨-, hw⟩, hall⟩ := List.forall_mem_cons.mp hall
            refine ⟨(c :: w) :: words, by simp, List.forall_mem_cons.mpr
              ⟨⟨by simp, List.forall_mem_cons.mpr ⟨hc, hw⟩⟩, hall⟩, ?_⟩
            rw [List.intercalate_cons_cons_left, ← heq]
termination_by s.length

/-! ### Ends -/

theorem length16_append (s t : Str) : length16 (s ++ t) = length16 s + length16 t := by
  simp [length16]

theorem length16_eq_zero (h : length16 s = 0) : s = [] := by
  cases s with
  | nil => rfl
  | cons c s =>
      rw [length16, List.map_cons, List.sum_cons] at h
      split at h <;> omega

/-- Of two texts with one end each, ends of one length are the same. -/
theorem append_inj_length16 {x y u v : Str} (hlen : length16 u = length16 v)
    (h : x ++ u = y ++ v) : u = v := by
  rcases List.append_eq_append_iff.mp h with ⟨t, -, rfl⟩ | ⟨t, -, rfl⟩
  · rw [length16_append] at hlen
    rw [length16_eq_zero (by omega : length16 t = 0), List.nil_append]
  · rw [length16_append] at hlen
    rw [length16_eq_zero (by omega : length16 t = 0), List.nil_append]

end Js
