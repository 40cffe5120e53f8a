import Mathlib.Algebra.Group.Nat.Defs
import Mathlib.Data.Nat.Log
import Mathlib.Data.List.Basic
import Mathlib.Data.List.TakeWhile

/-!
# Support — JsText

JavaScript's string functions, on lists of characters.  A string is read as its list of code
points: `split` on a separator is `List.splitOn`, `includes` on an array is membership.

* `trim`, `isWhiteSpace`, `splitWhiteSpace`: the white space and line terminators of the language.
* `parseInt` in base ten: leading white space, an optional sign, the longest prefix of digits;
  `none` is `NaN`.  `number` is the value of a digit string.  Both round to the nearest double
  (`toNumber`), which changes nothing below `2 ^ 53`.
* `decodeURIComponent`: percent escapes read as UTF-8; `none` where the function throws
  `URIError`.  `percentUnits` reads the escapes and `utf8` assembles the bytes, so that both are
  structural recursions.
-/

namespace Js

/-- A string, as its code points. -/
abbrev Str := List Char

/-! ### White space -/

def isWhiteSpace (c : Char) : Bool :=
  [0x09, 0x0A, 0x0B, 0x0C, 0x0D, 0x20, 0xA0, 0x1680, 0x2028, 0x2029, 0x202F, 0x205F, 0x3000,
    0xFEFF].contains c.toNat || (0x2000 ≤ c.toNat && c.toNat ≤ 0x200A)

def trimStart (s : Str) : Str := s.dropWhile isWhiteSpace

def trim (s : Str) : Str := (trimStart (trimStart s).reverse).reverse

/-- `split(/\s+/)`. -/
def splitWhiteSpace : Str → List Str
  | [] => [[]]
  | c :: s =>
    if isWhiteSpace c then
      if s.head?.any isWhiteSpace then splitWhiteSpace s else [] :: splitWhiteSpace s
    else
      match splitWhiteSpace s with
      | [] => [[c]]
      | word :: words => (c :: word) :: words

section

variable {s w sep : Str}

/-- No white space at the end. -/
theorem getLast?_trim (s : Str) : ∀ c ∈ (trim s).getLast?, isWhiteSpace c = false := by
  intro c hc
  rw [trim, List.getLast?_reverse, trimStart] at hc
  have hnot := List.head?_dropWhile_not isWhiteSpace (trimStart s).reverse
  rw [Option.mem_def.mp hc] at hnot
  simpa using hnot

theorem splitWhiteSpace_word (hw : ∀ c ∈ w, isWhiteSpace c = false) : splitWhiteSpace w = [w] := by
  induction w with
  | nil => rfl
  | cons c w ih =>
      obtain ⟨hc, hw⟩ := List.forall_mem_cons.mp hw
      simp [splitWhiteSpace, hc, ih hw]

/-- White space, as one separator. -/
theorem splitWhiteSpace_sep (hsep : ∀ c ∈ sep, isWhiteSpace c = true) (hne : sep ≠ [])
    (hs : ∀ c ∈ s.head?, isWhiteSpace c = false) :
    splitWhiteSpace (sep ++ s) = [] :: splitWhiteSpace s := by
  induction sep with
  | nil => exact absurd rfl hne
  | cons c sep ih =>
      obtain ⟨hc, hsep⟩ := List.forall_mem_cons.mp hsep
      rw [List.cons_append, splitWhiteSpace, if_pos hc]
      cases sep with
      | nil =>
          have hnot : ¬ s.head?.any isWhiteSpace = true := by
            cases hhead : s.head? with
            | none => simp
            | some d => simp [hs d hhead]
          rw [List.nil_append, if_neg hnot]
      | cons d sep =>
          have hd : ((d :: sep ++ s).head?.any isWhiteSpace) = true := hsep d List.mem_cons_self
          rw [if_pos hd]
          exact ih hsep (List.cons_ne_nil _ _)

theorem splitWhiteSpace_append (hw : ∀ c ∈ w, isWhiteSpace c = false)
    (hsep : ∀ c ∈ sep, isWhiteSpace c = true) (hne : sep ≠ [])
    (hs : ∀ c ∈ s.head?, isWhiteSpace c = false) :
    splitWhiteSpace (w ++ (sep ++ s)) = w :: splitWhiteSpace s := by
  induction w with
  | nil => exact splitWhiteSpace_sep hsep hne hs
  | cons c w ih =>
      obtain ⟨hc, hw⟩ := List.forall_mem_cons.mp hw
      simp [splitWhiteSpace, hc, ih hw]

/-- A text is one word, or a word, white space and the rest. -/
theorem exists_word (s : Str) : (∀ c ∈ s, isWhiteSpace c = false) ∨
    ∃ w sep s', s = w ++ (sep ++ s') ∧ (∀ c ∈ w, isWhiteSpace c = false) ∧
      (∀ c ∈ sep, isWhiteSpace c = true) ∧ sep ≠ [] ∧ ∀ c ∈ s'.head?, isWhiteSpace c = false := by
  induction s with
  | nil => exact .inl nofun
  | cons c s ih =>
      cases hc : isWhiteSpace c with
      | true =>
          refine .inr ⟨[], c :: s.takeWhile isWhiteSpace, s.dropWhile isWhiteSpace, ?_, nofun, ?_,
            List.cons_ne_nil _ _, ?_⟩
          · simp
          · exact List.forall_mem_cons.mpr ⟨hc, fun d hd => List.mem_takeWhile_imp hd⟩
          · intro d hd
            have := List.head?_dropWhile_not isWhiteSpace s
            rw [Option.mem_def.mp hd] at this
            simpa using this
      | false =>
          rcases ih with hall | ⟨w, sep, s', rfl, hw, hrest⟩
          · exact .inl (List.forall_mem_cons.mpr ⟨hc, hall⟩)
          · exact .inr ⟨c :: w, sep, s', rfl, List.forall_mem_cons.mpr ⟨hc, hw⟩, hrest⟩

end

/-! ### Numbers -/

/-- `/^\d+$/`. -/
def isDigits (s : Str) : Bool := !s.isEmpty && s.all Char.isDigit

/-- The value of a string of digits. -/
def digitsValue (s : Str) : Nat := s.foldl (fun n c => 10 * n + (c.toNat - '0'.toNat)) 0

/-- The double nearest to `n`, ties to even; `2 ^ 1024` stands for infinity. -/
def toNumber (n : Nat) : Nat :=
  if n < 2 ^ 53 then n
  else
    let ulp := 2 ^ (Nat.log2 n - 52)
    let q := n / ulp
    let r := n % ulp
    let q' := if 2 * r > ulp || (2 * r == ulp && q % 2 == 1) then q + 1 else q
    min (q' * ulp) (2 ^ 1024)

/-- `Number(s)` of a string of digits. -/
def number (s : Str) : Nat := toNumber (digitsValue s)

/-- `Number.parseInt(s, 10)`; `none` is `NaN`. -/
def parseInt (s : Str) : Option Int :=
  match trimStart s with
  | '-' :: s => (unsigned s).map fun n => -(n : Int)
  | '+' :: s => (unsigned s).map fun n => (n : Int)
  | s => (unsigned s).map fun n => (n : Int)
where
  /-- The value of the digits `s` starts with. -/
  unsigned (s : Str) : Option Nat :=
    if (s.takeWhile Char.isDigit).isEmpty then none else some (number (s.takeWhile Char.isDigit))

theorem isDigits_cons {c : Char} {s : Str} (h : isDigits (c :: s)) :
    c.isDigit ∧ ∀ d ∈ c :: s, d.isDigit = true := by
  simp only [isDigits, List.isEmpty_cons, Bool.not_false, Bool.true_and, List.all_eq_true] at h
  exact ⟨h c List.mem_cons_self, h⟩

/-- No digit is white space or a sign. -/
theorem isDigit_bounds {c : Char} (h : c.isDigit) : 48 ≤ c.toNat ∧ c.toNat ≤ 57 := by
  simp only [Char.isDigit, Bool.and_eq_true, decide_eq_true_eq] at h
  exact ⟨h.1, h.2⟩

theorem isWhiteSpace_of_isDigit {c : Char} (h : c.isDigit) : isWhiteSpace c = false := by
  obtain ⟨h₁, h₂⟩ := isDigit_bounds h
  simp only [isWhiteSpace, List.contains_cons, List.contains_nil, Bool.or_false,
    Bool.or_eq_false_iff, Bool.and_eq_false_iff, beq_eq_false_iff_ne, decide_eq_false_iff_not]
  omega

/-- On a string of digits `parseInt` is its value. -/
theorem parseInt_of_isDigits {s : Str} (h : isDigits s) : parseInt s = some (number s : Int) := by
  cases s with
  | nil => simp [isDigits] at h
  | cons c s =>
      obtain ⟨hc, hall⟩ := isDigits_cons h
      have htake : (c :: s).takeWhile Char.isDigit = c :: s := List.takeWhile_eq_self_iff.mpr hall
      have htrim : trimStart (c :: s) = c :: s := by
        simp [trimStart, isWhiteSpace_of_isDigit hc]
      have hminus : c ≠ '-' := fun e => by subst e; exact absurd hc (by decide)
      have hplus : c ≠ '+' := fun e => by subst e; exact absurd hc (by decide)
      have hu : parseInt.unsigned (c :: s) = some (number (c :: s)) := by
        rw [parseInt.unsigned, htake]; rfl
      unfold parseInt
      rw [htrim]
      split
      · rename_i heq; exact absurd (List.cons.inj heq).1 hminus
      · rename_i heq; exact absurd (List.cons.inj heq).1 hplus
      · rw [hu]; rfl

/-! ### Percent escapes -/

/-- A character of the source text, or a byte given by an escape. -/
inductive PercentUnit where
  | raw (c : Char)
  | byte (b : Nat)
  deriving DecidableEq

def hexValue (c : Char) : Option Nat :=
  if c.isDigit then some (c.toNat - '0'.toNat)
  else if 'a' ≤ c ∧ c ≤ 'f' then some (c.toNat - 'a'.toNat + 10)
  else if 'A' ≤ c ∧ c ≤ 'F' then some (c.toNat - 'A'.toNat + 10)
  else none

/-- The text as characters and escaped bytes; `none` at a `%` without two hexadecimal digits. -/
def percentUnits : Str → Option (List PercentUnit)
  | [] => some []
  | '%' :: a :: b :: rest => do
    let hi ← hexValue a
    let lo ← hexValue b
    return .byte (16 * hi + lo) :: (← percentUnits rest)
  | c :: s => if c = '%' then none else do return .raw c :: (← percentUnits s)

/-- The byte `b` is `10xxxxxx`. -/
def isContinuation (b : Nat) : Bool := 0x80 ≤ b && b < 0xC0

/-- The text the units spell, each run of escaped bytes read as UTF-8. -/
def utf8 : List PercentUnit → Option Str
  | [] => some []
  | .raw c :: us => (utf8 us).map (c :: ·)
  | .byte b₀ :: us =>
    if b₀ < 0x80 then (utf8 us).map (Char.ofNat b₀ :: ·)
    else if b₀ < 0xC2 then none
    else if b₀ < 0xE0 then
      match us with
      | .byte b₁ :: us =>
        if isContinuation b₁ then
          (utf8 us).map (Char.ofNat ((b₀ - 0xC0) * 0x40 + (b₁ - 0x80)) :: ·)
        else none
      | _ => none
    else if b₀ < 0xF0 then
      match us with
      | .byte b₁ :: .byte b₂ :: us =>
        let code := (b₀ - 0xE0) * 0x1000 + (b₁ - 0x80) * 0x40 + (b₂ - 0x80)
        if isContinuation b₁ && isContinuation b₂ && 0x800 ≤ code &&
            !(0xD800 ≤ code && code < 0xE000) then
          (utf8 us).map (Char.ofNat code :: ·)
        else none
      | _ => none
    else if b₀ < 0xF8 then
      match us with
      | .byte b₁ :: .byte b₂ :: .byte b₃ :: us =>
        let code :=
          (b₀ - 0xF0) * 0x40000 + (b₁ - 0x80) * 0x1000 + (b₂ - 0x80) * 0x40 + (b₃ - 0x80)
        if isContinuation b₁ && isContinuation b₂ && isContinuation b₃ && 0x10000 ≤ code &&
            code ≤ 0x10FFFF then
          (utf8 us).map (Char.ofNat code :: ·)
        else none
      | _ => none
    else none

/-- `decodeURIComponent(s)`; `none` where it throws. -/
def decodeURIComponent (s : Str) : Option Str := (percentUnits s).bind utf8

theorem percentUnits_of_no_percent {s : Str} (h : '%' ∉ s) :
    percentUnits s = some (s.map .raw) := by
  induction s with
  | nil => rfl
  | cons c s ih =>
      rw [List.mem_cons, not_or] at h
      rw [percentUnits, if_neg (Ne.symm h.1), ih h.2]
      · rfl
      · exact fun _ _ _ e _ => h.1 e.symm

theorem utf8_raw (s : Str) : utf8 (s.map .raw) = some s := by
  induction s with
  | nil => rfl
  | cons c s ih => rw [List.map_cons, utf8, ih]; rfl

/-- A string without `%` decodes to itself. -/
theorem decodeURIComponent_of_no_percent {s : Str} (h : '%' ∉ s) :
    decodeURIComponent s = some s := by
  rw [decodeURIComponent, percentUnits_of_no_percent h, Option.bind_some, utf8_raw]

example : decodeURIComponent "caf%C3%A9%2f".toList = some "café/".toList := by decide +kernel

example : decodeURIComponent "%E0%80%80".toList = none := by decide +kernel

end Js
