import MediumClone.Support.JsReplace

/-!
# Articles — Slug

`createArticleSlug` makes a slug of a title and an id.

The title is decomposed, freed of combining marks and put in lower case; then runs of other
characters than `a`–`z` and `0`–`9` become hyphens, hyphens at the ends go, and the text is cut.
What Unicode decides is a `Unicode`: of it only that it leaves texts of these characters and hyphens
as they are is used.

* `IsBase`: what the last rewrites establish, and every rewrite keeps.
* `slug_format`: the slug is words, a hyphen and the id.
-/

namespace MediumClone.Articles

open Js

/-- What `[^a-z0-9]` leaves out. -/
def isAsciiWord (c : Char) : Bool := c.isLower || c.isDigit

/-- `normalize('NFKD')`, `\p{M}` and `toLowerCase`. -/
structure Unicode where
  normalize : Str → Str
  isMark : Char → Bool
  toLowerCase : Str → Str
  normalize_ascii : ∀ s, (∀ c ∈ s, isAsciiWord c = true ∨ c = '-') → normalize s = s
  isMark_ascii : ∀ c, isAsciiWord c = true ∨ c = '-' → isMark c = false
  toLowerCase_ascii : ∀ s, (∀ c ∈ s, isAsciiWord c = true ∨ c = '-') → toLowerCase s = s

def MAX_SLUG_BASE_LENGTH : ℕ := 80

section

variable (U : Unicode)

def slugBase (title : Str) : Str :=
  let letters := U.toLowerCase ((U.normalize title).filter fun c => !U.isMark c)
  let words := trimEnds '-' (replaceRuns (fun c => !isAsciiWord c) '-' letters)
  trimEnd '-' (words.take MAX_SLUG_BASE_LENGTH)

/-- `id` is what `createId` returns. -/
def createArticleSlug (title id : Str) : Str :=
  let base := slugBase U title
  (if base.isEmpty then "article".toList else base) ++ '-' :: id

end

/-! ### Bases -/

structure IsBase (base : Str) : Prop where
  neat : Neat isAsciiWord '-' base
  head : ∀ c ∈ base.head?, c ≠ '-'
  last : ∀ c ∈ base.getLast?, c ≠ '-'
  length_le : base.length ≤ MAX_SLUG_BASE_LENGTH

variable {U : Unicode} {title base : Str}

/-- The cut keeps the start, and the hyphen it may leave at the end goes. -/
theorem isBase_slugBase (title : Str) : IsBase (slugBase U title) := by
  rw [slugBase]
  set letters := U.toLowerCase ((U.normalize title).filter fun c => !U.isMark c)
  have hneat : Neat isAsciiWord '-' (replaceRuns (fun c => !isAsciiWord c) '-' letters) :=
    neat_replaceRuns (fun c hc => by
      have hword : isAsciiWord c = true := by simpa using hc
      exact ⟨hword, ne_of_apply_ne isAsciiWord (by rw [hword]; decide)⟩) letters
  set words := trimEnds '-' (replaceRuns (fun c => !isAsciiWord c) '-' letters)
  have hcut : trimEnd '-' (words.take MAX_SLUG_BASE_LENGTH) <+: words :=
    trimEnd_isPrefix.trans (List.take_prefix _ _)
  exact ⟨hneat.part (hcut.isInfix.trans trimEnds_isInfix),
    fun c hc => head?_trimEnds c (head?_of_isPrefix hcut c hc), getLast?_trimEnd,
    trimEnd_isPrefix.length_le.trans (List.length_take_le _ _)⟩

/-- Every rewrite leaves a base as it is. -/
theorem slugBase_eq_self (h : IsBase base) : slugBase U base = base := by
  have hmarks : base.filter (fun c => !U.isMark c) = base :=
    List.filter_eq_self.mpr fun c hc => by simp [U.isMark_ascii c (h.neat.chars c hc)]
  have hruns : replaceRuns (fun c => !isAsciiWord c) '-' base = base :=
    replaceRuns_eq_self h.neat (by simp)
  rw [slugBase, U.normalize_ascii base h.neat.chars, hmarks, U.toLowerCase_ascii base h.neat.chars,
    hruns, trimEnds_eq_self h.head h.last, List.take_of_length_le h.length_le,
    trimEnd_eq_self h.last]

theorem isBase_article : IsBase "article".toList where
  neat := ⟨fun c hc => .inl (List.all_eq_true.mp rfl c hc), by decide⟩
  head c hc := by
    cases hc
    decide
  last c hc := by
    cases hc
    decide
  length_le := by decide

theorem createArticleSlug_eq (hbase : slugBase U title = base) (hne : base ≠ []) (id : Str) :
    createArticleSlug U title id = base ++ '-' :: id := by
  rw [createArticleSlug, hbase, if_neg (by simpa using hne)]

/-- One base for every id. -/
theorem exists_base (U : Unicode) (title : Str) :
    ∃ base, IsBase base ∧ base ≠ [] ∧ ∀ id, createArticleSlug U title id = base ++ '-' :: id := by
  by_cases hempty : slugBase U title = []
  · refine ⟨"article".toList, isBase_article, by decide, fun id => ?_⟩
    rw [createArticleSlug, hempty]
    rfl
  · exact ⟨slugBase U title, isBase_slugBase title, hempty, createArticleSlug_eq rfl hempty⟩

/-- **Slugs.**  A base of up to eighty characters, words with single hyphens, which is its own base;
and slugs with ids of one length tell the ids. -/
theorem slug_format (U : Unicode) :
    (∀ title, ∃ base : Str, (∀ id, createArticleSlug U title id = base ++ '-' :: id) ∧
      1 ≤ base.length ∧ base.length ≤ 80 ∧ Joined isAsciiWord '-' base ∧
      ∀ id, createArticleSlug U base id = base ++ '-' :: id) ∧
    ∀ title title' id id', length16 id = length16 id' →
      createArticleSlug U title id = createArticleSlug U title' id' → id = id' := by
  constructor
  · intro title
    obtain ⟨base, hbase, hne, hslug⟩ := exists_base U title
    exact ⟨base, hslug, List.length_pos_iff.mpr hne, hbase.length_le,
      joined_of_neat hbase.neat hne hbase.head hbase.last,
      createArticleSlug_eq (slugBase_eq_self hbase) hne⟩
  · intro title title' id id' hlen heq
    obtain ⟨base, -, -, hslug⟩ := exists_base U title
    obtain ⟨base', -, -, hslug'⟩ := exists_base U title'
    rw [hslug, hslug', List.append_cons, List.append_cons base'] at heq
    exact append_inj_length16 hlen heq

theorem toLower_eq_self {c : Char} (h : isAsciiWord c = true ∨ c = '-') : c.toLower = c := by
  have hupper : ¬ (c.val ≥ 'A'.val ∧ c.val ≤ 'Z'.val) := by
    rcases h with hword | rfl
    · have hZ : 'Z'.val.toNat = 90 := rfl
      have ha : 'a'.val.toNat = 97 := rfl
      have hA : 'A'.val.toNat = 65 := rfl
      have h9 : '9'.val.toNat = 57 := rfl
      change ((decide (c.val ≥ 'a'.val) && decide (c.val ≤ 'z'.val)) ||
        (decide (c.val ≥ '0'.val) && decide (c.val ≤ '9'.val))) = true at hword
      simp only [Bool.or_eq_true, Bool.and_eq_true, decide_eq_true_eq, ge_iff_le,
        UInt32.le_iff_toNat_le] at hword ⊢
      omega
    · decide
  exact dif_neg hupper

/-- As texts of ASCII characters have it. -/
def asciiUnicode : Unicode where
  normalize := id
  isMark _ := false
  toLowerCase := List.map Char.toLower
  normalize_ascii _ _ := rfl
  isMark_ascii _ _ := rfl
  toLowerCase_ascii s hs :=
    (List.map_congr_left fun c hc => toLower_eq_self (hs c hc)).trans (List.map_id s)

example : createArticleSlug asciiUnicode " Hello,  World!".toList "1f".toList =
    "hello-world-1f".toList := by decide

end MediumClone.Articles
