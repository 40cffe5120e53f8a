import MediumClone.Filters.ApiException
import MediumClone.Validation.Dtos

/-!
# Validation — Pipe

What the global `ValidationPipe` (`configureGlobalRequestHandling`) makes of a request body: the
instance that the service is given, or the validation errors of a `BadRequestException`.

A body class has one property, for a nested instance (`RequestDto`).  The trees of errors are those
of `class-validator`: names that the class has not, then the constraints that are broken, decorators
read from below, and the errors of nested values; nodes without either are left out (`errorOf`).

An array is validated item by item.  Only a class without `@IsObject` lets one through:
`accepts_or_array_of_pipe`, `accepts_of_pipe`.
-/

namespace MediumClone.Validation
open Js
open Filters (Exception ValidationError Constraints)

/-- What the pipe takes from its libraries. -/
structure Libraries where
  isEmail : Str → Bool
  /-- Names that are not reported although no class has them: those that the pipe removes, and some
  that every object inherits. -/
  unreported : Str → Bool
  /-- The text for a constraint that a property breaks. -/
  message : Str → Str → Str

/-! ### Validation errors -/

/-- What a `BadRequestException` of the global pipe holds. -/
structure ValidationErrors where
  trees : List ValidationError
  ordinary : Filters.OrdinaryAll trees
  constrained : 0 < Filters.constraintCountAll trees

/-- What the global pipe makes of a parameter. -/
abbrev Piped (α : Type) := Except ValidationErrors α

def ValidationErrors.exception (errors : ValidationErrors) : Exception :=
  Filters.BadRequestException (Filters.toJsAll errors.trees)

/-- The instance, unless a constraint does not hold. -/
def validate {α : Type} (trees : List ValidationError) (h : Filters.OrdinaryAll trees) (value : α) :
    Piped α :=
  if hsome : 0 < Filters.constraintCountAll trees then .error ⟨trees, h, hsome⟩ else .ok value

/-- The error of a property or an item, if there is one. -/
def errorOf (property : Str) : Constraints → List ValidationError → List ValidationError
  | [], [] => []
  | [], children => [.node property none children]
  | constraints, children => [.node property (some constraints) children]

section

variable {α : Type} {value value' : α} {trees trees' : List ValidationError} {property : Str}
  {constraints : Constraints}

theorem ordinaryAll_append (h : Filters.OrdinaryAll trees) (h' : Filters.OrdinaryAll trees') :
    Filters.OrdinaryAll (trees ++ trees') := by
  induction trees with
  | nil => exact h'
  | cons tree trees ih => exact ⟨h.1, ih h.2⟩

theorem ordinaryAll_map {f : α → ValidationError} {l : List α} (h : ∀ x ∈ l, (f x).Ordinary) :
    Filters.OrdinaryAll (l.map f) := by
  induction l with
  | nil => trivial
  | cons x l ih =>
      obtain ⟨hx, hl⟩ := List.forall_mem_cons.mp h
      exact ⟨hx, ih hl⟩

theorem ordinaryAll_flatMap {f : α → List ValidationError} {l : List α}
    (h : ∀ x ∈ l, Filters.OrdinaryAll (f x)) : Filters.OrdinaryAll (l.flatMap f) := by
  induction l with
  | nil => trivial
  | cons x l ih =>
      obtain ⟨hx, hl⟩ := List.forall_mem_cons.mp h
      exact ordinaryAll_append hx (ih hl)

theorem ordinaryAll_errorOf (h : property ≠ Record.PROTO) (htrees : Filters.OrdinaryAll trees) :
    Filters.OrdinaryAll (errorOf property constraints trees) := by
  unfold errorOf
  split
  · trivial
  · exact ⟨⟨h, htrees⟩, trivial⟩
  · exact ⟨⟨h, htrees⟩, trivial⟩

theorem constraintCountAll_append : Filters.constraintCountAll (trees ++ trees') =
    Filters.constraintCountAll trees + Filters.constraintCountAll trees' := by
  induction trees with
  | nil => simp [Filters.constraintCountAll]
  | cons tree trees ih => simp [Filters.constraintCountAll, ih, Nat.add_assoc]

theorem constraintCountAll_flatMap {f : α → List ValidationError} {l : List α}
    (h : Filters.constraintCountAll (l.flatMap f) = 0) :
    ∀ x ∈ l, Filters.constraintCountAll (f x) = 0 := by
  induction l with
  | nil => exact fun _ hx => absurd hx List.not_mem_nil
  | cons x l ih =>
      rw [List.flatMap_cons, constraintCountAll_append, Nat.add_eq_zero_iff] at h
      exact List.forall_mem_cons.mpr ⟨h.1, ih h.2⟩

theorem validate_ok {h : Filters.OrdinaryAll trees} (hok : validate trees h value = .ok value') :
    Filters.constraintCountAll trees = 0 ∧ value' = value := by
  rw [validate] at hok
  split at hok
  · cases hok
  · rename_i hnone
    cases hok
    exact ⟨Nat.eq_zero_of_not_pos hnone, rfl⟩

/-- Where no constraint is broken in a node, there is none of its own and none below it. -/
theorem errorOf_count (h : Filters.constraintCountAll (errorOf property constraints trees) = 0) :
    constraints = [] ∧ Filters.constraintCountAll trees = 0 := by
  unfold errorOf at h
  split at h
  · exact ⟨rfl, rfl⟩
  · exact ⟨rfl, (Nat.add_eq_zero_iff.mp (Nat.add_eq_zero_iff.mp h).1).2⟩
  · have hown := Nat.add_eq_zero_iff.mp (Nat.add_eq_zero_iff.mp h).1
    exact ⟨List.length_eq_zero_iff.mp hown.1, hown.2⟩

end

/-! ### Instances -/

/-- The name of a decorator's constraint. -/
def Rule.constraint : Rule → Str
  | .isString => "isString".toList
  | .isNotEmpty => Filters.NOT_EMPTY_CONSTRAINT
  | .isEmail => "isEmail".toList
  | .isArray => "isArray".toList
  | .length _ _ => "isLength".toList
  | .maxLength _ => "maxLength".toList
  | .matchesNonSpace => "matches".toList

section

variable (lib : Libraries)

def Libraries.constraint (property name : Str) : Str × Str := (name, lib.message property name)

/-- The constraints that a property breaks. -/
def Property.broken (p : Property) (body : JsValue) : Constraints :=
  if p.validateIf (p.value body) then
    (p.decorators.reverse.filter fun d => !d.holds lib.isEmail (p.value body)).map fun d =>
      lib.constraint p.name d.rule.constraint
  else []

/-- `whitelist` with `forbidNonWhitelisted`: the keys that are none of the names. -/
def whitelistErrors (names keys : List Str) : List ValidationError :=
  (keys.filter fun key => key ≠ Record.PROTO && !names.contains key && !lib.unreported key).map
    fun key => .leaf key (some [("whitelistValidation".toList,
      "property ".toList ++ key ++ " should not exist".toList)])

/-- The errors of an instance. -/
def dtoErrors (dto : Dto) (entries : List (Str × JsValue)) : List ValidationError :=
  whitelistErrors lib (dto.map (·.name)) (entries.map Prod.fst) ++
    dto.flatMap fun p => errorOf p.name (p.broken lib (.object entries)) []

/-- The class of a body, whose property is validated with `@IsDefined` and `@ValidateNested`. -/
structure RequestDto where
  name : Str
  /-- Whether the property has `@IsObject` too. -/
  isObject : Bool
  dto : Dto
  ordinary : name ≠ Record.PROTO ∧ ∀ p ∈ dto, p.name ≠ Record.PROTO

mutual

/-- `nestedValidations`: what a value breaks, and the errors below it. -/
def nestedValidations (request : RequestDto) : JsValue → Constraints × List ValidationError
  | .undefined | .null => ([], [])
  | .array items => ([], itemErrors request items 0)
  | .object entries => ([], dtoErrors lib request.dto entries)
  | .bool _ | .number _ | .string _ | .other =>
    ([lib.constraint request.name "nestedValidation".toList], [])

/-- The errors of the items from `index` on. -/
def itemErrors (request : RequestDto) : List JsValue → ℕ → List ValidationError
  | [], _ => []
  | item :: items, index =>
    errorOf (Nat.toDigits 10 index) (nestedValidations request item).1
        (nestedValidations request item).2 ++
      itemErrors request items (index + 1)

end

namespace RequestDto

variable (request : RequestDto)

/-- The constraints that the value of the property breaks. -/
def broken (value : JsValue) : Constraints :=
  (if isGiven value then [] else [lib.constraint request.name "isDefined".toList]) ++
    ((if request.isObject ∧ Validation.isObject value = false then
        [lib.constraint request.name "isObject".toList] else []) ++
      (nestedValidations lib request value).1)

/-- The errors of a body. -/
def errors (body : JsValue) : List ValidationError :=
  whitelistErrors lib [request.name] ((Filters.objectEntries body).map Prod.fst) ++
    errorOf request.name (request.broken lib (body.get request.name))
      (nestedValidations lib request (body.get request.name)).2

end RequestDto

end

/-! ### What is reported -/

section

variable {lib : Libraries} {request : RequestDto} {p : Property} {body value : JsValue}
  {entries : List (Str × JsValue)} {names keys : List Str} {dto : Dto}

theorem toDigits_ne_proto (index : ℕ) : Nat.toDigits 10 index ≠ Record.PROTO := by
  intro h
  have hmem : '_' ∈ Nat.toDigits 10 index := by
    rw [h]
    decide
  have hdigit : '_'.isDigit := Nat.isDigit_of_mem_toDigits (by decide) (by decide) hmem
  revert hdigit
  decide

theorem ordinaryAll_whitelistErrors : Filters.OrdinaryAll (whitelistErrors lib names keys) := by
  refine ordinaryAll_map fun key hkey => ?_
  have hkept := (List.mem_filter.mp hkey).2
  rw [Bool.and_eq_true, Bool.and_eq_true] at hkept
  have hne : key ≠ Record.PROTO := of_decide_eq_true hkept.1.1
  exact hne

theorem ordinaryAll_dtoErrors (h : ∀ p ∈ dto, p.name ≠ Record.PROTO) :
    Filters.OrdinaryAll (dtoErrors lib dto entries) :=
  ordinaryAll_append ordinaryAll_whitelistErrors <|
    ordinaryAll_flatMap fun p hp => ordinaryAll_errorOf (h p hp) trivial

mutual

theorem ordinaryAll_nestedValidations : ∀ value : JsValue,
    Filters.OrdinaryAll (nestedValidations lib request value).2
  | .array items => ordinaryAll_itemErrors items 0
  | .object _ => ordinaryAll_dtoErrors request.ordinary.2
  | .undefined | .null | .bool _ | .number _ | .string _ | .other => trivial

theorem ordinaryAll_itemErrors : ∀ (items : List JsValue) (index : ℕ),
    Filters.OrdinaryAll (itemErrors lib request items index)
  | [], _ => trivial
  | item :: items, index =>
    ordinaryAll_append (ordinaryAll_errorOf (toDigits_ne_proto index)
      (ordinaryAll_nestedValidations item)) (ordinaryAll_itemErrors items (index + 1))

end

theorem ordinaryAll_errors : Filters.OrdinaryAll (request.errors lib body) :=
  ordinaryAll_append ordinaryAll_whitelistErrors <|
    ordinaryAll_errorOf request.ordinary.1 (ordinaryAll_nestedValidations _)

/-- The value of the property, or the errors of the body. -/
def RequestDto.pipe (lib : Libraries) (request : RequestDto) (body : JsValue) : Piped JsValue :=
  validate (request.errors lib body) ordinaryAll_errors (body.get request.name)

/-! ### What is let through -/

/-- A property that breaks nothing is accepted. -/
theorem accepts_of_broken (h : p.broken lib body = []) : p.accepts lib.isEmail body = true := by
  rw [Property.accepts, Bool.or_eq_true, Bool.not_eq_true']
  by_cases hif : p.validateIf (p.value body) = true
  · rw [Property.broken, if_pos hif, List.map_eq_nil_iff, List.filter_eq_nil_iff] at h
    refine .inr (List.all_eq_true.mpr fun d hd => ?_)
    simpa using h d (List.mem_reverse.mpr hd)
  · exact .inl (Bool.eq_false_iff.mpr hif)

/-- An instance without errors is accepted. -/
theorem accepts_of_dtoErrors (h : Filters.constraintCountAll (dtoErrors lib dto entries) = 0) :
    accepts lib.isEmail dto (.object entries) = true := by
  rw [dtoErrors, constraintCountAll_append, Nat.add_eq_zero_iff] at h
  refine Bool.and_eq_true_iff.mpr ⟨rfl, List.all_eq_true.mpr fun p hp => ?_⟩
  exact accepts_of_broken (errorOf_count (constraintCountAll_flatMap h.2 p hp)).1

/-- **What the pipe lets through** is an accepted instance, or an array in a class without
`@IsObject`. -/
theorem accepts_or_array_of_pipe (h : request.pipe lib body = .ok value) :
    accepts lib.isEmail request.dto value = true ∨
      request.isObject = false ∧ ∃ items, value = .array items := by
  obtain ⟨hcount, rfl⟩ := validate_ok h
  rw [RequestDto.errors, constraintCountAll_append, Nat.add_eq_zero_iff] at hcount
  obtain ⟨hbroken, hchildren⟩ := errorOf_count hcount.2
  rw [RequestDto.broken, List.append_eq_nil_iff, List.append_eq_nil_iff] at hbroken
  obtain ⟨hdefined, hobject, hnested⟩ := hbroken
  cases hvalue : body.get request.name with
  | object entries =>
      rw [hvalue] at hchildren
      exact .inl (accepts_of_dtoErrors hchildren)
  | array items =>
      -- its items may be instances, and nothing but `@IsObject` refuses it
      refine .inr ⟨?_, items, rfl⟩
      cases hflag : request.isObject with
      | false => rfl
      | true =>
          rw [hvalue, if_pos ⟨hflag, rfl⟩] at hobject
          cases hobject
  | undefined | null =>
      -- `@IsDefined`
      rw [hvalue] at hdefined
      cases hdefined
  | bool | number | string | other =>
      -- `@ValidateNested`
      rw [hvalue] at hnested
      cases hnested

/-- With `@IsObject` it is an accepted instance. -/
theorem accepts_of_pipe (hobject : request.isObject = true)
    (h : request.pipe lib body = .ok value) : accepts lib.isEmail request.dto value = true := by
  refine (accepts_or_array_of_pipe h).resolve_right ?_
  rintro ⟨hnot, -⟩
  rw [hobject] at hnot
  cases hnot

end

/-! ### The classes -/

def CreateArticleRequestDto : RequestDto where
  name := "article".toList
  isObject := false
  dto := NewArticleDto
  ordinary := by decide

def ArticleUpdateRequestDto : RequestDto where
  name := "article".toList
  isObject := true
  dto := ArticleUpdateDto
  ordinary := by decide

def CreateCommentRequestDto : RequestDto where
  name := "comment".toList
  isObject := true
  dto := NewCommentDto
  ordinary := by decide

/-- What the service is given for `request.article`; `none` where this is an array, of which it
reads no property. -/
def CreateArticleRequestDto.read (lib : Libraries) (body : JsValue) :
    Piped (Option Articles.NewArticle) :=
  (CreateArticleRequestDto.pipe lib body).map newArticle

def ArticleUpdateRequestDto.read (lib : Libraries) (body : JsValue) :
    Piped Articles.ArticleUpdate :=
  match h : ArticleUpdateRequestDto.pipe lib body with
  | .error errors => .error errors
  | .ok article => .ok <| (articleUpdate article).get <|
      Option.isSome_iff_exists.mpr (articleUpdate_of_accepts (accepts_of_pipe rfl h))

def CreateCommentRequestDto.read (lib : Libraries) (body : JsValue) : Piped Str :=
  match h : CreateCommentRequestDto.pipe lib body with
  | .error errors => .error errors
  | .ok comment => .ok <| (newComment comment).get <|
      Option.isSome_iff_exists.mpr (newComment_of_accepts (accepts_of_pipe rfl h))

/-- An article that is let through is read, unless it is an array. -/
theorem array_of_read {lib : Libraries} {body : JsValue}
    (h : CreateArticleRequestDto.read lib body = .ok none) :
    ∃ items, body.get "article".toList = .array items := by
  rw [CreateArticleRequestDto.read] at h
  cases hpipe : CreateArticleRequestDto.pipe lib body with
  | error errors =>
      rw [hpipe] at h
      cases h
  | ok article =>
      rw [hpipe] at h
      obtain rfl : article = _ := (validate_ok hpipe).2
      rcases accepts_or_array_of_pipe hpipe with haccepts | ⟨-, harray⟩
      · obtain ⟨request, hrequest⟩ := newArticle_of_accepts haccepts
        rw [Except.map, hrequest] at h
        cases h
      · exact harray

end MediumClone.Validation
