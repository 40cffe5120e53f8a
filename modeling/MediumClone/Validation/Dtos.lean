import MediumClone.Support.JsValue
import MediumClone.Articles.Writes
import MediumClone.Users.UserRow

/-!
# Validation — Dtos

The request bodies that the decorators of `src/common/dto` accept, and what the services read of
them.

A body is the object that the pipe makes an instance of the class of: the value of `user`,
`article` or `comment`.  `Property.value` is the property of the instance, which `@Transform` has
changed, and `accepts` checks it.  Lengths are in characters, as PostgreSQL counts them; the
`Length` and `MaxLength` of the source would leave variation selectors out.  `isEmail` is a
parameter.

An accepted body is of the type that the service declares: `registerRequest_of_accepts`,
`updateUserRequest_of_accepts`, `newArticle_of_accepts`, `articleUpdate_of_accepts` and
`newComment_of_accepts`.
-/

namespace MediumClone.Validation
open Js

/-! ### Decorators -/

inductive Rule where
  | isString
  | isNotEmpty
  | isEmail
  | isArray
  | length (min max : ℕ)
  | maxLength (max : ℕ)
  /-- `Matches(/\S/)`. -/
  | matchesNonSpace

/-- A decorator, possibly with `{ each: true }`. -/
structure Decorator where
  rule : Rule
  each : Bool := false

structure Property where
  name : Str
  transform : JsValue → JsValue := id
  validateIf : JsValue → Bool := fun _ => true
  decorators : List Decorator

abbrev Dto := List Property

/-- The property of the instance. -/
def Property.value (p : Property) (body : JsValue) : JsValue := p.transform (body.get p.name)

def notUndefined : JsValue → Bool
  | .undefined => false
  | _ => true

def isObject : JsValue → Bool
  | .object _ => true
  | _ => false

section

variable (isEmail : Str → Bool)

def Rule.holds : Rule → JsValue → Bool
  | .isString, .string _ => true
  | .isNotEmpty, .string s => !s.isEmpty
  | .isNotEmpty, .undefined => false
  | .isNotEmpty, .null => false
  | .isNotEmpty, _ => true
  | .isEmail, .string s => isEmail s
  | .isArray, .array _ => true
  | .length min max, .string s => min ≤ s.length && s.length ≤ max
  | .maxLength max, .string s => s.length ≤ max
  | .matchesNonSpace, .string s => s.any fun c => !isWhiteSpace c
  | _, _ => false

/-- With `{ each: true }` an array is checked item by item. -/
def Decorator.holds (d : Decorator) (value : JsValue) : Bool :=
  match d.each, value with
  | true, .array items => items.all (d.rule.holds isEmail)
  | _, _ => d.rule.holds isEmail value

def Property.accepts (p : Property) (body : JsValue) : Bool :=
  !p.validateIf (p.value body) || p.decorators.all (·.holds isEmail (p.value body))

def accepts (dto : Dto) (body : JsValue) : Bool := isObject body && dto.all (·.accepts isEmail body)

end

/-! ### The classes -/

/-- `value === '' ? null : value`. -/
def nullIfEmpty : JsValue → JsValue
  | .string [] => .null
  | value => value

/-- `typeof value === 'string' ? value.trim() : value`. -/
def trimIfString : JsValue → JsValue
  | .string s => .string (trim s)
  | value => value

/-- `value !== undefined && value !== null`. -/
def isGiven : JsValue → Bool
  | .undefined | .null => false
  | _ => true

namespace RegisterUserDto

def username : Property where
  name := "username".toList
  decorators := [⟨.isString, false⟩, ⟨.isNotEmpty, false⟩, ⟨.length 1 64, false⟩]

def email : Property where
  name := "email".toList
  decorators := [⟨.isString, false⟩, ⟨.isNotEmpty, false⟩, ⟨.isEmail, false⟩,
    ⟨.length 1 254, false⟩]

def password : Property where
  name := "password".toList
  decorators := [⟨.isString, false⟩, ⟨.isNotEmpty, false⟩, ⟨.length 8 128, false⟩]

end RegisterUserDto

open RegisterUserDto in
def RegisterUserDto : Dto := [username, email, password]

/-- A property of a profile: `UpdateUserDto` limits no length. -/
def profileProperty (name : String) : Property where
  name := name.toList
  transform := nullIfEmpty
  validateIf := isGiven
  decorators := [⟨.isString, false⟩]

namespace UpdateUserDto

def bio : Property := profileProperty "bio"

def image : Property := profileProperty "image"

end UpdateUserDto

open UpdateUserDto in
def UpdateUserDto : Dto := [bio, image]

/-- A text that is required and not blank. -/
def textProperty (name : String) : Property where
  name := name.toList
  decorators := [⟨.isString, false⟩, ⟨.isNotEmpty, false⟩, ⟨.matchesNonSpace, false⟩]

/-- A text that may be left out. -/
def optionalTextProperty (name : String) : Property where
  name := name.toList
  validateIf := notUndefined
  decorators := [⟨.isString, false⟩]

/-- `tagList`, of both classes. -/
def tagList : Property where
  name := "tagList".toList
  validateIf := notUndefined
  decorators := [⟨.isArray, false⟩, ⟨.isString, true⟩, ⟨.matchesNonSpace, true⟩]

namespace NewArticleDto

def title : Property := textProperty "title"

def description : Property := textProperty "description"

def body : Property := textProperty "body"

end NewArticleDto

open NewArticleDto in
def NewArticleDto : Dto := [title, description, body, tagList]

namespace ArticleUpdateDto

def title : Property := optionalTextProperty "title"

def description : Property := optionalTextProperty "description"

def body : Property := optionalTextProperty "body"

end ArticleUpdateDto

open ArticleUpdateDto in
def ArticleUpdateDto : Dto := [title, description, body, tagList]

def COMMENT_BODY_MAX_LENGTH : ℕ := 10000

namespace NewCommentDto

def body : Property where
  name := "body".toList
  transform := trimIfString
  decorators :=
    [⟨.isString, false⟩, ⟨.isNotEmpty, false⟩, ⟨.maxLength COMMENT_BODY_MAX_LENGTH, false⟩]

end NewCommentDto

def NewCommentDto : Dto := [NewCommentDto.body]

/-! ### What the services read -/

def asString : JsValue → Option Str
  | .string s => some s
  | _ => none

def asStrings : JsValue → Option (List Str)
  | .array items => items.mapM asString
  | _ => none

def orUndefined {α : Type} (read : JsValue → Option α) : JsValue → Option (Option α)
  | .undefined => some none
  | value => (read value).map some

def orNull {α : Type} (read : JsValue → Option α) : JsValue → Option (Option α)
  | .null => some none
  | value => (read value).map some

structure RegisterRequest where
  username : Str
  email : Str
  password : Str

def registerRequest (body : JsValue) : Option RegisterRequest := do
  let username ← asString (RegisterUserDto.username.value body)
  let email ← asString (RegisterUserDto.email.value body)
  let password ← asString (RegisterUserDto.password.value body)
  pure ⟨username, email, password⟩

def updateUserRequest (body : JsValue) : Option Users.UpdateUserRequest := do
  let bio ← orUndefined (orNull asString) (UpdateUserDto.bio.value body)
  let image ← orUndefined (orNull asString) (UpdateUserDto.image.value body)
  pure ⟨bio, image⟩

def newArticle (body : JsValue) : Option Articles.NewArticle := do
  let title ← asString (NewArticleDto.title.value body)
  let description ← asString (NewArticleDto.description.value body)
  let text ← asString (NewArticleDto.body.value body)
  let tags ← orUndefined asStrings (tagList.value body)
  pure ⟨title, description, text, tags⟩

def articleUpdate (body : JsValue) : Option Articles.ArticleUpdate := do
  let title ← orUndefined asString (ArticleUpdateDto.title.value body)
  let description ← orUndefined asString (ArticleUpdateDto.description.value body)
  let text ← orUndefined asString (ArticleUpdateDto.body.value body)
  let tags ← orUndefined asStrings (tagList.value body)
  pure ⟨title, description, text, tags⟩

/-- The text of a comment. -/
def newComment (body : JsValue) : Option Str := asString (NewCommentDto.body.value body)

/-! ### Accepted bodies -/

section

variable {isEmail : Str → Bool} {body : JsValue} {p : Property} {dto : Dto}

theorem accepts_of_mem (h : accepts isEmail dto body = true) (hp : p ∈ dto) :
    p.accepts isEmail body = true :=
  List.all_eq_true.mp (Bool.and_eq_true_iff.mp h).2 p hp

theorem holds_of_accepts (h : p.accepts isEmail body = true)
    (hif : p.validateIf (p.value body) = true) {d : Decorator} (hd : d ∈ p.decorators) :
    d.holds isEmail (p.value body) = true := by
  rw [Property.accepts, hif, Bool.not_true, Bool.false_or] at h
  exact List.all_eq_true.mp h d hd

theorem notUndefined_of_ne {value : JsValue} (h : value ≠ .undefined) :
    notUndefined value = true := by
  cases value with
  | undefined => exact absurd rfl h
  | _ => rfl

theorem isGiven_of_ne {value : JsValue} (h : value ≠ .undefined) (h' : value ≠ .null) :
    isGiven value = true := by
  cases value with
  | undefined => exact absurd rfl h
  | null => exact absurd rfl h'
  | _ => rfl

section Read

variable {α : Type} {read : JsValue → Option α} {value : JsValue}

theorem exists_orUndefined (h : value ≠ .undefined → ∃ x, read value = some x) :
    ∃ x, orUndefined read value = some x := by
  by_cases hundefined : value = .undefined
  · exact ⟨none, by rw [hundefined]; rfl⟩
  · obtain ⟨x, hx⟩ := h hundefined
    refine ⟨some x, ?_⟩
    rw [orUndefined, hx]
    · rfl
    · exact hundefined

theorem exists_orNull (h : value ≠ .null → ∃ x, read value = some x) :
    ∃ x, orNull read value = some x := by
  by_cases hnull : value = .null
  · exact ⟨none, by rw [hnull]; rfl⟩
  · obtain ⟨x, hx⟩ := h hnull
    refine ⟨some x, ?_⟩
    rw [orNull, hx]
    · rfl
    · exact hnull

end Read

/-- A text that is checked. -/
theorem string_of_accepts (h : p.accepts isEmail body = true)
    (hif : p.validateIf (p.value body) = true) (hd : ⟨.isString, false⟩ ∈ p.decorators) :
    ∃ s, p.value body = .string s := by
  have hstring := holds_of_accepts h hif hd
  cases hvalue : p.value body with
  | string s => exact ⟨s, rfl⟩
  | _ => rw [hvalue] at hstring; cases hstring

theorem asString_of_accepts (h : p.accepts isEmail body = true)
    (hif : p.validateIf (p.value body) = true) (hd : ⟨.isString, false⟩ ∈ p.decorators) :
    ∃ s, asString (p.value body) = some s := by
  obtain ⟨s, hs⟩ := string_of_accepts h hif hd
  exact ⟨s, by rw [hs]; rfl⟩

theorem mapM_asString {items : List JsValue}
    (h : ∀ item ∈ items, Rule.isString.holds isEmail item = true) :
    ∃ texts, items.mapM asString = some texts := by
  induction items with
  | nil => exact ⟨[], rfl⟩
  | cons item items ih =>
      obtain ⟨hitem, hitems⟩ := List.forall_mem_cons.mp h
      obtain ⟨texts, htexts⟩ := ih hitems
      cases item with
      | string s => exact ⟨s :: texts, by rw [List.mapM_cons, htexts]; rfl⟩
      | _ => cases hitem

theorem tagList_of_accepts (h : tagList.accepts isEmail body = true) :
    ∃ tags, orUndefined asStrings (tagList.value body) = some tags := by
  refine exists_orUndefined fun hne => ?_
  have hgiven := notUndefined_of_ne hne
  have harray : Rule.isArray.holds isEmail (tagList.value body) = true :=
    holds_of_accepts h hgiven (.head _)
  have hall := holds_of_accepts h hgiven (.tail _ (.head _))
  cases hvalue : tagList.value body with
  | array items =>
      rw [hvalue] at hall
      exact mapM_asString (List.all_eq_true.mp hall)
  | _ => rw [hvalue] at harray; cases harray

/-- A text that may be left out. -/
theorem optional_of_accepts {name : String}
    (h : (optionalTextProperty name).accepts isEmail body = true) :
    ∃ text, orUndefined asString ((optionalTextProperty name).value body) = some text :=
  exists_orUndefined fun hne => asString_of_accepts h (notUndefined_of_ne hne) (.head _)

/-- A property of a profile. -/
theorem profile_of_accepts {name : String}
    (h : (profileProperty name).accepts isEmail body = true) :
    ∃ text, orUndefined (orNull asString) ((profileProperty name).value body) = some text :=
  exists_orUndefined fun hne => exists_orNull fun hne' =>
    asString_of_accepts h (isGiven_of_ne hne hne') (.head _)

theorem length_le_of_accepts {min max : ℕ} {s : Str} (h : p.accepts isEmail body = true)
    (hif : p.validateIf (p.value body) = true) (hd : ⟨.length min max, false⟩ ∈ p.decorators)
    (hs : p.value body = .string s) : s.length ≤ max := by
  have hlength := holds_of_accepts h hif hd
  rw [hs] at hlength
  exact of_decide_eq_true (Bool.and_eq_true_iff.mp hlength).2

/-! ### Accepted bodies have the types of the services -/

theorem registerRequest_of_accepts (h : accepts isEmail RegisterUserDto body = true) :
    ∃ request, registerRequest body = some request ∧
      request.username.length ≤ 64 ∧ request.email.length ≤ 254 := by
  have husername := accepts_of_mem h (.head _)
  have hemail := accepts_of_mem h (.tail _ (.head _))
  have hpassword := accepts_of_mem h (.tail _ (.tail _ (.head _)))
  obtain ⟨username, hu⟩ := string_of_accepts husername rfl (.head _)
  obtain ⟨email, he⟩ := string_of_accepts hemail rfl (.head _)
  obtain ⟨password, hp⟩ := string_of_accepts hpassword rfl (.head _)
  refine ⟨⟨username, email, password⟩, by rw [registerRequest, hu, he, hp]; rfl, ?_, ?_⟩
  · exact length_le_of_accepts husername rfl (.tail _ (.tail _ (.head _))) hu
  · exact length_le_of_accepts hemail rfl (.tail _ (.tail _ (.tail _ (.head _)))) he

theorem updateUserRequest_of_accepts (h : accepts isEmail UpdateUserDto body = true) :
    ∃ request, updateUserRequest body = some request := by
  obtain ⟨bio, hbio⟩ := profile_of_accepts (accepts_of_mem h (.head _))
  obtain ⟨image, himage⟩ := profile_of_accepts (accepts_of_mem h (.tail _ (.head _)))
  exact ⟨⟨bio, image⟩, by
    rw [updateUserRequest, UpdateUserDto.bio, hbio, UpdateUserDto.image, himage]; rfl⟩

theorem newArticle_of_accepts (h : accepts isEmail NewArticleDto body = true) :
    ∃ request, newArticle body = some request := by
  obtain ⟨title, htitle⟩ := string_of_accepts (accepts_of_mem h (.head _)) rfl (.head _)
  obtain ⟨description, hdescription⟩ :=
    string_of_accepts (accepts_of_mem h (.tail _ (.head _))) rfl (.head _)
  obtain ⟨text, hbody⟩ :=
    string_of_accepts (accepts_of_mem h (.tail _ (.tail _ (.head _)))) rfl (.head _)
  obtain ⟨tags, htags⟩ :=
    tagList_of_accepts (accepts_of_mem h (.tail _ (.tail _ (.tail _ (.head _)))))
  exact ⟨⟨title, description, text, tags⟩, by
    rw [newArticle, htitle, hdescription, hbody, htags]; rfl⟩

theorem articleUpdate_of_accepts (h : accepts isEmail ArticleUpdateDto body = true) :
    ∃ request, articleUpdate body = some request := by
  obtain ⟨title, htitle⟩ := optional_of_accepts (accepts_of_mem h (.head _))
  obtain ⟨description, hdescription⟩ :=
    optional_of_accepts (accepts_of_mem h (.tail _ (.head _)))
  obtain ⟨text, hbody⟩ := optional_of_accepts (accepts_of_mem h (.tail _ (.tail _ (.head _))))
  obtain ⟨tags, htags⟩ :=
    tagList_of_accepts (accepts_of_mem h (.tail _ (.tail _ (.tail _ (.head _)))))
  exact ⟨⟨title, description, text, tags⟩, by
    rw [articleUpdate, ArticleUpdateDto.title, ArticleUpdateDto.description, ArticleUpdateDto.body,
      htitle, hdescription, hbody, htags]; rfl⟩

theorem newComment_of_accepts (h : accepts isEmail NewCommentDto body = true) :
    ∃ text, newComment body = some text := by
  obtain ⟨s, hs⟩ := string_of_accepts (accepts_of_mem h (.head _)) rfl (.head _)
  exact ⟨s, by rw [newComment, hs]; rfl⟩

/-- A text that is given is read unless it is empty, which is `null`. -/
theorem read_nullIfEmpty {v : JsValue} {r : Option (Option Str)} {s : Str}
    (h : orUndefined (orNull asString) (nullIfEmpty v) = some r) :
    r = some (some s) ↔ v = .string s ∧ s ≠ [] := by
  cases v with
  | string t =>
      cases t with
      | nil =>
          obtain rfl : some none = r := Option.some.inj h
          refine ⟨nofun, ?_⟩
          rintro ⟨⟨⟩, hne⟩
          exact absurd rfl hne
      | cons c t =>
          obtain rfl : some (some (c :: t)) = r := Option.some.inj h
          constructor
          · rintro ⟨⟩
            exact ⟨rfl, List.cons_ne_nil c t⟩
          · rintro ⟨⟨⟩, -⟩
            rfl
  | undefined =>
      obtain rfl : none = r := Option.some.inj h
      exact ⟨nofun, fun hs => nomatch hs.1⟩
  | null =>
      obtain rfl : some none = r := Option.some.inj h
      exact ⟨nofun, fun hs => nomatch hs.1⟩
  | _ => cases h

theorem image_updateUserRequest {request : Users.UpdateUserRequest} {s : Str}
    (h : updateUserRequest body = some request) :
    request.image = some (some s) ↔ body.get "image".toList = .string s ∧ s ≠ [] := by
  rw [updateUserRequest, Option.bind_eq_bind, Option.bind_eq_some_iff] at h
  obtain ⟨bio, -, h⟩ := h
  obtain ⟨image, himage, heq⟩ := Option.bind_eq_some_iff.mp h
  obtain rfl : ⟨bio, image⟩ = request := Option.some.inj heq
  exact read_nullIfEmpty himage

end

end MediumClone.Validation
