import MediumClone.Support.JsUri
import MediumClone.Support.JsValue

/-!
# Logging — RequestLog

`createRequestFailureLog` (`src/common/logging/request-failure-log.ts`), and the requests of the
API's routes it is given by `ApiExceptionFilter.catch`
(`src/common/filters/api-exception.filter.ts`).

The parameters of a route reach the log in two fields: as `params`, which is redacted, and in the
`path`, which is not.  So the log hides a parameter only when there is none to hide
(`log_hides_iff`).

`toLowerCase` is a parameter.
-/

namespace MediumClone.Logging
open Js

def REDACTED_VALUE : JsValue := .string "[REDACTED]".toList

def SENSITIVE_FIELD_NAMES : List Str :=
  ["authorization", "author", "cookie", "email", "favorited", "firstname", "lastname",
    "displayname", "title", "description", "body", "taglist", "password", "passwordhash", "token",
    "username", "userid"].map String.toList

structure RequestForLog where
  body : JsValue
  method : Option Str
  params : JsValue
  path : Option Str
  query : JsValue

structure RequestFailureLog where
  /-- `error.category`. -/
  category : Str
  occurredAt : Str
  request : Option RequestForLog

section

variable (toLowerCase : Str → Str)

def Redacted (key : Str) : Prop := toLowerCase key ∈ SENSITIVE_FIELD_NAMES

instance : DecidablePred (Redacted toLowerCase) :=
  fun _ => inferInstanceAs (Decidable (_ ∈ _))

mutual

def sanitizeValue : JsValue → JsValue
  | .array items => .array (sanitizeItems items)
  | .object entries => .object (sanitizeEntries entries)
  | .undefined => .undefined
  | .null => .null
  | .bool b => .bool b
  | .number n => .number n
  | .string s => .string s
  | .other => .other

/-- `value.map(sanitizeValue)`. -/
def sanitizeItems : List JsValue → List JsValue
  | [] => []
  | item :: items => sanitizeValue item :: sanitizeItems items

/-- The entries of the new object. -/
def sanitizeEntries : List (Str × JsValue) → List (Str × JsValue)
  | [] => []
  | (key, entry) :: entries =>
    (key, if Redacted toLowerCase key then REDACTED_VALUE else sanitizeValue entry) ::
      sanitizeEntries entries

end

def sanitizeRequest (request : RequestForLog) : RequestForLog where
  body := sanitizeValue toLowerCase request.body
  method := request.method
  params := sanitizeValue toLowerCase request.params
  path := request.path
  query := sanitizeValue toLowerCase request.query

def getErrorDetails (isError : Bool) : Str :=
  if isError then "Error".toList else "UnknownError".toList

/-- `isError` says whether the error is an `Error`, and `now` is the current time. -/
def createRequestFailureLog (isError : Bool) (request : Option RequestForLog) (now : Str) :
    RequestFailureLog where
  category := getErrorDetails isError
  occurredAt := now
  request := request.map (sanitizeRequest toLowerCase)

end

/-! ### Routes -/

inductive Segment where
  | text (s : Str)
  | param (name : Str)
  deriving DecidableEq

/-- The name of the parameter. -/
def Segment.name? : Segment → Option Str
  | .text _ => none
  | .param name => some name

/-- The segments of a pattern, whose parameters have different names. -/
structure Route where
  segments : List Segment
  nodup : (segments.filterMap Segment.name?).Nodup

/-- The values of the parameters. -/
abbrev Params := Str → Str

def Route.names (route : Route) : List Str := route.segments.filterMap Segment.name?

/-- `request.params`. -/
def Route.params (route : Route) (v : Params) : JsValue :=
  .object (route.names.map fun name => (name, .string (v name)))

def Segment.path (v : Params) : Segment → Str
  | .text s => '/' :: s
  | .param name => '/' :: encodeURIComponent (v name)

/-- `request.path`. -/
def Route.path (route : Route) (v : Params) : Str := route.segments.flatMap (Segment.path v)

def Route.request (route : Route) (method : Option Str) (body query : JsValue) (v : Params) :
    RequestForLog where
  body := body
  method := method
  params := route.params v
  path := some (route.path v)
  query := query

/-- Under the prefix of the API. -/
def api (segments : List Segment) : List Segment := .text "api".toList :: segments

def profileRoute : Route where
  segments := api [.text "profiles".toList, .param "username".toList]
  nodup := by decide

def followRoute : Route where
  segments := api [.text "profiles".toList, .param "username".toList, .text "follow".toList]
  nodup := by decide

def articleRoute : Route where
  segments := api [.text "articles".toList, .param "slug".toList]
  nodup := by decide

def favoriteRoute : Route where
  segments := api [.text "articles".toList, .param "slug".toList, .text "favorite".toList]
  nodup := by decide

def commentsRoute : Route where
  segments := api [.text "articles".toList, .param "slug".toList, .text "comments".toList]
  nodup := by decide

def commentRoute : Route where
  segments := api [.text "articles".toList, .param "slug".toList, .text "comments".toList,
    .param "id".toList]
  nodup := by decide

def fileRoute : Route where
  segments := api [.text "files".toList, .param "id".toList]
  nodup := by decide

/-- The routes of the API with parameters. -/
def apiRoutes : List Route :=
  [profileRoute, followRoute, articleRoute, favoriteRoute, commentsRoute, commentRoute, fileRoute]

/-! ### What the path tells -/

section

variable {route : Route} {v w : Params}

/-- Two texts without a separator end before the first of it. -/
theorem append_inj_of_notMem {c : Char} {x y l l' : Str} (hx : c ∉ x) (hy : c ∉ y)
    (hl : ∀ d ∈ l.head?, d = c) (hl' : ∀ d ∈ l'.head?, d = c) (h : x ++ l = y ++ l') :
    x = y ∧ l = l' := by
  induction x generalizing y with
  | nil =>
      cases y with
      | nil => exact ⟨rfl, h⟩
      | cons d y =>
          rw [List.nil_append] at h
          have hd : d = c := hl d (by rw [h]; rfl)
          exact absurd (hd ▸ List.mem_cons_self) hy
  | cons d x ih =>
      cases y with
      | nil =>
          rw [List.nil_append] at h
          have hd : d = c := hl' d (by rw [← h]; rfl)
          exact absurd (hd ▸ List.mem_cons_self) hx
      | cons d' y =>
          obtain ⟨rfl, htail⟩ := List.cons.inj h
          obtain ⟨rfl, hrest⟩ := ih (fun hm => hx (List.mem_cons_of_mem d hm))
            (fun hm => hy (List.mem_cons_of_mem d hm)) htail
          exact ⟨rfl, hrest⟩

theorem head?_flatMap_path (v : Params) (segments : List Segment) :
    ∀ c ∈ (segments.flatMap (Segment.path v)).head?, c = '/' := by
  intro c hc
  cases segments with
  | nil => cases hc
  | cons segment segments => cases segment <;> exact (Option.some.inj hc).symm

theorem flatMap_path_eq_iff (segments : List Segment) :
    segments.flatMap (Segment.path v) = segments.flatMap (Segment.path w) ↔
      ∀ name ∈ segments.filterMap Segment.name?, v name = w name := by
  induction segments with
  | nil => simp
  | cons segment segments ih =>
      rw [List.flatMap_cons, List.flatMap_cons]
      cases segment with
      | text s =>
          rw [show Segment.path v (.text s) = Segment.path w (.text s) from rfl,
            List.append_cancel_left_eq, ih]
          rfl
      | param name =>
          change _ ↔ ∀ n ∈ name :: segments.filterMap Segment.name?, v n = w n
          rw [List.forall_mem_cons, ← ih]
          constructor
          · intro h
            obtain ⟨-, h⟩ := List.cons.inj h
            obtain ⟨hname, hrest⟩ := append_inj_of_notMem (slash_notMem_encodeURIComponent _)
              (slash_notMem_encodeURIComponent _) (head?_flatMap_path v segments)
              (head?_flatMap_path w segments) h
            exact ⟨encodeURIComponent_injective hname, hrest⟩
          · rintro ⟨hname, hrest⟩
            rw [hrest, Segment.path, Segment.path, hname]

/-- The path tells the values of all parameters. -/
theorem path_eq_iff : route.path v = route.path w ↔ ∀ name ∈ route.names, v name = w name :=
  flatMap_path_eq_iff route.segments

/-! ### What the log hides -/

variable {toLowerCase : Str → Str}

/-- The values differ in redacted parameters only. -/
def Agree (toLowerCase : Str → Str) (route : Route) (v w : Params) : Prop :=
  ∀ name ∈ route.names, ¬ Redacted toLowerCase name → v name = w name

/-- Requests that differ in redacted parameters only have one record. -/
def Hides (toLowerCase : Str → Str) (route : Route) : Prop :=
  ∀ isError now method body query v w, (∀ name, v name ≠ [] ∧ w name ≠ []) →
    Agree toLowerCase route v w →
    createRequestFailureLog toLowerCase isError (some (route.request method body query v)) now =
      createRequestFailureLog toLowerCase isError (some (route.request method body query w)) now

/-- The record tells the values of all parameters. -/
theorem createRequestFailureLog_eq_iff {isError : Bool} {now : Str} {method : Option Str}
    {body query : JsValue} :
    createRequestFailureLog toLowerCase isError (some (route.request method body query v)) now =
        createRequestFailureLog toLowerCase isError (some (route.request method body query w)) now ↔
      ∀ name ∈ route.names, v name = w name := by
  constructor
  · intro h
    have hpath := congrArg (fun log => log.request.bind RequestForLog.path) h
    exact path_eq_iff.mp (Option.some.inj hpath)
  · intro h
    have hparams : route.params v = route.params w := by
      refine congrArg JsValue.object (List.map_congr_left ?_)
      intro name hname
      rw [h name hname]
    rw [Route.request, Route.request, hparams, path_eq_iff.mpr h]

/-- **What the log hides of the parameters.**  Two requests that differ in redacted parameters only
have one record exactly when they do not differ in these either; so the log hides the redacted
parameters of a route exactly when the route has none. -/
theorem log_hides_iff (toLowerCase : Str → Str) (route : Route) :
    (∀ isError now method body query v w, Agree toLowerCase route v w →
      (createRequestFailureLog toLowerCase isError (some (route.request method body query v)) now =
          createRequestFailureLog toLowerCase isError
            (some (route.request method body query w)) now ↔
        ∀ name ∈ route.names, Redacted toLowerCase name → v name = w name)) ∧
    (Hides toLowerCase route ↔ ∀ name ∈ route.names, ¬ Redacted toLowerCase name) := by
  have hiff : ∀ v w, Agree toLowerCase route v w →
      ((∀ name ∈ route.names, v name = w name) ↔
        ∀ name ∈ route.names, Redacted toLowerCase name → v name = w name) := by
    intro v w hagree
    refine ⟨fun h name hname _ => h name hname, ?_⟩
    intro h name hname
    by_cases hredacted : Redacted toLowerCase name
    · exact h name hname hredacted
    · exact hagree name hname hredacted
  refine ⟨?_, ?_, ?_⟩
  · intro isError now method body query v w hagree
    exact createRequestFailureLog_eq_iff.trans (hiff v w hagree)
  · intro hhides name hname hredacted
    -- two values of the redacted parameters
    have hagree : Agree toLowerCase route (fun n => if Redacted toLowerCase n then ['a'] else ['b'])
        fun _ => ['b'] := fun n _ hn => if_neg hn
    have heq := hhides true [] none .null .null _ _
      (fun n => ⟨by split <;> exact List.cons_ne_nil _ _, List.cons_ne_nil _ _⟩) hagree
    have hvalue := createRequestFailureLog_eq_iff.mp heq name hname
    rw [if_pos hredacted] at hvalue
    cases hvalue
  · intro hnone isError now method body query v w _ hagree
    refine createRequestFailureLog_eq_iff.mpr ?_
    intro name hname
    exact hagree name hname (hnone name hname)

/-- The requests for two profiles. -/
theorem not_hides_profileRoute :
    ¬ ∀ route ∈ apiRoutes, Hides (List.map Char.toLower) route := by
  intro h
  have heq := h profileRoute List.mem_cons_self true [] (some "GET".toList) .undefined (.object [])
    (fun _ => "jane".toList) (fun _ => "john".toList) (fun _ => ⟨by decide, by decide⟩) ?_
  · have hpath := congrArg (fun log => log.request.bind RequestForLog.path) heq
    revert hpath
    decide
  · intro name hname hnot
    rw [List.mem_singleton.mp hname] at hnot
    exact absurd (by decide) hnot

end

end MediumClone.Logging
