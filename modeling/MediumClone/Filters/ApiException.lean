import MediumClone.Support.JsRecord
import MediumClone.Support.JsValue

/-!
# Filters — ApiException

`formatApiException` (`src/common/filters/api-exception.filter.ts`): the status and the `errors` of
the answer to an exception.

The validation errors of a request are trees (`ValidationError`).  The messages of a node go to a
field, named by the node and its nearest constrained ancestors, and replace those the field has.
So messages are lost exactly when two nodes share a field (`none_lost_iff`).
-/

namespace MediumClone.Filters
open Js

def NOT_EMPTY_CONSTRAINT : Str := "isNotEmpty".toList

def CANNOT_BE_BLANK : Str := "can't be blank".toList

def IS_INVALID : Str := "is invalid".toList

/-- `Record<string, string[]>`. -/
abbrev Errors := Record (List Str)

structure FormattedApiException where
  /-- `body.errors`. -/
  errors : Errors
  statusCode : ℕ
  deriving DecidableEq

inductive Exception where
  /-- An `HttpException`, by `getResponse()` and `getStatus()`. -/
  | http (response : JsValue) (status : ℕ)
  | other

/-! ### The code -/

/-- `Object.entries` of an object or array. -/
def objectEntries : JsValue → List (Str × JsValue)
  | .object entries => entries
  | .array items => items.zipIdx.map fun x => (Nat.toDigits 10 x.2, x.1)
  | _ => []

def toStringItem : JsValue → Option Str
  | .string s => some s
  | _ => none

/-- The strings of an array that is one of strings only. -/
def stringArray : JsValue → Option (List Str)
  | .array items => items.mapM toStringItem
  | _ => none

def getExistingErrors (response : JsValue) : Option Errors :=
  if response.isRecord && (response.get "errors".toList).isRecord then
    (objectEntries (response.get "errors".toList)).mapM fun x =>
      (stringArray x.2).map fun messages => (x.1, messages)
  else none

/-- The order of two constraints in a field: `isNotEmpty` is before the others. -/
def compareConstraints (left right : Str) : ℤ :=
  (if right = NOT_EMPTY_CONSTRAINT then 1 else 0) - if left = NOT_EMPTY_CONSTRAINT then 1 else 0

/-- The messages of a node with these constraints. -/
def constraintMessages (constraints : List Str) : List Str :=
  (constraints.mergeSort fun left right => compareConstraints left right ≤ 0).map fun constraint =>
    if constraint = NOT_EMPTY_CONSTRAINT then CANNOT_BE_BLANK else IS_INVALID

def fieldName (pre property : Str) : Str := if pre = [] then property else pre ++ '.' :: property

/-- `Object.keys(error.constraints)`, where the constraints are a record. -/
def constraintKeys (constraints : JsValue) : Option (List Str) :=
  if constraints.isRecord then some ((objectEntries constraints).map Prod.fst) else none

mutual

/-- The callback of `reduce`: `result` after `error`, under the prefix `pre`. -/
def flattenError : JsValue → Str → Errors → Errors
  | .object entries, pre, result =>
    match (JsValue.object entries).get "property".toList with
    | .string property =>
      let field := fieldName pre property
      let constraints := constraintKeys ((JsValue.object entries).get "constraints".toList)
      let result := match constraints with
        | some constraints => result.put field (constraintMessages constraints)
        | none => result
      match flattenChildren entries (if constraints.isSome then field else pre) with
      | some children => result.assign children
      | none => result
    | _ => result
  | _, _, result => result

/-- `flattenValidationErrors(errors, pre)`, from `result` on. -/
def flattenValidationErrors : List JsValue → Str → Errors → Errors
  | [], _, result => result
  | error :: errors, pre, result =>
    flattenValidationErrors errors pre (flattenError error pre result)

/-- What the property `children` of an object flattens to, where it is an array. -/
def flattenChildren : List (Str × JsValue) → Str → Option Errors
  | [], _ => none
  | (key, value) :: entries, pre =>
    if key = "children".toList then flattenArray value pre else flattenChildren entries pre

def flattenArray : JsValue → Str → Option Errors
  | .array errors, pre => some (flattenValidationErrors errors pre [])
  | _, _ => none

end

def getValidationErrors (response : JsValue) : Option Errors :=
  match response.get "message".toList with
  | .array message =>
    let errors := flattenValidationErrors message [] []
    if errors.length > 0 then some errors else none
  | _ => none

def internalServerError : FormattedApiException where
  errors := [("body".toList, ["internal server error".toList])]
  statusCode := 500

def formatApiException : Exception → FormattedApiException
  | .other => internalServerError
  | .http response status =>
    match getExistingErrors response with
    | some existingErrors => ⟨existingErrors, status⟩
    | none =>
      match getValidationErrors response with
      | some validationErrors => ⟨validationErrors, 422⟩
      | none => ⟨[("body".toList, ["request failed".toList])], status⟩

/-- NestJS's `new BadRequestException(validationErrors)`.  That its response is this object, with
the errors as its message, is what the filter assumes of NestJS, and so do the results about it. -/
def BadRequestException (validationErrors : List JsValue) : Exception :=
  .http (.object [("message".toList, .array validationErrors),
    ("error".toList, .string "Bad Request".toList),
    ("statusCode".toList, .number (.finite 400))]) 400

/-- The exception of this status whose response is `{ errors: { [field]: [message] } }`. -/
def HttpException (status : ℕ) (field message : String) : Exception :=
  .http (.object [("errors".toList, .object [(field.toList, .array [.string message.toList])])])
    status

/-! ### Validation errors -/

/-- The constraints that do not hold, with their texts. -/
abbrev Constraints := List (Str × Str)

/-- A `ValidationError` of `class-validator`, without or with `children`. -/
inductive ValidationError where
  | leaf (property : Str) (constraints : Option Constraints)
  | node (property : Str) (constraints : Option Constraints) (children : List ValidationError)

def constraintsValue : Option Constraints → JsValue
  | none => .undefined
  | some constraints => .object (constraints.map fun x => (x.1, .string x.2))

mutual

def ValidationError.toJs : ValidationError → JsValue
  | .leaf property constraints =>
    .object [("property".toList, .string property),
      ("constraints".toList, constraintsValue constraints)]
  | .node property constraints children =>
    .object [("property".toList, .string property),
      ("constraints".toList, constraintsValue constraints),
      ("children".toList, .array (toJsAll children))]

def toJsAll : List ValidationError → List JsValue
  | [] => []
  | error :: errors => error.toJs :: toJsAll errors

end

/-- The number of constraints that do not hold at a node. -/
def ownCount (constraints : Option Constraints) : ℕ := (constraints.getD []).length

mutual

/-- The number of constraints in a tree. -/
def ValidationError.constraintCount : ValidationError → ℕ
  | .leaf _ constraints => ownCount constraints
  | .node _ constraints children => ownCount constraints + constraintCountAll children

def constraintCountAll : List ValidationError → ℕ
  | [] => 0
  | error :: errors => error.constraintCount + constraintCountAll errors

end

mutual

/-- No property of the tree is `__proto__`. -/
def ValidationError.Ordinary : ValidationError → Prop
  | .leaf property _ => property ≠ Record.PROTO
  | .node property _ children => property ≠ Record.PROTO ∧ OrdinaryAll children

def OrdinaryAll : List ValidationError → Prop
  | [] => True
  | error :: errors => error.Ordinary ∧ OrdinaryAll errors

end

/-- A constrained node: its field and its constraints. -/
abbrev Node := Str × List Str

def ownNode (field : Str) : Option Constraints → List Node
  | none => []
  | some constraints => [(field, constraints.map Prod.fst)]

mutual

/-- The constrained nodes of a tree, each before those below it. -/
def ValidationError.nodes : ValidationError → Str → List Node
  | .leaf property constraints, pre => ownNode (fieldName pre property) constraints
  | .node property constraints children, pre =>
    ownNode (fieldName pre property) constraints ++
      nodesAll children (if constraints.isSome then fieldName pre property else pre)

def nodesAll : List ValidationError → Str → List Node
  | [], _ => []
  | error :: errors, pre => error.nodes pre ++ nodesAll errors pre

end

/-! ### The messages of a node -/

section

variable {names : List Str}

/-- Two names in order: only `isNotEmpty` is before `isNotEmpty`. -/
theorem compareConstraints_nonpos {left right : Str} :
    compareConstraints left right ≤ 0 ↔
      (right = NOT_EMPTY_CONSTRAINT → left = NOT_EMPTY_CONSTRAINT) := by
  by_cases hl : left = NOT_EMPTY_CONSTRAINT <;> by_cases hr : right = NOT_EMPTY_CONSTRAINT <;>
    simp [compareConstraints, hl, hr]

/-- The messages for a list in order. -/
theorem map_message_of_pairwise
    (h : names.Pairwise fun x y => y = NOT_EMPTY_CONSTRAINT → x = NOT_EMPTY_CONSTRAINT) :
    (names.map fun constraint =>
        if constraint = NOT_EMPTY_CONSTRAINT then CANNOT_BE_BLANK else IS_INVALID) =
      List.replicate (names.count NOT_EMPTY_CONSTRAINT) CANNOT_BE_BLANK ++
        List.replicate (names.length - names.count NOT_EMPTY_CONSTRAINT) IS_INVALID := by
  induction names with
  | nil => rfl
  | cons x names ih =>
      obtain ⟨hx, hn⟩ := List.pairwise_cons.mp h
      rw [List.map_cons, ih hn]
      by_cases hne : x = NOT_EMPTY_CONSTRAINT
      · rw [if_pos hne, List.count_cons, if_pos (beq_iff_eq.mpr hne), List.length_cons,
          Nat.add_sub_add_right, List.replicate_succ, List.cons_append]
      · have hcount : names.count NOT_EMPTY_CONSTRAINT = 0 :=
          List.count_eq_zero.mpr fun hmem => hne (hx _ hmem rfl)
        simp [hne, hcount, List.replicate_succ]

/-- **`isNotEmpty` first**, and a message for every constraint. -/
theorem constraintMessages_eq (names : List Str) : constraintMessages names =
    List.replicate (names.count NOT_EMPTY_CONSTRAINT) CANNOT_BE_BLANK ++
      List.replicate (names.length - names.count NOT_EMPTY_CONSTRAINT) IS_INVALID := by
  have hsorted := @List.pairwise_mergeSort _
    (fun left right => decide (compareConstraints left right ≤ 0)) ?_ ?_ names
  · have hperm := List.mergeSort_perm names
      fun left right => decide (compareConstraints left right ≤ 0)
    rw [constraintMessages, map_message_of_pairwise (hsorted.imp fun h =>
      compareConstraints_nonpos.mp (of_decide_eq_true h)), hperm.count_eq, hperm.length_eq]
  · intro a b c hab hbc
    simp only [decide_eq_true_eq, compareConstraints_nonpos] at hab hbc ⊢
    exact fun hc => hab (hbc hc)
  · intro a b
    simp only [Bool.or_eq_true, decide_eq_true_eq, compareConstraints_nonpos]
    tauto

theorem length_constraintMessages (names : List Str) :
    (constraintMessages names).length = names.length := by
  rw [constraintMessages, List.length_map, List.length_mergeSort]

end

/-! ### What the trees flatten to -/

section

variable {error : ValidationError} {errors : List ValidationError} {pre property : Str}
  {result : Errors} {constraints : Option Constraints}

theorem fieldName_ne_proto (h : property ≠ Record.PROTO) :
    fieldName pre property ≠ Record.PROTO := by
  rw [fieldName]
  split
  · exact h
  · intro heq
    -- there is no dot in `__proto__`
    have hdot : '.' ∈ Record.PROTO := heq ▸ by simp
    revert hdot
    decide

/-- The assignments of the nodes. -/
def entriesOf (nodes : List Node) : List (Str × List Str) :=
  nodes.map fun n => (n.1, constraintMessages n.2)

theorem entriesOf_append (l l' : List Node) : entriesOf (l ++ l') = entriesOf l ++ entriesOf l' :=
  List.map_append

theorem keys_entriesOf (nodes : List Node) :
    (entriesOf nodes).map Prod.fst = nodes.map Prod.fst := by
  simp [entriesOf]

theorem ne_proto_of_ownNode (h : property ≠ Record.PROTO) :
    ∀ n ∈ ownNode (fieldName pre property) constraints, n.1 ≠ Record.PROTO := by
  intro n hn
  cases constraints with
  | none => cases hn
  | some constraints =>
      cases List.mem_singleton.mp hn
      exact fieldName_ne_proto h

mutual

theorem ne_proto_of_nodes : ∀ (error : ValidationError) (pre : Str), error.Ordinary →
    ∀ n ∈ error.nodes pre, n.1 ≠ Record.PROTO
  | .leaf _ _, _, h => ne_proto_of_ownNode h
  | .node _ _ children, _, h => by
      intro n hn
      rcases List.mem_append.mp hn with hn | hn
      · exact ne_proto_of_ownNode h.1 n hn
      · exact ne_proto_of_nodesAll children _ h.2 n hn

theorem ne_proto_of_nodesAll : ∀ (errors : List ValidationError) (pre : Str), OrdinaryAll errors →
    ∀ n ∈ nodesAll errors pre, n.1 ≠ Record.PROTO
  | [], _, _ => nofun
  | error :: errors, pre, h => by
      intro n hn
      rcases List.mem_append.mp hn with hn | hn
      · exact ne_proto_of_nodes error pre h.1 n hn
      · exact ne_proto_of_nodesAll errors pre h.2 n hn

end

theorem constraintKeys_constraintsValue :
    constraintKeys (constraintsValue constraints) = constraints.map (·.map Prod.fst) := by
  cases constraints with
  | none => rfl
  | some constraints => simp [constraintsValue, constraintKeys, objectEntries, JsValue.isRecord]

/-- The part of a node in the callback. -/
theorem put_ownNode (h : property ≠ Record.PROTO) :
    (match constraintKeys (constraintsValue constraints) with
      | some names => result.put (fieldName pre property) (constraintMessages names)
      | none => result) =
    (entriesOf (ownNode (fieldName pre property) constraints)).foldl
      (fun r e => r.set e.1 e.2) result := by
  rw [constraintKeys_constraintsValue]
  cases constraints with
  | none => rfl
  | some constraints => exact Record.put_of_ne (fieldName_ne_proto h)

mutual

/-- The nodes of a tree assign their messages, each before those below it. -/
theorem flattenError_toJs : ∀ (error : ValidationError) (pre : Str) (result : Errors),
    error.Ordinary → flattenError error.toJs pre result =
      (entriesOf (error.nodes pre)).foldl (fun r e => r.set e.1 e.2) result
  | .leaf property constraints, pre, result, h => by
      rw [ValidationError.nodes, ← put_ownNode h]
      rfl
  | .node property constraints children, pre, result, h => by
      let pre' := if constraints.isSome then fieldName pre property else pre
      have hchildren := flattenValidationErrors_toJsAll children pre' [] h.2
      have hproto : Record.PROTO ∉ (entriesOf (nodesAll children pre')).map Prod.fst := by
        rw [keys_entriesOf]
        intro hmem
        obtain ⟨n, hn, heq⟩ := List.mem_map.mp hmem
        exact ne_proto_of_nodesAll children pre' h.2 n hn heq
      change Record.assign
        (match constraintKeys (constraintsValue constraints) with
          | some names => result.put (fieldName pre property) (constraintMessages names)
          | none => result)
        (flattenValidationErrors (toJsAll children)
          (if (constraintKeys (constraintsValue constraints)).isSome then fieldName pre property
            else pre) []) = _
      rw [put_ownNode h.1, constraintKeys_constraintsValue, Option.isSome_map, hchildren,
        ValidationError.nodes, entriesOf_append, List.foldl_append]
      exact Record.assign_ofEntries hproto _

theorem flattenValidationErrors_toJsAll : ∀ (errors : List ValidationError) (pre : Str)
    (result : Errors), OrdinaryAll errors → flattenValidationErrors (toJsAll errors) pre result =
      (entriesOf (nodesAll errors pre)).foldl (fun r e => r.set e.1 e.2) result
  | [], _, _, _ => rfl
  | error :: errors, pre, result, h => by
      rw [toJsAll, flattenValidationErrors, flattenError_toJs error pre result h.1,
        flattenValidationErrors_toJsAll errors pre _ h.2, nodesAll, entriesOf_append,
        List.foldl_append]

end

theorem flattenValidationErrors_eq (h : OrdinaryAll errors) :
    flattenValidationErrors (toJsAll errors) [] [] =
      Record.ofEntries (entriesOf (nodesAll errors [])) :=
  flattenValidationErrors_toJsAll errors [] [] h

theorem count_ownNode (field : Str) :
    ((ownNode field constraints).map fun n => n.2.length).sum = ownCount constraints := by
  cases constraints <;> simp [ownNode, ownCount]

mutual

theorem count_nodes : ∀ (error : ValidationError) (pre : Str),
    ((error.nodes pre).map fun n => n.2.length).sum = error.constraintCount
  | .leaf property constraints, pre => count_ownNode _
  | .node property constraints children, pre => by
      rw [ValidationError.nodes, List.map_append, List.sum_append, count_ownNode,
        count_nodesAll children, ValidationError.constraintCount]

theorem count_nodesAll : ∀ (errors : List ValidationError) (pre : Str),
    ((nodesAll errors pre).map fun n => n.2.length).sum = constraintCountAll errors
  | [], _ => rfl
  | error :: errors, pre => by
      rw [nodesAll, List.map_append, List.sum_append, count_nodes error, count_nodesAll errors,
        constraintCountAll]

end

/-! ### The answer -/

/-- Of two constrained nodes with one field, the first has no constraints. -/
def DistinctFields (errors : List ValidationError) : Prop :=
  (nodesAll errors []).Pairwise fun x y => x.1 = y.1 → x.2 = []

/-- Every constraint has a message, and every node has those of its constraints in its field, with
that for `isNotEmpty` first. -/
structure NoneLost (errors : List ValidationError) (answer : Errors) : Prop where
  count : answer.total List.length = constraintCountAll errors
  reported : ∀ n ∈ nodesAll errors [], n.2 ≠ [] → answer.lookup n.1 =
    some (List.replicate (n.2.count NOT_EMPTY_CONSTRAINT) CANNOT_BE_BLANK ++
      List.replicate (n.2.length - n.2.count NOT_EMPTY_CONSTRAINT) IS_INVALID)

theorem entriesOf_pairwise_iff {nodes : List Node} :
    ((entriesOf nodes).Pairwise fun x y => x.1 = y.1 → x.2.length = 0) ↔
      nodes.Pairwise fun x y => x.1 = y.1 → x.2 = [] := by
  rw [entriesOf, List.pairwise_map]
  simp only [length_constraintMessages, List.length_eq_zero_iff]

theorem total_entriesOf (errors : List ValidationError) :
    ((entriesOf (nodesAll errors [])).map fun e => e.2.length).sum = constraintCountAll errors := by
  rw [← count_nodesAll errors [], entriesOf, List.map_map]
  refine congrArg List.sum (List.map_congr_left fun n _ => ?_)
  exact length_constraintMessages n.2

/-- The last node of a field has its messages there. -/
theorem lookup_of_distinctFields (h : DistinctFields errors) {n : Node}
    (hn : n ∈ nodesAll errors []) (hne : n.2 ≠ []) :
    (Record.ofEntries (entriesOf (nodesAll errors []))).lookup n.1 =
      some (constraintMessages n.2) := by
  refine Record.lookup_ofEntries_of_weight (w := List.length) (entriesOf_pairwise_iff.mpr h)
    (List.mem_map_of_mem hn) ?_
  rw [length_constraintMessages]
  exact fun hlen => hne (List.length_eq_zero_iff.mp hlen)

theorem noneLost_iff (errors : List ValidationError) :
    NoneLost errors (Record.ofEntries (entriesOf (nodesAll errors []))) ↔
      DistinctFields errors := by
  have htotal := Record.total_ofEntries_iff (w := List.length) (entriesOf (nodesAll errors []))
  rw [total_entriesOf, entriesOf_pairwise_iff] at htotal
  constructor
  · exact fun h => htotal.mp h.count
  · intro h
    refine ⟨htotal.mpr h, fun n hn hne => ?_⟩
    rw [lookup_of_distinctFields h hn hne, constraintMessages_eq]

theorem formatApiException_badRequest (h : OrdinaryAll errors)
    (hsome : 0 < constraintCountAll errors) :
    formatApiException (BadRequestException (toJsAll errors)) =
      ⟨Record.ofEntries (entriesOf (nodesAll errors [])), 422⟩ := by
  have hne : 0 < (Record.ofEntries (entriesOf (nodesAll errors []))).length := by
    rw [← List.length_map Prod.fst]
    rw [← count_nodesAll errors []] at hsome
    cases hnodes : nodesAll errors [] with
    | nil =>
        rw [hnodes] at hsome
        cases hsome
    | cons n nodes =>
        refine List.length_pos_of_mem (a := n.1) (Record.mem_keys_ofEntries.mpr ?_)
        rw [keys_entriesOf]
        exact List.mem_cons_self
  have hvalidation : getValidationErrors (.object [("message".toList, .array (toJsAll errors)),
      ("error".toList, .string "Bad Request".toList),
      ("statusCode".toList, .number (.finite 400))]) =
      some (Record.ofEntries (entriesOf (nodesAll errors []))) := by
    change (if (flattenValidationErrors (toJsAll errors) [] []).length > 0 then
      some (flattenValidationErrors (toJsAll errors) [] []) else none) = _
    rw [flattenValidationErrors_eq h, if_pos hne]
  change (match getValidationErrors _ with
    | some validationErrors => _
    | none => _) = _
  rw [hvalidation]

/-- **No validation error is lost** exactly when no constrained node of the trees shares its field
with a later one. -/
theorem none_lost_iff (trees : List ValidationError) (hord : OrdinaryAll trees)
    (hsome : 0 < constraintCountAll trees) : ∃ answer,
    formatApiException (BadRequestException (toJsAll trees)) = ⟨answer, 422⟩ ∧
      (NoneLost trees answer ↔ DistinctFields trees) :=
  ⟨_, formatApiException_badRequest hord hsome, noneLost_iff trees⟩

/-- Of `{ body: 'x', comment: { body: '' } }`: a property `body` that the class has not, beside a
`comment` whose `body` is empty. -/
def sampleErrors : List ValidationError :=
  [.leaf "body".toList (some [("whitelistValidation".toList,
      "property body should not exist".toList)]),
    .node "comment".toList none [.node "body".toList (some [("isNotEmpty".toList,
      "body should not be empty".toList)]) []]]

theorem not_noneLost_sample : ∃ answer,
    formatApiException (BadRequestException (toJsAll sampleErrors)) = ⟨answer, 422⟩ ∧
      answer = [("body".toList, [CANNOT_BE_BLANK])] ∧ ¬ NoneLost sampleErrors answer := by
  refine ⟨[("body".toList, [CANNOT_BE_BLANK])], by decide +kernel, rfl, ?_⟩
  intro h
  cases h.count

/-- Without the unknown property nothing is lost. -/
theorem none_lost_nested : ∃ answer,
    formatApiException (BadRequestException (toJsAll sampleErrors.tail)) = ⟨answer, 422⟩ ∧
      NoneLost sampleErrors.tail answer := by
  obtain ⟨answer, hanswer, hiff⟩ := none_lost_iff sampleErrors.tail
    ⟨⟨by decide, ⟨by decide, trivial⟩, trivial⟩, trivial⟩ (by decide)
  exact ⟨answer, hanswer, hiff.mpr (List.pairwise_singleton ..)⟩

end

end MediumClone.Filters
