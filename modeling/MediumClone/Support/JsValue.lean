import MediumClone.Support.JsText
import Mathlib.Data.Rat.Defs

/-!
# Support — JsValue

JavaScript's values, as far as a program tells them apart that only reads their own properties.  An
object is the list of its entries, in their order.

* `get`: the own property of a name that is no index; `undefined` where there is none.
* `setProperty`: the entries after an assignment, which keeps the place of a property that exists.
-/

namespace Js

inductive JsNumber where
  | finite (q : ℚ)
  | infinite (negative : Bool)
  | nan
  deriving DecidableEq

inductive JsValue where
  | undefined
  | null
  | bool (b : Bool)
  | number (n : JsNumber)
  | string (s : Str)
  | array (items : List JsValue)
  | object (entries : List (Str × JsValue))
  /-- A function, a symbol or a bigint. -/
  | other

namespace JsValue

/-- `typeof value === 'object' && value !== null`. -/
def isRecord : JsValue → Bool
  | .array _ | .object _ => true
  | _ => false

def get : JsValue → Str → JsValue
  | .object entries, key => (entries.lookup key).getD .undefined
  | _, _ => .undefined

def setProperty (key : Str) (value : JsValue) : List (Str × JsValue) → List (Str × JsValue)
  | [] => [(key, value)]
  | (k, v) :: entries =>
    if k = key then (k, value) :: entries else (k, v) :: setProperty key value entries

/-- The entries of `{ ...value }`, for a value that is no array. -/
def entries : JsValue → List (Str × JsValue)
  | .object entries => entries
  | _ => []

section

variable {key key' : Str} {value : JsValue}

theorem lookup_setProperty (entries : List (Str × JsValue)) :
    (setProperty key value entries).lookup key' =
      if key' = key then some value else entries.lookup key' := by
  induction entries with
  | nil =>
      by_cases h : key' = key
      · simp [setProperty, h]
      · simp [setProperty, h, List.lookup_cons, beq_eq_false_iff_ne.mpr h]
  | cons e entries ih =>
      obtain ⟨k, v⟩ := e
      by_cases hk : k = key
      · subst hk
        by_cases h : key' = k
        · simp [setProperty, h]
        · simp [setProperty, h, List.lookup_cons, beq_eq_false_iff_ne.mpr h]
      · rw [setProperty, if_neg hk, List.lookup_cons, List.lookup_cons, ih]
        by_cases h : key' = k
        · have hne : key' ≠ key := fun heq => hk (h.symm.trans heq)
          simp [h, hk]
        · simp [beq_eq_false_iff_ne.mpr h]

@[simp] theorem get_setProperty_self (entries : List (Str × JsValue)) :
    (object (setProperty key value entries)).get key = value := by
  simp [get, lookup_setProperty]

theorem get_setProperty_of_ne (h : key' ≠ key) (entries : List (Str × JsValue)) :
    (object (setProperty key value entries)).get key' = (object entries).get key' := by
  simp [get, lookup_setProperty, h]

theorem get_entries (h : value.get key ≠ .undefined) : value = .object value.entries := by
  cases value with
  | object => rfl
  | _ => exact absurd rfl h

end

end JsValue

end Js
