import MediumClone.Logging.RequestLog

/-!
# Logging — Redaction

What `sanitizeValue` keeps of a value and what it hides.

Two values agree outside the redacted places (`Agrees`) when they have the same shape, keys and
scalars but below keys that are redacted.  That is all that the sanitised value tells
(`sanitizeValue_eq_iff`), and it agrees with the value itself (`agrees_sanitizeValue`).
-/

namespace MediumClone.Logging
open Js

variable {toLowerCase : Str → Str}

mutual

/-- The values agree but below redacted keys. -/
inductive Agrees (toLowerCase : Str → Str) : JsValue → JsValue → Prop where
  | scalar {v : JsValue} (h : v.isRecord = false) : Agrees toLowerCase v v
  | array {items items' : List JsValue} (h : AgreeItems toLowerCase items items') :
    Agrees toLowerCase (.array items) (.array items')
  | object {entries entries' : List (Str × JsValue)}
    (h : AgreeEntries toLowerCase entries entries') :
    Agrees toLowerCase (.object entries) (.object entries')

/-- The arrays have one length, and their items agree. -/
inductive AgreeItems (toLowerCase : Str → Str) : List JsValue → List JsValue → Prop where
  | nil : AgreeItems toLowerCase [] []
  | cons {v w : JsValue} {items items' : List JsValue} (h : Agrees toLowerCase v w)
    (hs : AgreeItems toLowerCase items items') : AgreeItems toLowerCase (v :: items) (w :: items')

/-- The objects have the same keys, and the entries of those that are kept agree. -/
inductive AgreeEntries (toLowerCase : Str → Str) :
    List (Str × JsValue) → List (Str × JsValue) → Prop where
  | nil : AgreeEntries toLowerCase [] []
  | redacted {key : Str} {v w : JsValue} {entries entries' : List (Str × JsValue)}
    (h : Redacted toLowerCase key) (hs : AgreeEntries toLowerCase entries entries') :
    AgreeEntries toLowerCase ((key, v) :: entries) ((key, w) :: entries')
  | kept {key : Str} {v w : JsValue} {entries entries' : List (Str × JsValue)}
    (h : Agrees toLowerCase v w) (hs : AgreeEntries toLowerCase entries entries') :
    AgreeEntries toLowerCase ((key, v) :: entries) ((key, w) :: entries')

end

mutual

/-- What is below redacted keys is the fixed value. -/
def Masked (toLowerCase : Str → Str) : JsValue → Prop
  | .array items => MaskedItems toLowerCase items
  | .object entries => MaskedEntries toLowerCase entries
  | _ => True

def MaskedItems (toLowerCase : Str → Str) : List JsValue → Prop
  | [] => True
  | item :: items => Masked toLowerCase item ∧ MaskedItems toLowerCase items

def MaskedEntries (toLowerCase : Str → Str) : List (Str × JsValue) → Prop
  | [] => True
  | (key, entry) :: entries =>
    (if Redacted toLowerCase key then entry = REDACTED_VALUE else Masked toLowerCase entry) ∧
      MaskedEntries toLowerCase entries

end

theorem sanitizeValue_scalar {v : JsValue} (h : v.isRecord = false) :
    sanitizeValue toLowerCase v = v := by
  cases v with
  | array | object => cases h
  | _ => rfl

theorem isRecord_sanitizeValue (toLowerCase : Str → Str) (v : JsValue) :
    (sanitizeValue toLowerCase v).isRecord = v.isRecord := by
  cases v <;> rfl

/-! ### Values that agree have one sanitised value -/

mutual

theorem Agrees.sanitizeValue_eq : ∀ {v w : JsValue}, Agrees toLowerCase v w →
    sanitizeValue toLowerCase v = sanitizeValue toLowerCase w
  | _, _, .scalar _ => rfl
  | _, _, .array h => by rw [sanitizeValue, sanitizeValue, h.sanitizeItems_eq]
  | _, _, .object h => by rw [sanitizeValue, sanitizeValue, h.sanitizeEntries_eq]

theorem AgreeItems.sanitizeItems_eq : ∀ {items items' : List JsValue},
    AgreeItems toLowerCase items items' →
    sanitizeItems toLowerCase items = sanitizeItems toLowerCase items'
  | _, _, .nil => rfl
  | _, _, .cons h hs => by
      rw [sanitizeItems, sanitizeItems, h.sanitizeValue_eq, hs.sanitizeItems_eq]

theorem AgreeEntries.sanitizeEntries_eq : ∀ {entries entries' : List (Str × JsValue)},
    AgreeEntries toLowerCase entries entries' →
    sanitizeEntries toLowerCase entries = sanitizeEntries toLowerCase entries'
  | _, _, .nil => rfl
  | _, _, .redacted h hs => by
      rw [sanitizeEntries, sanitizeEntries, if_pos h, if_pos h, hs.sanitizeEntries_eq]
  | _, _, .kept h hs => by
      rw [sanitizeEntries, sanitizeEntries, h.sanitizeValue_eq, hs.sanitizeEntries_eq]

end

/-! ### Values with one sanitised value agree -/

mutual

theorem agrees_of_sanitizeValue : ∀ {v w : JsValue},
    sanitizeValue toLowerCase v = sanitizeValue toLowerCase w → Agrees toLowerCase v w
  | .array items, w, h => by
      cases w with
      | array items' => exact .array (agreeItems_of_sanitizeItems (JsValue.array.inj h))
      | _ => cases h
  | .object entries, w, h => by
      cases w with
      | object entries' => exact .object (agreeEntries_of_sanitizeEntries (JsValue.object.inj h))
      | _ => cases h
  | .undefined, w, h | .null, w, h | .bool _, w, h | .number _, w, h | .string _, w, h
  | .other, w, h => by
      have hw : w.isRecord = false := by
        rw [← isRecord_sanitizeValue toLowerCase w, ← h]
        rfl
      rw [sanitizeValue_scalar hw] at h
      exact h ▸ .scalar rfl

theorem agreeItems_of_sanitizeItems : ∀ {items items' : List JsValue},
    sanitizeItems toLowerCase items = sanitizeItems toLowerCase items' →
    AgreeItems toLowerCase items items'
  | [], [], _ => .nil
  | _ :: _, _ :: _, h =>
    .cons (agrees_of_sanitizeValue (List.cons.inj h).1)
      (agreeItems_of_sanitizeItems (List.cons.inj h).2)

theorem agreeEntries_of_sanitizeEntries : ∀ {entries entries' : List (Str × JsValue)},
    sanitizeEntries toLowerCase entries = sanitizeEntries toLowerCase entries' →
    AgreeEntries toLowerCase entries entries'
  | [], [], _ => .nil
  | (key, v) :: entries, (key', w) :: entries', h => by
      obtain ⟨hentry, hs⟩ := List.cons.inj h
      obtain ⟨rfl, hvalue⟩ := Prod.mk.inj hentry
      have hrest := agreeEntries_of_sanitizeEntries hs
      by_cases hredacted : Redacted toLowerCase key
      · exact .redacted hredacted hrest
      · rw [if_neg hredacted, if_neg hredacted] at hvalue
        exact .kept (agrees_of_sanitizeValue hvalue) hrest

end

/-! ### Sanitised values -/

mutual

/-- The fixed value is kept as it is, so nothing changes twice. -/
theorem sanitizeValue_idem : ∀ v : JsValue,
    sanitizeValue toLowerCase (sanitizeValue toLowerCase v) = sanitizeValue toLowerCase v
  | .array items => by rw [sanitizeValue, sanitizeValue, sanitizeItems_idem items]
  | .object entries => by rw [sanitizeValue, sanitizeValue, sanitizeEntries_idem entries]
  | .undefined | .null | .bool _ | .number _ | .string _ | .other => rfl

theorem sanitizeItems_idem : ∀ items : List JsValue,
    sanitizeItems toLowerCase (sanitizeItems toLowerCase items) = sanitizeItems toLowerCase items
  | [] => rfl
  | item :: items => by
      rw [sanitizeItems, sanitizeItems, sanitizeValue_idem item, sanitizeItems_idem items]

theorem sanitizeEntries_idem : ∀ entries : List (Str × JsValue),
    sanitizeEntries toLowerCase (sanitizeEntries toLowerCase entries) =
      sanitizeEntries toLowerCase entries
  | [] => rfl
  | (key, entry) :: entries => by
      rw [sanitizeEntries, sanitizeEntries, sanitizeEntries_idem entries]
      by_cases h : Redacted toLowerCase key
      · rw [if_pos h, if_pos h]
      · rw [if_neg h, if_neg h, sanitizeValue_idem entry]

end

mutual

theorem masked_sanitizeValue : ∀ v : JsValue, Masked toLowerCase (sanitizeValue toLowerCase v)
  | .array items => maskedItems_sanitizeItems items
  | .object entries => maskedEntries_sanitizeEntries entries
  | .undefined | .null | .bool _ | .number _ | .string _ | .other => trivial

theorem maskedItems_sanitizeItems : ∀ items : List JsValue,
    MaskedItems toLowerCase (sanitizeItems toLowerCase items)
  | [] => trivial
  | item :: items => ⟨masked_sanitizeValue item, maskedItems_sanitizeItems items⟩

theorem maskedEntries_sanitizeEntries : ∀ entries : List (Str × JsValue),
    MaskedEntries toLowerCase (sanitizeEntries toLowerCase entries)
  | [] => trivial
  | (key, entry) :: entries => by
      refine ⟨?_, maskedEntries_sanitizeEntries entries⟩
      by_cases h : Redacted toLowerCase key
      · rw [if_pos h, if_pos h]
      · rw [if_neg h, if_neg h]
        exact masked_sanitizeValue entry

end

theorem sanitizeValue_eq_iff {v w : JsValue} :
    sanitizeValue toLowerCase v = sanitizeValue toLowerCase w ↔ Agrees toLowerCase v w :=
  ⟨agrees_of_sanitizeValue, Agrees.sanitizeValue_eq⟩

theorem agrees_sanitizeValue (v : JsValue) : Agrees toLowerCase v (sanitizeValue toLowerCase v) :=
  sanitizeValue_eq_iff.mp (sanitizeValue_idem v).symm

/-- **Redaction.**  A sanitised value has the shape, keys and scalars of the value but below
redacted keys, where it has the fixed value.  Two values have one sanitised value exactly when they
agree but below redacted keys.  Sanitising twice is sanitising once. -/
theorem redaction (toLowerCase : Str → Str) :
    (∀ v, Agrees toLowerCase v (sanitizeValue toLowerCase v) ∧
      Masked toLowerCase (sanitizeValue toLowerCase v)) ∧
    (∀ v w, sanitizeValue toLowerCase v = sanitizeValue toLowerCase w ↔ Agrees toLowerCase v w) ∧
    ∀ v, sanitizeValue toLowerCase (sanitizeValue toLowerCase v) = sanitizeValue toLowerCase v :=
  ⟨fun v => ⟨agrees_sanitizeValue v, masked_sanitizeValue v⟩, fun _ _ => sanitizeValue_eq_iff,
    sanitizeValue_idem⟩

end MediumClone.Logging
