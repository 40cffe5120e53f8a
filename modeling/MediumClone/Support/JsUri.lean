import MediumClone.Support.JsText
import Mathlib.Logic.Function.Basic

/-!
# Support — JsUri

`encodeURIComponent`: the UTF-8 bytes of a text, those of unreserved characters as they are and
every other as a percent escape.  The code of a byte ends where the next begins
(`encodeByte_append_inj`), so no two texts have one encoding (`encodeURIComponent_injective`), and
the separator of paths stands in none (`slash_notMem_encodeURIComponent`).
-/

namespace Js

def isUnreserved (c : Char) : Bool := c.isAlphanum || "-_.!~*'()".toList.contains c

def hexDigit (n : ℕ) : Char := (Nat.digitChar n).toUpper

def encodeByte (b : UInt8) : Str :=
  if isUnreserved (Char.ofNat b.toNat) then [Char.ofNat b.toNat]
  else ['%', hexDigit (b.toNat / 16), hexDigit (b.toNat % 16)]

def encodeURIComponent (s : Str) : Str := (s.flatMap String.utf8EncodeChar).flatMap encodeByte

variable {b b' : UInt8} {l l' : Str}

theorem hexDigit_inj {m n : ℕ} (hm : m < 16) (hn : n < 16) (h : hexDigit m = hexDigit n) :
    m = n := by
  have hall : ∀ m < 16, ∀ n < 16, hexDigit m = hexDigit n → m = n := by decide
  exact hall m hm n hn h

theorem hexDigit_ne_slash {n : ℕ} (hn : n < 16) : hexDigit n ≠ '/' := by
  have hall : ∀ n < 16, hexDigit n ≠ '/' := by decide
  exact hall n hn

theorem ofNat_toNat_inj (h : Char.ofNat b.toNat = Char.ofNat b'.toNat) : b = b' := by
  have hb := b.toNat_lt
  have hb' := b'.toNat_lt
  have hval : ∀ n < 2 ^ 8, (Char.ofNat n).toNat = n := by
    intro n hn
    rw [Char.ofNat, dif_pos (.inl (by omega))]
    rfl
  rw [← UInt8.toNat_inj, ← hval _ hb, ← hval _ hb', h]

/-- Neither the byte nor where its code ends is in doubt. -/
theorem encodeByte_append_inj (h : encodeByte b ++ l = encodeByte b' ++ l') : b = b' ∧ l = l' := by
  have hpercent : ∀ b : UInt8, isUnreserved (Char.ofNat b.toNat) = true →
      Char.ofNat b.toNat ≠ '%' := by
    intro b hb heq
    rw [heq] at hb
    exact absurd hb (by decide)
  have hdiv : ∀ b : UInt8, b.toNat / 16 < 16 ∧ b.toNat % 16 < 16 := by
    intro b
    have := b.toNat_lt
    omega
  by_cases hb : isUnreserved (Char.ofNat b.toNat) <;>
    by_cases hb' : isUnreserved (Char.ofNat b'.toNat)
  · rw [encodeByte, if_pos hb, encodeByte, if_pos hb'] at h
    obtain ⟨hc, hl⟩ := List.cons.inj h
    exact ⟨ofNat_toNat_inj hc, hl⟩
  · rw [encodeByte, if_pos hb, encodeByte, if_neg hb'] at h
    exact absurd (List.cons.inj h).1 (hpercent b hb)
  · rw [encodeByte, if_neg hb, encodeByte, if_pos hb'] at h
    exact absurd (List.cons.inj h).1.symm (hpercent b' hb')
  · rw [encodeByte, if_neg hb, encodeByte, if_neg hb'] at h
    simp only [List.cons_append, List.nil_append, List.cons.injEq, true_and] at h
    obtain ⟨hhi, hlo, hl⟩ := h
    have hhi := hexDigit_inj (hdiv b).1 (hdiv b').1 hhi
    have hlo := hexDigit_inj (hdiv b).2 (hdiv b').2 hlo
    refine ⟨UInt8.toNat_inj.mp ?_, hl⟩
    omega

theorem flatMap_encodeByte_injective : Function.Injective (List.flatMap encodeByte) := by
  have hne : ∀ b, encodeByte b ≠ [] := by
    intro b
    rw [encodeByte]
    split <;> exact List.cons_ne_nil _ _
  intro bs
  induction bs with
  | nil =>
      intro bs' h
      cases bs' with
      | nil => rfl
      | cons b' bs' => exact absurd (List.append_eq_nil_iff.mp h.symm).1 (hne b')
  | cons b bs ih =>
      intro bs' h
      cases bs' with
      | nil => exact absurd (List.append_eq_nil_iff.mp h).1 (hne b)
      | cons b' bs' =>
          obtain ⟨rfl, hrest⟩ := encodeByte_append_inj h
          rw [ih hrest]

theorem encodeURIComponent_injective : Function.Injective encodeURIComponent := by
  intro s s' h
  have hbytes : s.utf8Encode = s'.utf8Encode :=
    congrArg List.toByteArray (flatMap_encodeByte_injective h)
  exact String.ofList_injective (String.toByteArray_inj.mp hbytes)

theorem slash_notMem_encodeURIComponent (s : Str) : '/' ∉ encodeURIComponent s := by
  intro h
  obtain ⟨b, -, hb⟩ := List.mem_flatMap.mp h
  have := b.toNat_lt
  rw [encodeByte] at hb
  split at hb
  · rename_i hu
    rw [← List.mem_singleton.mp hb] at hu
    exact absurd hu (by decide)
  · simp only [List.mem_cons, List.not_mem_nil, or_false] at hb
    rcases hb with hb | hb | hb
    · exact absurd hb (by decide)
    · exact hexDigit_ne_slash (by omega) hb.symm
    · exact hexDigit_ne_slash (by omega) hb.symm

end Js
