import MediumClone.Support.JsText
import Mathlib.Algebra.Order.Ring.Int

/-!
# Support — JsDate

JavaScript's `Date`, as its time value in milliseconds since the epoch, and `toISOString`.  Days
are counted in the proleptic Gregorian calendar, in eras of 400 years that begin on 1 March.
-/

namespace Js

structure Date where
  time : ℤ
  deriving DecidableEq

/-- Year, month and day of a day counted from the epoch. -/
def civil (days : ℤ) : ℤ × ℤ × ℤ :=
  let z := days + 719468
  let era := z / 146097
  let doe := z % 146097
  let yoe := (doe - doe / 1460 + doe / 36524 - doe / 146096) / 365
  let doy := doe - (365 * yoe + yoe / 4 - yoe / 100)
  let mp := (5 * doy + 2) / 153
  let month := if mp < 10 then mp + 3 else mp - 9
  (yoe + era * 400 + (if month ≤ 2 then 1 else 0), month, doy - (153 * mp + 2) / 5 + 1)

/-- `n` in `width` digits at least. -/
def padded (width : ℕ) (n : ℤ) : Str :=
  let digits := Nat.toDigits 10 n.toNat
  List.replicate (width - digits.length) '0' ++ digits

/-- Years outside `0..9999` take a sign and six digits. -/
def isoYear (year : ℤ) : Str :=
  if year < 0 then '-' :: padded 6 (-year)
  else if year ≤ 9999 then padded 4 year
  else '+' :: padded 6 year

def Date.toISOString (d : Date) : Str :=
  let (year, month, day) := civil (d.time / 86400000)
  let ms := d.time % 86400000
  isoYear year ++ '-' :: padded 2 month ++ '-' :: padded 2 day ++
    'T' :: padded 2 (ms / 3600000) ++ ':' :: padded 2 (ms / 60000 % 60) ++
    ':' :: padded 2 (ms / 1000 % 60) ++ '.' :: padded 3 (ms % 1000) ++ ['Z']

example : (Date.mk 1767323045000).toISOString = "2026-01-02T03:04:05.000Z".toList := by
  decide +kernel

end Js
