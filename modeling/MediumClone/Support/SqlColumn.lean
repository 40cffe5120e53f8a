import MediumClone.Support.JsText
import Mathlib.Data.List.Forall2

/-!
# Support — SqlColumn

The columns that a table declares, and the rows that fit them.

* `Column.admits`: `NOT NULL`, the length of `varchar (n)` and `CHECK`.  A text that is longer than
  its column is cut where all it has more are spaces, else it is an error.  A `CHECK` lets `NULL`
  pass.
* `insertRow`: a column that is not given takes its `DEFAULT`; `updateRow`: it keeps its value.
* An insert gives a row that fits when every column admits what it is given (`fits_insert_iff`), and
  an update of such a row when the columns it sets do (`fits_update_iff`).
-/

namespace Sys.Sql
open Js

inductive Value where
  | null
  | text (s : Str)
  | integer (n : ℤ)
  /-- The number the bytes spell. -/
  | uuid (n : ℕ)
  /-- In microseconds. -/
  | timestamptz (t : ℤ)
  deriving DecidableEq

inductive ColumnType where
  | text
  | varchar (n : ℕ)
  | integer
  | uuid
  | timestamptz

/-- The value of a column that is not given. -/
inductive Default where
  | null
  | value (v : Value)
  | genRandomUuid
  | now
  | identity

structure Column (ν : Type*) where
  name : ν
  type : ColumnType
  notNull : Bool
  default : Default := .null
  check : Value → Bool := fun _ => true

/-- What a statement draws for a row. -/
structure Drawn where
  uuid : ℕ
  now : ℤ
  identity : ℤ

@[simp] def Default.eval (drawn : Drawn) : Default → Value
  | .null => .null
  | .value v => v
  | .genRandomUuid => .uuid drawn.uuid
  | .now => .timestamptz drawn.now
  | .identity => .integer drawn.identity

/-- The text is stored in a `varchar (n)`. -/
def fitsVarchar (n : ℕ) (s : Str) : Bool := (s.drop n).all (· = ' ')

@[simp] def ColumnType.holds : ColumnType → Value → Bool
  | .text, .text _ => true
  | .varchar n, .text s => fitsVarchar n s
  | .integer, .integer _ => true
  | .uuid, .uuid _ => true
  | .timestamptz, .timestamptz _ => true
  | _, _ => false

/-- A row, column by column. -/
abbrev Row := List Value

section

variable {ν : Type*}

def Column.admits (c : Column ν) : Value → Bool
  | .null => !c.notNull
  | v => c.type.holds v && c.check v

@[simp] theorem admits_null (c : Column ν) : c.admits .null = !c.notNull := rfl

@[simp] theorem admits_text (c : Column ν) (s : Str) :
    c.admits (.text s) = (c.type.holds (.text s) && c.check (.text s)) := rfl

@[simp] theorem admits_integer (c : Column ν) (n : ℤ) :
    c.admits (.integer n) = (c.type.holds (.integer n) && c.check (.integer n)) := rfl

@[simp] theorem admits_uuid (c : Column ν) (n : ℕ) :
    c.admits (.uuid n) = (c.type.holds (.uuid n) && c.check (.uuid n)) := rfl

@[simp] theorem admits_timestamptz (c : Column ν) (t : ℤ) :
    c.admits (.timestamptz t) = (c.type.holds (.timestamptz t) && c.check (.timestamptz t)) := rfl

def Fits (table : List (Column ν)) (row : Row) : Prop :=
  List.Forall₂ (fun c v => c.admits v = true) table row

variable [DecidableEq ν]

def insertRow (table : List (Column ν)) (drawn : Drawn) (values : List (ν × Value)) : Row :=
  table.map fun c => (values.lookup c.name).getD (c.default.eval drawn)

def updateRow (table : List (Column ν)) (values : List (ν × Value)) (row : Row) : Row :=
  List.zipWith (fun c v => (values.lookup c.name).getD v) table row

variable {table : List (Column ν)} {values : List (ν × Value)} {row : Row} {s : Str} {n : ℕ}

theorem fitsVarchar_of_length_le (h : s.length ≤ n) : fitsVarchar n s = true := by
  rw [fitsVarchar, List.drop_eq_nil_of_le h, List.all_nil]

theorem fitsVarchar_eq_false_iff : fitsVarchar n s = false ↔ ∃ c ∈ s.drop n, c ≠ ' ' := by
  simp [fitsVarchar]

theorem fits_insert_iff (drawn : Drawn) : Fits table (insertRow table drawn values) ↔
    ∀ c ∈ table, c.admits ((values.lookup c.name).getD (c.default.eval drawn)) = true := by
  rw [Fits, insertRow, List.forall₂_map_right_iff, List.forall₂_same]

/-- The columns that are not set admit what they have. -/
theorem fits_update_iff (h : Fits table row) : Fits table (updateRow table values row) ↔
    ∀ c ∈ table, ∀ v ∈ values.lookup c.name, c.admits v = true := by
  induction h with
  | nil => exact iff_of_true .nil nofun
  | @cons c v table row hv hrow ih =>
      rw [Fits] at ih ⊢
      rw [updateRow, List.zipWith_cons_cons, List.forall₂_cons, List.forall_mem_cons, ← updateRow,
        ih]
      refine and_congr_left fun _ => ?_
      cases hlookup : values.lookup c.name with
      | none => exact iff_of_true hv nofun
      | some w => simp

end

end Sys.Sql
