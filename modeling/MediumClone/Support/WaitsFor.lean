import Mathlib.Logic.Relation
import Mathlib.Data.Nat.Notation

/-!
# Support — WaitsFor

Deadlock is a cycle of parties each waiting for a resource the next one holds.  `Acyclic W` says
that the waits-for relation `W` has none, of any length.

**Ordered acquisition** (`acyclic_of_ordered`).  When every party wants at most one resource, and
whatever it holds comes before what it wants in some strict order, there is no cycle: along a
path of `W` the wanted resources increase, and on a cycle one of them would come before itself.
The order need not be total and need not come from a rank.
-/

namespace Sys

open Relation (TransGen)

variable {τ ρ : Type*}

/-- No party waits, through any number of others, for itself. -/
def Acyclic (W : τ → τ → Prop) : Prop := ∀ t, ¬ TransGen W t t

theorem Acyclic.mono {W W' : τ → τ → Prop} (h : ∀ t u, W t u → W' t u) (hW : Acyclic W') :
    Acyclic W :=
  fun t ht => hW t (ht.lift id h)

section Ordered

/-! ### Ordered acquisition -/

variable {W : τ → τ → Prop} {wants holds : τ → ρ → Prop} {lt : ρ → ρ → Prop}
  (hW : ∀ t u, W t u → ∃ r, wants t r ∧ holds u r)
  (huniq : ∀ t r r', wants t r → wants t r' → r = r')
  (htrans : ∀ a b c, lt a b → lt b c → lt a c)
  (hord : ∀ t r r', holds t r → wants t r' → lt r r')

include hW huniq hord in
/-- What `t` wants comes before what the holder it waits for wants. -/
theorem lt_of_waits {t u : τ} (h : W t u) {r r' : ρ} (hr : wants t r) (hr' : wants u r') :
    lt r r' := by
  obtain ⟨r₀, ht, hu⟩ := hW t u h
  obtain rfl := huniq t r₀ r ht hr
  exact hord u r₀ r' hu hr'

include hW huniq htrans hord in
/-- Along a path of waits the wanted resources increase. -/
theorem lt_of_waits_path {t u : τ} (h : TransGen W t u) {r r' : ρ} (hr : wants t r)
    (hr' : wants u r') : lt r r' := by
  induction h generalizing r' with
  | single h => exact lt_of_waits hW huniq hord h hr hr'
  | tail _ h ih =>
      obtain ⟨r₀, hv, -⟩ := hW _ _ h
      exact htrans r r₀ r' (ih hv) (lt_of_waits hW huniq hord h hv hr')

include hW huniq htrans hord in
/-- **Ordered acquisition.**  Parties that want only what comes after everything they hold do
not deadlock. -/
theorem acyclic_of_ordered (hirr : ∀ r, ¬ lt r r) : Acyclic W := by
  intro t h
  obtain ⟨u, hu, -⟩ := TransGen.head'_iff.mp h
  obtain ⟨r, hr, -⟩ := hW t u hu
  exact hirr r (lt_of_waits_path hW huniq htrans hord h hr hr)

end Ordered

/-- A relation along which a rank increases has no cycle. -/
theorem acyclic_of_rank {W : τ → τ → Prop} (rank : τ → ℕ) (h : ∀ t u, W t u → rank t < rank u) :
    Acyclic W := by
  have hpath : ∀ {t u}, TransGen W t u → rank t < rank u := by
    intro t u hp
    induction hp with
    | single hw => exact h _ _ hw
    | tail _ hw ih => exact Nat.lt_trans ih (h _ _ hw)
  exact fun t hp => Nat.lt_irrefl _ (hpath hp)

/-- Two parties that wait for each other are a cycle. -/
theorem not_acyclic_of_pair {W : τ → τ → Prop} {t u : τ} (h : W t u) (h' : W u t) :
    ¬ Acyclic W :=
  fun hW => hW t (.tail (.single h) h')

end Sys
