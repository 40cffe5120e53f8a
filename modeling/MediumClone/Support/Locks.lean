import Mathlib.Data.Fintype.Basic
import MediumClone.Support.Run
import MediumClone.Support.WaitsFor

/-!
# Support — Locks

Parties `t : τ` run programs: lists of requests for a resource `r : ρ` in a mode `m : μ`, to be
granted in order and held until the party ends.  A request is granted when no other party holds the
resource in a conflicting mode, and waits otherwise.  A resource that may be gone by the time it
is requested (`gone`) can be passed over.  A party ends at any time, whether it committed or was
rolled back, and gives everything back.

The invariant of every run (`Inv`) is that a party has requested a prefix of its program, holds
nothing but what it requested, has everything it requested that cannot be gone, and shares no
resource in conflicting modes.

**No deadlock** (`acyclic_waits`) then follows from an order in which every resource a waiting
party holds comes before the one it waits for.
-/

namespace Sys

/-- Modes of a lock, and which exclude each other. -/
class LockMode (μ : Type*) where
  conflicts : μ → μ → Bool
  symm : ∀ m n, conflicts m n = conflicts n m

export LockMode (conflicts)

/-- A party: its requests to come, what it holds, and whether it waits. -/
structure Party (ρ μ : Type*) where
  rest : List (ρ × μ)
  held : List (ρ × μ)
  waiting : Bool

inductive LockEvent (τ : Type*) where
  | acquire (t : τ)
  | wait (t : τ)
  | skip (t : τ)
  | ends (t : τ)

namespace Locks

variable {τ ρ μ : Type*} [LockMode μ]

/-- The party holds what excludes the request. -/
def Blocks (p : Party ρ μ) (r : ρ × μ) : Prop :=
  ∃ h ∈ p.held, h.1 = r.1 ∧ conflicts r.2 h.2 = true

instance [DecidableEq ρ] (p : Party ρ μ) (r : ρ × μ) : Decidable (Blocks p r) :=
  inferInstanceAs (Decidable (∃ h ∈ p.held, h.1 = r.1 ∧ conflicts r.2 h.2 = true))

/-- `t` has issued a request, which `u` blocks. -/
def Waits (s : τ → Party ρ μ) (t u : τ) : Prop :=
  (s t).waiting = true ∧ u ≠ t ∧ ∃ r ∈ (s t).rest.head?, Blocks (s u) r

def start (prog : τ → List (ρ × μ)) (t : τ) : Party ρ μ := ⟨prog t, [], false⟩

section Step

variable [Fintype τ] [DecidableEq τ] [DecidableEq ρ] (gone : ρ → Bool)

def step (s : τ → Party ρ μ) : LockEvent τ → Option (τ → Party ρ μ)
  | .acquire t =>
    match (s t).rest with
    | [] => none
    | r :: rest =>
      if ∃ u, u ≠ t ∧ Blocks (s u) r then none
      else some (Function.update s t ⟨rest, r :: (s t).held, false⟩)
  | .wait t =>
    match (s t).rest with
    | [] => none
    | r :: rest =>
      if ∃ u, u ≠ t ∧ Blocks (s u) r then
        some (Function.update s t ⟨r :: rest, (s t).held, true⟩)
      else none
  | .skip t =>
    match (s t).rest with
    | [] => none
    | r :: rest =>
      if gone r.1 then some (Function.update s t ⟨rest, (s t).held, false⟩) else none
  | .ends t => some (Function.update s t ⟨[], [], false⟩)

end Step

/-! ### What a step does -/

/-- The steps, each with the request it is about. -/
inductive Moves [DecidableEq τ] (gone : ρ → Bool) (s : τ → Party ρ μ) :
    LockEvent τ → (τ → Party ρ μ) → Prop where
  | acquires {t r rest} (hr : (s t).rest = r :: rest) (hb : ∀ u, u ≠ t → ¬ Blocks (s u) r) :
      Moves gone s (.acquire t) (Function.update s t ⟨rest, r :: (s t).held, false⟩)
  | waits {t r rest} (hr : (s t).rest = r :: rest) :
      Moves gone s (.wait t) (Function.update s t ⟨r :: rest, (s t).held, true⟩)
  | skips {t r rest} (hr : (s t).rest = r :: rest) (hg : gone r.1 = true) :
      Moves gone s (.skip t) (Function.update s t ⟨rest, (s t).held, false⟩)
  | ends {t} : Moves gone s (.ends t) (Function.update s t ⟨[], [], false⟩)

section Moves

variable [Fintype τ] [DecidableEq τ] [DecidableEq ρ] {gone : ρ → Bool} {s s' : τ → Party ρ μ}
  {e : LockEvent τ}

theorem step_moves (hs : step gone s e = some s') : Moves gone s e s' := by
  cases e with
  | acquire t =>
      simp only [step] at hs
      split at hs
      · cases hs
      · rename_i hr
        obtain ⟨hb, hs⟩ := Option.ite_none_left_eq_some.mp hs
        obtain rfl := Option.some.inj hs
        exact .acquires hr fun u hu h => hb ⟨u, hu, h⟩
  | wait t =>
      simp only [step] at hs
      split at hs
      · cases hs
      · rename_i hr
        obtain ⟨-, hs⟩ := Option.ite_none_right_eq_some.mp hs
        obtain rfl := Option.some.inj hs
        exact .waits hr
  | skip t =>
      simp only [step] at hs
      split at hs
      · cases hs
      · rename_i hr
        obtain ⟨hg, hs⟩ := Option.ite_none_right_eq_some.mp hs
        obtain rfl := Option.some.inj hs
        exact .skips hr hg
  | ends t =>
      obtain rfl := Option.some.inj hs
      exact .ends

/-- A step adds to what is held only the request it grants. -/
theorem step_held (hs : step gone s e = some s') {u : τ} {x : ρ × μ} (hx : x ∈ (s' u).held) :
    x ∈ (s u).held ∨ (e = .acquire u ∧ x ∈ (s u).rest.head?) := by
  cases step_moves hs with
  | @acquires t r rest hr hb =>
      by_cases hu : u = t
      · subst hu
        rw [Function.update_self] at hx
        rcases List.mem_cons.mp hx with rfl | hx
        · exact .inr ⟨rfl, by rw [hr]; rfl⟩
        · exact .inl hx
      · rw [Function.update_of_ne hu] at hx
        exact .inl hx
  | @waits t | @skips t =>
      by_cases hu : u = t
      · subst hu
        rw [Function.update_self] at hx
        exact .inl hx
      · rw [Function.update_of_ne hu] at hx
        exact .inl hx
  | @ends t =>
      by_cases hu : u = t
      · subst hu
        rw [Function.update_self] at hx
        cases hx
      · rw [Function.update_of_ne hu] at hx
        exact .inl hx

end Moves

/-! ### Programs -/

/-- Every request of `rest` satisfies `P` of what is requested before it, `done` first. -/
def Each {α : Type*} (P : List α → α → Prop) : List α → List α → Prop
  | _, [] => True
  | done, r :: rest => P done r ∧ Each P (done ++ [r]) rest

theorem each_iff {α : Type*} {P : List α → α → Prop} {done l : List α} :
    Each P done l ↔ ∀ d r rest, l = d ++ r :: rest → P (done ++ d) r := by
  induction l generalizing done with
  | nil => simp [Each]
  | cons x l ih =>
      simp only [Each, ih]
      refine ⟨fun ⟨hx, hl⟩ d r rest h => ?_, fun h => ⟨?_, fun d r rest hl => ?_⟩⟩
      · rcases List.cons_eq_append_iff.mp h with ⟨rfl, hr⟩ | ⟨d, rfl, hr⟩
        · obtain ⟨rfl, -⟩ := List.cons.inj hr
          simpa using hx
        · simpa using hl d r rest hr
      · simpa using h [] x l rfl
      · simpa using h (x :: d) r rest (by rw [hl]; rfl)

/-! ### The invariant -/

/-- The party has ended, or has requested a prefix of its program. -/
def Progress (gone : ρ → Bool) (prog : List (ρ × μ)) (p : Party ρ μ) : Prop :=
  (p.rest = [] ∧ p.held = []) ∨
    ∃ done, prog = done ++ p.rest ∧ (∀ x ∈ p.held, x ∈ done) ∧
      ∀ x ∈ done, gone x.1 = false → x ∈ p.held

structure Inv (gone : ρ → Bool) (prog : τ → List (ρ × μ)) (s : τ → Party ρ μ) : Prop where
  progress : ∀ t, Progress gone (prog t) (s t)
  exclusive : ∀ t u, t ≠ u → ∀ x ∈ (s t).held, ∀ y ∈ (s u).held, x.1 = y.1 →
    conflicts x.2 y.2 = false

section Invariant

variable {gone : ρ → Bool} {prog : τ → List (ρ × μ)} {s s' : τ → Party ρ μ}

theorem inv_start : Inv gone prog (start prog) :=
  ⟨fun _ => .inr ⟨[], rfl, fun _ h => h, fun _ h => absurd h List.not_mem_nil⟩,
    fun _ _ _ _ h => absurd h List.not_mem_nil⟩

/-- More resources may be gone later. -/
theorem Inv.mono {gone' : ρ → Bool} (hi : Inv gone prog s)
    (h : ∀ r, gone' r = false → gone r = false) : Inv gone' prog s := by
  refine ⟨?_, hi.exclusive⟩
  intro t
  rcases hi.progress t with he | ⟨done, hd, hh, hg⟩
  · exact .inl he
  · exact .inr ⟨done, hd, hh, fun x hx hgx => hg x hx (h x.1 hgx)⟩

/-- One party moves, without taking anything that another one's locks exclude. -/
theorem Inv.update [DecidableEq τ] (hi : Inv gone prog s) {t : τ} {p : Party ρ μ}
    (hp : Progress gone (prog t) p)
    (hx : ∀ x ∈ p.held, x ∈ (s t).held ∨ ∀ u, u ≠ t → ¬ Blocks (s u) x) :
    Inv gone prog (Function.update s t p) := by
  -- what the moved party holds does not exclude what another one holds
  have key : ∀ u, u ≠ t → ∀ x ∈ p.held, ∀ y ∈ (s u).held, x.1 = y.1 →
      conflicts x.2 y.2 = false := by
    intro u hu x hxp y hy hxy
    rcases hx x hxp with hxs | hxn
    · exact hi.exclusive t u hu.symm x hxs y hy hxy
    · by_contra hc
      exact hxn u hu ⟨y, hy, hxy.symm, by simpa using hc⟩
  refine ⟨fun u => ?_, fun u v huv => ?_⟩
  · by_cases hu : u = t
    · subst hu; rwa [Function.update_self]
    · rw [Function.update_of_ne hu]; exact hi.progress u
  · by_cases hu : u = t
    · subst hu
      rw [Function.update_self, Function.update_of_ne huv.symm]
      exact key v huv.symm
    · by_cases hv : v = t
      · subst hv
        rw [Function.update_of_ne hu, Function.update_self]
        intro x hx y hy hxy
        rw [LockMode.symm]
        exact key u hu y hy x hx hxy.symm
      · rw [Function.update_of_ne hu, Function.update_of_ne hv]
        exact hi.exclusive u v huv

omit [LockMode μ] in
/-- A granted request joins the prefix and the held locks. -/
theorem Progress.acquire {p : List (ρ × μ)} {q : Party ρ μ} (h : Progress gone p q)
    {r : ρ × μ} {rest : List (ρ × μ)} (hr : q.rest = r :: rest) (w : Bool) :
    Progress gone p ⟨rest, r :: q.held, w⟩ := by
  rcases h with ⟨h, -⟩ | ⟨done, hd, hh, hg⟩
  · rw [hr] at h; cases h
  · refine .inr ⟨done ++ [r], by rw [hd, hr, List.append_assoc]; rfl,
      fun x hx => ?_, fun x hx hgx => ?_⟩
    · rcases List.mem_cons.mp hx with rfl | hx
      · exact List.mem_append_right done (List.mem_singleton.mpr rfl)
      · exact List.mem_append_left [r] (hh x hx)
    · rcases List.mem_append.mp hx with hx | hx
      · exact List.mem_cons_of_mem r (hg x hx hgx)
      · rw [List.mem_singleton.mp hx]
        exact List.mem_cons_self

omit [LockMode μ] in
/-- A request passed over joins the prefix only. -/
theorem Progress.skip {p : List (ρ × μ)} {q : Party ρ μ} (h : Progress gone p q)
    {r : ρ × μ} {rest : List (ρ × μ)} (hr : q.rest = r :: rest) (hgone : gone r.1 = true)
    (w : Bool) : Progress gone p ⟨rest, q.held, w⟩ := by
  rcases h with ⟨h, -⟩ | ⟨done, hd, hh, hg⟩
  · rw [hr] at h; cases h
  · refine .inr ⟨done ++ [r], by rw [hd, hr, List.append_assoc]; rfl,
      fun x hx => List.mem_append_left [r] (hh x hx), fun x hx hgx => ?_⟩
    rcases List.mem_append.mp hx with hx | hx
    · exact hg x hx hgx
    · rw [List.mem_singleton.mp hx, hgone] at hgx
      cases hgx

theorem Inv.step [Fintype τ] [DecidableEq τ] [DecidableEq ρ] (hi : Inv gone prog s)
    {e : LockEvent τ} (hs : step gone s e = some s') : Inv gone prog s' := by
  cases step_moves hs with
  | @acquires t r rest hr hb =>
      refine hi.update ((hi.progress t).acquire hr false) ?_
      intro x hx
      rcases List.mem_cons.mp hx with rfl | hx
      · exact .inr hb
      · exact .inl hx
  | @waits t r rest hr =>
      refine hi.update ?_ fun x hx => .inl hx
      have := hi.progress t
      rwa [Progress, hr] at this
  | @skips t r rest hr hg => exact hi.update ((hi.progress t).skip hr hg false) fun x hx => .inl hx
  | ends => exact hi.update (.inl ⟨rfl, rfl⟩) fun x hx => absurd hx List.not_mem_nil

theorem inv_run [Fintype τ] [DecidableEq τ] [DecidableEq ρ] {es : List (LockEvent τ)}
    (hr : run (step gone) (start prog) es = some s) : Inv gone prog s :=
  run_invariant' (fun _ _ _ hi hs => hi.step hs) inv_start hr

/-! ### Waiting -/

/-- Where a waiting party stands in its program. -/
theorem Inv.waits (hi : Inv gone prog s) {t u : τ} (hw : Waits s t u) :
    ∃ done r rest, prog t = done ++ r :: rest ∧ (s t).rest = r :: rest ∧
      (∀ x ∈ (s t).held, x ∈ done) ∧ (∀ x ∈ done, gone x.1 = false → x ∈ (s t).held) ∧
      Blocks (s u) r := by
  obtain ⟨-, -, r, hr, hb⟩ := hw
  obtain ⟨rest, hrest⟩ := List.head?_eq_some_iff.mp hr
  rcases hi.progress t with ⟨h, -⟩ | ⟨done, hd, hh, hg⟩
  · rw [hrest] at h; cases h
  · exact ⟨done, r, rest, by rw [hd, hrest], hrest, hh, hg, hb⟩

/-- No one is made to wait for a resource it holds in a mode that excludes every other. -/
theorem Inv.not_blocks_of_held (hi : Inv gone prog s) {t u : τ} (hu : u ≠ t) {x r : ρ × μ}
    (hx : x ∈ (s t).held) (hxr : x.1 = r.1) (hall : ∀ m, conflicts x.2 m = true) :
    ¬ Blocks (s u) r := by
  rintro ⟨y, hy, hyr, -⟩
  have := hi.exclusive t u hu.symm x hx y hy (hxr.trans hyr.symm)
  rw [hall] at this
  cases this

/-- **Ordered requests do not deadlock.** -/
theorem acyclic_waits {lt : ρ → ρ → Prop} (htrans : ∀ a b c, lt a b → lt b c → lt a c)
    (hirr : ∀ r, ¬ lt r r)
    (hord : ∀ t u, Waits s t u → ∀ r ∈ (s t).rest.head?, ∀ x ∈ (s t).held, lt x.1 r.1) :
    Acyclic (Waits s) := by
  refine @acyclic_of_ordered τ ρ (Waits s)
    (fun t a => ∃ r ∈ (s t).rest.head?, r.1 = a ∧ ∃ u, Waits s t u)
    (fun t a => ∃ x ∈ (s t).held, x.1 = a) lt ?_ ?_ htrans ?_ hirr
  · rintro t u ⟨hw, hu, r, hr, x, hx, hxr, hc⟩
    exact ⟨r.1, ⟨r, hr, rfl, u, hw, hu, r, hr, x, hx, hxr, hc⟩, x, hx, hxr⟩
  · rintro t a b ⟨r, hr, rfl, -⟩ ⟨r', hr', rfl, -⟩
    rw [Option.mem_unique hr hr']
  · rintro t a b ⟨x, hx, rfl⟩ ⟨r, hr, rfl, u, hw⟩
    exact hord t u hw r hr x hx

end Invariant

end Locks

end Sys
