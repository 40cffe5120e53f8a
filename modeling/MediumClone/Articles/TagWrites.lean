import MediumClone.Support.JsText
import MediumClone.Support.Locks

/-!
# Articles — TagWrites

`src/articles/article-tag-persistence.ts` inserts the tag names of an article with one
`INSERT … ON CONFLICT DO NOTHING`, in the order the client listed them, each once
(`uniqueArticleTagNames`).  PostgreSQL takes the rows in that order.  A name that is stored is
passed over.  A name that a transaction still in progress has inserted makes the statement wait for
that transaction to end.  What a transaction inserted is its own until it ends.

Transactions on different articles share nothing else that excludes: the article is the
transaction's own, and the foreign keys take only `FOR KEY SHARE`.  So they are the lock machine
(`Sys.Locks`) over tag names, where a name is gone once it is stored.

**Deadlock, from the lists alone.**  Cut every list somewhere, so that no name occurs before two
cuts, and let a transaction wait for the one before whose cut the name at its own cut occurs
(`CutWaits`).  Names stored before, or by transactions that have committed, do not count.  If no
choice of cuts closes a cycle, no run does (`acyclic_waits_of_cuts`).  Lists sorted in one order
have no such cuts (`not_cyclicCut_of_sorted`); two lists with two new names in opposite orders have.
-/

namespace MediumClone.Articles
open Js Sys

/-- `[...new Set(names)]`. -/
def uniqueArticleTagNames (names : List Str) : List Str :=
  names.foldl (fun set name => if name ∈ set then set else set ++ [name]) []

/-! ### The transactions -/

/-- An inserted name excludes every other insertion of it. -/
instance : LockMode Unit where
  conflicts _ _ := true
  symm _ _ := rfl

structure State (τ : Type*) where
  stored : List Str
  parties : τ → Party Str Unit

inductive Event (τ : Type*) where
  | insert (t : τ)
  | wait (t : τ)
  | commit (t : τ)
  | rollback (t : τ)

section Step

variable {τ : Type*}

/-- The rows of one `INSERT`. -/
def insertedNames (tagLists : τ → List Str) (t : τ) : List (Str × Unit) :=
  (uniqueArticleTagNames (tagLists t)).map (·, ())

def init (tagLists : τ → List Str) (stored : List Str) : State τ where
  stored := stored
  parties := Locks.start (insertedNames tagLists)

def isStored (stored : List Str) (name : Str) : Bool := decide (name ∈ stored)

variable [Fintype τ] [DecidableEq τ]

/-- A step of the lock machine, on the names that are not stored. -/
def State.lock (s : State τ) (e : LockEvent τ) : Option (State τ) :=
  (Locks.step (isStored s.stored) s.parties e).map fun parties => { s with parties := parties }

def step (s : State τ) : Event τ → Option (State τ)
  | .insert t =>
    match (s.parties t).rest with
    | [] => none
    | (name, _) :: _ => if isStored s.stored name then s.lock (.skip t) else s.lock (.acquire t)
  | .wait t => s.lock (.wait t)
  | .commit t =>
    if (s.parties t).rest = [] then
      { s with stored := s.stored ++ (s.parties t).held.map Prod.fst }.lock (.ends t)
    else none
  | .rollback t => s.lock (.ends t)

end Step

/-! ### Cuts -/

section Cuts

variable {τ : Type*} (tagLists : τ → List Str) (stored : List Str)

/-- Names stored at the start, or by a transaction that has committed. -/
def Settled (committed : τ → Prop) (name : Str) : Prop :=
  name ∈ stored ∨ ∃ t, committed t ∧ name ∈ uniqueArticleTagNames (tagLists t)

/-- The name at the cut of `t` occurs before the cut of `u`. -/
def CutWaits (committed : τ → Prop) (cut : τ → ℕ) (t u : τ) : Prop :=
  u ≠ t ∧ ∃ name, (uniqueArticleTagNames (tagLists t))[cut t]? = some name ∧
    ¬ Settled tagLists stored committed name ∧
    name ∈ (uniqueArticleTagNames (tagLists u)).take (cut u)

/-- There are cuts, with no name before two of them, that close a cycle. -/
def CyclicCut : Prop :=
  ∃ (committed : τ → Prop) (cut : τ → ℕ),
    (∀ t u name, u ≠ t → name ∈ (uniqueArticleTagNames (tagLists t)).take (cut t) →
      name ∈ (uniqueArticleTagNames (tagLists u)).take (cut u) →
      Settled tagLists stored committed name) ∧
    ¬ Acyclic (CutWaits tagLists stored committed cut)

variable {tagLists stored}

/-- Lists sorted in one strict order have no such cuts. -/
theorem not_cyclicCut_of_sorted {lt : Str → Str → Prop}
    (htrans : ∀ a b c, lt a b → lt b c → lt a c) (hirr : ∀ a, ¬ lt a a)
    (hsorted : ∀ t, (uniqueArticleTagNames (tagLists t)).Pairwise lt) :
    ¬ CyclicCut tagLists stored := by
  rintro ⟨committed, cut, -, hcyc⟩
  refine hcyc (@acyclic_of_ordered τ Str _
    (fun t name => (uniqueArticleTagNames (tagLists t))[cut t]? = some name)
    (fun t name => name ∈ (uniqueArticleTagNames (tagLists t)).take (cut t)) lt
    ?_ ?_ htrans ?_ hirr)
  · rintro t u ⟨-, name, hname, -, hu⟩
    exact ⟨name, hname, hu⟩
  · intro t a b ha hb
    exact Option.some.inj (ha.symm.trans hb)
  · intro t a b ha hb
    obtain ⟨hlt, rfl⟩ := List.getElem?_eq_some_iff.mp hb
    have hs := hsorted t
    rw [← List.take_append_drop (cut t) (uniqueArticleTagNames (tagLists t))] at hs
    refine (List.pairwise_append.mp hs).2.2 a ha _ ?_
    rw [List.drop_eq_getElem_cons hlt]
    exact List.mem_cons_self

end Cuts

/-! ### Runs -/

section Runs

variable {τ : Type*} {tagLists : τ → List Str} {stored₀ : List Str} {s s' : State τ}

/-- The invariant of the lock machine; what is stored, and that it is no one's insertion. -/
structure Inv (tagLists : τ → List Str) (stored₀ : List Str) (s : State τ) : Prop where
  locks : Locks.Inv (isStored s.stored) (insertedNames tagLists) s.parties
  stored : ∃ committed, ∀ name, name ∈ s.stored ↔ Settled tagLists stored₀ committed name
  held : ∀ t, ∀ x ∈ (s.parties t).held, x.1 ∉ s.stored

theorem inv_init : Inv tagLists stored₀ (init tagLists stored₀) :=
  ⟨Locks.inv_start, ⟨fun _ => False, fun name => by simp [init, Settled]⟩,
    fun _ _ h => absurd h List.not_mem_nil⟩

theorem Inv.lock [Fintype τ] [DecidableEq τ] (hi : Inv tagLists stored₀ s) {e : LockEvent τ}
    (hs : s.lock e = some s')
    (he : ∀ t, e = .acquire t → ∀ r ∈ (s.parties t).rest.head?, r.1 ∉ s.stored) :
    Inv tagLists stored₀ s' := by
  obtain ⟨parties, hp, rfl⟩ := Option.map_eq_some_iff.mp hs
  refine ⟨hi.locks.step hp, hi.stored, ?_⟩
  intro t x hx
  rcases Locks.step_held hp hx with hx | ⟨rfl, hx⟩
  · exact hi.held t x hx
  · exact he t rfl x hx

/-- What is stored once `t` has committed. -/
theorem Inv.stored_commit (hi : Inv tagLists stored₀ s) {t : τ} (ht : (s.parties t).rest = []) :
    ∃ committed, ∀ name, name ∈ s.stored ++ (s.parties t).held.map Prod.fst ↔
      Settled tagLists stored₀ committed name := by
  obtain ⟨committed, hc⟩ := hi.stored
  rcases hi.locks.progress t with ⟨-, hh⟩ | ⟨done, hd, hh, hg⟩
  · exact ⟨committed, by simpa [hh] using hc⟩
  · -- every name of the list is held or was stored
    refine ⟨fun u => committed u ∨ u = t, ?_⟩
    intro name
    rw [ht, List.append_nil] at hd
    have hmem : (name, ()) ∈ done ↔ name ∈ uniqueArticleTagNames (tagLists t) := by
      simp [← hd, insertedNames]
    rw [List.mem_append, hc]
    refine ⟨?_, ?_⟩
    · rintro ((h | ⟨u, hu, h⟩) | h)
      · exact .inl h
      · exact .inr ⟨u, .inl hu, h⟩
      · obtain ⟨x, hx, rfl⟩ := List.mem_map.mp h
        exact .inr ⟨t, .inr rfl, hmem.mp (hh x hx)⟩
    · rintro (h | ⟨u, hu | rfl, h⟩)
      · exact .inl (.inl h)
      · exact .inl (.inr ⟨u, hu, h⟩)
      · by_cases hs : name ∈ s.stored
        · exact .inl ((hc name).mp hs)
        · have := hg _ (hmem.mpr h) (by simpa [isStored] using hs)
          exact .inr (List.mem_map.mpr ⟨_, this, rfl⟩)

/-- A transaction that has been through its names stores what it inserted. -/
theorem Inv.commit [Fintype τ] [DecidableEq τ] (hi : Inv tagLists stored₀ s) {t : τ}
    (ht : (s.parties t).rest = []) :
    Inv tagLists stored₀ ⟨s.stored ++ (s.parties t).held.map Prod.fst,
      Function.update s.parties t ⟨[], [], false⟩⟩ := by
  have hends : Locks.step (isStored s.stored) s.parties (.ends t) =
    some (Function.update s.parties t ⟨[], [], false⟩) := rfl
  refine ⟨(hi.locks.step hends).mono fun name h => ?_, hi.stored_commit ht, fun u x hx hs => ?_⟩
  · simp only [isStored, decide_eq_false_iff_not, List.mem_append, not_or] at h ⊢
    exact h.1
  · dsimp only at hx hs
    by_cases hu : u = t
    · subst hu
      simp at hx
    · rw [Function.update_of_ne hu] at hx
      rcases List.mem_append.mp hs with hs | hs
      · exact hi.held u x hx hs
      · obtain ⟨y, hy, hyx⟩ := List.mem_map.mp hs
        cases hi.locks.exclusive u t hu x hx y hy hyx.symm

variable [Fintype τ] [DecidableEq τ]

theorem Inv.step (hi : Inv tagLists stored₀ s) {e : Event τ} (hs : step s e = some s') :
    Inv tagLists stored₀ s' := by
  cases e with
  | insert t =>
      simp only [Articles.step] at hs
      split at hs
      · cases hs
      · rename_i hr
        split at hs
        · exact hi.lock hs (by simp)
        · rename_i hn
          refine hi.lock hs ?_
          rintro _ ⟨⟩ r hr'
          rw [hr] at hr'
          obtain rfl := Option.some.inj hr'
          simpa [isStored] using hn
  | wait t => exact hi.lock hs (by simp)
  | commit t =>
      simp only [Articles.step] at hs
      split at hs
      · rename_i ht
        obtain rfl := Option.some.inj hs
        exact hi.commit ht
      · cases hs
  | rollback t => exact hi.lock hs (by simp)

omit [Fintype τ] [DecidableEq τ] in
/-- The names inserted so far are the list up to a cut. -/
theorem Inv.exists_cut (hi : Inv tagLists stored₀ s) (t : τ) :
    ∃ cut, (∀ x ∈ (s.parties t).held, x.1 ∈ (uniqueArticleTagNames (tagLists t)).take cut) ∧
      (∀ name ∈ (uniqueArticleTagNames (tagLists t)).take cut,
        name ∉ s.stored → (name, ()) ∈ (s.parties t).held) ∧
      ∀ r ∈ (s.parties t).rest.head?, (uniqueArticleTagNames (tagLists t))[cut]? = some r.1 := by
  rcases hi.locks.progress t with ⟨hr, hh⟩ | ⟨done, hd, hh, hg⟩
  · exact ⟨0, by simp [hh], by simp, by simp [hr]⟩
  · have hnames : uniqueArticleTagNames (tagLists t) =
        done.map Prod.fst ++ (s.parties t).rest.map Prod.fst := by
      rw [← List.map_append, ← hd]
      simp [insertedNames, Function.comp_def]
    refine ⟨done.length, fun x hx => ?_, fun name hn hs => ?_, fun r hr => ?_⟩
    · rw [hnames, List.take_left' (by simp)]
      exact List.mem_map_of_mem (hh x hx)
    · rw [hnames, List.take_left' (by simp)] at hn
      obtain ⟨x, hx, rfl⟩ := List.mem_map.mp hn
      exact hg x hx (by simpa [isStored] using hs)
    · obtain ⟨rest, hrest⟩ := List.head?_eq_some_iff.mp hr
      rw [hnames, hrest]
      simp

omit [Fintype τ] [DecidableEq τ] in
/-- A cycle of waiting transactions is a cycle of cuts. -/
theorem Inv.cyclicCut (hi : Inv tagLists stored₀ s) (hcyc : ¬ Acyclic (Locks.Waits s.parties)) :
    CyclicCut tagLists stored₀ := by
  obtain ⟨committed, hc⟩ := hi.stored
  choose cut hheld hcut hnext using hi.exists_cut
  refine ⟨committed, cut, fun t u name hut ht hu => ?_, fun hacyc => hcyc (hacyc.mono ?_)⟩
  · -- two transactions cannot both have inserted the name
    rw [← hc]
    by_contra hs
    have := hi.locks.exclusive t u hut.symm _ (hcut t name ht hs) _ (hcut u name hu hs) rfl
    cases this
  · rintro t u ⟨-, hut, r, hr, x, hx, hxr, -⟩
    refine ⟨hut, r.1, hnext t r hr, ?_, hxr ▸ hheld u x hx⟩
    rw [← hc, ← hxr]
    exact hi.held u x hx

/-- **No deadlock from the lists alone.** -/
theorem acyclic_waits_of_cuts (hcut : ¬ CyclicCut tagLists stored₀) {es : List (Event τ)}
    (hr : run step (init tagLists stored₀) es = some s) : Acyclic (Locks.Waits s.parties) := by
  have hi : Inv tagLists stored₀ s :=
    run_invariant' (fun _ _ _ hi hs => hi.step hs) inv_init hr
  by_contra hcyc
  exact hcut (hi.cyclicCut hcyc)

end Runs

/-- Two articles with the same two new tags. -/
def twoArticles (first second : List Str) : Bool → List Str
  | false => first
  | true => second

theorem acyclic_waits_same_order :
    ∃ s, run step (init (twoArticles ["a".toList, "b".toList] ["a".toList, "b".toList]) [])
        [.insert false, .wait true, .insert false] = some s ∧
      Acyclic (Locks.Waits s.parties) := by
  have hcut : ¬ CyclicCut (twoArticles ["a".toList, "b".toList] ["a".toList, "b".toList]) [] := by
    refine @not_cyclicCut_of_sorted _ _ _ (fun x y => x = "a".toList ∧ y = "b".toList) ?_ ?_ ?_
    · rintro a b c ⟨-, rfl⟩ ⟨h, -⟩
      exact absurd h (by decide)
    · rintro a ⟨rfl, h⟩
      exact absurd h (by decide)
    · rintro (_ | _) <;> decide
  refine ⟨_, rfl, ?_⟩
  exact @acyclic_waits_of_cuts _ _ _ _ _ _ hcut [.insert false, .wait true, .insert false] rfl

/-- The client lists them in opposite orders: each transaction waits for the other. -/
theorem not_acyclic_opposite_orders :
    ∃ s, run step (init (twoArticles ["a".toList, "b".toList] ["b".toList, "a".toList]) [])
        [.insert false, .insert true, .wait false, .wait true] = some s ∧
      ¬ Acyclic (Locks.Waits s.parties) := by
  refine ⟨_, rfl, not_acyclic_of_pair (t := false) (u := true) ?_ ?_⟩
  · exact ⟨rfl, by decide, _, rfl, by decide⟩
  · exact ⟨rfl, by decide, _, rfl, by decide⟩

end MediumClone.Articles
