import MediumClone.Support.Run
import Mathlib.Data.List.Nodup
import Mathlib.Data.Set.Insert

/-!
# Support — Transaction

Transactions on a shared state at READ COMMITTED, with exclusive row locks held to the end.

A transaction is a tree of statements (`Tx`).  A statement may take a lock on a row, may write, and
goes on by what it read.  It reads the newest committed state with the transaction's own writes on
top.  `exec` runs a transaction with nothing beside it.

The machine (`State`, `step`) runs many calls at once, one statement at a time.  A statement whose
lock another call holds does not run.  A call ends by committing, by an error of its own, or by a
failure of the database at any statement; only the first changes the committed state.  Commits are
logged with the call's result and the states before and after.

**Serializability.**  `Same L d d'` says that `d'` agrees with `d` on all that a holder of the locks
`L` may rely on.  A transaction is `WellLocked` when what each statement read stays as it was under
the locks held from then on, and when what it writes touches nothing that other locks protect.
Then the log is a serial history: each call in it, run alone on the state the call before left,
gives the result it gave (`serializable`).

A call may rely on more than its locks: on what every other call's commit keeps until it commits
itself (`WellLockedIn`, `serializableIn`).  That is how a key that only one call will ever insert
stays free.
-/

namespace Sys

/-- A transaction on `δ` that locks rows named by `ρ`, throws `ε` and returns `α`. -/
inductive Tx (δ ρ ε α : Type*) where
  | ret (a : α)
  | throw (e : ε)
  | stmt (lock : δ → Option ρ) (write : δ → δ) (k : δ → Tx δ ρ ε α)

namespace Tx

variable {δ ρ ε α β : Type*} {d d' d'' : δ} {e : ε} {a : α}

def bind : Tx δ ρ ε α → (α → Tx δ ρ ε β) → Tx δ ρ ε β
  | ret a, f => f a
  | throw e, _ => throw e
  | stmt lock write k, f => stmt lock write fun d => (k d).bind f

instance : Monad (Tx δ ρ ε) where
  pure := ret
  bind := bind

instance : LawfulMonad (Tx δ ρ ε) :=
  LawfulMonad.mk' _
    (fun x => by
      induction x with
      | ret a => rfl
      | throw e => rfl
      | stmt lock write k ih => exact congrArg _ (funext ih))
    (fun _ _ => rfl)
    (fun x _ _ => by
      induction x with
      | ret a => rfl
      | throw e => rfl
      | stmt lock write k ih => exact congrArg _ (funext ih))

/-- A plain `SELECT`. -/
def select (g : δ → α) : Tx δ ρ ε α := stmt (fun _ => none) id fun d => ret (g d)

/-- `SELECT … FOR UPDATE` of at most one row. -/
def selectForUpdate (g : δ → Option α) (key : α → ρ) : Tx δ ρ ε (Option α) :=
  stmt (fun d => (g d).map key) id fun d => ret (g d)

/-- A statement that writes, and reports `g` of what it found. -/
def execute (write : δ → δ) (g : δ → α) : Tx δ ρ ε α :=
  stmt (fun _ => none) write fun d => ret (g d)

/-- `if (!found) throw e`. -/
def orThrow (e : ε) : Option α → Tx δ ρ ε α
  | some a => ret a
  | none => throw e

/-- `if (!p) throw e`. -/
def require (p : Prop) [Decidable p] (e : ε) : Tx δ ρ ε Unit := if p then ret () else throw e

/-- A statement that fails, with `e`, where `write` gives `none`. -/
def attempt (write : δ → Option δ) (e : δ → ε) : Tx δ ρ ε Unit :=
  stmt (fun _ => none) (fun d => (write d).getD d) fun d =>
    if (write d).isSome then ret () else throw (e d)

/-! ### Alone -/

/-- The transaction with nothing beside it. -/
def exec : Tx δ ρ ε α → δ → Except ε (α × δ)
  | ret a, d => .ok (a, d)
  | throw e, _ => .error e
  | stmt _ write k, d => exec (k d) (write d)

@[simp] theorem exec_pure : exec (pure a : Tx δ ρ ε α) d = .ok (a, d) := rfl

@[simp] theorem exec_throw : exec (throw e : Tx δ ρ ε α) d = .error e := rfl

@[simp] theorem exec_ret : exec (ret a : Tx δ ρ ε α) d = .ok (a, d) := rfl

theorem exec_bind {x : Tx δ ρ ε α} {f : α → Tx δ ρ ε β} :
    exec (x.bind f) d = (exec x d).bind fun r => exec (f r.1) r.2 := by
  induction x generalizing d with
  | ret a => rfl
  | throw e => rfl
  | stmt lock write k ih => exact ih d

@[simp] theorem exec_select_bind {α β : Type} {g : δ → α} {f : α → Tx δ ρ ε β} :
    exec (select g >>= f) d = exec (f (g d)) d := rfl

@[simp] theorem exec_selectForUpdate_bind {α β : Type} {g : δ → Option α} {key : α → ρ}
    {f : Option α → Tx δ ρ ε β} :
    exec (selectForUpdate g key >>= f) d = exec (f (g d)) d := rfl

@[simp] theorem exec_execute_bind {α β : Type} {write : δ → δ} {g : δ → α} {f : α → Tx δ ρ ε β} :
    exec (execute write g >>= f) d = exec (f (g d)) (write d) := rfl

section Inversion

variable {α β : Type} {f : α → Tx δ ρ ε β} {r : β × δ}

theorem exec_bind_ok {x : Tx δ ρ ε α} : exec (x >>= f) d = .ok r ↔
    ∃ a d₁, exec x d = .ok (a, d₁) ∧ exec (f a) d₁ = .ok r := by
  change exec (x.bind f) d = _ ↔ _
  rw [exec_bind]
  cases exec x d with
  | ok y => exact ⟨fun h => ⟨y.1, y.2, rfl, h⟩, fun ⟨_, _, h, h'⟩ => by cases h; exact h'⟩
  | error e => exact ⟨nofun, fun ⟨_, _, h, _⟩ => nomatch h⟩

@[simp] theorem exec_orThrow_some_bind {a : α} :
    exec (orThrow e (some a) >>= f) d = exec (f a) d := rfl

@[simp] theorem exec_orThrow_none_bind : exec (orThrow e none >>= f) d = .error e := rfl

@[simp] theorem exec_orThrow_bind {o : Option α} :
    exec (orThrow e o >>= f) d = .ok r ↔ ∃ a, o = some a ∧ exec (f a) d = .ok r := by
  cases o with
  | some a =>
      change exec (f a) d = .ok r ↔ _
      simp
  | none => simp [orThrow, Bind.bind, Tx.bind]

@[simp] theorem exec_require_bind {p : Prop} [Decidable p] {f : Unit → Tx δ ρ ε β} :
    exec (require p e >>= f) d = .ok r ↔ p ∧ exec (f ()) d = .ok r := by
  by_cases h : p
  · simp only [require, h, if_true, true_and]
    rfl
  · simp [require, h, Bind.bind, Tx.bind]

theorem exec_require_pos_bind {p : Prop} [Decidable p] {f : Unit → Tx δ ρ ε β} (h : p) :
    exec (require p e >>= f) d = exec (f ()) d := by
  rw [require, if_pos h]
  rfl

theorem exec_require_neg_bind {p : Prop} [Decidable p] {f : Unit → Tx δ ρ ε β} (h : ¬ p) :
    exec (require p e >>= f) d = .error e := by
  rw [require, if_neg h]
  rfl

@[simp] theorem exec_attempt_bind {write : δ → Option δ} {e : δ → ε} {f : Unit → Tx δ ρ ε β} :
    exec (attempt write e >>= f) d = .ok r ↔ ∃ d', write d = some d' ∧ exec (f ()) d' = .ok r := by
  change exec ((if (write d).isSome then ret () else throw (e d)).bind f) ((write d).getD d) = _ ↔ _
  cases hw : write d with
  | some d' => simp [Tx.bind]
  | none => simp [Tx.bind]

theorem exec_attempt_some_bind {write : δ → Option δ} {e : δ → ε} {f : Unit → Tx δ ρ ε β}
    (h : write d = some d') : exec (attempt write e >>= f) d = exec (f ()) d' := by
  change exec ((if (write d).isSome then ret () else throw (e d)).bind f) ((write d).getD d) = _
  rw [h]
  rfl

theorem exec_attempt_none_bind {write : δ → Option δ} {e : δ → ε} {f : Unit → Tx δ ρ ε β}
    (h : write d = none) : exec (attempt write e >>= f) d = .error (e d) := by
  change exec ((if (write d).isSome then ret () else throw (e d)).bind f) ((write d).getD d) = _
  rw [h]
  rfl

@[simp] theorem exec_attempt {write : δ → Option δ} {e : δ → ε} {u : Unit} :
    exec (attempt write e : Tx δ ρ ε Unit) d = .ok (u, d') ↔ write d = some d' := by
  change exec (if (write d).isSome then ret () else throw (e d) : Tx δ ρ ε Unit)
    ((write d).getD d) = _ ↔ _
  cases write d with
  | some d₁ => simp
  | none => simp

end Inversion

/-- The state after the transaction: rolled back where it throws. -/
def settle (x : Tx δ ρ ε α) (d : δ) : δ :=
  match exec x d with
  | .ok r => r.2
  | .error _ => d

theorem settle_ok {x : Tx δ ρ ε α} (h : exec x d = .ok (a, d')) : settle x d = d' := by
  rw [settle, h]

theorem settle_error {x : Tx δ ρ ε α} (h : exec x d = .error e) : settle x d = d := by
  rw [settle, h]

/-! ### Errors -/

/-- `catch` and rethrow as `h`. -/
def mapError {ε' : Type*} (h : ε → ε') : Tx δ ρ ε α → Tx δ ρ ε' α
  | ret a => ret a
  | throw e => throw (h e)
  | stmt lock write k => stmt lock write fun d => (k d).mapError h

@[simp] theorem exec_mapError {ε' : Type*} {h : ε → ε'} {x : Tx δ ρ ε α} :
    exec (x.mapError h) d = (exec x d).mapError h := by
  induction x generalizing d with
  | ret a => rfl
  | throw e => rfl
  | stmt lock write k ih => exact ih d

theorem exec_map_ok {α β : Type} {x : Tx δ ρ ε α} {f : α → β} {r : β × δ} :
    exec (f <$> x) d = .ok r ↔ ∃ a, exec x d = .ok (a, r.2) ∧ f a = r.1 := by
  change exec (x >>= fun a => pure (f a)) d = _ ↔ _
  rw [exec_bind_ok]
  constructor
  · rintro ⟨a, d₁, h, ⟨⟩⟩
    exact ⟨a, h, rfl⟩
  · rintro ⟨a, h, ha⟩
    exact ⟨a, r.2, h, by rw [exec_pure, ha]⟩

theorem exec_map {α β : Type} {x : Tx δ ρ ε α} {f : α → β} :
    exec (f <$> x) d = (exec x d).map fun r => (f r.1, r.2) := by
  change exec (x.bind fun a => pure (f a)) d = _
  rw [exec_bind]
  cases exec x d <;> rfl

theorem exec_map_error {α β : Type} {x : Tx δ ρ ε α} {f : α → β} (h : exec x d = .error e) :
    exec (f <$> x) d = .error e := by
  change exec (x.bind fun a => pure (f a)) d = _
  rw [exec_bind, h]
  rfl

@[simp] theorem exec_mapError_ok {ε' : Type*} {h : ε → ε'} {x : Tx δ ρ ε α} {r : α × δ} :
    exec (x.mapError h) d = .ok r ↔ exec x d = .ok r := by
  rw [exec_mapError]
  cases exec x d with
  | ok y => simp [Except.mapError]
  | error e => exact ⟨nofun, nofun⟩

/-! ### What a transaction depends on and what it changes -/

/-- States that `R` relates lead to the same result, and each write stays within `F`.  Only states
that `R` relates to themselves count. -/
def Confined (R F : δ → δ → Prop) : Tx δ ρ ε α → Prop
  | ret _ => True
  | throw _ => True
  | stmt _ write k => (∀ d d', R d d' → k d' = k d ∧ R (write d) (write d')) ∧
      ∀ d, R d d → F d (write d) ∧ Confined R F (k d)

variable {R F : δ → δ → Prop} {x : Tx δ ρ ε α}

theorem Confined.bind {β : Type*} {f : α → Tx δ ρ ε β} (hx : Confined R F x)
    (hf : ∀ a, Confined R F (f a)) : Confined R F (x.bind f) := by
  induction x with
  | ret a => exact hf a
  | throw e => trivial
  | stmt lock write k ih =>
      obtain ⟨hR, hk⟩ := hx
      exact ⟨fun d d' hd => ⟨congrArg (Tx.bind · f) (hR d d' hd).1, (hR d d' hd).2⟩,
        fun d hd => ⟨(hk d hd).1, ih d (hk d hd).2⟩⟩

/-- Where writes within `F` add up to one within `F`, a transaction stays within it. -/
theorem Confined.exec_ok {a : α} {d d' : δ} (hx : Confined Eq F x) (hrefl : ∀ d, F d d)
    (htrans : ∀ {d d' d''}, F d d' → F d' d'' → F d d'') (h : exec x d = .ok (a, d')) : F d d' := by
  induction x generalizing d with
  | ret b =>
      cases h
      exact hrefl _
  | throw e => cases h
  | stmt lock write k ih =>
      obtain ⟨hwrite, hk⟩ := hx.2 d rfl
      exact htrans hwrite (ih d hk h)

section Writes

variable {α β : Type} {e : ε} {f : α → β}

/-! With `R` the equality, only the writes count. -/

theorem writes_pure {a : α} : Confined Eq F (pure a : Tx δ ρ ε α) := trivial

theorem writes_select {g : δ → α} (hF : ∀ d, F d d) :
    Confined Eq F (select g : Tx δ ρ ε α) :=
  ⟨by rintro d _ rfl; exact ⟨rfl, rfl⟩, fun d _ => ⟨hF d, trivial⟩⟩

theorem writes_execute {write : δ → δ} {g : δ → α} (hF : ∀ d, F d (write d)) :
    Confined Eq F (execute write g : Tx δ ρ ε α) :=
  ⟨by rintro d _ rfl; exact ⟨rfl, rfl⟩, fun d _ => ⟨hF d, trivial⟩⟩

theorem writes_attempt {write : δ → Option δ} {e : δ → ε} (hrefl : ∀ d, F d d)
    (hF : ∀ d d', write d = some d' → F d d') :
    Confined Eq F (attempt write e : Tx δ ρ ε Unit) := by
  refine ⟨by rintro d _ rfl; exact ⟨rfl, rfl⟩, fun d _ => ⟨?_, ?_⟩⟩
  · change F d ((write d).getD d)
    cases h : write d with
    | none => exact hrefl d
    | some d' => exact hF d d' h
  · change Confined Eq F (if (write d).isSome then ret () else throw (e d))
    split <;> trivial

theorem writes_orThrow {o : Option α} : Confined Eq F (orThrow e o : Tx δ ρ ε α) := by
  cases o <;> trivial

theorem writes_require {p : Prop} [Decidable p] :
    Confined Eq F (require p e : Tx δ ρ ε Unit) := by
  unfold Tx.require
  split <;> trivial

end Writes

section Binds

variable {α β : Type} {f : α → Tx δ ρ ε β}

theorem confined_pure {b : β} : Confined R F (pure b : Tx δ ρ ε β) := trivial

theorem confined_select {g : δ → α} (hF : ∀ d, F d d) (hg : ∀ d d', R d d' → g d' = g d)
    (hf : ∀ d, R d d → Confined R F (f (g d))) : Confined R F (select g >>= f) :=
  ⟨fun d d' h => ⟨congrArg f (hg d d' h), h⟩, fun d h => ⟨hF d, hf d h⟩⟩

theorem confined_selectForUpdate {g : δ → Option α} {key : α → ρ} {f : Option α → Tx δ ρ ε β}
    (hF : ∀ d, F d d) (hg : ∀ d d', R d d' → g d' = g d)
    (hf : ∀ d, R d d → Confined R F (f (g d))) : Confined R F (selectForUpdate g key >>= f) :=
  ⟨fun d d' h => ⟨congrArg f (hg d d' h), h⟩, fun d h => ⟨hF d, hf d h⟩⟩

theorem confined_execute {write : δ → δ} {g : δ → α} (hg : ∀ d d', R d d' → g d' = g d)
    (hR : ∀ d d', R d d' → R (write d) (write d')) (hF : ∀ d, R d d → F d (write d))
    (hf : ∀ d, R d d → Confined R F (f (g d))) : Confined R F (execute write g >>= f) :=
  ⟨fun d d' h => ⟨congrArg f (hg d d' h), hR d d' h⟩, fun d h => ⟨hF d h, hf d h⟩⟩

theorem confined_attempt {write : δ → Option δ} {e : δ → ε} {f : Unit → Tx δ ρ ε β}
    (hR : ∀ d d', R d d' → (write d').isSome = (write d).isSome ∧ e d' = e d ∧
      R ((write d).getD d) ((write d').getD d'))
    (hF : ∀ d, R d d → F d ((write d).getD d)) (hf : Confined R F (f ())) :
    Confined R F (attempt write e >>= f) := by
  refine ⟨fun d d' h => ⟨?_, (hR d d' h).2.2⟩, fun d h => ⟨hF d h, ?_⟩⟩
  · simp only [(hR d d' h).1, (hR d d' h).2.1]
  · change Confined R F ((if (write d).isSome then ret () else throw (e d)).bind f)
    split
    · exact hf
    · trivial

theorem confined_require {e : ε} {p : Prop} [Decidable p] {f : Unit → Tx δ ρ ε β}
    (hf : p → Confined R F (f ())) : Confined R F (require p e >>= f) := by
  unfold Tx.require
  split
  · rename_i hp
    exact hf hp
  · trivial

theorem confined_orThrow {o : Option α} (hf : ∀ a, o = some a → Confined R F (f a)) :
    Confined R F (orThrow e o >>= f) := by
  cases o with
  | some a => exact hf a rfl
  | none => trivial

end Binds

/-! ### Runs that write nothing -/

/-- Run alone on `d`, no statement writes anything. -/
def WritesNothing : Tx δ ρ ε α → δ → Prop
  | ret _, _ => True
  | throw _, _ => True
  | stmt _ write k, d => write d = d ∧ WritesNothing (k d) d

section WritesNothing

variable {ε' : Type*} {h : ε → ε'}

theorem WritesNothing.exec (hx : x.WritesNothing d) (hexec : x.exec d = .ok (a, d')) : d' = d := by
  induction x with
  | ret b => cases hexec; rfl
  | throw e => cases hexec
  | stmt lock write k ih =>
      obtain ⟨hwrite, hk⟩ := hx
      rw [Tx.exec, hwrite] at hexec
      exact ih d hk hexec

theorem WritesNothing.bind {f : α → Tx δ ρ ε β} (hx : x.WritesNothing d)
    (hf : ∀ a, x.exec d = .ok (a, d) → (f a).WritesNothing d) : (x.bind f).WritesNothing d := by
  induction x with
  | ret b => exact hf b rfl
  | throw e => trivial
  | stmt lock write k ih =>
      obtain ⟨hwrite, hk⟩ := hx
      refine ⟨hwrite, ih d hk fun a ha => hf a ?_⟩
      rw [Tx.exec, hwrite]
      exact ha

theorem WritesNothing.mapError (hx : x.WritesNothing d) : (x.mapError h).WritesNothing d := by
  induction x with
  | ret b => trivial
  | throw e => trivial
  | stmt lock write k ih => exact ⟨hx.1, ih d hx.2⟩

/-- What writes nothing anywhere. -/
theorem writesNothing_of_confined (hx : x.Confined Eq Eq) : x.WritesNothing d := by
  induction x generalizing d with
  | ret b => trivial
  | throw e => trivial
  | stmt lock write k ih =>
      obtain ⟨hwrite, hk⟩ := hx.2 d rfl
      exact ⟨hwrite.symm, ih d hk⟩

end WritesNothing

/-! ### Errors that may be thrown -/

/-- Whatever the statements read, only errors in `E` are thrown. -/
def Throws (E : Set ε) : Tx δ ρ ε α → Prop
  | ret _ => True
  | throw e => e ∈ E
  | stmt _ _ k => ∀ d, Throws E (k d)

section Throws

variable {E : Set ε} {e : ε}

theorem Throws.bind {β : Type*} {f : α → Tx δ ρ ε β} (hx : Throws E x) (hf : ∀ a, Throws E (f a)) :
    Throws E (x.bind f) := by
  induction x with
  | ret a => exact hf a
  | throw e => exact hx
  | stmt lock write k ih => exact fun d => ih d (hx d)

theorem throws_pure {a : α} : Throws E (pure a : Tx δ ρ ε α) := trivial

theorem throws_select {g : δ → α} : Throws E (select g : Tx δ ρ ε α) := fun _ => trivial

theorem throws_execute {write : δ → δ} {g : δ → α} : Throws E (execute write g : Tx δ ρ ε α) :=
  fun _ => trivial

theorem throws_attempt {write : δ → Option δ} {e : δ → ε} (h : ∀ d, e d ∈ E) :
    Throws E (attempt write e : Tx δ ρ ε Unit) := by
  intro d
  change Throws E (if (write d).isSome then ret () else throw (e d))
  split
  · trivial
  · exact h d

theorem throws_orThrow {o : Option α} (h : e ∈ E) : Throws E (orThrow e o : Tx δ ρ ε α) := by
  cases o with
  | some a => trivial
  | none => exact h

theorem throws_require {p : Prop} [Decidable p] (h : e ∈ E) :
    Throws E (require p e : Tx δ ρ ε Unit) := by
  unfold Tx.require
  split
  · trivial
  · exact h

theorem Throws.exec_error (hx : Throws E x) (h : exec x d = .error e) : e ∈ E := by
  induction x generalizing d with
  | ret a => cases h
  | throw e' =>
      cases h
      exact hx
  | stmt lock write k ih => exact ih d (hx d) h

end Throws

/-! ### Errors that are never thrown -/

/-- Whatever committed states in `S` the statements read, with the writes `pend` so far, `e` is not
thrown. -/
def Never (S : δ → Prop) (e : ε) : Tx δ ρ ε α → (δ → δ) → Prop
  | ret _, _ => True
  | throw e', _ => e' ≠ e
  | stmt _ write k, pend => ∀ d, S d → Never S e (k (pend d)) (write ∘ pend)

section Never

variable {S : δ → Prop} {pend : δ → δ} {e : ε}

theorem Never.bind {f : α → Tx δ ρ ε β} (hx : x.Never S e pend)
    (hf : ∀ a pend', (f a).Never S e pend') : (x.bind f).Never S e pend := by
  induction x generalizing pend with
  | ret a => exact hf a pend
  | throw e' => exact hx
  | stmt lock write k ih => exact fun d hd => ih _ (hx d hd)

theorem never_select {α β : Type} {g : δ → α} {f : α → Tx δ ρ ε β}
    (h : ∀ d, S d → (f (g (pend d))).Never S e pend) : (select g >>= f).Never S e pend := h

theorem never_execute {α β : Type} {write : δ → δ} {g : δ → α} {f : α → Tx δ ρ ε β}
    (h : ∀ d, S d → (f (g (pend d))).Never S e (write ∘ pend)) :
    (execute write g >>= f).Never S e pend := h

theorem never_require {β : Type} {p : Prop} [Decidable p] {e' : ε} {f : Unit → Tx δ ρ ε β}
    (hp : p) (h : (f ()).Never S e pend) : (require p e' >>= f).Never S e pend := by
  rw [require, if_pos hp]
  exact h

theorem never_attempt {write : δ → Option δ} {e' : δ → ε} (h : ∀ d, e' d ≠ e) :
    (attempt write e' : Tx δ ρ ε Unit).Never S e pend := by
  intro d _
  change Never S e (if (write (pend d)).isSome then ret () else throw (e' (pend d))) _
  split
  · trivial
  · exact h _

end Never

/-! ### Success -/

/-- Alone in the state, the transaction returns. -/
def Succeeds (x : Tx δ ρ ε α) (d : δ) : Prop := ∃ r, exec x d = .ok r

section Succeeds

variable {α β : Type} {a : α} {x : Tx δ ρ ε α} {f : α → Tx δ ρ ε β}

theorem succeeds_pure : Succeeds (pure a : Tx δ ρ ε α) d := ⟨_, rfl⟩

theorem Succeeds.bind (hx : x.Succeeds d)
    (hf : ∀ a d', exec x d = .ok (a, d') → (f a).Succeeds d') : (x >>= f).Succeeds d := by
  obtain ⟨⟨a, d'⟩, hx⟩ := hx
  obtain ⟨r, hr⟩ := hf a d' hx
  exact ⟨r, exec_bind_ok.mpr ⟨a, d', hx, hr⟩⟩

theorem Succeeds.mapError {ε' : Type*} {h : ε → ε'} (hx : x.Succeeds d) :
    (x.mapError h).Succeeds d :=
  hx.imp fun _ => exec_mapError_ok.mpr

theorem Succeeds.map {g : α → β} (hx : x.Succeeds d) : (g <$> x).Succeeds d := by
  obtain ⟨⟨a, d'⟩, hx⟩ := hx
  exact ⟨(g a, d'), exec_map_ok.mpr ⟨a, hx, rfl⟩⟩

theorem succeeds_select_bind {g : δ → α} (h : (f (g d)).Succeeds d) :
    (select g >>= f).Succeeds d := h

theorem succeeds_selectForUpdate_bind {g : δ → Option α} {key : α → ρ}
    {f : Option α → Tx δ ρ ε β} (h : (f (g d)).Succeeds d) :
    (selectForUpdate g key >>= f).Succeeds d := h

theorem succeeds_execute_bind {write : δ → δ} {g : δ → α} (h : (f (g d)).Succeeds (write d)) :
    (execute write g >>= f).Succeeds d := h

theorem succeeds_orThrow_bind {o : Option α} (ho : o = some a) (h : (f a).Succeeds d) :
    (orThrow e o >>= f).Succeeds d := by
  rwa [Succeeds, ho, exec_orThrow_some_bind]

theorem succeeds_require_bind {p : Prop} [Decidable p] {f : Unit → Tx δ ρ ε β} (hp : p)
    (h : (f ()).Succeeds d) : (require p e >>= f).Succeeds d := by
  rwa [Succeeds, exec_require_pos_bind hp]

theorem succeeds_attempt_bind {write : δ → Option δ} {e : δ → ε} {f : Unit → Tx δ ρ ε β}
    (hw : write d = some d') (h : (f ()).Succeeds d') : (attempt write e >>= f).Succeeds d := by
  rwa [Succeeds, exec_attempt_some_bind hw]

end Succeeds

end Tx

/-! ### The discipline -/

/-- The locks held after a statement that asked for `r`. -/
def grant {ρ : Type*} : Option ρ → Set ρ → Set ρ
  | none, L => L
  | some r, L => insert r L

/-- No lock is in both. -/
def Apart {ρ : Type*} (M L : Set ρ) : Prop := ∀ r ∈ M, r ∉ L

theorem Apart.mono {ρ : Type*} {M L L' : Set ρ} (h : Apart M L') (hL : L ⊆ L') : Apart M L :=
  fun r hr hr' => h r hr (hL hr')

theorem subset_grant {ρ : Type*} (o : Option ρ) (L : Set ρ) : L ⊆ grant o L := by
  cases o with
  | none => exact subset_rfl
  | some r => exact Set.subset_insert r L

/-- `Same L d d'`: `d'` agrees with `d` on all that a holder of `L` may rely on. -/
structure Protects {δ ρ : Type*} (Same : Set ρ → δ → δ → Prop) : Prop where
  refl : ∀ L d, Same L d d
  trans : ∀ {L d d' d''}, Same L d d' → Same L d' d'' → Same L d d''
  anti : ∀ {L L' d d'}, L ⊆ L' → Same L' d d' → Same L d d'

section Discipline

variable {δ ρ ε α β : Type} {Same : Set ρ → δ → δ → Prop} {L : Set ρ} {pend : δ → δ} {b d : δ}

/-- From the committed state `b` on, with the locks `L` and the writes `pend`: every statement reads
what its locks keep as it is, and the writes touch nothing that other locks protect. -/
def WellLocked (Same : Set ρ → δ → δ → Prop) :
    Tx δ ρ ε α → Set ρ → (δ → δ) → δ → Prop
  | .ret _, L, pend, b => ∀ d, Same L b d → ∀ M, Apart M L → Same M d (pend d)
  | .throw _, _, _, _ => True
  | .stmt lock write k, L, pend, b => ∀ d, Same L b d →
      (∀ d', Same (grant (lock (pend d)) L) d d' → k (pend d') = k (pend d)) ∧
        WellLocked Same (k (pend d)) (grant (lock (pend d)) L) (write ∘ pend) d

theorem wellLocked_pure {a : α}
    (h : ∀ d, Same L b d → ∀ M, Apart M L → Same M d (pend d)) :
    WellLocked Same (pure a : Tx δ ρ ε α) L pend b := h

theorem wellLocked_orThrow {e : ε} {o : Option α} {f : α → Tx δ ρ ε β}
    (h : ∀ a, o = some a → WellLocked Same (f a) L pend b) :
    WellLocked Same (Tx.orThrow e o >>= f) L pend b := by
  cases o with
  | some a => exact h a rfl
  | none => trivial

theorem wellLocked_require {e : ε} {q : Prop} [Decidable q] {f : Unit → Tx δ ρ ε β}
    (h : q → WellLocked Same (f ()) L pend b) :
    WellLocked Same (Tx.require q e >>= f) L pend b := by
  unfold Tx.require
  split
  · rename_i hq
    exact h hq
  · trivial

theorem wellLocked_select {g : δ → α} {f : α → Tx δ ρ ε β}
    (hg : ∀ d, Same L b d → ∀ d', Same L d d' → g (pend d') = g (pend d))
    (hf : ∀ d, Same L b d → WellLocked Same (f (g (pend d))) L pend d) :
    WellLocked Same (Tx.select g >>= f) L pend b :=
  fun d hd => ⟨fun d' hd' => congrArg f (hg d hd d' hd'), hf d hd⟩

theorem wellLocked_execute {write : δ → δ} {g : δ → α} {f : α → Tx δ ρ ε β}
    (hg : ∀ d, Same L b d → ∀ d', Same L d d' → g (pend d') = g (pend d))
    (hf : ∀ d, Same L b d → WellLocked Same (f (g (pend d))) L (write ∘ pend) d) :
    WellLocked Same (Tx.execute write g >>= f) L pend b :=
  fun d hd => ⟨fun d' hd' => congrArg f (hg d hd d' hd'), hf d hd⟩

/-- The row found is protected by its own lock; that there is none is protected by the others. -/
theorem wellLocked_selectForUpdate {g : δ → Option α} {key : α → ρ} {f : Option α → Tx δ ρ ε β}
    (hnone : ∀ d, Same L b d → g (pend d) = none →
      (∀ d', Same L d d' → g (pend d') = none) ∧ WellLocked Same (f none) L pend d)
    (hsome : ∀ d, Same L b d → ∀ x, g (pend d) = some x →
      (∀ d', Same (insert (key x) L) d d' → g (pend d') = some x) ∧
        WellLocked Same (f (some x)) (insert (key x) L) pend d) :
    WellLocked Same (Tx.selectForUpdate g key >>= f) L pend b := by
  intro d hd
  change (∀ d', Same (grant ((g (pend d)).map key) L) d d' → f (g (pend d')) = f (g (pend d))) ∧
    WellLocked Same (f (g (pend d))) (grant ((g (pend d)).map key) L) (id ∘ pend) d
  cases hx : g (pend d) with
  | none =>
      obtain ⟨hkeep, hrest⟩ := hnone d hd hx
      exact ⟨fun d' hd' => by rw [hkeep d' hd'], hrest⟩
  | some x =>
      obtain ⟨hkeep, hrest⟩ := hsome d hd x hx
      exact ⟨fun d' hd' => by rw [hkeep d' hd'], hrest⟩

theorem WellLocked.mapError {ε' : Type} {h : ε → ε'} {p : Tx δ ρ ε α}
    (hp : WellLocked Same p L pend b) : WellLocked Same (p.mapError h) L pend b := by
  induction p generalizing L pend b with
  | ret a => exact hp
  | throw e => trivial
  | stmt lock write k ih =>
      intro d hd
      obtain ⟨hkeep, hrest⟩ := hp d hd
      exact ⟨fun d' hd' => congrArg _ (hkeep d' hd'), ih _ hrest⟩

theorem WellLocked.map {p : Tx δ ρ ε α} {f : α → β} (hp : WellLocked Same p L pend b) :
    WellLocked Same (f <$> p) L pend b := by
  change WellLocked Same (p.bind fun a => .ret (f a)) L pend b
  induction p generalizing L pend b with
  | ret a => exact hp
  | throw e => trivial
  | stmt lock write k ih =>
      intro d hd
      obtain ⟨hkeep, hrest⟩ := hp d hd
      exact ⟨fun d' hd' => congrArg (Tx.bind · _) (hkeep d' hd'), ih _ hrest⟩

/-- What depends on no more than its locks protect, and changes no more, is well locked. -/
theorem WellLocked.of_confined {R F : δ → δ → Prop} {p : Tx δ ρ ε α} (P : Protects Same)
    (hp : p.Confined R F) (hR : ∀ d d', Same L b d → Same L d d' → R (pend d) (pend d'))
    (hF : ∀ d, Same L b d → F d (pend d)) (htrans : ∀ d d' d'', F d d' → F d' d'' → F d d'')
    (hend : ∀ d d' M, Same L b d → Apart M L → F d d' → Same M d d') :
    WellLocked Same p L pend b := by
  induction p generalizing L pend b with
  | ret a => exact fun d hd M hM => hend d _ M hd hM (hF d hd)
  | throw e => trivial
  | stmt lock write k ih =>
      obtain ⟨hkeep, hk⟩ := hp
      intro d hd
      -- the locks only grow, so what holds under those held so far holds under the later ones
      have hsub := subset_grant (lock (pend d)) L
      have hb : ∀ d', Same (grant (lock (pend d)) L) d d' → Same L b d' :=
        fun d' h => P.trans hd (P.anti hsub h)
      have hdd := hR d d hd (P.refl L d)
      refine ⟨fun d' hd' => (hkeep _ _ (hR d d' hd (P.anti hsub hd'))).1, ?_⟩
      refine ih (pend d) (hk _ hdd).2 (fun d₁ d₂ h h' => ?_) (fun d₁ h => ?_)
        (fun d₁ d₂ M h hM => hend d₁ d₂ M (hb d₁ h) (hM.mono hsub))
      · exact (hkeep _ _ (hR d₁ d₂ (hb d₁ h) (P.anti hsub h'))).2
      · exact htrans _ _ _ (hF d₁ (hb d₁ h)) (hk _ (hR d₁ d₁ (hb d₁ h) (P.refl L d₁))).1

/-- The same for a call that may rely on `Rely`, besides what its locks protect. -/
def WellLockedIn (Rely : δ → Prop) (Same : Set ρ → δ → δ → Prop) :
    Tx δ ρ ε α → Set ρ → (δ → δ) → δ → Prop
  | .ret _, L, pend, b => ∀ d, Rely d → Same L b d → ∀ M, Apart M L → Same M d (pend d)
  | .throw _, _, _, _ => True
  | .stmt lock write k, L, pend, b => ∀ d, Rely d → Same L b d →
      (∀ d', Rely d' → Same (grant (lock (pend d)) L) d d' → k (pend d') = k (pend d)) ∧
        WellLockedIn Rely Same (k (pend d)) (grant (lock (pend d)) L) (write ∘ pend) d

section Rely

variable {Rely : δ → Prop}

theorem WellLocked.toIn {p : Tx δ ρ ε α} (h : WellLocked Same p L pend b) :
    WellLockedIn Rely Same p L pend b := by
  induction p generalizing L pend b with
  | ret a => exact fun d _ hd => h d hd
  | throw e => trivial
  | stmt lock write k ih =>
      intro d _ hd
      obtain ⟨hkeep, hrest⟩ := h d hd
      exact ⟨fun d' _ hd' => hkeep d' hd', ih _ hrest⟩

theorem WellLockedIn.of_true {p : Tx δ ρ ε α} (h : WellLockedIn (fun _ => True) Same p L pend b) :
    WellLocked Same p L pend b := by
  induction p generalizing L pend b with
  | ret a => exact fun d hd => h d trivial hd
  | throw e => trivial
  | stmt lock write k ih =>
      intro d hd
      obtain ⟨hkeep, hrest⟩ := h d trivial hd
      exact ⟨fun d' hd' => hkeep d' trivial hd', ih _ hrest⟩

theorem WellLockedIn.mono {p : Tx δ ρ ε α} (P : Protects Same)
    (h : WellLockedIn Rely Same p L pend b) (hd : Same L b d) :
    WellLockedIn Rely Same p L pend d := by
  cases p with
  | ret a => exact fun d' hr hd' => h d' hr (P.trans hd hd')
  | throw e => trivial
  | stmt lock write k => exact fun d' hr hd' => h d' hr (P.trans hd hd')

theorem wellLockedIn_orThrow {e : ε} {o : Option α} {f : α → Tx δ ρ ε β}
    (h : ∀ a, o = some a → WellLockedIn Rely Same (f a) L pend b) :
    WellLockedIn Rely Same (Tx.orThrow e o >>= f) L pend b := by
  cases o with
  | some a => exact h a rfl
  | none => trivial

theorem wellLockedIn_select {g : δ → α} {f : α → Tx δ ρ ε β}
    (hg : ∀ d, Rely d → Same L b d → ∀ d', Rely d' → Same L d d' → g (pend d') = g (pend d))
    (hf : ∀ d, Rely d → Same L b d → WellLockedIn Rely Same (f (g (pend d))) L pend d) :
    WellLockedIn Rely Same (Tx.select g >>= f) L pend b :=
  fun d hr hd => ⟨fun d' hr' hd' => congrArg f (hg d hr hd d' hr' hd'), hf d hr hd⟩

theorem wellLockedIn_selectForUpdate {g : δ → Option α} {key : α → ρ} {f : Option α → Tx δ ρ ε β}
    (hnone : ∀ d, Rely d → Same L b d → g (pend d) = none →
      (∀ d', Rely d' → Same L d d' → g (pend d') = none) ∧
        WellLockedIn Rely Same (f none) L pend d)
    (hsome : ∀ d, Rely d → Same L b d → ∀ x, g (pend d) = some x →
      (∀ d', Rely d' → Same (insert (key x) L) d d' → g (pend d') = some x) ∧
        WellLockedIn Rely Same (f (some x)) (insert (key x) L) pend d) :
    WellLockedIn Rely Same (Tx.selectForUpdate g key >>= f) L pend b := by
  intro d hr hd
  change (∀ d', Rely d' → Same (grant ((g (pend d)).map key) L) d d' →
      f (g (pend d')) = f (g (pend d))) ∧
    WellLockedIn Rely Same (f (g (pend d))) (grant ((g (pend d)).map key) L) (id ∘ pend) d
  cases hx : g (pend d) with
  | none =>
      obtain ⟨hkeep, hrest⟩ := hnone d hr hd hx
      exact ⟨fun d' hr' hd' => by rw [hkeep d' hr' hd'], hrest⟩
  | some x =>
      obtain ⟨hkeep, hrest⟩ := hsome d hr hd x hx
      exact ⟨fun d' hr' hd' => by rw [hkeep d' hr' hd'], hrest⟩

/-- A write that what is relied on lets through. -/
theorem wellLockedIn_attempt {write : δ → Option δ} {e : δ → ε} {f : Unit → Tx δ ρ ε β}
    (P : Protects Same) (hw : ∀ d, Rely d → Same L b d → (write (pend d)).isSome)
    (hf : ∀ d, Rely d → Same L b d →
      WellLockedIn Rely Same (f ()) L ((fun x => (write x).getD x) ∘ pend) d) :
    WellLockedIn Rely Same (Tx.attempt write e >>= f) L pend b := by
  intro d hr hd
  have hk : ∀ d', Rely d' → Same L d d' →
      (if (write (pend d')).isSome then Tx.ret () else Tx.throw (e (pend d')) :
        Tx δ ρ ε Unit).bind f = f () := by
    intro d' hr' hd'
    rw [if_pos (hw d' hr' (P.trans hd hd'))]
    rfl
  have hd₀ := hk d hr (P.refl L d)
  constructor
  · intro d' hr' hd'
    exact (hk d' hr' hd').trans hd₀.symm
  · change WellLockedIn Rely Same ((if (write (pend d)).isSome then Tx.ret ()
      else Tx.throw (e (pend d)) : Tx δ ρ ε Unit).bind f) L _ d
    rw [hd₀]
    exact hf d hr hd

theorem WellLockedIn.mapError {ε' : Type} {h : ε → ε'} {p : Tx δ ρ ε α}
    (hp : WellLockedIn Rely Same p L pend b) : WellLockedIn Rely Same (p.mapError h) L pend b := by
  induction p generalizing L pend b with
  | ret a => exact hp
  | throw e => trivial
  | stmt lock write k ih =>
      intro d hr hd
      obtain ⟨hkeep, hrest⟩ := hp d hr hd
      exact ⟨fun d' hr' hd' => congrArg _ (hkeep d' hr' hd'), ih _ hrest⟩

theorem WellLockedIn.map {p : Tx δ ρ ε α} {f : α → β} (hp : WellLockedIn Rely Same p L pend b) :
    WellLockedIn Rely Same (f <$> p) L pend b := by
  change WellLockedIn Rely Same (p.bind fun a => .ret (f a)) L pend b
  induction p generalizing L pend b with
  | ret a => exact hp
  | throw e => trivial
  | stmt lock write k ih =>
      intro d hr hd
      obtain ⟨hkeep, hrest⟩ := hp d hr hd
      exact ⟨fun d' hr' hd' => congrArg (Tx.bind · _) (hkeep d' hr' hd'), ih _ hrest⟩

end Rely

end Discipline

/-! ### Many calls at once -/

namespace Transaction

/-- Where one call stands. -/
inductive Session (τ δ ρ ε α : Type*) where
  | idle
  | running (t : τ) (pend : δ → δ) (rest : Tx δ ρ ε α)
  | committed (a : α)
  /-- `none`: the database failed. -/
  | aborted (e : Option ε)

/-- A committed call: its start, its result, and the committed state it found and left. -/
structure Commit (ι τ δ α : Type*) where
  call : ι
  time : τ
  result : α
  before : δ
  after : δ

structure State (ι τ δ ρ ε α : Type*) where
  db : δ
  clock : τ
  session : ι → Session τ δ ρ ε α
  holder : ρ → Option ι
  log : List (Commit ι τ δ α)

inductive Event (ι τ : Type*) where
  | start (i : ι) (t : τ)
  | exec (i : ι)
  | fails (i : ι)

section Machine

variable {ι τ δ ρ ε α : Type*}

def State.init (d₀ : δ) (t₀ : τ) : State ι τ δ ρ ε α where
  db := d₀
  clock := t₀
  session _ := .idle
  holder _ := none
  log := []

/-- The locks of the call `i`. -/
def State.held (s : State ι τ δ ρ ε α) (i : ι) : Set ρ := {r | s.holder r = some i}

variable [DecidableEq ι]

def State.set (s : State ι τ δ ρ ε α) (i : ι) (q : Session τ δ ρ ε α) : State ι τ δ ρ ε α :=
  { s with session := Function.update s.session i q }

def State.release (s : State ι τ δ ρ ε α) (i : ι) : State ι τ δ ρ ε α :=
  { s with holder := fun r => if s.holder r = some i then none else s.holder r }

/-- The lock `r` goes to `i`, unless another call holds it. -/
def State.lock [DecidableEq ρ] (s : State ι τ δ ρ ε α) (i : ι) :
    Option ρ → Option (State ι τ δ ρ ε α)
  | none => some s
  | some r =>
    if s.holder r = none ∨ s.holder r = some i then
      some { s with holder := Function.update s.holder r (some i) }
    else none

def State.commit (s : State ι τ δ ρ ε α) (i : ι) (t : τ) (a : α) (d : δ) : State ι τ δ ρ ε α :=
  { (s.release i).set i (.committed a) with db := d, log := s.log ++ [⟨i, t, a, s.db, d⟩] }

def step [DecidableEq ρ] [LE τ] [DecidableLE τ] (prog : ι → τ → Tx δ ρ ε α)
    (s : State ι τ δ ρ ε α) : Event ι τ → Option (State ι τ δ ρ ε α)
  | .start i t =>
    match s.session i with
    | .idle => if s.clock ≤ t then some { s.set i (.running t id (prog i t)) with clock := t }
      else none
    | _ => none
  | .exec i =>
    match s.session i with
    | .running t pend (.stmt lock write k) =>
      -- no step while another call holds the lock: the statement waits
      (s.lock i (lock (pend s.db))).map fun s₁ =>
        s₁.set i (.running t (write ∘ pend) (k (pend s.db)))
    | .running t pend (.ret a) => some (s.commit i t a (pend s.db))
    | .running _ _ (.throw e) => some ((s.release i).set i (.aborted (some e)))
    | _ => none
  | .fails i =>
    match s.session i with
    | .running _ _ _ => some ((s.release i).set i (.aborted none))
    | _ => none

variable {prog : ι → τ → Tx δ ρ ε α} {s s' s₁ : State ι τ δ ρ ε α} {e : Event ι τ} {i j : ι}
  {o : Option ρ} {es : List (Event ι τ)} {d₀ : δ} {t₀ : τ}

/-! ### What a step does -/

theorem State.lock_eq [DecidableEq ρ] (h : s.lock i o = some s₁) :
    s₁.db = s.db ∧ s₁.session = s.session ∧ s₁.log = s.log ∧ s₁.held i = grant o (s.held i) ∧
      ∀ j, j ≠ i → s₁.held j = s.held j := by
  cases o with
  | none => cases h; exact ⟨rfl, rfl, rfl, rfl, fun _ _ => rfl⟩
  | some r =>
      simp only [State.lock] at h
      split at h
      · rename_i hr
        cases h
        refine ⟨rfl, rfl, rfl, ?_, fun j hj => ?_⟩
        · ext r'
          by_cases h : r' = r
          · simp [State.held, grant, h]
          · simp [State.held, grant, h]
        · ext r'
          by_cases h : r' = r
          · subst h
            rcases hr with hr | hr <;> simp [State.held, hr, Ne.symm hj]
          · simp [State.held, h]
      · exact absurd h nofun

theorem State.clock_lock [DecidableEq ρ] (h : s.lock i o = some s₁) : s₁.clock = s.clock := by
  cases o with
  | none => cases h; rfl
  | some r =>
      simp only [State.lock] at h
      split at h
      · cases h; rfl
      · exact absurd h nofun

theorem State.held_release : (s.release i).held j = if j = i then ∅ else s.held j := by
  ext r
  by_cases hj : j = i
  · simp [State.held, State.release, hj]
  · by_cases h : s.holder r = some i <;> simp [State.held, State.release, h, hj, Ne.symm hj]

variable [DecidableEq ρ] [LE τ] [DecidableLE τ]

/-- A step starts a call, runs a statement of one, or ends one. -/
theorem step_cases (h : step prog s e = some s') :
    (∃ i t, e = .start i t ∧ s.session i = .idle ∧ s.clock ≤ t ∧
      s' = { s.set i (.running t id (prog i t)) with clock := t }) ∨
    (∃ i t pend lock write k s₁, e = .exec i ∧
      s.session i = .running t pend (.stmt lock write k) ∧
      s.lock i (lock (pend s.db)) = some s₁ ∧
      s' = s₁.set i (.running t (write ∘ pend) (k (pend s.db)))) ∨
    (∃ i t pend a, e = .exec i ∧ s.session i = .running t pend (.ret a) ∧
      s' = s.commit i t a (pend s.db)) ∨
    (∃ i t pend rest r, s.session i = .running t pend rest ∧
      s' = (s.release i).set i (.aborted r)) := by
  cases e with
  | start i t =>
      simp only [step] at h
      split at h
      · rename_i hi
        split at h
        · rename_i ht
          exact .inl ⟨i, t, rfl, hi, ht, (Option.some.inj h).symm⟩
        · exact absurd h nofun
      · exact absurd h nofun
  | exec i =>
      simp only [step] at h
      split at h
      · rename_i t pend lock write k hi
        obtain ⟨s₁, hs₁, rfl⟩ := Option.map_eq_some_iff.mp h
        exact .inr (.inl ⟨i, t, pend, lock, write, k, s₁, rfl, hi, hs₁, rfl⟩)
      · rename_i t pend a hi
        exact .inr (.inr (.inl ⟨i, t, pend, a, rfl, hi, (Option.some.inj h).symm⟩))
      · rename_i t pend e hi
        exact .inr (.inr (.inr ⟨i, t, pend, _, _, hi, (Option.some.inj h).symm⟩))
      · exact absurd h nofun
  | fails i =>
      simp only [step] at h
      split at h
      · rename_i t pend rest hi
        exact .inr (.inr (.inr ⟨i, t, pend, _, _, hi, (Option.some.inj h).symm⟩))
      · exact absurd h nofun

/-- Only a commit changes the committed state and the log. -/
theorem step_commits (h : step prog s e = some s') : (s'.db = s.db ∧ s'.log = s.log) ∨
    ∃ i t pend a, e = .exec i ∧ s.session i = .running t pend (.ret a) ∧
      s' = s.commit i t a (pend s.db) := by
  obtain ⟨i, t, -, -, -, rfl⟩ | ⟨i, t, pend, lock, write, k, s₁, -, -, hs₁, rfl⟩ | hcommit |
    ⟨i, t, pend, rest, r, -, rfl⟩ := step_cases h
  · exact .inl ⟨rfl, rfl⟩
  · obtain ⟨hdb, -, hlog, -⟩ := State.lock_eq hs₁
    exact .inl ⟨hdb, hlog⟩
  · exact .inr hcommit
  · exact .inl ⟨rfl, rfl⟩

theorem step_db (h : step prog s e = some s') (hlog : s'.log = s.log) : s'.db = s.db := by
  obtain ⟨hdb, -⟩ | ⟨i, t, pend, a, -, -, rfl⟩ := step_commits h
  · exact hdb
  · simp [State.commit] at hlog

/-! ### The committed states -/

/-- The committed states so far, the first one in front. -/
def State.committed (d₀ : δ) (s : State ι τ δ ρ ε α) : List δ := d₀ :: s.log.map Commit.after

theorem committed_prefix (h : step prog s e = some s') : s.committed d₀ <+: s'.committed d₀ := by
  obtain ⟨-, hlog⟩ | ⟨i, t, pend, a, -, -, rfl⟩ := step_commits h
  · rw [State.committed, ← hlog]
    exact List.prefix_rfl
  · exact ⟨[pend s.db], by simp [State.committed, State.commit]⟩

/-- The newest is the state of the database. -/
theorem getLast_committed (h : step prog s e = some s')
    (hs : (s.committed d₀).getLast? = some s.db) : (s'.committed d₀).getLast? = some s'.db := by
  obtain ⟨hdb, hlog⟩ | ⟨i, t, pend, a, -, -, rfl⟩ := step_commits h
  · rwa [State.committed, hlog, hdb]
  · simp [State.committed, State.commit, List.getLast?_cons]

end Machine

/-! ### Start times -/

section Clock

/-- The clock has passed `t₀`, and no call started before it. -/
structure Clocked {ι τ δ ρ ε α : Type*} [LE τ] (t₀ : τ) (s : State ι τ δ ρ ε α) : Prop where
  clock : t₀ ≤ s.clock
  started : ∀ i t pend rest, s.session i = .running t pend rest → t₀ ≤ t

variable {ι τ δ ρ ε α : Type*} [Preorder τ] [DecidableEq ι] {prog : ι → τ → Tx δ ρ ε α}
  {s s' : State ι τ δ ρ ε α} {e : Event ι τ} {t₀ : τ}

theorem Clocked.session {q : Session τ δ ρ ε α} {i : ι} (h : Clocked t₀ s)
    (hclock : s'.clock = s.clock) (hsession : s'.session = Function.update s.session i q)
    (hq : ∀ t pend rest, q = .running t pend rest → t₀ ≤ t) : Clocked t₀ s' where
  clock := hclock ▸ h.clock
  started j t pend rest hj := by
    rw [hsession] at hj
    by_cases hji : j = i
    · subst hji
      rw [Function.update_self] at hj
      exact hq t pend rest hj
    · rw [Function.update_of_ne hji] at hj
      exact h.started j t pend rest hj

variable [DecidableEq ρ] [DecidableLE τ]

theorem Clocked.step (h : Clocked t₀ s) (hs : step prog s e = some s') : Clocked t₀ s' := by
  obtain ⟨i, t, -, -, ht, rfl⟩ | ⟨i, t, pend, lock, write, k, s₁, -, hi, hs₁, rfl⟩ |
    ⟨i, t, pend, a, -, -, rfl⟩ | ⟨i, t, pend, rest, r, -, rfl⟩ := step_cases hs
  · have hstart := h.clock.trans ht
    have hset : Clocked t₀ (s.set i (.running t id (prog i t))) :=
      h.session rfl rfl (by rintro t' pend rest ⟨⟩; exact hstart)
    exact ⟨hstart, hset.started⟩
  · obtain ⟨-, hsession, -⟩ := State.lock_eq hs₁
    have hclock : s₁.clock = s.clock := State.clock_lock hs₁
    refine h.session (i := i) (q := .running t (write ∘ pend) (k (pend s.db))) hclock
      (by rw [← hsession]; rfl) ?_
    rintro t' pend' rest ⟨⟩
    exact h.started i t pend _ hi
  · exact h.session (i := i) rfl rfl nofun
  · exact h.session (i := i) rfl rfl nofun

end Clock

/-! ### Serial histories -/

section Serial

variable {ι τ δ ρ ε α : Type*} {prog : ι → τ → Tx δ ρ ε α} {d₀ d : δ} {log : List (Commit ι τ δ α)}

/-- The commits of `log`, one after another, lead from `d₀` to `d`: each is its call run alone. -/
inductive Replays (prog : ι → τ → Tx δ ρ ε α) (d₀ : δ) : List (Commit ι τ δ α) → δ → Prop where
  | nil : Replays prog d₀ [] d₀
  | snoc {log : List (Commit ι τ δ α)} {c : Commit ι τ δ α} (h : Replays prog d₀ log c.before)
      (hc : (prog c.call c.time).exec c.before = .ok (c.result, c.after)) :
      Replays prog d₀ (log ++ [c]) c.after

end Serial

/-! ### Serializability -/

section Serializability

variable {ι τ δ ρ ε α : Type} {Same : Set ρ → δ → δ → Prop} {p rest : Tx δ ρ ε α} {L : Set ρ}
  {pend : δ → δ} {b d d₀ : δ} {t₀ : τ}

/-- The call `p` has come to `rest` with the writes `pend`: so it would have on any committed state
that its locks cannot tell from `d`. -/
structure OnPath (Same : Set ρ → δ → δ → Prop) (p rest : Tx δ ρ ε α) (L : Set ρ) (pend : δ → δ)
    (d : δ) : Prop where
  locked : WellLocked Same rest L pend d
  exec : ∀ d', Same L d d' → p.exec d' = rest.exec (pend d')

/-- The same where what the call relies on holds. -/
structure OnPathIn (Rely : δ → Prop) (Same : Set ρ → δ → δ → Prop) (p rest : Tx δ ρ ε α)
    (L : Set ρ) (pend : δ → δ) (d : δ) : Prop where
  locked : WellLockedIn Rely Same rest L pend d
  exec : ∀ d', Rely d' → Same L d d' → p.exec d' = rest.exec (pend d')

section Path

variable {Rely : δ → Prop}

theorem OnPathIn.frame (P : Protects Same) (h : OnPathIn Rely Same p rest L pend b)
    (hd : Same L b d) : OnPathIn Rely Same p rest L pend d where
  locked := h.locked.mono P hd
  exec d' hr' hd' := h.exec d' hr' (P.trans hd hd')

theorem OnPathIn.stmt {lock : δ → Option ρ} {write : δ → δ} {k : δ → Tx δ ρ ε α}
    (P : Protects Same) (h : OnPathIn Rely Same p (.stmt lock write k) L pend d) (hr : Rely d) :
    OnPathIn Rely Same p (k (pend d)) (grant (lock (pend d)) L) (write ∘ pend) d := by
  obtain ⟨hkeep, hrest⟩ := h.locked d hr (P.refl L d)
  refine ⟨hrest, fun d' hr' hd' => ?_⟩
  rw [h.exec d' hr' (P.anti (subset_grant _ L) hd'), Tx.exec, hkeep d' hr' hd']
  rfl

theorem OnPath.toIn (h : OnPath Same p rest L pend d) : OnPathIn Rely Same p rest L pend d where
  locked := h.locked.toIn
  exec d' _ hd' := h.exec d' hd'

theorem OnPathIn.of_true (h : OnPathIn (fun _ => True) Same p rest L pend d) :
    OnPath Same p rest L pend d where
  locked := h.locked.of_true
  exec d' hd' := h.exec d' trivial hd'

end Path

variable {prog : ι → τ → Tx δ ρ ε α} {s s' : State ι τ δ ρ ε α} {es : List (Event ι τ)}
  {e : Event ι τ} {Rely : ι → δ → Prop}

structure Inv (Same : Set ρ → δ → δ → Prop) (prog : ι → τ → Tx δ ρ ε α) (d₀ : δ)
    (s : State ι τ δ ρ ε α) : Prop where
  running : ∀ i t pend rest, s.session i = .running t pend rest →
    OnPath Same (prog i t) rest (s.held i) pend s.db
  others : ∀ i, (∀ t pend rest, s.session i ≠ .running t pend rest) → s.held i = ∅
  replays : Replays prog d₀ s.log s.db
  nodup : (s.log.map Commit.call).Nodup
  logged : ∀ i a, s.session i = .committed a ↔ ∃ c ∈ s.log, c.call = i ∧ c.result = a

/-- The invariant for calls that rely on `Rely` until they commit. -/
structure InvIn (Rely : ι → δ → Prop) (Same : Set ρ → δ → δ → Prop) (prog : ι → τ → Tx δ ρ ε α)
    (d₀ : δ) (s : State ι τ δ ρ ε α) : Prop where
  running : ∀ i t pend rest, s.session i = .running t pend rest →
    OnPathIn (Rely i) Same (prog i t) rest (s.held i) pend s.db
  rely : ∀ i, (∀ a, s.session i ≠ .committed a) → Rely i s.db
  others : ∀ i, (∀ t pend rest, s.session i ≠ .running t pend rest) → s.held i = ∅
  replays : Replays prog d₀ s.log s.db
  nodup : (s.log.map Commit.call).Nodup
  logged : ∀ i a, s.session i = .committed a ↔ ∃ c ∈ s.log, c.call = i ∧ c.result = a

theorem InvIn.of_true (h : InvIn (fun _ _ => True) Same prog d₀ s) : Inv Same prog d₀ s where
  running i t pend rest hi := (h.running i t pend rest hi).of_true
  others := h.others
  replays := h.replays
  nodup := h.nodup
  logged := h.logged

theorem Inv.toIn (h : Inv Same prog d₀ s) : InvIn (fun _ _ => True) Same prog d₀ s where
  running i t pend rest hi := (h.running i t pend rest hi).toIn
  rely _ _ := trivial
  others := h.others
  replays := h.replays
  nodup := h.nodup
  logged := h.logged

/-- What the calls rely on before they commit, every commit of another call keeps. -/
def KeepsRely (Rely : ι → δ → Prop) (prog : ι → τ → Tx δ ρ ε α) : Prop :=
  ∀ i j t a d d', j ≠ i → Rely i d → Rely j d → (prog i t).exec d = .ok (a, d') → Rely j d'

theorem keepsRely_true : KeepsRely (fun _ _ => True) prog := fun _ _ _ _ _ _ _ _ _ _ => trivial

theorem apart_held {i j : ι} (h : i ≠ j) : Apart (s.held i) (s.held j) := by
  intro r (hi : s.holder r = some i) (hj : s.holder r = some j)
  exact h (Option.some.inj (hi.symm.trans hj))

theorem InvIn.init (h₀ : ∀ i, Rely i d₀) :
    InvIn Rely Same prog d₀ (State.init d₀ t₀ : State ι τ δ ρ ε α) where
  running i t pend rest h := absurd h nofun
  rely i _ := h₀ i
  others i _ := by ext r; simp [State.held, State.init]
  replays := .nil
  nodup := List.nodup_nil
  logged i a := by simp [State.init]

theorem Inv.init : Inv Same prog d₀ (State.init d₀ t₀ : State ι τ δ ρ ε α) :=
  (InvIn.init fun _ => trivial).of_true

theorem InvIn.rely_running {i : ι} {t : τ} (h : InvIn Rely Same prog d₀ s)
    (hi : s.session i = .running t pend rest) : Rely i s.db :=
  h.rely i (by rw [hi]; nofun)

theorem InvIn.exec_ret {i : ι} {t : τ} {a : α} (P : Protects Same)
    (h : InvIn Rely Same prog d₀ s) (hi : s.session i = .running t pend (.ret a)) :
    (prog i t).exec s.db = .ok (a, pend s.db) :=
  (h.running i t pend _ hi).exec s.db (h.rely_running hi) (P.refl _ _)

theorem Inv.exec_ret {i : ι} {t : τ} {a : α} (P : Protects Same) (h : Inv Same prog d₀ s)
    (hi : s.session i = .running t pend (.ret a)) : (prog i t).exec s.db = .ok (a, pend s.db) :=
  (h.running i t pend _ hi).exec s.db (P.refl _ _)

variable [DecidableEq ι]

/-- The session of one call changes, and no call commits. -/
theorem InvIn.session {q : Session τ δ ρ ε α} {i : ι} (h : InvIn Rely Same prog d₀ s)
    (hdb : s'.db = s.db) (hlog : s'.log = s.log)
    (hsession : s'.session = Function.update s.session i q)
    (hheld : ∀ j, j ≠ i → s'.held j = s.held j)
    (hi : ∀ a, s.session i ≠ .committed a) (hq : ∀ a, q ≠ .committed a)
    (hrun : ∀ t pend rest, q = .running t pend rest →
      OnPathIn (Rely i) Same (prog i t) rest (s'.held i) pend s.db)
    (hother : (∀ t pend rest, q ≠ .running t pend rest) → s'.held i = ∅) :
    InvIn Rely Same prog d₀ s' where
  running j t pend rest hj := by
    rw [hdb]
    rw [hsession] at hj
    by_cases hji : j = i
    · subst hji
      rw [Function.update_self] at hj
      exact hrun t pend rest hj
    · rw [Function.update_of_ne hji] at hj
      rw [hheld j hji]
      exact h.running j t pend rest hj
  rely j hj := by
    rw [hdb]
    rw [hsession] at hj
    by_cases hji : j = i
    · subst hji
      exact h.rely j hi
    · rw [Function.update_of_ne hji] at hj
      exact h.rely j hj
  others j hj := by
    rw [hsession] at hj
    by_cases hji : j = i
    · subst hji
      rw [Function.update_self] at hj
      exact hother hj
    · rw [Function.update_of_ne hji] at hj
      rw [hheld j hji]
      exact h.others j hj
  replays := by rw [hlog, hdb]; exact h.replays
  nodup := by rw [hlog]; exact h.nodup
  logged j a := by
    rw [hlog, ← h.logged j a, hsession]
    by_cases hji : j = i
    · subst hji
      simp [hq a, hi a]
    · rw [Function.update_of_ne hji]

/-- A call commits. -/
theorem InvIn.commit (P : Protects Same) (K : KeepsRely Rely prog) {i : ι} {t : τ} {a : α}
    (h : InvIn Rely Same prog d₀ s) (hi : s.session i = .running t pend (.ret a)) :
    InvIn Rely Same prog d₀ (s.commit i t a (pend s.db)) := by
  have hpath := h.running i t pend _ hi
  have hrely := h.rely_running hi
  have hheld : ∀ j, (s.commit i t a (pend s.db)).held j = if j = i then ∅ else s.held j :=
    fun j => State.held_release
  -- a call that has committed is not running
  have hnew : ∀ c ∈ s.log, c.call ≠ i := by
    intro c hc hci
    have := (h.logged i c.result).mpr ⟨c, hc, hci, rfl⟩
    rw [hi] at this
    cases this
  constructor
  · intro j t' pend' rest hj
    rw [hheld j]
    by_cases hji : j = i
    · subst hji
      simp [State.commit, State.set] at hj
    · -- `j` relies on its own locks only, and the commit changes nothing that they protect
      have hj' : s.session j = .running t' pend' rest := by
        simpa [State.commit, State.set, State.release, hji] using hj
      rw [if_neg hji]
      exact (h.running j t' pend' rest hj').frame P
        (hpath.locked s.db hrely (P.refl _ _) _ (apart_held hji))
  · intro j hj
    by_cases hji : j = i
    · subst hji
      exact absurd (Function.update_self ..) (hj a)
    · have hj' : s.session j = (s.commit i t a (pend s.db)).session j :=
        (Function.update_of_ne hji _ _).symm
      exact K i j t a s.db _ hji hrely (h.rely j fun a' => hj' ▸ hj a') (h.exec_ret P hi)
  · intro j hj
    rw [hheld j]
    by_cases hji : j = i
    · rw [if_pos hji]
    · rw [if_neg hji]
      refine h.others j fun t' pend' rest hj' => hj t' pend' rest ?_
      simpa [State.commit, State.set, State.release, hji] using hj'
  · exact .snoc (c := ⟨i, t, a, s.db, pend s.db⟩) h.replays (h.exec_ret P hi)
  · change ((s.log ++ [_]).map Commit.call).Nodup
    rw [List.map_append]
    refine List.Nodup.append h.nodup (List.nodup_singleton _) ?_
    simpa [List.disjoint_singleton] using hnew
  · intro j a'
    change Function.update s.session i (.committed a) j = _ ↔ ∃ c ∈ s.log ++ [_], _
    by_cases hji : j = i
    · subst hji
      rw [Function.update_self]
      constructor
      · rintro ⟨⟩
        exact ⟨_, List.mem_append_right _ List.mem_cons_self, rfl, rfl⟩
      · rintro ⟨c, hc, hcj, rfl⟩
        rcases List.mem_append.mp hc with hc | hc
        · exact absurd hcj (hnew c hc)
        · cases List.mem_singleton.mp hc
          rfl
    · rw [Function.update_of_ne hji, h.logged]
      constructor
      · rintro ⟨c, hc, hcj⟩
        exact ⟨c, List.mem_append_left _ hc, hcj⟩
      · rintro ⟨c, hc, hcj, hca⟩
        rcases List.mem_append.mp hc with hc | hc
        · exact ⟨c, hc, hcj, hca⟩
        · cases List.mem_singleton.mp hc
          exact absurd hcj.symm hji

variable [DecidableEq ρ] [LE τ] [DecidableLE τ]

theorem InvIn.step (P : Protects Same) (K : KeepsRely Rely prog)
    (W : ∀ i t b, WellLockedIn (Rely i) Same (prog i t) ∅ id b) (h : InvIn Rely Same prog d₀ s)
    (hs : step prog s e = some s') : InvIn Rely Same prog d₀ s' := by
  obtain ⟨i, t, -, hi, -, rfl⟩ | ⟨i, t, pend, lock, write, k, s₁, -, hi, hs₁, rfl⟩ |
    ⟨i, t, pend, a, -, hi, rfl⟩ | ⟨i, t, pend, rest, r, hi, rfl⟩ := step_cases hs
  · have hnone : s.held i = ∅ := h.others i fun _ _ _ => by rw [hi]; nofun
    refine h.session (i := i) rfl rfl rfl (fun _ _ => rfl) (by rw [hi]; nofun) nofun ?_
      (fun hq => absurd rfl (hq _ _ _))
    rintro t' pend rest ⟨⟩
    change OnPathIn (Rely i) Same (prog i t) (prog i t) (s.held i) id s.db
    rw [hnone]
    exact ⟨W i t s.db, fun _ _ _ => rfl⟩
  · obtain ⟨hdb, hsess, hlog, hgrant, hheld⟩ := State.lock_eq hs₁
    refine h.session (i := i) (q := .running t (write ∘ pend) (k (pend s.db))) hdb hlog
      (by rw [← hsess]; rfl) hheld (by rw [hi]; nofun) nofun ?_ (fun hq => absurd rfl (hq _ _ _))
    rintro t' pend' rest ⟨⟩
    change OnPathIn (Rely i) Same (prog i t) (k (pend s.db)) (s₁.held i) (write ∘ pend) s.db
    rw [hgrant]
    exact (h.running i t pend _ hi).stmt P (h.rely_running hi)
  · exact h.commit P K hi
  · have hheld : ∀ j, ((s.release i).set i (.aborted r)).held j = if j = i then ∅ else s.held j :=
      fun j => State.held_release
    refine h.session (i := i) rfl rfl rfl (fun j hj => by rw [hheld, if_neg hj])
      (by rw [hi]; nofun) nofun nofun ?_
    intro _
    rw [hheld, if_pos rfl]

theorem Inv.step (P : Protects Same) (W : ∀ i t b, WellLocked Same (prog i t) ∅ id b)
    (h : Inv Same prog d₀ s) (hs : step prog s e = some s') : Inv Same prog d₀ s' :=
  (h.toIn.step P keepsRely_true (fun i t b => (W i t b).toIn) hs).of_true

/-- **Serializability**, for calls that rely on what the others keep. -/
theorem serializableIn (P : Protects Same) (K : KeepsRely Rely prog) (h₀ : ∀ i, Rely i d₀)
    (W : ∀ i t b, WellLockedIn (Rely i) Same (prog i t) ∅ id b)
    (hr : run (step prog) (State.init d₀ t₀) es = some s) : InvIn Rely Same prog d₀ s :=
  run_invariant' (fun _ _ _ h hs => h.step P K W hs) (InvIn.init h₀) hr

/-- **Serializability.**  Under the discipline, the invariant holds in every state of a run: what
the calls have committed is what a serial history of them makes of the first state. -/
theorem serializable (P : Protects Same) (W : ∀ i t b, WellLocked Same (prog i t) ∅ id b)
    (hr : run (step prog) (State.init d₀ t₀) es = some s) : Inv Same prog d₀ s :=
  (serializableIn P keepsRely_true (fun _ => trivial) (fun i t b => (W i t b).toIn) hr).of_true

/-- What a serializable run shows: the commits are a serial history of different calls, with the
results they gave; a call that throws would throw the same alone; only commits change the state. -/
structure Serialized (prog : ι → τ → Tx δ ρ ε α) (d₀ : δ) (s : State ι τ δ ρ ε α) : Prop where
  replays : Replays prog d₀ s.log s.db
  nodup : (s.log.map Commit.call).Nodup
  logged : ∀ i a, s.session i = .committed a ↔ ∃ c ∈ s.log, c.call = i ∧ c.result = a
  refused : ∀ i t pend e, s.session i = .running t pend (.throw e) →
    (prog i t).exec s.db = .error e
  failed : ∀ e s', step prog s e = some s' → s'.log = s.log → s'.db = s.db

theorem Inv.serialized (P : Protects Same) (h : Inv Same prog d₀ s) : Serialized prog d₀ s where
  replays := h.replays
  nodup := h.nodup
  logged := h.logged
  refused i t pend _ hi := (h.running i t pend _ hi).exec s.db (P.refl _ _)
  failed _ _ hs := step_db hs

theorem InvIn.serialized (P : Protects Same) (h : InvIn Rely Same prog d₀ s) :
    Serialized prog d₀ s where
  replays := h.replays
  nodup := h.nodup
  logged := h.logged
  refused i t pend _ hi := (h.running i t pend _ hi).exec s.db (h.rely_running hi) (P.refl _ _)
  failed _ _ hs := step_db hs

end Serializability

end Transaction

end Sys
