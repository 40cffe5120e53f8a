import MediumClone.Support.JsText
import MediumClone.Support.Run
import MediumClone.Support.Serial

/-!
# Users — UserRow

The two writers of a user's `bio` and `image`: `UserService.updateCurrentUser`
(`src/users/user.service.ts`) and the transaction of `UserAvatarHandler.execute`
(`src/auth/user-avatar-handler.ts`).

An update reads the row without a lock, assigns the supplied fields to the entity it read, and
saves the entity.  An upload locks the row, assigns `image` to the entity it read under the lock,
and saves it in the same transaction.  `save` writes every column of the entity that differs from
the stored row, the ones the call did not assign included.

The entity an upload saves is current, because no one else can write while it holds the lock.
The entity an update saves is current only when nothing was committed since it was read.  Calls
are serial, and none touches a field it omits, exactly when every update finds the fields it
omits as it read them (`noLostUpdate_iff`).
-/

namespace MediumClone.Users
open Js Sys

/-! ### Rows and requests -/

/-- The columns of `users` that either writer assigns. -/
structure UserRow where
  bio : Option Str
  image : Option Str
  deriving DecidableEq

/-- A field is absent (`undefined`), or present and possibly `null`. -/
structure UpdateUserRequest where
  bio : Option (Option Str)
  image : Option (Option Str)
  deriving DecidableEq

/-- The assignments of `updateCurrentUser` to the entity it found. -/
def UpdateUserRequest.assign (update : UpdateUserRequest) (user : UserRow) : UserRow where
  bio := update.bio.getD user.bio
  image := update.image.getD user.image

/-- `r` and `r'` agree on the fields the request omits. -/
structure UpdateUserRequest.Omitted (update : UpdateUserRequest) (r r' : UserRow) : Prop where
  bio : update.bio = none → r'.bio = r.bio
  image : update.image = none → r'.image = r.image

/-- The stored row after `save(entity)`: the entity's value of every column that differs. -/
def saveEntity (entity stored : UserRow) : UserRow where
  bio := if entity.bio ≠ stored.bio then entity.bio else stored.bio
  image := if entity.image ≠ stored.image then entity.image else stored.image

@[simp] theorem saveEntity_eq (entity stored : UserRow) : saveEntity entity stored = entity := by
  obtain ⟨b, i⟩ := entity
  simp only [saveEntity, UserRow.mk.injEq]
  constructor <;> split <;> simp_all

inductive Call where
  | updateCurrentUser (update : UpdateUserRequest)
  | uploadAvatar (attachmentId : Str)
  deriving DecidableEq

/-- The fields a call supplies.  An upload supplies the image. -/
def Call.request : Call → UpdateUserRequest
  | .updateCurrentUser update => update
  | .uploadAvatar attachmentId => ⟨none, some (some ("/api/files/".toList ++ attachmentId))⟩

/-- The call run alone. -/
def Call.run (c : Call) (user : UserRow) : UserRow := c.request.assign user

/-! ### The interleaved calls -/

inductive Phase where
  | start
  /-- An update has its entity. -/
  | found (user : UserRow)
  /-- An upload has its entity, and the row's lock. -/
  | locked (currentUser : UserRow)
  /-- An upload's transaction would leave this row. -/
  | saved (row : UserRow)
  | succeeded
  | failed
  deriving DecidableEq

structure State (ι : Type*) where
  row : UserRow
  lock : Option ι
  phase : ι → Phase

inductive Event (ι : Type*) where
  | findOneBy (i : ι)
  | findOneLocked (i : ι)
  | save (i : ι)
  | commit (i : ι)
  | fail (i : ι)

/-- The call that takes the step. -/
def Event.call {ι : Type*} : Event ι → ι
  | .findOneBy i | .findOneLocked i | .save i | .commit i | .fail i => i

section Step

variable {ι : Type*} [DecidableEq ι] (calls : ι → Call)

def init (ι : Type*) (row : UserRow) : State ι where
  row := row
  lock := none
  phase := fun _ => .start

def State.set (s : State ι) (i : ι) (p : Phase) : State ι :=
  { s with phase := Function.update s.phase i p }

def step (s : State ι) : Event ι → Option (State ι)
  | .findOneBy i =>
    match calls i, s.phase i with
    | .updateCurrentUser _, .start => some (s.set i (.found s.row))
    | _, _ => none
  | .findOneLocked i =>
    match calls i, s.phase i, s.lock with
    | .uploadAvatar _, .start, none => some { s.set i (.locked s.row) with lock := some i }
    | _, _, _ => none
  | .save i =>
    match calls i, s.phase i, s.lock with
    -- a statement of its own, which waits for the lock and commits
    | .updateCurrentUser update, .found user, none =>
      some { s.set i .succeeded with row := saveEntity (update.assign user) s.row }
    | .uploadAvatar attachmentId, .locked currentUser, _ =>
      some (s.set i (.saved (saveEntity ((Call.uploadAvatar attachmentId).run currentUser) s.row)))
    | _, _, _ => none
  | .commit i =>
    match s.phase i with
    | .saved row => some { s.set i .succeeded with row := row, lock := none }
    | _ => none
  | .fail i =>
    match s.phase i with
    | .start | .found _ => some (s.set i .failed)
    | .locked _ | .saved _ => some { s.set i .failed with lock := none }
    | .succeeded | .failed => none

/-- The stored row is what the successful calls make of the first one in some order. -/
def SerialRow (row : UserRow) (s : State ι) : Prop :=
  Serial (fun i => (calls i).run) row (fun i => s.phase i = .succeeded) s.row

/-- The step leaves the fields its call omits as they are. -/
def KeepsOmitted (s : State ι) (e : Event ι) : Prop :=
  ∀ s', step calls s e = some s' → (calls e.call).request.Omitted s.row s'.row

/-- No update of the run is lost. -/
def NoLostUpdate (row : UserRow) (es : List (Event ι)) : Prop :=
  Always (step calls) (SerialRow calls row) (init ι row) es ∧
    Meets (step calls) (KeepsOmitted calls) (init ι row) es

/-- An update that saves finds the fields it omits as it read them. -/
def FreshWhenSaved (s : State ι) (e : Event ι) : Prop :=
  ∀ i user, e = .save i → s.phase i = .found user →
    (calls i).request.Omitted user s.row

end Step

/-! ### What a step does -/

section Transition

variable {ι : Type*} [DecidableEq ι] {calls : ι → Call} {s s' : State ι} {e : Event ι}

/-- The steps, each with the state it is taken in. -/
inductive Transition (calls : ι → Call) (s : State ι) : Event ι → State ι → Prop where
  | finds {i update} (hc : calls i = .updateCurrentUser update) (hp : s.phase i = .start) :
      Transition calls s (.findOneBy i) (s.set i (.found s.row))
  | locks {i attachmentId} (hc : calls i = .uploadAvatar attachmentId) (hp : s.phase i = .start)
      (hl : s.lock = none) :
      Transition calls s (.findOneLocked i) { s.set i (.locked s.row) with lock := some i }
  | saves {i update user} (hc : calls i = .updateCurrentUser update) (hp : s.phase i = .found user)
      (hl : s.lock = none) :
      Transition calls s (.save i) { s.set i .succeeded with row := (calls i).run user }
  | uploads {i attachmentId user} (hc : calls i = .uploadAvatar attachmentId)
      (hp : s.phase i = .locked user) :
      Transition calls s (.save i) (s.set i (.saved ((calls i).run user)))
  | commits {i row} (hp : s.phase i = .saved row) :
      Transition calls s (.commit i) { s.set i .succeeded with row := row, lock := none }
  | fails {i} (hp : s.phase i = .start ∨ ∃ user, s.phase i = .found user) :
      Transition calls s (.fail i) (s.set i .failed)
  | rollsBack {i} (hp : (∃ user, s.phase i = .locked user) ∨ ∃ row, s.phase i = .saved row) :
      Transition calls s (.fail i) { s.set i .failed with lock := none }

theorem step_transition (hs : step calls s e = some s') : Transition calls s e s' := by
  cases e with
  | findOneBy i =>
      simp only [step] at hs
      split at hs
      · rename_i hc hp
        obtain rfl := Option.some.inj hs
        exact .finds hc hp
      · cases hs
  | findOneLocked i =>
      simp only [step] at hs
      split at hs
      · rename_i hc hp hl
        obtain rfl := Option.some.inj hs
        exact .locks hc hp hl
      · cases hs
  | save i =>
      simp only [step, saveEntity_eq] at hs
      split at hs
      · rename_i hc hp hl
        obtain rfl := Option.some.inj hs
        have := Transition.saves hc hp hl
        rwa [hc] at this
      · rename_i hc hp
        obtain rfl := Option.some.inj hs
        have := Transition.uploads hc hp
        rwa [hc] at this
      · cases hs
  | commit i =>
      simp only [step] at hs
      split at hs
      · rename_i hp
        obtain rfl := Option.some.inj hs
        exact .commits hp
      · cases hs
  | fail i =>
      simp only [step] at hs
      split at hs
      · rename_i hp
        obtain rfl := Option.some.inj hs
        exact .fails (.inl hp)
      · rename_i user hp
        obtain rfl := Option.some.inj hs
        exact .fails (.inr ⟨user, hp⟩)
      · rename_i user hp
        obtain rfl := Option.some.inj hs
        exact .rollsBack (.inl ⟨user, hp⟩)
      · rename_i row hp
        obtain rfl := Option.some.inj hs
        exact .rollsBack (.inr ⟨row, hp⟩)
      all_goals cases hs

end Transition

/-! ### Omitted fields -/

section Omitted

variable {update : UpdateUserRequest} {r r' : UserRow}

theorem UpdateUserRequest.Omitted.refl : update.Omitted r r := ⟨fun _ => rfl, fun _ => rfl⟩

theorem UpdateUserRequest.Omitted.symm (h : update.Omitted r r') : update.Omitted r' r :=
  ⟨fun hb => (h.bio hb).symm, fun hi => (h.image hi).symm⟩

theorem UpdateUserRequest.Omitted.trans {r'' : UserRow} (h : update.Omitted r r')
    (h' : update.Omitted r' r'') : update.Omitted r r'' :=
  ⟨fun hb => (h'.bio hb).trans (h.bio hb), fun hi => (h'.image hi).trans (h.image hi)⟩

theorem UpdateUserRequest.omitted_assign : update.Omitted r (update.assign r) :=
  ⟨fun hb => by simp [assign, hb], fun hi => by simp [assign, hi]⟩

/-- The assignments depend on the omitted fields only. -/
theorem UpdateUserRequest.assign_eq (h : update.Omitted r r') :
    update.assign r = update.assign r' := by
  simp only [assign, UserRow.mk.injEq]
  refine ⟨?_, ?_⟩
  · cases hb : update.bio with
    | none => exact (h.bio hb).symm
    | some _ => rfl
  · cases hi : update.image with
    | none => exact (h.image hi).symm
    | some _ => rfl

end Omitted

/-! ### Runs -/

section Runs

variable {ι : Type*} [DecidableEq ι] {calls : ι → Call} {row₀ : UserRow} {s s' : State ι}
  {e : Event ι}

/-- A call that works on the row under the lock holds the lock and has the stored row. -/
def Phase.Current (c : Call) (row : UserRow) (held : Prop) : Phase → Prop
  | .locked currentUser => held ∧ currentUser = row
  | .saved stored => held ∧ stored = c.run row
  | .start | .found _ | .succeeded | .failed => True

/-- A call without the lock is not touched by what happens to the row and the lock. -/
theorem Phase.Current.of_not_held {c : Call} {row row' : UserRow} {held held' : Prop} {p : Phase}
    (h : p.Current c row held) (hn : ¬ held) : p.Current c row' held' := by
  cases p with
  | locked user => exact absurd h.1 hn
  | saved row => exact absurd h.1 hn
  | start | found | succeeded | failed => trivial

structure Inv (calls : ι → Call) (row₀ : UserRow) (s : State ι) : Prop where
  current : ∀ i, (s.phase i).Current (calls i) s.row (s.lock = some i)
  serial : SerialRow calls row₀ s

omit [DecidableEq ι] in
theorem inv_init : Inv calls row₀ (init ι row₀) :=
  ⟨fun _ => trivial, Serial.none (by simp [init])⟩

omit [DecidableEq ι] in
theorem Inv.current_of (hi : Inv calls row₀ s) {i : ι} {p : Phase} (hp : s.phase i = p) :
    p.Current (calls i) s.row (s.lock = some i) :=
  hp ▸ hi.current i

/-- A call that did not succeed before and has not now commits nothing. -/
theorem Inv.serial_set (hi : Inv calls row₀ s) {i : ι} {p : Phase} (hp : s.phase i ≠ .succeeded)
    (hp' : p ≠ .succeeded) (lock : Option ι) :
    SerialRow calls row₀ { s.set i p with lock := lock } := by
  refine hi.serial.congr ?_
  intro j
  by_cases hj : j = i
  · subst hj
    simp [State.set, hp, hp']
  · simp [State.set, Function.update_of_ne hj]

/-- The call that succeeds commits what it does when run on the stored row. -/
theorem Inv.serial_succeeded (hi : Inv calls row₀ s) {i : ι} (hp : s.phase i ≠ .succeeded)
    {row : UserRow} (hrow : row = (calls i).run s.row) (lock : Option ι) :
    SerialRow calls row₀ { s.set i .succeeded with row := row, lock := lock } := by
  subst hrow
  refine hi.serial.commit hp ?_
  intro j
  by_cases hj : j = i
  · subst hj
    simp [State.set]
  · simp [State.set, hj]

/-- Only the call that moves has to be looked at, when row and lock stay or no one else holds
the lock. -/
theorem Inv.current_set (hi : Inv calls row₀ s) {i : ι} {p : Phase} {row : UserRow}
    {lock : Option ι} (hp : p.Current (calls i) row (lock = some i))
    (ho : ∀ j, j ≠ i → s.lock ≠ some j ∨ (row = s.row ∧ lock = s.lock)) (j : ι) :
    (Function.update s.phase i p j).Current (calls j) row (lock = some j) := by
  by_cases hj : j = i
  · subst hj
    rwa [Function.update_self]
  · rw [Function.update_of_ne hj]
    rcases ho j hj with hn | ⟨rfl, rfl⟩
    · exact (hi.current j).of_not_held hn
    · exact hi.current j

theorem Inv.step (hi : Inv calls row₀ s) (hf : FreshWhenSaved calls s e)
    (hs : step calls s e = some s') : Inv calls row₀ s' := by
  cases step_transition hs with
  | finds hc hp =>
      exact ⟨hi.current_set trivial fun _ _ => .inr ⟨rfl, rfl⟩,
        hi.serial_set (by rw [hp]; simp) (by simp) _⟩
  | locks hc hp hl =>
      exact ⟨hi.current_set ⟨rfl, rfl⟩ fun _ _ => .inl (by rw [hl]; simp),
        hi.serial_set (by rw [hp]; simp) (by simp) _⟩
  | @saves i _ user hc hp hl =>
      refine ⟨hi.current_set trivial fun _ _ => .inl (by rw [hl]; simp),
        hi.serial_succeeded (by rw [hp]; simp) ?_ _⟩
      exact UpdateUserRequest.assign_eq (hf i user rfl hp)
  | @uploads i _ user hc hp =>
      obtain ⟨hl, rfl⟩ := hi.current_of hp
      exact ⟨hi.current_set ⟨hl, rfl⟩ fun _ _ => .inr ⟨rfl, rfl⟩,
        hi.serial_set (by rw [hp]; simp) (by simp) _⟩
  | @commits i row hp =>
      obtain ⟨hl, hrow⟩ := hi.current_of hp
      refine ⟨hi.current_set trivial fun j hj => .inl ?_,
        hi.serial_succeeded (by rw [hp]; simp) hrow _⟩
      rw [hl]
      exact fun h => hj (Option.some.inj h).symm
  | fails hp =>
      refine ⟨hi.current_set trivial fun _ _ => .inr ⟨rfl, rfl⟩, hi.serial_set ?_ (by simp) _⟩
      rcases hp with hp | ⟨_, hp⟩ <;> rw [hp] <;> simp
  | @rollsBack i hp =>
      have hl : s.lock = some i := by
        rcases hp with ⟨_, hp⟩ | ⟨_, hp⟩ <;> exact (hi.current_of hp).1
      refine ⟨hi.current_set trivial fun j hj => .inl ?_, hi.serial_set ?_ (by simp) _⟩
      · rw [hl]
        exact fun h => hj (Option.some.inj h).symm
      · rcases hp with ⟨_, hp⟩ | ⟨_, hp⟩ <;> rw [hp] <;> simp

/-- Under the invariant a step taken within `FreshWhenSaved` leaves omitted fields alone. -/
theorem keepsOmitted_of_fresh (hi : Inv calls row₀ s) (hf : FreshWhenSaved calls s e) :
    KeepsOmitted calls s e := by
  intro s' hs
  cases step_transition hs with
  | finds | locks | uploads | fails | rollsBack => exact .refl
  | @saves i _ user hc hp hl =>
      exact (hf i user rfl hp).symm.trans UpdateUserRequest.omitted_assign
  | @commits i row hp =>
      obtain ⟨-, rfl⟩ := hi.current_of hp
      exact UpdateUserRequest.omitted_assign

/-- An update that leaves omitted fields alone saved an entity that was fresh in them. -/
theorem fresh_of_keepsOmitted (hs : step calls s e = some s') (hk : KeepsOmitted calls s e) :
    FreshWhenSaved calls s e := by
  rintro i user rfl hp
  have homit := hk s' hs
  cases step_transition hs with
  | saves hc hp' hl =>
      cases hp.symm.trans hp'
      exact UpdateUserRequest.omitted_assign.trans homit.symm
  | uploads hc hp' => cases hp.symm.trans hp'

/-- **No lost update, exactly.**  The successful calls of a run are serial throughout, and none
changes a field it omits, exactly when every update that saves finds the fields it omits as it
read them. -/
theorem noLostUpdate_iff (calls : ι → Call) (row₀ : UserRow) {es : List (Event ι)} {s : State ι}
    (hr : run (step calls) (init ι row₀) es = some s) :
    NoLostUpdate calls row₀ es ↔
      Meets (step calls) (FreshWhenSaved calls) (init ι row₀) es := by
  refine ⟨fun h => ?_, fun hC => ⟨?_, ?_⟩⟩
  · exact h.2.mono_run (fun _ _ _ hs hk => fresh_of_keepsOmitted hs hk) hr
  · exact always_of_invariant (fun _ hi => hi.serial) (fun _ _ _ hi hf hs => hi.step hf hs) hC
      inv_init
  · exact meets_of_invariant (fun _ _ hi hf => keepsOmitted_of_fresh hi hf)
      (fun _ _ _ hi hf hs => hi.step hf hs) hC inv_init

end Runs

/-! ### Two updates of different fields -/

/-- One call sets the bio, the other the image. -/
def bioAndImage : Bool → Call
  | false => .updateCurrentUser ⟨some (some "new".toList), none⟩
  | true => .updateCurrentUser ⟨none, some (some "a.png".toList)⟩

/-- One after the other, both are kept. -/
theorem noLostUpdate_sequential :
    NoLostUpdate bioAndImage ⟨none, none⟩
        [.findOneBy false, .save false, .findOneBy true, .save true] ↔
      Meets (step bioAndImage) (FreshWhenSaved bioAndImage) (init Bool ⟨none, none⟩)
        [.findOneBy false, .save false, .findOneBy true, .save true] :=
  noLostUpdate_iff bioAndImage ⟨none, none⟩ rfl

/-- Both read before either saves: the second save undoes the first. -/
theorem not_serial_interleaved :
    ∃ s, run (step bioAndImage) (init Bool ⟨none, none⟩)
        [.findOneBy false, .findOneBy true, .save false, .save true] = some s ∧
      (∀ i, s.phase i = .succeeded) ∧ ¬ SerialRow bioAndImage ⟨none, none⟩ s := by
  refine ⟨_, rfl, by decide, ?_⟩
  rintro ⟨order, hn, hm, hf⟩
  have hp : order.Perm [false, true] :=
    (List.perm_ext_iff_of_nodup hn (by decide)).mpr fun i => by rw [hm]; revert i; decide
  -- the two calls commute, so their order does not matter
  rw [hp.foldl_eq' (by rintro (_ | _) - (_ | _) - z <;> rfl)] at hf
  revert hf
  decide

end MediumClone.Users
