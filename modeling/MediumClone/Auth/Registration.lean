import MediumClone.Support.JsText
import MediumClone.Support.Run
import MediumClone.Support.Serial
import Mathlib.Logic.Function.Basic

/-!
# Auth — Registration

`AuthService.register` (`src/auth/auth.service.ts`) and its error mapping
(`src/auth/auth-registration-support.ts`) by any number of concurrent calls, at READ COMMITTED.

A check sees the committed users.  An insert enters the new user into the unique index of the
username and then into that of the email.  It waits while another transaction has entered the same
value and not ended, and is rejected when a committed user has it.  A statement that fails is not
carried out, and the driver reports a violation of one of these two constraints only when there is
one.

Two open transactions never have the same value entered, and none has a value of a committed user
(`Inv`).  So what commits agrees with what commits before, and every conflict that is reported is
one with a committed user (`registration_agreement`).
-/

namespace MediumClone.Auth.Registration
open Js Sys

/-- The columns of `users` that a registration must find free. -/
inductive Field where
  | username
  | email
  deriving DecidableEq

inductive AuthConflictField where
  | body
  | email
  | username
  deriving DecidableEq

def Field.conflict : Field → AuthConflictField
  | .username => .username
  | .email => .email

/-! ### Errors -/

/-- What is read of an error of the driver. -/
structure DriverError where
  code : Option Str
  constraint : Option Str
  detail : Option Str
  deriving DecidableEq

inductive AuthError where
  | conflict (field : AuthConflictField)
  | persistence
  deriving DecidableEq

/-- What the transaction of a call rejects with. -/
inductive Thrown where
  | conflict (field : Field)
  | driver (error : DriverError)

def UNIQUE_VIOLATION_CODE : Str := "23505".toList

def constraintName : Field → Str
  | .username => "users_username_key".toList
  | .email => "users_email_key".toList

/-- `UNIQUE_CONSTRAINT_FIELDS`. -/
def constraintField (constraint : Str) : Option Field :=
  if constraint = constraintName .email then some .email
  else if constraint = constraintName .username then some .username
  else none

/-- `/^Key \(name\)=\(.+\) already exists\.$/`. -/
def matchesDetail (name detail : Str) : Bool :=
  let start := "Key (".toList ++ name ++ ")=(".toList
  let stop := ") already exists.".toList
  let rest := detail.drop start.length
  let value := rest.take (rest.length - stop.length)
  start.isPrefixOf detail && stop.isSuffixOf rest && !value.isEmpty &&
    value.all fun c => !(List.contains [0x0A, 0x0D, 0x2028, 0x2029] c.toNat)

def detailField (detail : Str) : Option Field :=
  if matchesDetail "email".toList detail then some .email
  else if matchesDetail "username".toList detail then some .username
  else none

/-- The source's `in` also finds names that every object inherits, such as `constructor`; no
constraint of the schema has one of these. -/
def getDuplicateField (error : DriverError) : Option Field :=
  match error.constraint.bind constraintField with
  | some field => some field
  | none => error.detail.bind detailField

def isUniqueViolation (error : DriverError) : Bool := error.code = some UNIQUE_VIOLATION_CODE

/-- The `catch` of `register`. -/
def rethrow : Thrown → AuthError
  | .conflict field => .conflict field.conflict
  | .driver error =>
    if isUniqueViolation error then
      .conflict (((getDuplicateField error).map Field.conflict).getD .body)
    else .persistence

/-- What the driver reports of a violation. -/
def violation (field : Field) (detail : Option Str) : DriverError where
  code := some UNIQUE_VIOLATION_CODE
  constraint := some (constraintName field)
  detail := detail

/-- **A violation is reported as the conflict it is.** -/
theorem rethrow_violation (field : Field) (detail : Option Str) :
    rethrow (.driver (violation field detail)) = .conflict field.conflict := by
  have hfield : constraintField (constraintName field) = some field := by
    cases field with
    | username => decide +kernel
    | email => exact if_pos rfl
  simp [rethrow, isUniqueViolation, violation, getDuplicateField, hfield]

/-! ### The calls -/

structure User (κ : Type*) where
  id : κ
  username : Str
  email : Str
  passwordHash : Str
  deriving DecidableEq

def User.value {κ : Type*} (u : User κ) : Field → Str
  | .username => u.username
  | .email => u.email

/-- What a registration sets of a row of `welcome_mail_outbox`. -/
structure OutboxRow (κ : Type*) where
  userId : κ
  email : Str
  username : Str
  deriving DecidableEq

def User.outboxRow {κ : Type*} (u : User κ) : OutboxRow κ where
  userId := u.id
  email := u.email
  username := u.username

/-- The two tables, as committed. -/
structure Tables (κ : Type*) where
  users : List (User κ)
  outbox : List (OutboxRow κ)
  deriving DecidableEq

/-- Where a call stands, named by what it awaits. -/
inductive Phase where
  | idle
  | checking (field : Field)
  | hashing
  /-- Its user is about to enter the unique index of `field`. -/
  | entering (field : Field)
  | savingOutbox
  | committing
  | rollingBack (error : AuthError)
  | succeeded
  | threw (error : AuthError)
  deriving DecidableEq

structure State (ι κ : Type*) where
  tables : Tables κ
  /-- Who has entered the unique index of a column, and has not ended. -/
  entered : Field → List ι
  phase : ι → Phase

inductive Event (ι : Type*) where
  | starts (c : ι)
  | finds (c : ι)
  | hashes (c : ι)
  /-- With the detail of the violation, if there is one. -/
  | enters (c : ι) (detail : Option Str)
  | savesOutbox (c : ι)
  | commits (c : ι)
  | fails (c : ι) (error : DriverError)
  | rollsBack (c : ι)

section Step

variable {ι κ : Type*} [DecidableEq ι]

def init (ι : Type*) (tables : Tables κ) : State ι κ where
  tables := tables
  entered := fun _ => []
  phase := fun _ => .idle

def State.set (s : State ι κ) (c : ι) (phase : Phase) : State ι κ :=
  { s with phase := Function.update s.phase c phase }

/-- The transaction of `c` ends. -/
def State.close (s : State ι κ) (c : ι) : Field → List ι :=
  fun field => (s.entered field).filter (· ≠ c)

/-- A committed user has the value. -/
def Taken (tables : Tables κ) (field : Field) (value : Str) : Prop :=
  ∃ u ∈ tables.users, u.value field = value

instance (tables : Tables κ) (field : Field) (value : Str) :
    Decidable (Taken tables field value) :=
  inferInstanceAs (Decidable (∃ u ∈ tables.users, u.value field = value))

/-- A rejection that is of neither constraint. -/
def Other (error : DriverError) : Prop :=
  isUniqueViolation error = true → getDuplicateField error = none

instance (error : DriverError) : Decidable (Other error) :=
  inferInstanceAs (Decidable (_ → _))

/-- After the check of a column, and after its index. -/
def checked : Field → Phase
  | .username => .checking .email
  | .email => .hashing

def indexed : Field → Phase
  | .username => .entering .email
  | .email => .savingOutbox

/-- What the call commits. -/
def register (u : User κ) (tables : Tables κ) : Tables κ where
  users := tables.users ++ [u]
  outbox := tables.outbox ++ [u.outboxRow]

/-- `user c` is the row the call `c` saves, with the id and the hash it draws. -/
def step (user : ι → User κ) (s : State ι κ) : Event ι → Option (State ι κ)
  | .starts c =>
    match s.phase c with
    | .idle => some (s.set c (.checking .username))
    | _ => none
  | .finds c =>
    match s.phase c with
    | .checking field =>
      if Taken s.tables field ((user c).value field) then
        some (s.set c (.rollingBack (rethrow (.conflict field))))
      else some (s.set c (checked field))
    | _ => none
  | .hashes c =>
    match s.phase c with
    | .hashing => some (s.set c (.entering .username))
    | _ => none
  | .enters c detail =>
    match s.phase c with
    | .entering field =>
      -- it waits for whoever has entered the value
      if ∃ c' ∈ s.entered field, (user c').value field = (user c).value field then none
      else if Taken s.tables field ((user c).value field) then
        some (s.set c (.rollingBack (rethrow (.driver (violation field detail)))))
      else some { s.set c (indexed field) with
        entered := Function.update s.entered field (c :: s.entered field) }
    | _ => none
  | .savesOutbox c =>
    match s.phase c with
    | .savingOutbox => some (s.set c .committing)
    | _ => none
  | .commits c =>
    match s.phase c with
    | .committing => some { s.set c .succeeded with
        tables := register (user c) s.tables
        entered := s.close c }
    | _ => none
  | .fails c error =>
    match s.phase c with
    | .rollingBack _ | .succeeded | .threw _ => none
    | _ => if Other error then some (s.set c (.rollingBack (rethrow (.driver error)))) else none
  | .rollsBack c =>
    match s.phase c with
    | .rollingBack error => some { s.set c (.threw error) with entered := s.close c }
    | _ => none

end Step

section Runs

variable {ι κ : Type*} [DecidableEq ι] {user : ι → User κ} {s s' : State ι κ} {e : Event ι}
  {es : List (Event ι)}

/-! ### What a step does -/

/-- The steps, each with what the call finds. -/
inductive Transition (user : ι → User κ) (s : State ι κ) : Event ι → State ι κ → Prop where
  | starts {c} (hp : s.phase c = .idle) :
      Transition user s (.starts c) (s.set c (.checking .username))
  | conflicts {c field} (hp : s.phase c = .checking field)
      (htaken : Taken s.tables field ((user c).value field)) :
      Transition user s (.finds c) (s.set c (.rollingBack (.conflict field.conflict)))
  | available {c field} (hp : s.phase c = .checking field) :
      Transition user s (.finds c) (s.set c (checked field))
  | hashes {c} (hp : s.phase c = .hashing) :
      Transition user s (.hashes c) (s.set c (.entering .username))
  | loses {c field detail} (hp : s.phase c = .entering field)
      (htaken : Taken s.tables field ((user c).value field)) :
      Transition user s (.enters c detail) (s.set c (.rollingBack (.conflict field.conflict)))
  | enters {c field detail} (hp : s.phase c = .entering field)
      (hfree : ∀ c' ∈ s.entered field, (user c').value field ≠ (user c).value field)
      (htaken : ¬ Taken s.tables field ((user c).value field)) :
      Transition user s (.enters c detail) { s.set c (indexed field) with
        entered := Function.update s.entered field (c :: s.entered field) }
  | savesOutbox {c} (hp : s.phase c = .savingOutbox) :
      Transition user s (.savesOutbox c) (s.set c .committing)
  | commits {c} (hp : s.phase c = .committing) :
      Transition user s (.commits c) { s.set c .succeeded with
        tables := register (user c) s.tables
        entered := s.close c }
  | fails {c error} (hother : Other error) (hp : ∀ error, s.phase c ≠ .rollingBack error)
      (hs : s.phase c ≠ .succeeded) (ht : ∀ error, s.phase c ≠ .threw error) :
      Transition user s (.fails c error) (s.set c (.rollingBack (rethrow (.driver error))))
  | rollsBack {c error} (hp : s.phase c = .rollingBack error) :
      Transition user s (.rollsBack c) { s.set c (.threw error) with entered := s.close c }

theorem step_transition (hs : step user s e = some s') : Transition user s e s' := by
  cases e with
  | starts c =>
      simp only [step] at hs
      split at hs
      · rename_i hp
        cases hs
        exact .starts hp
      · cases hs
  | finds c =>
      simp only [step] at hs
      split at hs
      · rename_i field hp
        split at hs
        · rename_i htaken
          cases hs
          exact .conflicts hp htaken
        · cases hs
          exact .available hp
      · cases hs
  | hashes c =>
      simp only [step] at hs
      split at hs
      · rename_i hp
        cases hs
        exact .hashes hp
      · cases hs
  | enters c detail =>
      simp only [step, rethrow_violation] at hs
      split at hs
      · rename_i field hp
        split at hs
        · cases hs
        · rename_i hfree
          split at hs
          · rename_i htaken
            cases hs
            exact .loses hp htaken
          · rename_i htaken
            cases hs
            refine .enters hp ?_ htaken
            intro c' hc' heq
            exact hfree ⟨c', hc', heq⟩
      · cases hs
  | savesOutbox c =>
      simp only [step] at hs
      split at hs
      · rename_i hp
        cases hs
        exact .savesOutbox hp
      · cases hs
  | commits c =>
      simp only [step] at hs
      split at hs
      · rename_i hp
        cases hs
        exact .commits hp
      · cases hs
  | fails c error =>
      simp only [step] at hs
      split at hs
      · cases hs
      · cases hs
      · cases hs
      · rename_i hp hs₁ ht
        obtain ⟨hother, hs⟩ := Option.ite_none_right_eq_some.mp hs
        cases hs
        exact .fails hother hp hs₁ ht
  | rollsBack c =>
      simp only [step] at hs
      split at hs
      · rename_i hp
        cases hs
        exact .rollsBack hp
      · cases hs

theorem set_phase_of_ne {c c' : ι} {phase : Phase} (h : c' ≠ c) :
    (s.set c phase).phase c' = s.phase c' :=
  Function.update_of_ne h ..

omit [DecidableEq ι] in
theorem ne_succeeded {c : ι} {phase : Phase} (hp : s.phase c = phase)
    (hne : phase ≠ .succeeded) : s.phase c ≠ .succeeded :=
  hp ▸ hne

/-! ### What holds in every run -/

/-- No two users share a name or an email, and each has one outbox row, of its own. -/
structure WellFormed (tables : Tables κ) : Prop where
  unique : ∀ field, (tables.users.map (·.value field)).Nodup
  ids : (tables.users.map (·.id)).Nodup
  outbox : tables.outbox.Perm (tables.users.map (·.outboxRow))

/-- The conflict that a call is told of is one with a committed user. -/
def Real (user : ι → User κ) (tables : Tables κ) (c : ι) (error : AuthError) : Prop :=
  ∀ field : Field, error = .conflict field.conflict → Taken tables field ((user c).value field)

/-- What a call has entered, and what its error is worth. -/
def PhaseInv (user : ι → User κ) (s : State ι κ) (c : ι) : Phase → Prop
  | .idle | .checking _ | .hashing | .entering .username => ∀ field, c ∉ s.entered field
  | .entering .email => c ∈ s.entered .username ∧ c ∉ s.entered .email
  | .savingOutbox | .committing => ∀ field, c ∈ s.entered field
  | .rollingBack error => Real user s.tables c error
  | .threw error => (∀ field, c ∉ s.entered field) ∧ Real user s.tables c error
  | .succeeded => ∀ field, c ∉ s.entered field

structure Inv (user : ι → User κ) (s : State ι κ) : Prop where
  wellFormed : WellFormed s.tables
  free : ∀ field, ∀ c ∈ s.entered field, ¬ Taken s.tables field ((user c).value field)
  distinct : ∀ field, ∀ c ∈ s.entered field, ∀ c' ∈ s.entered field,
    (user c).value field = (user c').value field → c = c'
  id : ∀ c, s.phase c ≠ .succeeded → (user c).id ∉ s.tables.users.map (·.id)
  phase : ∀ c, PhaseInv user s c (s.phase c)

omit [DecidableEq ι] in
theorem inv_init {tables : Tables κ} (h : WellFormed tables)
    (hid : ∀ c, (user c).id ∉ tables.users.map (·.id)) : Inv user (init ι tables) where
  wellFormed := h
  free _ _ hc := by cases hc
  distinct _ _ hc := by cases hc
  id c _ := hid c
  phase _ _ := List.not_mem_nil

omit [DecidableEq ι] in
theorem Real.of_ne {tables : Tables κ} {c : ι} {error : AuthError}
    (h : ∀ field : Field, error ≠ .conflict field.conflict) : Real user tables c error :=
  fun field heq => absurd heq (h field)

omit [DecidableEq ι] in
theorem real_conflict {tables : Tables κ} {c : ι} {field : Field}
    (h : Taken tables field ((user c).value field)) :
    Real user tables c (.conflict field.conflict) := by
  intro field' heq
  cases field <;> cases field' <;> first | exact h | cases heq

/-- Any other error is told as one of the body, or as none. -/
theorem rethrow_other {error : DriverError} (h : Other error) (field : Field) :
    rethrow (.driver error) ≠ .conflict field.conflict := by
  intro heq
  by_cases hu : isUniqueViolation error = true
  · simp only [rethrow, hu, if_true, h hu] at heq
    cases field <;> cases heq
  · simp only [rethrow, hu] at heq
    cases heq

omit [DecidableEq ι] in
theorem PhaseInv.congr {c : ι} {phase : Phase}
    (hmem : ∀ field, c ∈ s'.entered field ↔ c ∈ s.entered field)
    (htaken : ∀ field value, Taken s.tables field value → Taken s'.tables field value)
    (h : PhaseInv user s c phase) : PhaseInv user s' c phase := by
  cases phase with
  | entering field => cases field <;> simpa only [PhaseInv, hmem] using h
  | rollingBack error => exact fun field heq => htaken _ _ (h field heq)
  | threw error =>
      exact ⟨by simpa only [hmem] using h.1, fun field heq => htaken _ _ (h.2 field heq)⟩
  | idle | checking | hashing | savingOutbox | committing | succeeded =>
      simpa only [PhaseInv, hmem] using h

omit [DecidableEq ι] in
theorem Inv.phase_of (hi : Inv user s) {c : ι} {phase : Phase} (hp : s.phase c = phase) :
    PhaseInv user s c phase :=
  hp ▸ hi.phase c

/-- A step of one call keeps what holds of the others. -/
theorem phaseInv_update {c : ι} {phase : Phase} (h : PhaseInv user s' c phase)
    (hother : ∀ c', c' ≠ c → PhaseInv user s' c' (s.phase c')) (c' : ι) :
    PhaseInv user s' c' (Function.update s.phase c phase c') := by
  by_cases hc : c' = c
  · rw [hc, Function.update_self]
    exact h
  · rw [Function.update_of_ne hc]
    exact hother c' hc

theorem Inv.set (hi : Inv user s) {c : ι} {phase : Phase} (hne : s.phase c ≠ .succeeded)
    (h : PhaseInv user s c phase) : Inv user (s.set c phase) := by
  refine ⟨hi.wellFormed, hi.free, hi.distinct, ?_, ?_⟩
  · intro c' hc'
    by_cases hc : c' = c
    · exact hc ▸ hi.id c hne
    · exact hi.id c' (set_phase_of_ne hc ▸ hc')
  · exact fun c' => phaseInv_update h (fun c' _ => hi.phase c') c'

/-- A user enters the index of a column. -/
theorem Inv.enters (hi : Inv user s) {c : ι} {field : Field} (hp : s.phase c = .entering field)
    (hfree : ∀ c' ∈ s.entered field, (user c').value field ≠ (user c).value field)
    (htaken : ¬ Taken s.tables field ((user c).value field)) :
    Inv user ⟨s.tables, Function.update s.entered field (c :: s.entered field),
      Function.update s.phase c (indexed field)⟩ := by
  have hmem : ∀ f c', c' ∈ Function.update s.entered field (c :: s.entered field) f →
      c' ∈ s.entered f ∨ f = field ∧ c' = c := by
    intro f c' hc'
    by_cases hf : f = field
    · subst hf
      rw [Function.update_self] at hc'
      exact (List.mem_cons.mp hc').symm.imp_right fun h => ⟨rfl, h⟩
    · rw [Function.update_of_ne hf] at hc'
      exact .inl hc'
  have hself : c ∈ Function.update s.entered field (c :: s.entered field) field := by
    rw [Function.update_self]
    exact List.mem_cons_self
  have hother : ∀ c', c' ≠ c → ∀ f,
      c' ∈ Function.update s.entered field (c :: s.entered field) f ↔ c' ∈ s.entered f := by
    intro c' hc' f
    by_cases hf : f = field
    · subst hf
      rw [Function.update_self, List.mem_cons, or_iff_right hc']
    · rw [Function.update_of_ne hf]
  refine ⟨hi.wellFormed, ?_, ?_, ?_, ?_⟩
  · intro f c' hc'
    rcases hmem f c' hc' with hc' | ⟨rfl, rfl⟩
    · exact hi.free f c' hc'
    · exact htaken
  · intro f c₁ hc₁ c₂ hc₂ heq
    rcases hmem f c₁ hc₁ with h₁ | ⟨rfl, rfl⟩
    · rcases hmem f c₂ hc₂ with h₂ | ⟨rfl, rfl⟩
      · exact hi.distinct f c₁ h₁ c₂ h₂ heq
      · exact absurd heq (hfree c₁ h₁)
    · rcases hmem f c₂ hc₂ with h₂ | ⟨-, rfl⟩
      · exact absurd heq.symm (hfree c₂ h₂)
      · rfl
  · intro c' hc'
    by_cases hc : c' = c
    · exact hc ▸ hi.id c (ne_succeeded hp Phase.noConfusion)
    · exact hi.id c' (set_phase_of_ne hc ▸ hc')
  · refine phaseInv_update ?_ ?_
    · have hphase := hi.phase_of hp
      cases field with
      | username => exact ⟨hself, hphase .email⟩
      | email =>
          intro f
          cases f with
          | username => exact hphase.1
          | email => exact hself
    · exact fun c' hc' => PhaseInv.congr (hother c' hc') (fun _ _ h => h) (hi.phase c')

theorem mem_close {c c' : ι} {field : Field} :
    c' ∈ s.close c field ↔ c' ∈ s.entered field ∧ c' ≠ c := by
  rw [State.close, List.mem_filter, decide_eq_true_eq]

theorem mem_close_of_ne {c c' : ι} {field : Field} (h : c' ≠ c) :
    c' ∈ s.close c field ↔ c' ∈ s.entered field :=
  mem_close.trans (and_iff_left h)

theorem not_mem_close {c : ι} {field : Field} : c ∉ s.close c field :=
  fun h => (mem_close.mp h).2 rfl

theorem Inv.rollsBack (hi : Inv user s) {c : ι} {error : AuthError}
    (hp : s.phase c = .rollingBack error) :
    Inv user ⟨s.tables, s.close c, Function.update s.phase c (.threw error)⟩ := by
  refine ⟨hi.wellFormed, ?_, ?_, ?_, ?_⟩
  · exact fun f c' hc' => hi.free f c' (mem_close.mp hc').1
  · exact fun f c₁ hc₁ c₂ hc₂ => hi.distinct f c₁ (mem_close.mp hc₁).1 c₂ (mem_close.mp hc₂).1
  · intro c' hc'
    by_cases hc : c' = c
    · exact hc ▸ hi.id c (ne_succeeded hp Phase.noConfusion)
    · exact hi.id c' (set_phase_of_ne hc ▸ hc')
  · refine phaseInv_update ⟨fun _ => not_mem_close, hi.phase_of hp⟩ ?_
    exact fun c' hc' =>
      PhaseInv.congr (fun _ => mem_close_of_ne hc') (fun _ _ h => h) (hi.phase c')

omit [DecidableEq ι] in
theorem taken_register {tables : Tables κ} {u : User κ} {field : Field} {value : Str} :
    Taken (register u tables) field value ↔ Taken tables field value ∨ u.value field = value := by
  simp [Taken, register, or_and_right, exists_or]

omit [DecidableEq ι] in
theorem WellFormed.register {tables : Tables κ} {u : User κ} (h : WellFormed tables)
    (hfree : ∀ field, ¬ Taken tables field (u.value field))
    (hid : u.id ∉ tables.users.map (·.id)) : WellFormed (Registration.register u tables) := by
  refine ⟨?_, ?_, ?_⟩
  · intro field
    rw [Registration.register, List.map_append]
    refine List.nodup_append_comm.mp (List.nodup_cons.mpr ⟨?_, h.unique field⟩)
    intro hmem
    obtain ⟨u', hu', heq⟩ := List.mem_map.mp hmem
    exact hfree field ⟨u', hu', heq⟩
  · rw [Registration.register, List.map_append]
    exact List.nodup_append_comm.mp (List.nodup_cons.mpr ⟨hid, h.ids⟩)
  · rw [Registration.register, List.map_append]
    exact h.outbox.append_right _

theorem Inv.commits (hi : Inv user s) (hinj : ∀ c c', (user c).id = (user c').id → c = c') {c : ι}
    (hp : s.phase c = .committing) :
    Inv user ⟨Registration.register (user c) s.tables, s.close c,
      Function.update s.phase c .succeeded⟩ := by
  have hentered : ∀ f, c ∈ s.entered f := hi.phase_of hp
  have hid : (user c).id ∉ s.tables.users.map (·.id) := hi.id c (ne_succeeded hp Phase.noConfusion)
  refine ⟨hi.wellFormed.register (fun f => hi.free f c (hentered f)) hid, ?_, ?_, ?_, ?_⟩
  · -- another open call has another value: both are in the index
    intro f c' hc' htaken
    obtain ⟨hmem, hne⟩ := mem_close.mp hc'
    rcases taken_register.mp htaken with h | h
    · exact hi.free f c' hmem h
    · exact hne (hi.distinct f c' hmem c (hentered f) h.symm)
  · exact fun f c₁ hc₁ c₂ hc₂ => hi.distinct f c₁ (mem_close.mp hc₁).1 c₂ (mem_close.mp hc₂).1
  · intro c' hc'
    have hne : c' ≠ c := by
      rintro rfl
      exact hc' (Function.update_self ..)
    have hold := hi.id c' (set_phase_of_ne hne ▸ hc')
    rw [Registration.register, List.map_append]
    intro hmem
    rcases List.mem_append.mp hmem with hmem | hmem
    · exact hold hmem
    · exact hne (hinj _ _ (List.mem_singleton.mp hmem))
  · refine phaseInv_update (fun _ => not_mem_close) ?_
    exact fun c' hc' => PhaseInv.congr (fun _ => mem_close_of_ne hc')
      (fun _ _ h => taken_register.mpr (.inl h)) (hi.phase c')

theorem Inv.step (hi : Inv user s) (hinj : ∀ c c', (user c).id = (user c').id → c = c')
    (hs : Registration.step user s e = some s') : Inv user s' := by
  cases step_transition hs with
  | starts hp =>
      have hphase := hi.phase_of hp
      exact hi.set (ne_succeeded hp Phase.noConfusion) hphase
  | conflicts hp htaken =>
      exact hi.set (ne_succeeded hp Phase.noConfusion) (real_conflict htaken)
  | @available c field hp =>
      refine hi.set (ne_succeeded hp Phase.noConfusion) ?_
      have hphase := hi.phase_of hp
      cases field <;> exact hphase
  | hashes hp =>
      have hphase := hi.phase_of hp
      exact hi.set (ne_succeeded hp Phase.noConfusion) hphase
  | loses hp htaken => exact hi.set (ne_succeeded hp Phase.noConfusion) (real_conflict htaken)
  | enters hp hfree htaken => exact hi.enters hp hfree htaken
  | savesOutbox hp =>
      have hphase := hi.phase_of hp
      exact hi.set (ne_succeeded hp Phase.noConfusion) hphase
  | commits hp => exact hi.commits hinj hp
  | fails hother hp hne => exact hi.set hne (.of_ne (rethrow_other hother))
  | rollsBack hp => exact hi.rollsBack hp

/-- Every row was added by a call that succeeded. -/
theorem serial_step {tables : Tables κ}
    (h : Serial (fun c => register (user c)) tables (fun c => s.phase c = .succeeded) s.tables)
    (hs : step user s e = some s') :
    Serial (fun c => register (user c)) tables (fun c => s'.phase c = .succeeded) s'.tables := by
  have hset : ∀ {c phase}, s.phase c ≠ .succeeded → phase ≠ .succeeded → ∀ c',
      Function.update s.phase c phase c' = .succeeded ↔ s.phase c' = .succeeded := by
    intro c phase hne hphase c'
    by_cases hc : c' = c
    · rw [hc, Function.update_self]
      exact iff_of_false hphase hne
    · rw [Function.update_of_ne hc]
  cases step_transition hs with
  | starts hp | conflicts hp | hashes hp | loses hp | savesOutbox hp | rollsBack hp =>
      exact h.congr (hset (ne_succeeded hp Phase.noConfusion) Phase.noConfusion)
  | @available c field hp =>
      refine h.congr (hset (ne_succeeded hp Phase.noConfusion) ?_)
      cases field <;> exact Phase.noConfusion
  | @enters c field detail hp =>
      refine h.congr (hset (ne_succeeded hp Phase.noConfusion) ?_)
      cases field <;> exact Phase.noConfusion
  | fails hother hp hne => exact h.congr (hset hne Phase.noConfusion)
  | @commits c hp =>
      refine h.commit (ne_succeeded hp Phase.noConfusion) ?_
      intro c'
      by_cases hc : c' = c
      · exact iff_of_true (hc ▸ Function.update_self ..) (.inr hc)
      · rw [or_iff_left hc]
        exact Eq.to_iff (congrArg (· = Phase.succeeded) (set_phase_of_ne hc))

theorem inv_run {tables : Tables κ} (hwf : WellFormed tables)
    (hinj : ∀ c c', (user c).id = (user c').id → c = c')
    (hfresh : ∀ c, (user c).id ∉ tables.users.map (·.id))
    (hr : run (step user) (init ι tables) es = some s) : Inv user s :=
  run_invariant' (fun _ _ _ hi hs => hi.step hinj hs) (inv_init hwf hfresh) hr

/-! ### How a call ends -/

/-- The call has met `error`. -/
def Met (error : AuthError) (c : ι) (s : State ι κ) : Prop :=
  s.phase c = .rollingBack error ∨ s.phase c = .threw error

theorem met_step {error : AuthError} {c : ι} (h : Met error c s)
    (hs : step user s e = some s') : Met error c s' := by
  have hother : ∀ {c' : ι} {phase phase' : Phase}, s.phase c' = phase' →
      phase' ≠ .rollingBack error → phase' ≠ .threw error →
      Function.update s.phase c' phase c = .rollingBack error ∨
        Function.update s.phase c' phase c = .threw error := by
    intro c' phase phase' hp h₁ h₂
    have hne : c ≠ c' := by
      rintro rfl
      rcases h with h | h
      · exact h₁ (hp.symm.trans h)
      · exact h₂ (hp.symm.trans h)
    rw [Function.update_of_ne hne]
    exact h
  cases step_transition hs with
  | starts hp | conflicts hp | available hp | hashes hp | loses hp | enters hp | savesOutbox hp
  | commits hp => exact hother hp Phase.noConfusion Phase.noConfusion
  | fails _ h₁ _ h₂ => exact hother rfl (h₁ error) (h₂ error)
  | @rollsBack c' error' hp =>
      by_cases hc : c = c'
      · subst hc
        rcases h with h | h
        · cases hp.symm.trans h
          exact .inr (Function.update_self ..)
        · cases hp.symm.trans h
      · rw [Met, set_phase_of_ne hc]
        exact h

theorem met_run {error : AuthError} {c : ι} (h : Met error c s)
    (hr : run (step user) s es = some s') : Met error c s' :=
  run_invariant' (fun _ _ _ h hs => met_step h hs) h hr

/-- **Registrations agree.**  In every reachable state the committed users have different usernames
and emails and one outbox row each, and the rows are those of the calls that succeeded, in some
order.  A call is told of a conflict only when a committed user has the value, and a call that finds
the value taken when it inserts is told so. -/
theorem registration_agreement {tables : Tables κ} (hwf : WellFormed tables)
    (hinj : ∀ c c', (user c).id = (user c').id → c = c')
    (hfresh : ∀ c, (user c).id ∉ tables.users.map (·.id))
    (hr : run (step user) (init ι tables) es = some s) :
    WellFormed s.tables ∧
    Serial (fun c => register (user c)) tables (fun c => s.phase c = .succeeded) s.tables ∧
    (∀ c (field : Field), s.phase c = .threw (.conflict field.conflict) →
      Taken s.tables field ((user c).value field)) ∧
    ∀ es₁ c detail es₂ s₁ field, es = es₁ ++ .enters c detail :: es₂ →
      run (step user) (init ι tables) es₁ = some s₁ → s₁.phase c = .entering field →
      Taken s₁.tables field ((user c).value field) →
      s.phase c = .rollingBack (.conflict field.conflict) ∨
        s.phase c = .threw (.conflict field.conflict) := by
  have hi := inv_run hwf hinj hfresh hr
  refine ⟨hi.wellFormed, ?_, ?_, ?_⟩
  · refine run_invariant' (I := fun s => Serial (fun c => register (user c)) tables
      (fun c => s.phase c = .succeeded) s.tables) ?_ (.none fun _ => Phase.noConfusion) hr
    exact fun _ _ _ h hs => serial_step h hs
  · intro c field hp
    exact (hi.phase_of hp).2 field rfl
  · intro es₁ c detail es₂ s₁ field hes hr₁ hp htaken
    rw [hes] at hr
    obtain ⟨s₁', hr₁', hr⟩ := run_append.mp hr
    cases hr₁.symm.trans hr₁'
    obtain ⟨s₂, hs₂, hr₂⟩ := run_cons.mp hr
    refine met_run ?_ hr₂
    cases step_transition hs₂ with
    | loses hp' =>
        cases hp.symm.trans hp'
        exact .inl (Function.update_self ..)
    | enters hp' _ hnot =>
        -- it would not have entered: the value is taken
        cases hp.symm.trans hp'
        exact absurd htaken hnot

end Runs

/-! ### Two calls for one name -/

/-- Two requests with one username and two emails. -/
def namesakes (c : Bool) : User Bool := ⟨c, ['j'], if c then ['a'] else ['b'], []⟩

/-- Both find the name free; the second inserts when the first has committed. -/
def race : List (Event Bool) :=
  [.starts true, .finds true, .finds true, .starts false, .finds false, .finds false, .hashes true,
    .hashes false, .enters true none, .enters true none, .savesOutbox true, .commits true,
    .enters false none, .rollsBack false]

theorem registration_agreement_race :
    ∃ s, run (step namesakes) (init Bool ⟨[], []⟩) race = some s ∧ WellFormed s.tables ∧
      Taken s.tables .username ['j'] := by
  obtain ⟨s, hs⟩ : ∃ s, run (step namesakes) (init Bool ⟨[], []⟩) race = some s := ⟨_, rfl⟩
  have hwf : WellFormed (⟨[], []⟩ : Tables Bool) :=
    ⟨fun _ => List.nodup_nil, List.nodup_nil, .refl _⟩
  have h := registration_agreement hwf (fun _ _ h => h) (fun _ => List.not_mem_nil) hs
  refine ⟨s, hs, h.1, h.2.2.1 false .username ?_⟩
  cases hs
  rfl

end MediumClone.Auth.Registration
