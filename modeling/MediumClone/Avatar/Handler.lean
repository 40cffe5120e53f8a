import MediumClone.Support.JsText
import MediumClone.Support.Run

/-!
# Avatar — Handler

`UserAvatarHandler.execute` (`src/auth/user-avatar-handler.ts`), over the attachment rows and the
private storage (`src/attachments/private-attachment-storage.ts`), as one step for every `await`.

An upload locks its user, lists the user's attachments, writes the file, saves its row and the
user's image, and commits.  It then removes the files of the attachments it listed and deletes the
rows of those that were removed.  When anything up to the commit fails, the transaction is rolled
back, and the file is removed if a write was attempted; if that fails too, a row is saved that marks
the file for a later upload.

Storage keys and attachment ids are fresh, so they are named by the upload that drew them.  An
upload draws one key, and an id for its attachment or for its marker.  The key's extension follows
from the media type and tells no two keys apart.

`Transition` lists the steps with what each finds and changes; `Frame` is what they have in common,
and what the upload that takes a step cannot do to the files of another.
-/

namespace MediumClone.Avatar
open Js Sys

/-! ### Media types -/

abbrev Bytes := List UInt8

inductive AvatarMediaType where
  | jpeg | png | webp
  deriving DecidableEq

def MAX_AVATAR_BYTES : ℕ := 2 * 1024 * 1024
def PNG_SIGNATURE : Bytes := [137, 80, 78, 71, 13, 10, 26, 10]
def RIFF_CONTAINER : Str := "RIFF".toList
def WEBP_CONTAINER : Str := "WEBP".toList

/-- `buffer.toString('ascii')`, which drops the high bit of every byte. -/
def toAscii (buffer : Bytes) : Str := buffer.map fun b => Char.ofNat (b.toNat % 128)

def getAvatarMediaType : Option Bytes → Option AvatarMediaType
  | none => none
  | some buffer =>
    if buffer.length ≥ 3 ∧ buffer[0]? = some 0xff ∧ buffer[1]? = some 0xd8 ∧
        buffer[2]? = some 0xff then
      some .jpeg
    else if buffer.take PNG_SIGNATURE.length = PNG_SIGNATURE then some .png
    else if buffer.length ≥ 12 ∧ toAscii (buffer.take 4) = RIFF_CONTAINER ∧
        toAscii ((buffer.drop 8).take 4) = WEBP_CONTAINER then
      some .webp
    else none

/-- An upload that passed the checks. -/
structure AvatarFile where
  buffer : Bytes
  mediaType : AvatarMediaType
  detected : getAvatarMediaType (some buffer) = some mediaType
  size : buffer.length ≤ MAX_AVATAR_BYTES

inductive AvatarError where
  /-- 422, `avatar: is invalid`. -/
  | unprocessable
  /-- 401, `token: is invalid`. -/
  | unauthorized
  /-- The rejection of the write, a statement or the commit. -/
  | failed
  deriving DecidableEq

/-- The checks at the head of `execute`. -/
def checkUpload : Option Bytes → Except AvatarError AvatarFile
  | none => .error .unprocessable
  | some buffer =>
    match hm : getAvatarMediaType (some buffer) with
    | none => .error .unprocessable
    | some mediaType =>
      if hs : buffer.length > MAX_AVATAR_BYTES then .error .unprocessable
      else .ok ⟨buffer, mediaType, hm, Nat.le_of_not_lt hs⟩

theorem checkUpload_ok {upload : Option Bytes} {f : AvatarFile} (h : checkUpload upload = .ok f) :
    upload = some f.buffer := by
  cases upload with
  | none => cases h
  | some buffer =>
      simp only [checkUpload] at h
      split at h
      · cases h
      · split at h
        · cases h
        · cases h
          rfl

/-! ### The state -/

/-- The upload that drew the id, for its attachment or for its marker. -/
structure AttachmentId (ι : Type*) where
  upload : ι
  marker : Bool
  deriving DecidableEq

structure StorageKey (ι : Type*) where
  upload : ι
  deriving DecidableEq

structure Attachment (υ ι : Type*) where
  id : AttachmentId ι
  ownerId : υ
  mediaType : AvatarMediaType
  byteSize : ℕ
  storageKey : StorageKey ι
  deriving DecidableEq

/-- What the handler keeps of an attachment it will clean up. -/
structure StaleAttachment (ι : Type*) where
  id : AttachmentId ι
  storageKey : StorageKey ι
  deriving DecidableEq

/-- A user's `image`: as it was, or the path `/api/files/{id}`. -/
inductive Image (ι : Type*) where
  | initial
  | file (id : AttachmentId ι)
  deriving DecidableEq

structure Request (υ : Type*) where
  user : υ
  upload : Option Bytes

/-- Where a call that passed the checks stands, named by what it awaits. -/
inductive Stage (ι : Type*) where
  | findOne
  | findBy
  | write (stale : List (StaleAttachment ι))
  | saveAttachment (stale : List (StaleAttachment ι))
  | saveUser (stale : List (StaleAttachment ι))
  | commit (stale : List (StaleAttachment ι))
  | removeStale (todo : List (StaleAttachment ι)) (removed : List (AttachmentId ι))
  | deleteStale (removed : List (AttachmentId ι))
  | removeOwn
  | saveMarker

inductive Phase (ι : Type*) where
  | idle
  | running (file : AvatarFile) (stage : Stage ι)
  | returned
  | threw (error : AvatarError)

structure State (υ ι : Type*) where
  image : υ → Image ι
  lock : υ → Option ι
  rows : List (Attachment υ ι)
  files : StorageKey ι → Option Bytes
  phase : ι → Phase ι

def init (υ ι : Type*) : State υ ι where
  image := fun _ => .initial
  lock := fun _ => none
  rows := []
  files := fun _ => none
  phase := fun _ => .idle

/-- What an upload meets, at the `await` it is at. -/
inductive Event (ι : Type*) where
  | execute (c : ι)
  | userFound (c : ι)
  | userNotFound (c : ι)
  /-- `findBy` promises no order. -/
  | staleFound (c : ι) (stale : List (StaleAttachment ι))
  | written (c : ι)
  | writeFails (c : ι) (partialFile : Option Bytes)
  | saved (c : ι)
  | committed (c : ι)
  /-- A statement or the commit is rejected. -/
  | databaseFails (c : ι)
  | removed (c : ι)
  | removeFails (c : ι) (gone : Bool)
  | deleted (c : ι)
  | deleteFails (c : ι)
  | marked (c : ι)
  | markerFails (c : ι)

def Event.call {ι : Type*} : Event ι → ι
  | .execute c | .userFound c | .userNotFound c | .staleFound c _ | .written c | .writeFails c _
  | .saved c | .committed c | .databaseFails c | .removed c | .removeFails c _ | .deleted c
  | .deleteFails c | .marked c | .markerFails c => c

/-! ### The steps -/

section Step

variable {υ ι : Type*} [DecidableEq υ] [DecidableEq ι] (request : ι → Request υ)

/-- The row of an upload, or of its marker. -/
def attachment (c : ι) (marker : Bool) (f : AvatarFile) : Attachment υ ι where
  id := ⟨c, marker⟩
  ownerId := (request c).user
  mediaType := f.mediaType
  byteSize := f.buffer.length
  storageKey := ⟨c⟩

/-- The attachments of a user, as the handler keeps them. -/
def State.staleOf (s : State υ ι) (u : υ) : List (StaleAttachment ι) :=
  (s.rows.filter (·.ownerId = u)).map fun a => ⟨a.id, a.storageKey⟩

def State.to (s : State υ ι) (c : ι) (p : Phase ι) : State υ ι :=
  { s with phase := Function.update s.phase c p }

def State.unlock (s : State υ ι) (c : ι) : State υ ι :=
  { s with lock := Function.update s.lock (request c).user none }

def State.setFile (s : State υ ι) (k : StorageKey ι) (content : Option Bytes) : State υ ι :=
  { s with files := Function.update s.files k content }

/-- The loop over the stale attachments and the batch delete, from here on. -/
def cleaning (f : AvatarFile) : List (StaleAttachment ι) → List (AttachmentId ι) → Phase ι
  | [], [] => .returned
  | [], removed => .running f (.deleteStale removed)
  | todo, removed => .running f (.removeStale todo removed)

def step (s : State υ ι) : Event ι → Option (State υ ι)
  | .execute c =>
    match s.phase c with
    | .idle =>
      match checkUpload (request c).upload with
      | .ok f => some (s.to c (.running f .findOne))
      | .error e => some (s.to c (.threw e))
    | _ => none
  | .userFound c =>
    match s.phase c, s.lock (request c).user with
    | .running f .findOne, none =>
      some { s.to c (.running f .findBy) with
        lock := Function.update s.lock (request c).user (some c) }
    | _, _ => none
  | .userNotFound c =>
    match s.phase c with
    | .running _ .findOne => some (s.to c (.threw .unauthorized))
    | _ => none
  | .staleFound c stale =>
    match s.phase c with
    | .running f .findBy =>
      if stale.Perm (s.staleOf (request c).user) then some (s.to c (.running f (.write stale)))
      else none
    | _ => none
  | .written c =>
    match s.phase c, s.files ⟨c⟩ with
    | .running f (.write stale), none =>
      some ((s.to c (.running f (.saveAttachment stale))).setFile ⟨c⟩ (some f.buffer))
    | _, _ => none
  | .writeFails c partialFile =>
    match s.phase c with
    | .running f (.write _) =>
      some (((s.to c (.running f .removeOwn)).setFile ⟨c⟩ partialFile).unlock request c)
    | _ => none
  | .saved c =>
    match s.phase c with
    | .running f (.saveAttachment stale) => some (s.to c (.running f (.saveUser stale)))
    | .running f (.saveUser stale) => some (s.to c (.running f (.commit stale)))
    | _ => none
  | .committed c =>
    match s.phase c with
    | .running f (.commit stale) =>
      some ({ s.to c (cleaning f stale []) with
        rows := attachment request c false f :: s.rows
        image := Function.update s.image (request c).user (.file ⟨c, false⟩) }.unlock request c)
    | _ => none
  | .databaseFails c =>
    match s.phase c with
    | .running _ .findOne => some (s.to c (.threw .failed))
    | .running _ .findBy => some ((s.to c (.threw .failed)).unlock request c)
    | .running f (.saveAttachment _) | .running f (.saveUser _) | .running f (.commit _) =>
      some ((s.to c (.running f .removeOwn)).unlock request c)
    | _ => none
  | .removed c =>
    match s.phase c with
    | .running f (.removeStale (x :: todo) removed) =>
      some ((s.to c (cleaning f todo (removed ++ [x.id]))).setFile x.storageKey none)
    | .running _ .removeOwn => some ((s.to c (.threw .failed)).setFile ⟨c⟩ none)
    | _ => none
  | .removeFails c gone =>
    match s.phase c with
    | .running f (.removeStale (x :: todo) removed) =>
      some ((s.to c (cleaning f todo removed)).setFile x.storageKey
        (if gone then none else s.files x.storageKey))
    | .running f .removeOwn =>
      some ((s.to c (.running f .saveMarker)).setFile ⟨c⟩ (if gone then none else s.files ⟨c⟩))
    | _ => none
  | .deleted c =>
    match s.phase c with
    | .running _ (.deleteStale removed) =>
      some { s.to c .returned with
        rows := s.rows.filter fun a => ¬ (a.id ∈ removed ∧ a.ownerId = (request c).user) }
    | _ => none
  | .deleteFails c =>
    match s.phase c with
    | .running _ (.deleteStale _) => some (s.to c .returned)
    | _ => none
  | .marked c =>
    match s.phase c with
    | .running f .saveMarker =>
      some { s.to c (.threw .failed) with rows := attachment request c true f :: s.rows }
    | _ => none
  | .markerFails c =>
    match s.phase c with
    | .running _ .saveMarker => some (s.to c (.threw .failed))
    | _ => none

end Step

/-! ### What a phase says -/

section Phases

variable {ι : Type*}

/-- The attachments a call has yet to clean up. -/
def Phase.stale : Phase ι → List (StaleAttachment ι)
  | .running _ (.write stale) | .running _ (.saveAttachment stale) | .running _ (.saveUser stale)
  | .running _ (.commit stale) | .running _ (.removeStale stale _) => stale
  | _ => []

/-- The attachments whose files a call has removed. -/
def Phase.removed : Phase ι → List (AttachmentId ι)
  | .running _ (.removeStale _ removed) | .running _ (.deleteStale removed) => removed
  | _ => []

/-- The stale attachments of a call whose file is written and whose transaction is open. -/
def Stage.written : Stage ι → Option (List (StaleAttachment ι))
  | .saveAttachment stale | .saveUser stale | .commit stale => some stale
  | _ => none

/-- The transaction is over, and the file is no longer the call's own business. -/
def Phase.Settled : Phase ι → Prop
  | .running _ (.removeStale _ _) | .running _ (.deleteStale _) | .returned | .threw _ => True
  | _ => False

/-- The call has returned or thrown. -/
def Phase.Closed : Phase ι → Prop
  | .returned | .threw _ => True
  | _ => False

@[simp] theorem cleaning_stale (f : AvatarFile) (todo : List (StaleAttachment ι))
    (removed : List (AttachmentId ι)) : (cleaning f todo removed).stale = todo := by
  cases todo <;> cases removed <;> rfl

@[simp] theorem cleaning_removed (f : AvatarFile) (todo : List (StaleAttachment ι))
    (removed : List (AttachmentId ι)) : (cleaning f todo removed).removed = removed := by
  cases todo <;> cases removed <;> rfl

theorem cleaning_settled (f : AvatarFile) (todo : List (StaleAttachment ι))
    (removed : List (AttachmentId ι)) : (cleaning f todo removed).Settled := by
  cases todo <;> cases removed <;> trivial

theorem Phase.stale_of_written {f : AvatarFile} {st : Stage ι} {stale : List (StaleAttachment ι)}
    (h : st.written = some stale) : (Phase.running f st).stale = stale := by
  cases st <;> cases h <;> rfl

theorem Phase.removed_of_written {f : AvatarFile} {st : Stage ι}
    {stale : List (StaleAttachment ι)} (h : st.written = some stale) :
    (Phase.running f st).removed = [] := by
  cases st <;> cases h <;> rfl

theorem Phase.not_settled_of_written {f : AvatarFile} {st : Stage ι}
    {stale : List (StaleAttachment ι)} (h : st.written = some stale) :
    ¬ (Phase.running f st).Settled := by
  cases st <;> cases h <;> exact id

end Phases

/-! ### What a step does -/

section Transition

variable {υ ι : Type*} [DecidableEq υ] [DecidableEq ι]

/-- The steps, each with what the call finds. -/
inductive Transition (request : ι → Request υ) (s : State υ ι) : Event ι → State υ ι → Prop where
  | accepts {c f} (hp : s.phase c = .idle) (hf : (request c).upload = some f.buffer) :
      Transition request s (.execute c) (s.to c (.running f .findOne))
  | rejects {c e} (hp : s.phase c = .idle) :
      Transition request s (.execute c) (s.to c (.threw e))
  | locks {c f} (hp : s.phase c = .running f .findOne) :
      Transition request s (.userFound c) { s.to c (.running f .findBy) with
        lock := Function.update s.lock (request c).user (some c) }
  | notFound {c f} (hp : s.phase c = .running f .findOne) :
      Transition request s (.userNotFound c) (s.to c (.threw .unauthorized))
  | lists {c f stale} (hp : s.phase c = .running f .findBy)
      (hs : stale.Perm (s.staleOf (request c).user)) :
      Transition request s (.staleFound c stale) (s.to c (.running f (.write stale)))
  | writes {c f stale} (hp : s.phase c = .running f (.write stale)) :
      Transition request s (.written c)
        ((s.to c (.running f (.saveAttachment stale))).setFile ⟨c⟩ (some f.buffer))
  | writeFails {c f stale partialFile} (hp : s.phase c = .running f (.write stale)) :
      Transition request s (.writeFails c partialFile)
        (((s.to c (.running f .removeOwn)).setFile ⟨c⟩ partialFile).unlock request c)
  | saves {c f st st' stale} (hp : s.phase c = .running f st) (hw : st.written = some stale)
      (hw' : st'.written = some stale) :
      Transition request s (.saved c) (s.to c (.running f st'))
  | commits {c f stale} (hp : s.phase c = .running f (.commit stale)) :
      Transition request s (.committed c) ({ s.to c (cleaning f stale []) with
        rows := attachment request c false f :: s.rows
        image := Function.update s.image (request c).user (.file ⟨c, false⟩) }.unlock request c)
  | failsUnlocked {c f} (hp : s.phase c = .running f .findOne) :
      Transition request s (.databaseFails c) (s.to c (.threw .failed))
  | failsLocked {c f} (hp : s.phase c = .running f .findBy) :
      Transition request s (.databaseFails c) ((s.to c (.threw .failed)).unlock request c)
  | failsWritten {c f st stale} (hp : s.phase c = .running f st) (hw : st.written = some stale) :
      Transition request s (.databaseFails c) ((s.to c (.running f .removeOwn)).unlock request c)
  | removes {c f x todo removed} (hp : s.phase c = .running f (.removeStale (x :: todo) removed)) :
      Transition request s (.removed c)
        ((s.to c (cleaning f todo (removed ++ [x.id]))).setFile x.storageKey none)
  | removeFails {c f x todo removed gone}
      (hp : s.phase c = .running f (.removeStale (x :: todo) removed)) :
      Transition request s (.removeFails c gone) ((s.to c (cleaning f todo removed)).setFile
        x.storageKey (if gone then none else s.files x.storageKey))
  | removesOwn {c f} (hp : s.phase c = .running f .removeOwn) :
      Transition request s (.removed c) ((s.to c (.threw .failed)).setFile ⟨c⟩ none)
  | removeOwnFails {c f gone} (hp : s.phase c = .running f .removeOwn) :
      Transition request s (.removeFails c gone) ((s.to c (.running f .saveMarker)).setFile
        ⟨c⟩ (if gone then none else s.files ⟨c⟩))
  | deletes {c f removed} (hp : s.phase c = .running f (.deleteStale removed)) :
      Transition request s (.deleted c) { s.to c .returned with
        rows := s.rows.filter fun a => ¬ (a.id ∈ removed ∧ a.ownerId = (request c).user) }
  | deleteFails {c f removed} (hp : s.phase c = .running f (.deleteStale removed)) :
      Transition request s (.deleteFails c) (s.to c .returned)
  | marks {c f} (hp : s.phase c = .running f .saveMarker) :
      Transition request s (.marked c) { s.to c (.threw .failed) with
        rows := attachment request c true f :: s.rows }
  | markerFails {c f} (hp : s.phase c = .running f .saveMarker) :
      Transition request s (.markerFails c) (s.to c (.threw .failed))

variable {request : ι → Request υ} {s s' : State υ ι} {e : Event ι}

theorem step_transition (hs : step request s e = some s') : Transition request s e s' := by
  cases e with
  | execute c =>
      simp only [step] at hs
      split at hs
      · rename_i hp
        split at hs
        · rename_i hf
          cases hs
          exact .accepts hp (checkUpload_ok hf)
        · cases hs
          exact .rejects hp
      · cases hs
  | userFound c =>
      simp only [step] at hs
      split at hs
      · rename_i hp hl
        cases hs
        exact .locks hp
      · cases hs
  | userNotFound c =>
      simp only [step] at hs
      split at hs
      · rename_i hp
        cases hs
        exact .notFound hp
      · cases hs
  | staleFound c stale =>
      simp only [step] at hs
      split at hs
      · rename_i hp
        obtain ⟨hperm, hs⟩ := Option.ite_none_right_eq_some.mp hs
        cases hs
        exact .lists hp hperm
      · cases hs
  | written c =>
      simp only [step] at hs
      split at hs
      · rename_i hp hn
        cases hs
        exact .writes hp
      · cases hs
  | writeFails c partialFile =>
      simp only [step] at hs
      split at hs
      · rename_i hp
        cases hs
        exact .writeFails hp
      · cases hs
  | saved c =>
      simp only [step] at hs
      split at hs
      · rename_i hp
        cases hs
        exact .saves hp rfl rfl
      · rename_i hp
        cases hs
        exact .saves hp rfl rfl
      · cases hs
  | committed c =>
      simp only [step] at hs
      split at hs
      · rename_i hp
        cases hs
        exact .commits hp
      · cases hs
  | databaseFails c =>
      simp only [step] at hs
      split at hs
      · rename_i hp
        cases hs
        exact .failsUnlocked hp
      · rename_i hp
        cases hs
        exact .failsLocked hp
      all_goals
        first
        | cases hs; done
        | rename_i hp
          cases hs
          exact .failsWritten hp rfl
  | removed c =>
      simp only [step] at hs
      split at hs
      · rename_i hp
        cases hs
        exact .removes hp
      · rename_i hp
        cases hs
        exact .removesOwn hp
      · cases hs
  | removeFails c gone =>
      simp only [step] at hs
      split at hs
      · rename_i hp
        cases hs
        exact .removeFails hp
      · rename_i hp
        cases hs
        exact .removeOwnFails hp
      · cases hs
  | deleted c =>
      simp only [step] at hs
      split at hs
      · rename_i hp
        cases hs
        exact .deletes hp
      · cases hs
  | deleteFails c =>
      simp only [step] at hs
      split at hs
      · rename_i hp
        cases hs
        exact .deleteFails hp
      · cases hs
  | marked c =>
      simp only [step] at hs
      split at hs
      · rename_i hp
        cases hs
        exact .marks hp
      · cases hs
  | markerFails c =>
      simp only [step] at hs
      split at hs
      · rename_i hp
        cases hs
        exact .markerFails hp
      · cases hs

/-- What every step leaves alone: the calls that do not take it; and of the files, all but the
call's own while its transaction is open, and those it cleans up afterwards. -/
structure Frame (s s' : State υ ι) (c : ι) : Prop where
  phase : ∀ d, d ≠ c → s'.phase d = s.phase d
  settled : (s.phase c).Settled → (s'.phase c).Settled
  files : ∀ k, s'.files k = s.files k ∨ (k = ⟨c⟩ ∧ ¬ (s.phase c).Settled) ∨
    (s'.files k = none ∧ (s.phase c).Settled ∧ ∃ x ∈ (s.phase c).stale, x.storageKey = k)

omit [DecidableEq υ] in
theorem frame_phase {c : ι} {p : Phase ι} (hphase : s'.phase = Function.update s.phase c p)
    (hfiles : s'.files = s.files) (hs : (s.phase c).Settled → p.Settled) : Frame s s' c where
  phase d hd := by rw [hphase, Function.update_of_ne hd]
  settled h := by rw [hphase, Function.update_self]; exact hs h
  files _ := .inl (by rw [hfiles])

omit [DecidableEq υ] in
theorem frame_own {c : ι} {p : Phase ι} {content : Option Bytes}
    (hphase : s'.phase = Function.update s.phase c p)
    (hfiles : s'.files = Function.update s.files ⟨c⟩ content)
    (hs : ¬ (s.phase c).Settled) : Frame s s' c where
  phase d hd := by rw [hphase, Function.update_of_ne hd]
  settled h := absurd h hs
  files k := by
    by_cases hk : k = ⟨c⟩
    · exact .inr (.inl ⟨hk, hs⟩)
    · exact .inl (by rw [hfiles, Function.update_of_ne hk])

omit [DecidableEq υ] in
theorem frame_stale {c : ι} {f : AvatarFile} {x : StaleAttachment ι}
    {todo : List (StaleAttachment ι)} {removed removed' : List (AttachmentId ι)}
    (hp : s.phase c = .running f (.removeStale (x :: todo) removed)) {content : Option Bytes}
    (hc : content = none ∨ content = s.files x.storageKey)
    (hphase : s'.phase = Function.update s.phase c (cleaning f todo removed'))
    (hfiles : s'.files = Function.update s.files x.storageKey content) : Frame s s' c where
  phase d hd := by rw [hphase, Function.update_of_ne hd]
  settled _ := by rw [hphase, Function.update_self]; exact cleaning_settled f todo removed'
  files k := by
    by_cases hk : k = x.storageKey
    · subst hk
      rw [hfiles, Function.update_self]
      rcases hc with rfl | rfl
      · exact .inr (.inr ⟨rfl, by rw [hp]; trivial, x, by rw [hp]; exact List.mem_cons_self, rfl⟩)
      · exact .inl rfl
    · exact .inl (by rw [hfiles, Function.update_of_ne hk])

theorem Transition.frame (h : Transition request s e s') : Frame s s' e.call := by
  cases h with
  | accepts hp | rejects hp | locks hp | notFound hp | lists hp | failsUnlocked hp
  | failsLocked hp | marks hp | markerFails hp =>
      exact frame_phase rfl rfl fun h => (by rw [Event.call, hp] at h; exact h.elim)
  | deletes | deleteFails => exact frame_phase rfl rfl fun _ => trivial
  | saves hp hw | failsWritten hp hw =>
      refine frame_phase rfl rfl fun h => absurd h ?_
      rw [Event.call, hp]
      exact Phase.not_settled_of_written hw
  | commits => exact frame_phase rfl rfl fun _ => cleaning_settled _ _ _
  | writes hp | writeFails hp | removesOwn hp | removeOwnFails hp =>
      exact frame_own rfl rfl (by rw [Event.call, hp]; exact id)
  | removes hp => exact frame_stale hp (.inl rfl) rfl rfl
  | @removeFails c f x todo removed gone hp =>
      refine frame_stale hp ?_ rfl rfl
      cases gone
      · exact .inr rfl
      · exact .inl rfl

end Transition

end MediumClone.Avatar
