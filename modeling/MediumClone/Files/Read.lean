import MediumClone.Attachments.Storage
import MediumClone.Support.Keyed

/-!
# Files — Read

`FileReadHandler.execute` (`src/files/file-read-handler.ts`), with the keys it hands to the
storage.

What a viewer may see is, under every id, the attachment of that id if it is the viewer's own, and
its file (`State.ownFile`).  The handler answers from that alone (`execute_eq_answer`), so nothing
else of the state can show in an answer (`execute_confined`).
-/

namespace MediumClone.Files
open Js Sys MediumClone.Attachments

/-! ### Rows -/

structure User (υ : Type*) where
  id : υ
  username : Str

/-- The columns of `attachments` the handler reads.  An id is the text of a `uuid`, as PostgreSQL
writes it. -/
structure Attachment (υ : Type*) where
  id : Str
  ownerId : υ
  mediaType : Str
  byteSize : ℤ
  storageKey : Str
  deriving DecidableEq

structure State (υ : Type*) where
  users : List (User υ)
  attachments : List (Attachment υ)
  disk : Disk
  usernames : (users.map (·.username)).Nodup
  attachmentIds : (attachments.map (·.id)).Nodup

/-! ### Ids -/

/-- A pattern between `^` and `$`, as its classes of characters. -/
def test : List (Char → Bool) → Str → Bool
  | [], [] => true
  | p :: pattern, c :: s => p c && test pattern s
  | _, _ => false

def isHexDigit (c : Char) : Bool := (hexValue c).isSome

/-- A `uuid` in groups of 8, 4, 4, 4 and 12 digits, its third and fourth group led by the version
and the variant. -/
def uuidPattern (digit version variant : Char → Bool) : List (Char → Bool) :=
  let hyphen := (· == '-')
  List.replicate 8 digit ++ [hyphen] ++ List.replicate 4 digit ++ [hyphen, version] ++
    List.replicate 3 digit ++ [hyphen, variant] ++ List.replicate 3 digit ++ [hyphen] ++
    List.replicate 12 digit

def UUID_PATTERN : List (Char → Bool) :=
  uuidPattern isHexDigit (fun c => "12345678".toList.contains c)
    (fun c => "89abAB".toList.contains c)

/-! ### Answers -/

structure HttpException where
  status : ℕ
  errors : List (Str × List Str)
  deriving DecidableEq

structure StreamableFile where
  body : Buffer
  disposition : Str
  length : ℕ
  type : Str
  deriving DecidableEq

/-- The answer, and the storage keys that were read for it. -/
abbrev Answer := Except HttpException StreamableFile × List Str

def fileNotFound : HttpException where
  status := 404
  errors := [("file".toList, ["not found".toList])]

def fileReadFailed : HttpException where
  status := 500
  errors := [("file".toList, ["could not be read".toList])]

/-- The code of the error of `storage.read`. -/
def isMissingFile (code : Option Str) : Bool := code = some "ENOENT".toList

def MAX_PRIVATE_FILE_BYTES : ℤ := 2 * 1024 * 1024

def IMAGE_MEDIA_TYPES : List Str :=
  ["image/jpeg".toList, "image/png".toList, "image/webp".toList]

def MEDIA_TYPE_EXTENSION : List (Str × Str) :=
  [("image/jpeg".toList, "jpg".toList), ("image/png".toList, "png".toList),
    ("image/webp".toList, "webp".toList)]

def toStreamableFile (body : Buffer) (mediaType : Str) : Except HttpException StreamableFile :=
  match MEDIA_TYPE_EXTENSION.lookup mediaType with
  | none => .error fileNotFound
  | some extension =>
    .ok {
      body
      disposition := "inline; filename=\"avatar.".toList ++ extension ++ "\"".toList
      length := body.length
      type := mediaType }

/-! ### The handler -/

section

variable {υ : Type*} [DecidableEq υ]

/-- `AttachmentAccessPolicy.canRead`. -/
def canRead (userId : υ) (attachment : Attachment υ) : Bool := userId = attachment.ownerId

def State.findByUsername (s : State υ) (username : Str) : Option (User υ) :=
  s.users.find? (·.username = username)

/-- `findOneBy({ id })`.  PostgreSQL reads a `uuid` in either case. -/
def State.findOneBy (s : State υ) (id : Str) : Option (Attachment υ) :=
  s.attachments.find? (·.id = id.map Char.toLower)

/-- The end of `execute`, from the check of the metadata on; `read` is what the storage gives for
the key, once it is asked. -/
def readAttachment (attachment : Attachment υ) (read : ReadResult) : Answer :=
  if ¬ IMAGE_MEDIA_TYPES.contains attachment.mediaType ∨ attachment.byteSize < 0 ∨
      attachment.byteSize > MAX_PRIVATE_FILE_BYTES then
    (.error fileReadFailed, [])
  else
    match read with
    | .rejects code =>
      (.error (if isMissingFile code then fileNotFound else fileReadFailed),
        [attachment.storageKey])
    | .content body =>
      (if (body.length : ℤ) ≠ attachment.byteSize then .error fileReadFailed
        else toStreamableFile body attachment.mediaType, [attachment.storageKey])

def execute (storage : PrivateAttachmentStorage) (s : State υ) (username attachmentId : Str) :
    Answer :=
  if ¬ test UUID_PATTERN attachmentId then (.error fileNotFound, [])
  else
    match s.findByUsername username with
    | none => (.error fileNotFound, [])
    | some user =>
      match s.findOneBy attachmentId with
      | none => (.error fileNotFound, [])
      | some attachment =>
        if ¬ canRead user.id attachment then (.error fileNotFound, [])
        else readAttachment attachment (storage.read s.disk attachment.storageKey)

/-! ### What a viewer may see -/

/-- The viewer's own attachment of the id, and its file. -/
def State.ownFile (s : State υ) (storage : PrivateAttachmentStorage) (username id : Str) :
    Option (Attachment υ × ReadResult) := do
  let user ← s.findByUsername username
  let attachment ← (s.findOneBy id).filter (canRead user.id)
  some (attachment, storage.read s.disk attachment.storageKey)

/-- The answer to a viewer who owns this. -/
def answer (own : Option (Attachment υ × ReadResult)) : Answer :=
  match own with
  | none => (.error fileNotFound, [])
  | some (attachment, read) => readAttachment attachment read

/-- The states agree on the viewer's user row, and on the attachment rows the user owns and what
the storage reads for them. -/
structure Agree (storage : PrivateAttachmentStorage) (username : Str) (s s' : State υ) : Prop where
  user : ∀ user : User υ, user.username = username → (user ∈ s.users ↔ user ∈ s'.users)
  attachments : ∀ user ∈ s.users, user.username = username → ∀ a : Attachment υ,
    a.ownerId = user.id → (a ∈ s.attachments ↔ a ∈ s'.attachments)
  files : ∀ user ∈ s.users, user.username = username → ∀ a ∈ s.attachments,
    a.ownerId = user.id → storage.read s.disk a.storageKey = storage.read s'.disk a.storageKey

variable {storage : PrivateAttachmentStorage} {s s' : State υ} {username id : Str} {user : User υ}
  {a : Attachment υ}

omit [DecidableEq υ] in
theorem findByUsername_eq_some :
    s.findByUsername username = some user ↔ user ∈ s.users ∧ user.username = username :=
  Keyed.find_eq_some s.usernames

omit [DecidableEq υ] in
theorem findOneBy_eq_some :
    s.findOneBy id = some a ↔ a ∈ s.attachments ∧ a.id = id.map Char.toLower :=
  Keyed.find_eq_some s.attachmentIds

theorem ownFile_eq_some {read : ReadResult} :
    s.ownFile storage username id = some (a, read) ↔ ∃ user ∈ s.users, user.username = username ∧
      a ∈ s.attachments ∧ a.id = id.map Char.toLower ∧ a.ownerId = user.id ∧
      storage.read s.disk a.storageKey = read := by
  simp only [State.ownFile, Option.bind_eq_bind, Option.bind_eq_some_iff, Option.filter_eq_some_iff,
    findByUsername_eq_some, findOneBy_eq_some, canRead, decide_eq_true_eq, Option.some.injEq,
    Prod.mk.injEq]
  constructor
  · rintro ⟨user, ⟨hu, hname⟩, a, ⟨⟨ha, hid⟩, howner⟩, rfl, rfl⟩
    exact ⟨user, hu, hname, ha, hid, howner.symm, rfl⟩
  · rintro ⟨user, hu, hname, ha, hid, howner, rfl⟩
    exact ⟨user, ⟨hu, hname⟩, a, ⟨⟨ha, hid⟩, howner.symm⟩, rfl, rfl⟩

/-- **The handler answers from what the viewer may see.** -/
theorem execute_eq_answer : execute storage s username id =
    if test UUID_PATTERN id then answer (s.ownFile storage username id)
    else (.error fileNotFound, []) := by
  by_cases htest : test UUID_PATTERN id
  · rw [execute, if_neg (not_not.mpr htest), if_pos htest, State.ownFile]
    cases s.findByUsername username with
    | none => rfl
    | some user =>
        cases s.findOneBy id with
        | none => rfl
        | some a => by_cases hread : canRead user.id a <;> simp [hread, Option.filter, answer]
  · rw [execute, if_pos htest, if_neg htest]

omit [DecidableEq υ] in
theorem Agree.symm (h : Agree storage username s s') : Agree storage username s' s where
  user user hname := (h.user user hname).symm
  attachments user hu hname a ha :=
    (h.attachments user ((h.user user hname).mpr hu) hname a ha).symm
  files user hu hname a ha howner := by
    have hu' := (h.user user hname).mpr hu
    exact (h.files user hu' hname a ((h.attachments user hu' hname a howner).mpr ha) howner).symm

theorem Agree.ownFile (h : Agree storage username s s') {own : Attachment υ × ReadResult}
    (hown : s.ownFile storage username id = some own) :
    s'.ownFile storage username id = some own := by
  obtain ⟨a, read⟩ := own
  obtain ⟨user, hu, hname, ha, hid, howner, hread⟩ := ownFile_eq_some.mp hown
  refine ownFile_eq_some.mpr ⟨user, (h.user user hname).mp hu, hname, ?_, hid, howner, ?_⟩
  · exact (h.attachments user hu hname a howner).mp ha
  · exact (h.files user hu hname a ha howner).symm.trans hread

theorem Agree.ownFile_eq (h : Agree storage username s s') :
    s.ownFile storage username id = s'.ownFile storage username id := by
  ext own
  exact ⟨h.ownFile, h.symm.ownFile⟩

/-- An id that no attachment of the viewer has. -/
theorem execute_of_foreign (h : ∀ a ∈ s.attachments, a.id = id.map Char.toLower →
    ∀ user ∈ s.users, user.username = username → a.ownerId ≠ user.id) :
    execute storage s username id = (.error fileNotFound, []) := by
  have hnone : s.ownFile storage username id = none := by
    refine Option.eq_none_iff_forall_ne_some.mpr ?_
    rintro ⟨a, read⟩ hown
    obtain ⟨user, hu, hname, ha, hid, howner, -⟩ := ownFile_eq_some.mp hown
    exact h a ha hid user hu hname howner
  rw [execute_eq_answer, hnone]
  exact ite_self _

/-- **Private files are confined to their owner.**  Two states that agree on what is the viewer's
give the viewer one answer, after the same reads; and an id that is malformed, or that no attachment
of the viewer has, is not found, without a read. -/
theorem execute_confined (h : Agree storage username s s') (id : Str) :
    execute storage s username id = execute storage s' username id ∧
      (test UUID_PATTERN id = false ∨
        (∀ a ∈ s.attachments, a.id = id.map Char.toLower →
          ∀ user ∈ s.users, user.username = username → a.ownerId ≠ user.id) →
        execute storage s username id = (.error fileNotFound, [])) := by
  refine ⟨by rw [execute_eq_answer, execute_eq_answer, h.ownFile_eq], ?_⟩
  rintro (htest | hforeign)
  · rw [execute_eq_answer, if_neg (by simp [htest])]
  · exact execute_of_foreign hforeign

end

/-! ### Two users -/

def ownAttachment : Attachment Bool where
  id := "22222222-2222-4222-8222-222222222222".toList
  ownerId := false
  mediaType := "image/png".toList
  byteSize := 1
  storageKey := "own.png".toList

def foreignAttachment : Attachment Bool where
  id := "33333333-3333-4333-8333-333333333333".toList
  ownerId := true
  mediaType := "image/gif".toList
  byteSize := -1
  storageKey := "foreign".toList

/-- Each user has one attachment, or the second has none. -/
def twoUsers (foreign : Bool) : State Bool where
  users := [⟨false, "first".toList⟩, ⟨true, "second".toList⟩]
  attachments := if foreign then [foreignAttachment, ownAttachment] else [ownAttachment]
  disk := fun _ => .content [137]
  usernames := by decide
  attachmentIds := by cases foreign <;> decide

def privateStorage : PrivateAttachmentStorage := ⟨"/storage/private".toList⟩

theorem agree_twoUsers : Agree privateStorage "first".toList (twoUsers true) (twoUsers false) where
  user _ _ := Iff.rfl
  attachments user hu hname a ha := by
    have hid : user.id = false := by
      rcases List.mem_pair.mp hu with rfl | rfl
      · rfl
      · exact absurd hname (by decide)
    have hne : a ≠ foreignAttachment := by
      rintro rfl
      exact absurd (ha.trans hid) (by decide)
    simp [twoUsers, hne]
  files _ _ _ _ _ _ := rfl

/-- The first user reads the own attachment, and cannot tell whether there is the other. -/
theorem execute_confined_twoUsers :
    execute privateStorage (twoUsers true) "first".toList ownAttachment.id =
      execute privateStorage (twoUsers false) "first".toList ownAttachment.id ∧
    execute privateStorage (twoUsers true) "first".toList foreignAttachment.id =
      (.error fileNotFound, []) := by
  refine ⟨(execute_confined agree_twoUsers ownAttachment.id).1, ?_⟩
  refine (execute_confined agree_twoUsers foreignAttachment.id).2 (.inr ?_)
  intro a ha hid user hu hname howner
  rcases List.mem_pair.mp ha with rfl | rfl
  · rcases List.mem_pair.mp hu with rfl | rfl
    · exact absurd howner (by decide)
    · exact absurd hname (by decide)
  · exact absurd hid (by decide)

end MediumClone.Files
