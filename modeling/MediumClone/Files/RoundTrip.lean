import MediumClone.Avatar.Pointer
import MediumClone.Files.Read

/-!
# Files — Round trip

What an upload stored is what its user reads, until the user's next upload commits
(`upload_round_trip`).

The two handlers share the tables and the storage (`Represents`), and each has its own limit, media
types and pattern of ids.  `Naming` gives the ids and keys of the uploads their texts.
-/

namespace MediumClone.Files
open Js Sys MediumClone.Attachments
open MediumClone.Avatar (AvatarFile AvatarMediaType AttachmentId StorageKey Request Event
  getAvatarMediaType)

/-! ### The texts of an upload -/

def mediaTypeText : AvatarMediaType → Str
  | .jpeg => "image/jpeg".toList
  | .png => "image/png".toList
  | .webp => "image/webp".toList

/-- `MEDIA_TYPE_EXTENSION` of the upload handler. -/
def extension : AvatarMediaType → Str
  | .jpeg => "jpg".toList
  | .png => "png".toList
  | .webp => "webp".toList

/-- A version 4 `uuid`, as PostgreSQL and `randomUUID` write it. -/
def UUID_V4 : List (Char → Bool) :=
  uuidPattern (fun c => "0123456789abcdef".toList.contains c) (· == '4')
    (fun c => "89ab".toList.contains c)

structure Naming (ι : Type*) where
  attachmentId : AttachmentId ι → Str
  randomUUID : ι → Str
  attachmentId_v4 : ∀ id, test UUID_V4 (attachmentId id)

variable {υ ι : Type*}

/-- `createStorageKey(mediaType)` of the upload. -/
def Naming.createStorageKey (naming : Naming ι) (key : StorageKey ι) (mediaType : AvatarMediaType) :
    Str :=
  naming.randomUUID key.upload ++ '.' :: extension mediaType

/-- The text of a user's `image`; `none` where uploads have not set it. -/
def Naming.image (naming : Naming ι) : Avatar.Image ι → Option Str
  | .initial => none
  | .file id => some ("/api/files/".toList ++ naming.attachmentId id)

def Naming.row (naming : Naming ι) (a : Avatar.Attachment υ ι) : Attachment υ where
  id := naming.attachmentId a.id
  ownerId := a.ownerId
  mediaType := mediaTypeText a.mediaType
  byteSize := a.byteSize
  storageKey := naming.createStorageKey a.storageKey a.mediaType

/-- The state of the uploads, as the read handler finds it.  A file is where `write` put it. -/
structure Represents (naming : Naming ι) (request : ι → Request υ)
    (storage : PrivateAttachmentStorage) (s : Avatar.State υ ι) (db : State υ) : Prop where
  attachments : db.attachments = s.rows.map naming.row
  files : ∀ c (f : AvatarFile), (request c).upload = some f.buffer →
    ∀ body, s.files ⟨c⟩ = some body →
    ∃ path, storage.resolvePath (naming.createStorageKey ⟨c⟩ f.mediaType) = .ok path ∧
      db.disk path = .content body

/-! ### Ids -/

theorem test_mono {ps qs : List (Char → Bool)} {s : Str}
    (h : List.Forall₂ (fun p q => ∀ c, p c = true → q c = true) ps qs) (hs : test ps s) :
    test qs s := by
  induction h generalizing s with
  | nil => exact hs
  | cons hpq _ ih =>
      cases s with
      | nil => cases hs
      | cons c s =>
          simp only [test, Bool.and_eq_true] at hs ⊢
          exact ⟨hpq c hs.1, ih hs.2⟩

theorem map_toLower_of_test {ps : List (Char → Bool)} {s : Str}
    (h : ∀ p ∈ ps, ∀ c, p c = true → c.toLower = c) (hs : test ps s) : s.map Char.toLower = s := by
  induction ps generalizing s with
  | nil => cases s with
    | nil => rfl
    | cons => cases hs
  | cons p ps ih =>
      cases s with
      | nil => cases hs
      | cons c s =>
          simp only [test, Bool.and_eq_true] at hs
          rw [List.map_cons, h p List.mem_cons_self c hs.1,
            ih (fun q hq => h q (List.mem_cons_of_mem p hq)) hs.2]

theorem forall_contains {s : Str} {q : Char → Prop} (h : ∀ c ∈ s, q c) (c : Char)
    (hc : s.contains c = true) : q c :=
  h c (List.contains_iff_mem.mp hc)

theorem forall₂_uuidPattern {R : (Char → Bool) → (Char → Bool) → Prop}
    {digit digit' version version' variant variant' : Char → Bool}
    (hyphen : R (· == '-') (· == '-')) (hdigit : R digit digit') (hversion : R version version')
    (hvariant : R variant variant') :
    List.Forall₂ R (uuidPattern digit version variant) (uuidPattern digit' version' variant') := by
  simp [uuidPattern, List.replicate, hyphen, hdigit, hversion, hvariant]

/-- The read handler takes the ids the database draws. -/
theorem test_of_v4 {s : Str} (h : test UUID_V4 s) : test UUID_PATTERN s := by
  refine test_mono (forall₂_uuidPattern (fun _ h => h) ?_ ?_ ?_) h
  · exact forall_contains (List.all_eq_true.mp rfl)
  · intro c hc
    rw [beq_iff_eq.mp hc]
    decide
  · exact forall_contains (List.all_eq_true.mp rfl)

/-- A `uuid` in lower case. -/
theorem map_toLower_of_v4 {s : Str} (h : test UUID_V4 s) : s.map Char.toLower = s := by
  refine map_toLower_of_test ?_ h
  have hlower : List.Forall₂ (fun p _ => ∀ c, p c = true → c.toLower = c) UUID_V4 UUID_V4 := by
    refine forall₂_uuidPattern ?_ (forall_contains (by simp)) ?_ (forall_contains (by simp))
    · intro c hc
      rw [beq_iff_eq.mp hc]
      decide
    · intro c hc
      rw [beq_iff_eq.mp hc]
      decide
  exact List.forall₂_same.mp hlower

/-! ### The reader's checks -/

/-- What the reader makes of the own attachment, when its metadata tells the truth. -/
theorem execute_own [DecidableEq υ] {storage : PrivateAttachmentStorage} {db : State υ}
    {username id : Str} {user : User υ} {a : Attachment υ} {mediaType : AvatarMediaType}
    {body : Buffer} (hid : test UUID_PATTERN id) (hu : user ∈ db.users)
    (hname : user.username = username) (ha : a ∈ db.attachments)
    (haid : a.id = id.map Char.toLower) (howner : a.ownerId = user.id)
    (hmedia : a.mediaType = mediaTypeText mediaType) (hsize : a.byteSize = body.length)
    (hmax : (body.length : ℤ) ≤ MAX_PRIVATE_FILE_BYTES)
    (hread : storage.read db.disk a.storageKey = .content body) :
    execute storage db username id = (.ok {
      body
      disposition := "inline; filename=\"avatar.".toList ++ extension mediaType ++ "\"".toList
      length := body.length
      type := mediaTypeText mediaType }, [a.storageKey]) := by
  have hown : db.ownFile storage username id = some (a, .content body) :=
    ownFile_eq_some.mpr ⟨user, hu, hname, ha, haid, howner, hread⟩
  have hmem : IMAGE_MEDIA_TYPES.contains (mediaTypeText mediaType) = true := by
    cases mediaType <;> rfl
  have hpos : ¬ (body.length : ℤ) < 0 := by omega
  rw [execute_eq_answer, if_pos hid, hown, answer, readAttachment, hmedia, hsize]
  simp only [hmem, hpos, not_lt.mpr hmax, not_true_eq_false, or_self, if_false, ne_eq]
  cases mediaType <;> rfl

/-! ### Until the next upload -/

section

variable [DecidableEq υ] [DecidableEq ι] {request : ι → Request υ} {s s₁ : Avatar.State υ ι}
  {naming : Naming ι} {storage : PrivateAttachmentStorage} {db : State υ} {c : ι}

theorem image_of_committed {es : List (Event ι)}
    (hr : run (Avatar.step request) (Avatar.init υ ι) (es ++ [.committed c]) = some s) :
    s.image (request c).user = .file ⟨c, false⟩ := by
  obtain ⟨s₀, -, hr⟩ := run_append.mp hr
  obtain ⟨s', hs, hnil⟩ := run_cons.mp hr
  cases hnil
  cases Avatar.step_transition hs with
  | commits => exact Function.update_self ..

/-- Only a commit of the user moves the image. -/
theorem image_run {es : List (Event ι)} {u : υ}
    (hlater : ∀ d, (request d).user = u → Event.committed d ∉ es)
    (hr : run (Avatar.step request) s₁ es = some s) : s.image u = s₁.image u := by
  have hmeets : Meets (Avatar.step request)
      (fun _ e => ∀ d, (request d).user = u → e ≠ .committed d) s₁ es := by
    refine meets_of_forall ?_
    rintro e he d hd rfl
    exact hlater d hd he
  refine run_invariant (I := fun s => s.image u = s₁.image u) ?_ hmeets rfl hr
  intro s e s' himage he hs
  have ht := Avatar.step_transition hs
  cases ht with
  | @commits d => exact (Function.update_of_ne (fun hu => he d hu.symm rfl) ..).trans himage
  | _ => exact himage

/-- **Upload, then read.**  From the commit of an upload until the next of its user, the id in the
returned image URL reads, for the user, as the uploaded bytes with their length and the media type
detected in them, and is not found for anyone else. -/
theorem upload_round_trip {es₁ es₂ : List (Event ι)}
    (hr₁ : run (Avatar.step request) (Avatar.init υ ι) (es₁ ++ [.committed c]) = some s₁)
    (hr₂ : run (Avatar.step request) s₁ es₂ = some s)
    (hlater : ∀ d, (request d).user = (request c).user → Event.committed d ∉ es₂)
    (hdb : Represents naming request storage s db) :
    ∃ id buffer mediaType,
      naming.image (s₁.image (request c).user) = some ("/api/files/".toList ++ id) ∧
      (request c).upload = some buffer ∧ getAvatarMediaType (some buffer) = some mediaType ∧
      (∀ user ∈ db.users, user.id = (request c).user →
        execute storage db user.username id = (.ok {
          body := buffer
          disposition := "inline; filename=\"avatar.".toList ++ extension mediaType ++ "\"".toList
          length := buffer.length
          type := mediaTypeText mediaType }, [naming.createStorageKey ⟨c⟩ mediaType])) ∧
      ∀ username, (∀ user ∈ db.users, user.username = username → user.id ≠ (request c).user) →
        execute storage db username id = (.error fileNotFound, []) := by
  have himage₁ := image_of_committed hr₁
  have himage : s.image (request c).user = .file ⟨c, false⟩ :=
    (image_run hlater hr₂).trans himage₁
  have hr : run (Avatar.step request) (Avatar.init υ ι) ((es₁ ++ [.committed c]) ++ es₂) = some s :=
    run_append.mpr ⟨s₁, hr₁, hr₂⟩
  obtain ⟨f, hupload, -, hrow, hfile⟩ := ((Avatar.pointerInv_run hr).pointer _ _ himage).stored
  have hid := naming.attachmentId_v4 ⟨c, false⟩
  have ha : naming.row (Avatar.attachment request c false f) ∈ db.attachments := by
    rw [hdb.attachments]
    exact List.mem_map_of_mem hrow
  refine ⟨naming.attachmentId ⟨c, false⟩, f.buffer, f.mediaType, by rw [himage₁]; rfl, hupload,
    f.detected, ?_, ?_⟩
  · intro user hu huid
    obtain ⟨path, hpath, hdisk⟩ := hdb.files c f hupload f.buffer hfile
    refine execute_own (test_of_v4 hid) hu rfl ha (map_toLower_of_v4 hid).symm huid.symm rfl rfl
      ?_ ?_
    · exact Int.ofNat_le.mpr f.size
    · exact (PrivateAttachmentStorage.read_eq hpath).trans hdisk
  · intro username hforeign
    refine execute_of_foreign ?_
    intro a' ha' haid user hu hname howner
    rw [map_toLower_of_v4 hid] at haid
    obtain rfl := Keyed.eq_of_key db.attachmentIds ha' ha haid
    exact hforeign user hu hname howner.symm

end

/-! ### One upload -/

def sampleUuid : Str := "22222222-2222-4222-8222-222222222222".toList

def sampleNaming : Naming Unit where
  attachmentId _ := sampleUuid
  randomUUID _ := sampleUuid
  attachmentId_v4 _ := by decide

def samplePath : Str := "/storage/private/22222222-2222-4222-8222-222222222222.jpg".toList

/-- The tables and the disk after `Avatar.uploadJpeg`. -/
def sampleState : State Unit where
  users := [⟨(), "jane".toList⟩]
  attachments := [⟨sampleUuid, (), "image/jpeg".toList, 3, sampleUuid ++ ".jpg".toList⟩]
  disk path := if path = samplePath then .content [0xff, 0xd8, 0xff]
    else .rejects (some "ENOENT".toList)
  usernames := by decide
  attachmentIds := by decide

theorem upload_round_trip_jpeg :
    ∃ id buffer mediaType, (Avatar.jpegRequest ()).upload = some buffer ∧
      getAvatarMediaType (some buffer) = some mediaType ∧
      execute privateStorage sampleState "jane".toList id = (.ok {
        body := buffer
        disposition := "inline; filename=\"avatar.".toList ++ extension mediaType ++ "\"".toList
        length := buffer.length
        type := mediaTypeText mediaType }, [sampleNaming.createStorageKey ⟨()⟩ mediaType]) ∧
      execute privateStorage sampleState "john".toList id = (.error fileNotFound, []) := by
  have hrun : ∃ s, run (Avatar.step Avatar.jpegRequest) (Avatar.init Unit Unit)
      (Avatar.uploadJpeg.dropLast ++ [.committed ()]) = some s ∧
      Represents sampleNaming Avatar.jpegRequest privateStorage s sampleState := by
    refine ⟨_, by rfl, rfl, ?_⟩
    rintro ⟨⟩ ⟨buffer, mediaType, hdetected, hsize⟩ hupload body hbody
    cases hupload
    cases hbody
    cases (show some AvatarMediaType.jpeg = some mediaType from hdetected)
    have hpath : privateStorage.resolvePath (sampleNaming.createStorageKey ⟨()⟩ .jpeg) =
        .ok samplePath := by decide
    exact ⟨samplePath, hpath, rfl⟩
  obtain ⟨s, hr, hdb⟩ := hrun
  obtain ⟨id, buffer, mediaType, -, hupload, hdetected, hown, hother⟩ :=
    upload_round_trip hr (show run _ s [] = some s from rfl) (fun _ _ => List.not_mem_nil) hdb
  refine ⟨id, buffer, mediaType, hupload, hdetected, ?_, ?_⟩
  · exact hown ⟨(), "jane".toList⟩ List.mem_cons_self rfl
  · refine hother "john".toList ?_
    intro user hu hname
    rw [List.mem_singleton.mp hu] at hname
    exact absurd hname (by decide)

end MediumClone.Files
