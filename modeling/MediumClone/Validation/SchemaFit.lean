import MediumClone.Support.SqlColumn
import MediumClone.Articles.Slug
import MediumClone.Comments.Service
import MediumClone.Validation.Dtos

/-!
# Validation — SchemaFit

The columns that `src/database/migrations` declares, and the rows that a request with an accepted
body writes.

Every limit of a `varchar` column is also a limit of the decorators, but that of `image`.  So the
rows of every accepted request fit, except where an update gives an image that is too long
(`rows_fit_iff`).
-/

namespace MediumClone.Validation
open Js Sys Sys.Sql
open Schema (Uuid Timestamp Article Comment User)

/-! ### The tables -/

abbrev Table := List (Column String)

def users : Table :=
  [{ name := "id", type := .uuid, notNull := true, default := .genRandomUuid },
    { name := "username", type := .varchar 64, notNull := true },
    { name := "email", type := .varchar 254, notNull := true },
    { name := "password_hash", type := .varchar 255, notNull := true },
    { name := "bio", type := .text, notNull := false },
    { name := "image", type := .varchar 2048, notNull := false },
    { name := "created_at", type := .timestamptz, notNull := true, default := .now },
    { name := "updated_at", type := .timestamptz, notNull := true, default := .now }]

/-- The status of an outbox row that is not given one. -/
def PENDING : Str := "pending".toList

def welcome_mail_outbox : Table :=
  [{ name := "id", type := .uuid, notNull := true, default := .genRandomUuid },
    { name := "user_id", type := .uuid, notNull := true },
    { name := "email", type := .varchar 254, notNull := true },
    { name := "username", type := .varchar 64, notNull := true },
    { name := "status", type := .varchar 16, notNull := true,
      default := .value (.text PENDING) },
    { name := "attempt_count", type := .integer, notNull := true,
      default := .value (.integer 0) },
    { name := "available_at", type := .timestamptz, notNull := true, default := .now },
    { name := "lease_owner", type := .uuid, notNull := false },
    { name := "lease_expires_at", type := .timestamptz, notNull := false },
    { name := "dispatched_at", type := .timestamptz, notNull := false },
    { name := "created_at", type := .timestamptz, notNull := true, default := .now }]

def articles : Table :=
  [{ name := "id", type := .uuid, notNull := true, default := .genRandomUuid },
    { name := "slug", type := .text, notNull := true },
    { name := "title", type := .text, notNull := true },
    { name := "description", type := .text, notNull := true },
    { name := "body", type := .text, notNull := true },
    { name := "author_id", type := .uuid, notNull := true },
    { name := "created_at", type := .timestamptz, notNull := true, default := .now },
    { name := "updated_at", type := .timestamptz, notNull := true, default := .now }]

def tags : Table :=
  [{ name := "id", type := .uuid, notNull := true, default := .genRandomUuid },
    { name := "name", type := .text, notNull := true }]

/-- `CHECK ("position" >= 0)`. -/
def chk_article_tags_position_nonnegative : Value → Bool
  | .integer n => 0 ≤ n
  | _ => true

def article_tags : Table :=
  [{ name := "article_id", type := .uuid, notNull := true },
    { name := "tag_id", type := .uuid, notNull := true },
    { name := "position", type := .integer, notNull := true,
      check := chk_article_tags_position_nonnegative }]

def comments : Table :=
  [{ name := "id", type := .integer, notNull := true, default := .identity },
    { name := "article_id", type := .uuid, notNull := true },
    { name := "author_id", type := .uuid, notNull := true },
    { name := "body", type := .text, notNull := true },
    { name := "created_at", type := .timestamptz, notNull := true, default := .now },
    { name := "updated_at", type := .timestamptz, notNull := true, default := .now }]

/-! ### The rows -/

/-- The algorithm, its version and the options it has by itself. -/
def ARGON2ID : Str := "$argon2id$v=19$m=65536,p=4,t=3$".toList

/-- What `argon2.hash` gives with its own options: sixteen bytes and thirty-two, in base 64. -/
structure PasswordHash where
  salt : Str
  digest : Str
  length_salt : salt.length = 22
  length_digest : digest.length = 43

def PasswordHash.encoded (hash : PasswordHash) : Str :=
  ARGON2ID ++ hash.salt ++ '$' :: hash.digest

/-- A stored user. -/
structure UserEntity where
  row : Row
  fits : Fits users row

/-- A request: its body, and what its operation finds and draws. -/
inductive Call where
  | register (body : JsValue) (passwordHash : PasswordHash)
  | updateCurrentUser (body : JsValue) (user : UserEntity)
  | createArticle (body : JsValue) (authorId : Uuid) (createId : Str) (tagIds : Str → Uuid)
  | updateArticle (body : JsValue) (article : Article) (tagIds : Str → Uuid)
  | createComment (body : JsValue) (articleId authorId : Uuid)

def Call.Accepted (isEmail : Str → Bool) : Call → Prop
  | .register body _ => accepts isEmail RegisterUserDto body = true
  | .updateCurrentUser body _ => accepts isEmail UpdateUserDto body = true
  | .createArticle body _ _ _ => accepts isEmail NewArticleDto body = true
  | .updateArticle body _ _ => accepts isEmail ArticleUpdateDto body = true
  | .createComment body _ _ => accepts isEmail NewCommentDto body = true

def nullableText : Option Str → Value
  | none => .null
  | some s => .text s

/-- `if (value !== undefined) user[column] = value`. -/
def setIfGiven (column : String) : Option (Option Str) → List (String × Value)
  | none => []
  | some value => [(column, nullableText value)]

def articleRow (article : Article) : Row :=
  [.uuid article.id, .text article.slug, .text article.title, .text article.description,
    .text article.body, .uuid article.authorId, .timestamptz article.createdAt,
    .timestamptz article.updatedAt]

def commentRow (comment : Comment) : Row :=
  [.integer comment.id, .uuid comment.articleId, .uuid comment.authorId, .text comment.body,
    .timestamptz comment.createdAt, .timestamptz comment.updatedAt]

section

variable (U : Articles.Unicode) (draw : ℕ → Drawn)

/-- `persistArticleTags` and `replaceArticleTags`: a tag is also checked where its name is taken. -/
def tagRows (articleId : Uuid) (tagIds : Str → Uuid) (names : List Str) : List (Table × Row) :=
  let uniqueNames := (Articles.uniqueArticleTagNames names).zipIdx
  (uniqueNames.map fun x => (tags, insertRow tags (draw (x.2 + 1)) [("name", .text x.1)])) ++
    uniqueNames.map fun x => (article_tags, insertRow article_tags (draw 0)
      [("article_id", .uuid articleId), ("position", .integer x.2), ("tag_id", .uuid (tagIds x.1))])

/-- The rows that the operation writes, with their tables; an update may leave out the columns and
the tags that stay as they are. -/
def Call.rows : Call → Option (List (Table × Row))
  | .register body passwordHash => do
    let request ← registerRequest body
    pure [(users, insertRow users (draw 0) [("email", .text request.email),
        ("password_hash", .text passwordHash.encoded), ("username", .text request.username)]),
      (welcome_mail_outbox, insertRow welcome_mail_outbox (draw 1) [("email", .text request.email),
        ("user_id", .uuid (draw 0).uuid), ("username", .text request.username)])]
  | .updateCurrentUser body user => do
    let request ← updateUserRequest body
    pure [(users, updateRow users (setIfGiven "bio" request.bio ++
      setIfGiven "image" request.image ++ [("updated_at", .timestamptz (draw 0).now)]) user.row)]
  | .createArticle body authorId createId tagIds => do
    let request ← newArticle body
    pure ((articles, insertRow articles (draw 0) [("body", .text request.body),
        ("author_id", .uuid authorId), ("description", .text request.description),
        ("slug", .text (Articles.createArticleSlug U request.title createId)),
        ("title", .text request.title)]) ::
      tagRows draw (draw 0).uuid tagIds (request.tagList.getD []))
  | .updateArticle body article tagIds => do
    let request ← articleUpdate body
    let entity := (Articles.applyScalarChanges article request).1
    pure ((articles, articleRow (Articles.saveInto entity (draw 0).now article)) ::
      tagRows draw article.id tagIds (request.tagList.getD []))
  | .createComment body articleId authorId => do
    let text ← newComment body
    pure [(comments, insertRow comments (draw 0) [("article_id", .uuid articleId),
      ("author_id", .uuid authorId), ("body", .text (trim text))])]

end

/-- Every row satisfies the constraints of its table's columns. -/
def RowsFit (rows : List (Table × Row)) : Prop := ∀ x ∈ rows, Fits x.1 x.2

/-- An update gives an image with another character than a space after its 2048th. -/
def Call.ImageTooLong : Call → Prop
  | .updateCurrentUser body _ =>
    ∃ s, body.get "image".toList = .string s ∧ ∃ c ∈ s.drop 2048, c ≠ ' '
  | _ => False

/-! ### Inserted rows -/

variable {drawn : Drawn} {draw : ℕ → Drawn}

theorem fits_users_iff {email hash username : Str} :
    Fits users (insertRow users drawn [("email", .text email), ("password_hash", .text hash),
      ("username", .text username)]) ↔
      fitsVarchar 64 username = true ∧ fitsVarchar 254 email = true ∧
        fitsVarchar 255 hash = true := by
  rw [fits_insert_iff]
  simp [users, List.lookup_cons]

theorem fits_welcome_mail_outbox_iff {email username : Str} {userId : Uuid} :
    Fits welcome_mail_outbox (insertRow welcome_mail_outbox drawn [("email", .text email),
      ("user_id", .uuid userId), ("username", .text username)]) ↔
      fitsVarchar 254 email = true ∧ fitsVarchar 64 username = true := by
  have hstatus : fitsVarchar 16 PENDING = true := by decide
  rw [fits_insert_iff]
  simp [welcome_mail_outbox, List.lookup_cons, hstatus]

theorem fits_articles {body description slug title : Str} {authorId : Uuid} :
    Fits articles (insertRow articles drawn [("body", .text body), ("author_id", .uuid authorId),
      ("description", .text description), ("slug", .text slug), ("title", .text title)]) := by
  rw [fits_insert_iff]
  simp [articles, List.lookup_cons]

theorem fits_tags {name : Str} : Fits tags (insertRow tags drawn [("name", .text name)]) := by
  rw [fits_insert_iff]
  simp [tags, List.lookup_cons]

theorem fits_article_tags {articleId tagId : Uuid} {position : ℕ} :
    Fits article_tags (insertRow article_tags drawn [("article_id", .uuid articleId),
      ("position", .integer position), ("tag_id", .uuid tagId)]) := by
  rw [fits_insert_iff]
  simp [article_tags, chk_article_tags_position_nonnegative, List.lookup_cons]

theorem fits_comments {articleId authorId : Uuid} {body : Str} :
    Fits comments (insertRow comments drawn [("article_id", .uuid articleId),
      ("author_id", .uuid authorId), ("body", .text body)]) := by
  rw [fits_insert_iff]
  simp [comments, List.lookup_cons]

theorem fits_tagRows (draw : ℕ → Drawn) (articleId : Uuid) (tagIds : Str → Uuid)
    (names : List Str) : RowsFit (tagRows draw articleId tagIds names) := by
  intro x hx
  rcases List.mem_append.mp hx with hx | hx
  · obtain ⟨y, -, rfl⟩ := List.mem_map.mp hx
    exact fits_tags
  · obtain ⟨y, -, rfl⟩ := List.mem_map.mp hx
    exact fits_article_tags

theorem length_encoded (hash : PasswordHash) : hash.encoded.length = 97 := by
  have hid : ARGON2ID.length = 31 := by decide
  rw [PasswordHash.encoded, List.length_append, List.length_append, List.length_cons,
    hid, hash.length_salt, hash.length_digest]

theorem fitsVarchar_encoded (hash : PasswordHash) : fitsVarchar 255 hash.encoded = true :=
  fitsVarchar_of_length_le (by rw [length_encoded]; decide)

/-! ### Stored rows -/

/-- A row of the type that the transactions are about satisfies the constraints. -/
theorem fits_articleRow (article : Article) : Fits articles (articleRow article) := by
  simp [Fits, articles, articleRow]

/-- The row of a new article is the one that the transaction of `create` inserts. -/
theorem insert_articles_eq (call : Articles.CreateCall) (authorId : Uuid) (now : Timestamp)
    (identity : ℤ) :
    insertRow articles ⟨call.id, now, identity⟩ [("body", .text call.request.body),
      ("author_id", .uuid authorId), ("description", .text call.request.description),
      ("slug", .text call.slug), ("title", .text call.request.title)] =
        articleRow (call.article authorId now) := by
  simp [insertRow, articles, articleRow, Articles.CreateCall.article, List.lookup_cons]

/-- The row of a new comment is the one that the transaction of `create` inserts. -/
theorem insert_comments_eq (call : Comments.CommentCall) (article : Article) (user : User)
    (uuid : ℕ) (now : Timestamp) :
    insertRow comments ⟨uuid, now, call.id⟩ [("article_id", .uuid article.id),
      ("author_id", .uuid user.id), ("body", .text (trim call.body))] =
        commentRow (call.comment article user now) := by
  simp [insertRow, comments, commentRow, Comments.CommentCall.comment, List.lookup_cons]

theorem lookup_setIfGiven (column name : String) (value : Option (Option Str)) :
    (setIfGiven column value).lookup name =
      if name = column then value.map nullableText else none := by
  cases value with
  | none => simp [setIfGiven]
  | some text =>
      by_cases h : name = column
      · simp [setIfGiven, h]
      · simp [setIfGiven, List.lookup_cons, h, beq_eq_false_iff_ne.mpr h]

/-- The columns that an update sets are the ones of `Users.UserRow`, as `assign` leaves them. -/
theorem update_users_eq (request : Users.UpdateUserRequest) (row : Users.UserRow) (now : Timestamp)
    (id username email passwordHash createdAt updatedAt : Value) :
    updateRow users (setIfGiven "bio" request.bio ++ setIfGiven "image" request.image ++
      [("updated_at", .timestamptz now)]) [id, username, email, passwordHash,
        nullableText row.bio, nullableText row.image, createdAt, updatedAt] =
      [id, username, email, passwordHash, nullableText (request.assign row).bio,
        nullableText (request.assign row).image, createdAt, .timestamptz now] := by
  obtain ⟨bio, image⟩ := request
  cases bio <;> cases image <;>
    simp [updateRow, users, List.lookup_append, lookup_setIfGiven, List.lookup_cons,
      Users.UpdateUserRequest.assign]

theorem admits_nullableText_iff {c : Column String} (hnull : c.notNull = false)
    (hcheck : ∀ v, c.check v = true) (value : Option Str) :
    c.admits (nullableText value) = true ↔ ∀ s ∈ value, c.type.holds (.text s) = true := by
  cases value with
  | none => simp [nullableText, hnull]
  | some s => simp [nullableText, hcheck]

/-- Of what an update sets, only an image may be too long. -/
theorem fits_users_update_iff (user : UserEntity) (request : Users.UpdateUserRequest) (now : ℤ) :
    Fits users (updateRow users (setIfGiven "bio" request.bio ++
      setIfGiven "image" request.image ++ [("updated_at", .timestamptz now)]) user.row) ↔
      ∀ s, request.image = some (some s) → fitsVarchar 2048 s = true := by
  rw [fits_update_iff user.fits]
  trans ∀ image, request.image = some image → ∀ s, image = some s → fitsVarchar 2048 s = true
  · simp [users, List.lookup_append, lookup_setIfGiven, List.lookup_cons, admits_nullableText_iff]
  · exact ⟨fun h s hs => h _ hs s rfl, fun h image himage s hs => h s (hs ▸ himage)⟩

/-! ### Requests -/

section

variable {isEmail : Str → Bool} {U : Articles.Unicode} {body : JsValue}

/-- The limits of the user name and of the email are those of both tables. -/
theorem fits_register (passwordHash : PasswordHash)
    (h : accepts isEmail RegisterUserDto body = true) :
    ∃ rows, Call.rows U draw (.register body passwordHash) = some rows ∧ RowsFit rows := by
  obtain ⟨request, hrequest, husername, hemail⟩ := registerRequest_of_accepts h
  have husername := fitsVarchar_of_length_le husername
  have hemail := fitsVarchar_of_length_le hemail
  refine ⟨_, by rw [Call.rows, hrequest]; rfl, List.forall_mem_cons.mpr ⟨?_, ?_⟩⟩
  · exact fits_users_iff.mpr ⟨husername, hemail, fitsVarchar_encoded passwordHash⟩
  · exact List.forall_mem_singleton.mpr (fits_welcome_mail_outbox_iff.mpr ⟨hemail, husername⟩)

theorem fits_updateCurrentUser_iff (user : UserEntity)
    (h : accepts isEmail UpdateUserDto body = true) :
    ∃ rows, Call.rows U draw (.updateCurrentUser body user) = some rows ∧
      (RowsFit rows ↔ ¬ Call.ImageTooLong (.updateCurrentUser body user)) := by
  obtain ⟨request, hrequest⟩ := updateUserRequest_of_accepts h
  refine ⟨_, by rw [Call.rows, hrequest]; rfl, ?_⟩
  rw [RowsFit, List.forall_mem_singleton, fits_users_update_iff]
  constructor
  · rintro hfits ⟨s, hs, hlong⟩
    have hne : s ≠ [] := by
      rintro rfl
      obtain ⟨c, hc, -⟩ := hlong
      cases hc
    have hfit := hfits s ((image_updateUserRequest hrequest).mpr ⟨hs, hne⟩)
    rw [fitsVarchar_eq_false_iff.mpr hlong] at hfit
    cases hfit
  · intro hshort s hs
    refine Bool.not_eq_false _ |>.mp fun hlong => hshort ⟨s, ?_, fitsVarchar_eq_false_iff.mp hlong⟩
    exact ((image_updateUserRequest hrequest).mp hs).1

theorem fits_createArticle (authorId : Uuid) (createId : Str) (tagIds : Str → Uuid)
    (h : accepts isEmail NewArticleDto body = true) :
    ∃ rows, Call.rows U draw (.createArticle body authorId createId tagIds) = some rows ∧
      RowsFit rows := by
  obtain ⟨request, hrequest⟩ := newArticle_of_accepts h
  exact ⟨_, by rw [Call.rows, hrequest]; rfl,
    List.forall_mem_cons.mpr ⟨fits_articles, fits_tagRows _ _ _ _⟩⟩

theorem fits_updateArticle (article : Article) (tagIds : Str → Uuid)
    (h : accepts isEmail ArticleUpdateDto body = true) :
    ∃ rows, Call.rows U draw (.updateArticle body article tagIds) = some rows ∧ RowsFit rows := by
  obtain ⟨request, hrequest⟩ := articleUpdate_of_accepts h
  exact ⟨_, by rw [Call.rows, hrequest]; rfl,
    List.forall_mem_cons.mpr ⟨fits_articleRow _, fits_tagRows _ _ _ _⟩⟩

theorem fits_createComment (articleId authorId : Uuid)
    (h : accepts isEmail NewCommentDto body = true) :
    ∃ rows, Call.rows U draw (.createComment body articleId authorId) = some rows ∧
      RowsFit rows := by
  obtain ⟨text, htext⟩ := newComment_of_accepts h
  exact ⟨_, by rw [Call.rows, htext]; rfl, List.forall_mem_singleton.mpr fits_comments⟩

end

/-- **Accepted requests fit the schema**, but for an update with an image that is too long. -/
theorem rows_fit_iff (isEmail : Str → Bool) (U : Articles.Unicode) (draw : ℕ → Drawn) (call : Call)
    (h : call.Accepted isEmail) :
    ∃ rows, call.rows U draw = some rows ∧ (RowsFit rows ↔ ¬ call.ImageTooLong) := by
  cases call with
  | register body passwordHash =>
      obtain ⟨rows, hrows, hfits⟩ := fits_register passwordHash h
      exact ⟨rows, hrows, iff_of_true hfits id⟩
  | updateCurrentUser body user => exact fits_updateCurrentUser_iff user h
  | createArticle body authorId createId tagIds =>
      obtain ⟨rows, hrows, hfits⟩ := fits_createArticle authorId createId tagIds h
      exact ⟨rows, hrows, iff_of_true hfits id⟩
  | updateArticle body article tagIds =>
      obtain ⟨rows, hrows, hfits⟩ := fits_updateArticle article tagIds h
      exact ⟨rows, hrows, iff_of_true hfits id⟩
  | createComment body articleId authorId =>
      obtain ⟨rows, hrows, hfits⟩ := fits_createComment articleId authorId h
      exact ⟨rows, hrows, iff_of_true hfits id⟩

/-! ### An image of 2049 characters -/

def sampleUser : UserEntity where
  row := [.uuid 1, .text "jane".toList, .text "jane@example.com".toList, .text "hash".toList, .null,
    .null, .timestamptz 0, .timestamptz 0]
  fits := by simp [Fits, users, fitsVarchar]

/-- `{ image }`. -/
def imageBody (image : Str) : JsValue := .object [("image".toList, .string image)]

theorem accepts_imageBody (isEmail : Str → Bool) (image : Str) :
    accepts isEmail UpdateUserDto (imageBody image) = true := by
  cases image with
  | nil => rfl
  | cons c s => rfl

/-- Of 2048 characters. -/
theorem rows_fit_iff_shortImage : ∃ rows,
    Call.rows Articles.asciiUnicode (fun i => ⟨i, 0, i⟩)
      (.updateCurrentUser (imageBody (List.replicate 2048 'a')) sampleUser) = some rows ∧
      RowsFit rows := by
  obtain ⟨rows, hrows, hiff⟩ := rows_fit_iff (fun s => s.contains '@') Articles.asciiUnicode
    (fun i => ⟨i, 0, i⟩) (.updateCurrentUser (imageBody (List.replicate 2048 'a')) sampleUser)
    (accepts_imageBody _ _)
  refine ⟨rows, hrows, hiff.mpr ?_⟩
  rintro ⟨s, hs, c, hc, -⟩
  cases hs
  rw [List.drop_eq_nil_of_le (List.length_replicate ..).le] at hc
  cases hc

theorem not_rowsFit_longImage :
    (Call.updateCurrentUser (imageBody (List.replicate 2049 'a')) sampleUser).Accepted
      (fun s => s.contains '@') ∧
    ¬ ∃ rows, Call.rows Articles.asciiUnicode (fun i => ⟨i, 0, i⟩)
      (.updateCurrentUser (imageBody (List.replicate 2049 'a')) sampleUser) = some rows ∧
        RowsFit rows := by
  have haccepted := accepts_imageBody (fun s => s.contains '@') (List.replicate 2049 'a')
  refine ⟨haccepted, ?_⟩
  rintro ⟨rows, hrows, hfits⟩
  obtain ⟨rows', hrows', hiff⟩ := fits_updateCurrentUser_iff sampleUser haccepted
  obtain rfl := Option.some.inj (hrows.symm.trans hrows')
  refine hiff.mp hfits ⟨List.replicate 2049 'a', rfl, 'a', ?_, by decide⟩
  rw [List.drop_replicate]
  exact List.mem_replicate.mpr ⟨by decide, rfl⟩

end MediumClone.Validation
