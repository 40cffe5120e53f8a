import MediumClone.Articles.ListQuery

/-!
# Comments — Service

`CommentService` (`src/comments/comment.service.ts`) and its serializer.

`create` and `delete` are transactions, statement by statement.  `list` reads the comments of an
article in one snapshot and, for a viewer, looks up later whom the viewer follows.

The identity that PostgreSQL gives a new comment is part of the call, and `now` is the start of its
transaction.
-/

namespace MediumClone.Comments
open Js Sys Schema Articles

/-! ### Serialization -/

structure SerializedComment where
  id : ℕ
  createdAt : Str
  updatedAt : Str
  body : Str
  author : AuthorFields
  deriving DecidableEq

def serializeComment (comment : Comment) (author : User) (authorFollowing : Bool) :
    SerializedComment where
  id := comment.id
  createdAt := (toDate comment.createdAt).toISOString
  updatedAt := (toDate comment.updatedAt).toISOString
  body := comment.body
  author :=
    { username := author.username
      bio := author.bio
      image := author.image
      following := authorFollowing }

/-! ### The service -/

/-- The errors of the service; `queryFailed` is an error of the driver. -/
inductive CommentError where
  | commentUserNotFound
  | commentArticleNotFound
  | commentNotFound
  | commentForbidden
  | commentPersistence
  | queryFailed
  deriving DecidableEq

abbrev CommentTx (α : Type) := Tx Tables Row CommentError α

def rethrowCommentError : CommentError → CommentError
  | .queryFailed => .commentPersistence
  | error => error

structure CommentCall where
  slug : Str
  username : Str
  body : Str
  id : ℕ

/-- The inserted row. -/
def CommentCall.comment (call : CommentCall) (article : Article) (user : User) (now : Timestamp) :
    Comment where
  id := call.id
  articleId := article.id
  authorId := user.id
  body := trim call.body
  createdAt := now
  updatedAt := now

def CommentService.create (call : CommentCall) (now : Timestamp) : CommentTx SerializedComment :=
  Tx.mapError rethrowCommentError do
    let found ← Tx.select (·.findUser call.username)
    let user ← Tx.orThrow .commentUserNotFound found
    let found ← Tx.selectForUpdate (·.findArticle call.slug) fun article => Row.article article.id
    let article ← Tx.orThrow .commentArticleNotFound found
    let comment := call.comment article user now
    Tx.attempt (·.insertComment comment) fun _ => .queryFailed
    pure (serializeComment comment user false)

/-- An id that the column can hold. -/
def validCommentId (commentId : ℤ) : Prop :=
  isSafeInteger commentId ∧ 1 ≤ commentId ∧ commentId ≤ 2147483647

instance (commentId : ℤ) : Decidable (validCommentId commentId) := by
  unfold validCommentId
  infer_instance

/-- `findOne({ where: { articleId, id } })`. -/
def findComment (articleId : Uuid) (id : ℤ) (db : Tables) : Option Comment :=
  db.comments.find? fun c => c.articleId = articleId ∧ c.id = id

/-- The rows that `repository.delete({ articleId, authorId, id })` removes. -/
def ownComment (articleId authorId : Uuid) (id : ℤ) (c : Comment) : Bool :=
  c.articleId = articleId ∧ c.authorId = authorId ∧ c.id = id

def CommentService.delete (slug : Str) (commentId : ℤ) (username : Str) : CommentTx Unit :=
  Tx.mapError rethrowCommentError do
    let found ← Tx.selectForUpdate (·.findArticle slug) fun article => Row.article article.id
    let article ← Tx.orThrow .commentArticleNotFound found
    let found ← Tx.select (·.findUser username)
    let user ← Tx.orThrow .commentUserNotFound found
    Tx.require (validCommentId commentId) .commentNotFound
    let found ← Tx.selectForUpdate (findComment article.id commentId) fun c => Row.comment c.id
    let comment ← Tx.orThrow .commentNotFound found
    Tx.require (comment.authorId = user.id) .commentForbidden
    let own := ownComment article.id user.id commentId
    let affected ← Tx.execute (·.deleteComments own) fun db => (db.comments.filter own).length
    Tx.require (affected = 1) .commentPersistence
    pure ()

/-! ### Listing -/

/-- `ORDER BY created_at ASC, id ASC`. -/
def oldestFirst (x : Comment × User) : ℤ ×ₗ ℕ := toLex (x.1.createdAt, x.1.id)

/-- The comments of an article with their authors. -/
def commentRows (articleId : Uuid) (db : Tables) : List (Comment × User) :=
  Sql.orderBy oldestFirst
    ((Sql.innerJoin db.comments db.users fun c u => u.id = c.authorId).filter
      fun x => x.1.articleId = articleId)

/-- Those of `authorIds` whom the viewer follows. -/
def loadFollowedAuthors (viewerUsername : Str) (authorIds : List Uuid) (db : Tables) : List Uuid :=
  ((Sql.innerJoin db.follows db.users fun f u => u.id = f.followerId).filter
    fun x => x.2.username = viewerUsername ∧ x.1.followingId ∈ authorIds).map (·.1.followingId)

/-- The comments are read in `snapshot`, the follows in `later`. -/
def CommentService.list (slug : Str) (viewerUsername : Option Str) (snapshot later : Tables) :
    Except CommentError (List SerializedComment) :=
  match snapshot.findArticle slug with
  | none => .error .commentArticleNotFound
  | some article =>
    let comments := commentRows article.id snapshot
    match viewerUsername.filter (· ≠ []) with
    | none => .ok (comments.map fun x => serializeComment x.1 x.2 false)
    | some viewer =>
      if comments = [] then .ok []
      else
        let authorIds := (comments.map (·.2.id)).dedup
        let followedAuthorIds := loadFollowedAuthors viewer authorIds later
        .ok (comments.map fun x => serializeComment x.1 x.2 (x.2.id ∈ followedAuthorIds))

/-! ### What a successful call alone found, changed and returned -/

section

variable {d d' : Tables} {now : Timestamp}

theorem exec_create {call : CommentCall} {r : SerializedComment}
    (h : (CommentService.create call now).exec d = .ok (r, d')) :
    ∃ user a, d.findUser call.username = some user ∧ d.findArticle call.slug = some a ∧
      d'.comments = d.comments ++ [call.comment a user now] ∧ Tables.CommentsOnly d d' ∧
      r = serializeComment (call.comment a user now) user false := by
  simp only [CommentService.create, Tx.exec_mapError_ok, Tx.exec_select_bind,
    Tx.exec_orThrow_bind, Tx.exec_selectForUpdate_bind, Tx.exec_attempt_bind] at h
  obtain ⟨user, huser, a, ha, d₁, hinsert, h⟩ := h
  cases h
  obtain ⟨hrows, honly⟩ := Tables.insertComment_eq_some hinsert
  exact ⟨user, a, huser, ha, hrows, honly, rfl⟩

theorem exec_delete {slug username : Str} {commentId : ℤ}
    (h : (CommentService.delete slug commentId username).exec d = .ok ((), d')) :
    ∃ user a c, d.findUser username = some user ∧ d.findArticle slug = some a ∧
      findComment a.id commentId d = some c ∧ c.authorId = user.id ∧
      d' = d.deleteComments (ownComment a.id user.id commentId) := by
  simp only [CommentService.delete, Tx.exec_mapError_ok, Tx.exec_select_bind,
    Tx.exec_orThrow_bind, Tx.exec_selectForUpdate_bind, Tx.exec_require_bind,
    Tx.exec_execute_bind] at h
  obtain ⟨a, ha, user, huser, -, c, hc, hown, -, h⟩ := h
  exact ⟨user, a, c, huser, ha, hc, hown, (Prod.mk.inj (Except.ok.inj h)).2.symm⟩

end

end MediumClone.Comments
