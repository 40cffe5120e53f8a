import MediumClone.Blog.World
import MediumClone.Articles.Writes

/-!
# Blog — Calls

What a request does to the tables: the service behind each route (`Call.tx`), with what the
controllers of `src/articles`, `src/comments` and `src/profiles` pass to it and make of its result.

Reads run on the pool.  Here they find one state, the one their request finds.
-/

namespace MediumClone.Blog
open Js Sys Schema Articles Comments Profiles

/-! ### Controllers -/

/-- What `ArticlesController.list` passes on. -/
def ArticleListQueryDto.criteria (query : ArticleListQueryDto) : ArticleListQueryCriteria where
  tag := query.tag
  authorUsername := query.author
  favoritedUsername := query.favorited
  followedByUserId := none
  offset := query.offset
  limit := query.limit

/-- What `ArticlesController.feed` passes on. -/
def ArticlePaginationDto.criteria (query : ArticlePaginationDto) : ArticleListQueryCriteria where
  tag := none
  authorUsername := none
  favoritedUsername := none
  followedByUserId := none
  offset := query.offset
  limit := query.limit

def serializeProfile (user : User) (following : Bool) : SerializedProfile where
  profile :=
    { username := user.username
      bio := user.bio
      image := user.image
      following := following }

/-- Without an account the controller answers as for `ProfileNotFoundError`. -/
def ProfilesController.getProfile (username : Str) (db : Tables) :
    Except ProfileError SerializedProfile :=
  match db.findUser username with
  | none => .error .profileNotFound
  | some user => .ok (serializeProfile user false)

/-! ### Requests -/

/-- A read of one state. -/
def reading {ε α : Type} (read : Tables → Except ε α) : Tx Tables Row ε α := do
  let found ← Tx.select read
  match found with
  | .ok a => pure a
  | .error e => Tx.throw e

def Call.tx (now : Timestamp) : Call → Tx Tables Row Refusal Answer
  | .createArticle call => answer .article .article (ArticleCreateService.create call now)
  | .updateArticle call => answer .article .article (ArticleUpdateService.update call now)
  | .deleteArticle slug username =>
    answer .article (fun _ => .done) (ArticleDeleteService.delete slug username)
  | .createFavorite slug username =>
    answer .article .article (ArticleFavoriteService.create slug username)
  | .deleteFavorite slug username =>
    answer .article .article (ArticleFavoriteService.delete slug username)
  | .createComment call => answer .comment .comment (CommentService.create call now)
  | .deleteComment slug commentId username =>
    answer .comment (fun _ => .done) (CommentService.delete slug commentId username)
  | .follow followerUsername username =>
    answer .profile (fun user => .profile (serializeProfile user true))
      (ProfileService.follow followerUsername username)
  | .unfollow followerUsername username =>
    answer .profile (fun user => .profile (serializeProfile user false))
      (ProfileService.unfollow followerUsername username)
  | .getArticle slug viewerUsername =>
    answer .article .article (reading (getBySlugPool slug viewerUsername))
  | .listArticles query viewerUsername =>
    answer .list .articles (reading (ArticleListService.list query.criteria viewerUsername))
  | .feedArticles query viewerUsername =>
    answer .list .articles (reading (ArticleListService.feed query.criteria viewerUsername))
  | .listComments slug viewerUsername =>
    answer .comment .comments (reading fun db => CommentService.list slug viewerUsername db db)
  | .getProfile username =>
    answer .profile .profile (reading (ProfilesController.getProfile username))
where
  answer {ε α : Type} (e : ε → Refusal) (a : α → Answer) (x : Tx Tables Row ε α) :
      Tx Tables Row Refusal Answer :=
    a <$> x.mapError e

/-- The answer to a request, and the tables after it: those before it, where it is refused. -/
def serve (db : Tables) (e : Request) : Except Refusal Answer × Tables :=
  match (e.call.tx e.now).exec db with
  | .ok (answer, db') => (.ok answer, db')
  | .error refusal => (.error refusal, db)

/-! ### What it comes to -/

section

variable {d d' : Tables} {e : Request} {ε α : Type} {f : ε → Refusal} {g : α → Answer}
  {x : Tx Tables Row ε α} {read : Tables → Except ε α}

theorem exec_reading : (reading read).exec d = (read d).map fun a => (a, d) := by
  rw [reading, Tx.exec_select_bind]
  cases read d <;> rfl

theorem exec_answer : (Call.tx.answer f g x).exec d =
    ((x.exec d).mapError f).map fun r => (g r.1, r.2) := by
  rw [Call.tx.answer, Tx.exec_map, Tx.exec_mapError]

end

end MediumClone.Blog
