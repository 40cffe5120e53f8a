import MediumClone.Articles.Hydration
import MediumClone.Comments.Listing
import MediumClone.Profiles.Follows
import MediumClone.Support.Refinement
import Mathlib.Data.Set.Card

/-!
# Blog — World

What the service is for, without its tables: accounts and articles by the names that clients use,
who favorited what, who follows whom, the comments, and the tags (`Content`).

A `World` is a content in which nothing dangles: authors, favorites, follows and comments are of
accounts and articles that exist, no one follows themselves, and no two articles have one id.

The clients' calls act on it.  A call has checks, and the first that fails refuses it
(`World.refusal`); one that passes them does what `Does` says.  What it answers is always read from
the world after it, by the same views (`World.detail`, `World.comment`, `World.profile`).
-/

noncomputable section

namespace MediumClone.Blog
open Js Sys Schema Articles Comments Profiles
open scoped Classical

/-! ### Worlds -/

/-- What others see of a user. -/
structure Account where
  bio : Option Str
  image : Option Str

/-- An article, by its author's name.  The `id` breaks ties between articles of one age. -/
structure Post where
  id : Uuid
  author : Str
  title : Str
  description : Str
  body : Str
  tags : List Str
  createdAt : Timestamp
  updatedAt : Timestamp

/-- A comment, by the slug of its article and its author's name. -/
structure Remark where
  slug : Str
  author : Str
  body : Str
  createdAt : Timestamp
  updatedAt : Timestamp

@[ext] structure Content where
  account : Str → Option Account
  post : Str → Option Post
  /-- A username with the slug of a favorite. -/
  favorites : Set (Str × Str)
  /-- A follower with whom they follow. -/
  follows : Set (Str × Str)
  remark : ℕ → Option Remark
  tags : Set Str

structure World extends Content where
  account_nil : account [] = none
  post_author : ∀ slug p, post slug = some p → (account p.author).isSome
  post_tags : ∀ slug p, post slug = some p → ∀ name ∈ p.tags, name ∈ tags
  post_id : ∀ slug slug' p p', post slug = some p → post slug' = some p' → p.id = p'.id →
    slug = slug'
  favorite_known : ∀ username slug, (username, slug) ∈ favorites →
    (account username).isSome ∧ (post slug).isSome
  follow_known : ∀ follower username, (follower, username) ∈ follows →
    (account follower).isSome ∧ (account username).isSome
  follow_other : ∀ username, (username, username) ∉ follows
  remark_known : ∀ id r, remark id = some r → (account r.author).isSome ∧ (post r.slug).isSome

theorem World.ext {w w' : World} (h : w.toContent = w'.toContent) : w = w' := by
  cases w
  cases w'
  cases h
  rfl

/-! ### Calls and answers -/

structure ArticlePaginationDto where
  offset : ℤ
  limit : ℤ

structure ArticleListQueryDto extends ArticlePaginationDto where
  tag : Option Str
  author : Option Str
  favorited : Option Str

/-- The request of a client; `username` and the viewer are those of its token. -/
inductive Call where
  | createArticle (call : CreateCall)
  | updateArticle (call : UpdateCall)
  | deleteArticle (slug username : Str)
  | createFavorite (slug username : Str)
  | deleteFavorite (slug username : Str)
  | createComment (call : CommentCall)
  | deleteComment (slug : Str) (commentId : ℤ) (username : Str)
  | follow (followerUsername username : Str)
  | unfollow (followerUsername username : Str)
  | getArticle (slug : Str) (viewerUsername : Option Str)
  | listArticles (query : ArticleListQueryDto) (viewerUsername : Option Str)
  | feedArticles (query : ArticlePaginationDto) (viewerUsername : Str)
  | listComments (slug : Str) (viewerUsername : Option Str)
  | getProfile (username : Str)

structure SerializedProfile where
  profile : AuthorFields
  deriving DecidableEq

inductive Answer where
  | article (detail : ArticleDetail)
  | articles (list : ArticleList)
  | comment (comment : SerializedComment)
  | comments (list : List SerializedComment)
  | profile (profile : SerializedProfile)
  | done
  deriving DecidableEq

inductive Refusal where
  | article (e : ArticleError)
  | list (e : ListError)
  | comment (e : CommentError)
  | profile (e : ProfileError)
  deriving DecidableEq

/-! ### Views -/

/-- Who a request with the optional name is by: the empty name is none. -/
def given (viewerUsername : Option Str) : Option Str := viewerUsername.filter (· ≠ [])

theorem given_given {viewerUsername : Option Str} :
    given (given viewerUsername) = given viewerUsername := by
  rw [given, given, Option.filter_filter]
  simp

namespace World

variable (w : World)

/-- The viewer follows the user. -/
def Follows (viewer : Option Str) (username : Str) : Prop := ∃ v ∈ viewer, (v, username) ∈ w.follows

/-- The viewer has the article favorited. -/
def Favorited (viewer : Option Str) (slug : Str) : Prop := ∃ v ∈ viewer, (v, slug) ∈ w.favorites

def profile (viewer : Option Str) (username : Str) : AuthorFields where
  username := username
  bio := (w.account username).bind (·.bio)
  image := (w.account username).bind (·.image)
  following := decide (w.Follows viewer username)

def fields (viewer : Option Str) (slug : Str) (p : Post) : ArticleFields where
  slug := slug
  title := p.title
  description := p.description
  tagList := p.tags
  createdAt := (toDate p.createdAt).toISOString
  updatedAt := (toDate p.updatedAt).toISOString
  favorited := decide (w.Favorited viewer slug)
  favoritesCount := {username | (username, slug) ∈ w.favorites}.ncard
  author := w.profile viewer p.author

def detail (viewer : Option Str) (slug : Str) (p : Post) : ArticleDetail where
  fields := w.fields viewer slug p
  body := p.body

def comment (viewer : Option Str) (id : ℕ) (r : Remark) : SerializedComment where
  id := id
  createdAt := (toDate r.createdAt).toISOString
  updatedAt := (toDate r.updatedAt).toISOString
  body := r.body
  author := w.profile viewer r.author

/-! The empty name is the name of no one. -/

variable {w} {viewer : Option Str} {username slug : Str} {p : Post}

theorem follows_given : w.Follows (given viewer) username ↔ w.Follows viewer username := by
  constructor
  · rintro ⟨v, hv, hf⟩
    exact ⟨v, (Option.filter_eq_some_iff.mp hv).1, hf⟩
  · rintro ⟨v, hv, hf⟩
    refine ⟨v, Option.filter_eq_some_iff.mpr ⟨hv, decide_eq_true ?_⟩, hf⟩
    rintro rfl
    simpa [w.account_nil] using (w.follow_known _ _ hf).1

theorem favorited_given : w.Favorited (given viewer) slug ↔ w.Favorited viewer slug := by
  constructor
  · rintro ⟨v, hv, hf⟩
    exact ⟨v, (Option.filter_eq_some_iff.mp hv).1, hf⟩
  · rintro ⟨v, hv, hf⟩
    refine ⟨v, Option.filter_eq_some_iff.mpr ⟨hv, decide_eq_true ?_⟩, hf⟩
    rintro rfl
    simpa [w.account_nil] using (w.favorite_known _ _ hf).1

theorem detail_given : w.detail (given viewer) slug p = w.detail viewer slug p := by
  simp only [detail, fields, profile, follows_given, favorited_given]

/-! ### Listings -/

variable (w)

/-- What a reader asks of the listed articles; in a feed, to be by whom `followedBy` follows. -/
structure Filter where
  tag : Option Str
  author : Option Str
  favorited : Option Str
  followedBy : Option Str

/-- The article passes the filter: everything that is asked of it can be seen on it. -/
structure Passes (filter : Filter) (slug : Str) (p : Post) : Prop where
  tag : ∀ name ∈ filter.tag, name ∈ p.tags
  author : ∀ username ∈ filter.author, p.author = username
  favorited : ∀ username ∈ filter.favorited, w.Favorited (some username) slug
  followed : ∀ username ∈ filter.followedBy, w.Follows (some username) p.author

/-- The articles that pass, each once, the newest first. -/
structure Listing (filter : Filter) (l : List (Str × Post)) : Prop where
  mem : ∀ slug p, (slug, p) ∈ l ↔ w.post slug = some p ∧ w.Passes filter slug p
  sorted : l.Pairwise fun x y => y.2.createdAt < x.2.createdAt ∨
    y.2.createdAt = x.2.createdAt ∧ y.2.id < x.2.id

/-- The answer is a page of the listing, and how long the listing is. -/
def Lists (filter : Filter) (offset limit : ℤ) (viewer : Option Str) (answer : ArticleList) :
    Prop :=
  ∃ l, w.Listing filter l ∧ answer.articlesCount = l.length ∧
    answer.articles = (Sql.page offset.toNat limit.toNat l).map fun x => w.fields viewer x.1 x.2

/-- The comments on the article, each once, the oldest first. -/
structure Thread (slug : Str) (l : List (ℕ × Remark)) : Prop where
  mem : ∀ id r, (id, r) ∈ l ↔ w.remark id = some r ∧ r.slug = slug
  sorted : l.Pairwise fun x y => x.2.createdAt < y.2.createdAt ∨
    x.2.createdAt = y.2.createdAt ∧ x.1 < y.1

end World

/-! ### Checks -/

/-- What the first check that fails answers. -/
def firstFailure {ρ : Type} : List (Prop × ρ) → Option ρ
  | [] => none
  | (check, refusal) :: checks => if check then firstFailure checks else some refusal

namespace World

variable (w : World)

/-- No article has the id. -/
def FreshId (id : Uuid) : Prop := ∀ slug p, w.post slug = some p → p.id ≠ id

def favoriteChecks (slug username : Str) : List (Prop × Refusal) :=
  [((w.account username).isSome, .article .favoriteUserNotFound),
    ((w.post slug).isSome, .article .favoriteArticleNotFound)]

/-- The checks of a call, in their order. -/
def checks : Call → List (Prop × Refusal)
  | .createArticle call =>
    [((w.account call.username).isSome, .article .articleAuthorNotFound),
      (¬ w.FreshId call.id ∨ w.post call.slug = none, .article .articleSlugConflict)]
  | .updateArticle call =>
    [((w.account call.username).isSome, .article .updateUserNotFound),
      ((w.post call.slug).isSome, .article .updateArticleNotFound),
      (∀ p ∈ w.post call.slug, p.author = call.username, .article .updateForbidden)]
  | .deleteArticle slug username =>
    [((w.account username).isSome, .article .deleteUserNotFound),
      ((w.post slug).isSome, .article .deleteArticleNotFound),
      (∀ p ∈ w.post slug, p.author = username, .article .deleteForbidden)]
  | .createFavorite slug username => w.favoriteChecks slug username
  | .deleteFavorite slug username => w.favoriteChecks slug username
  | .createComment call =>
    [((w.account call.username).isSome, .comment .commentUserNotFound),
      ((w.post call.slug).isSome, .comment .commentArticleNotFound)]
  | .deleteComment slug commentId username =>
    [((w.post slug).isSome, .comment .commentArticleNotFound),
      ((w.account username).isSome, .comment .commentUserNotFound),
      (validCommentId commentId ∧ ∃ r ∈ w.remark commentId.toNat, r.slug = slug,
        .comment .commentNotFound),
      (∀ r ∈ w.remark commentId.toNat, r.author = username, .comment .commentForbidden)]
  | .follow followerUsername username =>
    [((w.account username).isSome, .profile .profileNotFound),
      (followerUsername ≠ username, .profile .selfFollow),
      ((w.account followerUsername).isSome, .profile .profileNotFound)]
  | .unfollow followerUsername username =>
    [((w.account username).isSome, .profile .profileNotFound),
      ((w.account followerUsername).isSome, .profile .profileNotFound)]
  | .getArticle slug viewerUsername =>
    [((w.post slug).isSome, .article .articleNotFound),
      (∀ v ∈ given viewerUsername, (w.account v).isSome, .article .articleViewerNotFound)]
  | .listArticles query viewerUsername =>
    [(∀ v ∈ viewerUsername, (w.account v).isSome, .list .viewerNotFound),
      (validPage query.offset query.limit, .list .validation)]
  | .feedArticles query viewerUsername =>
    [((w.account viewerUsername).isSome, .list .viewerNotFound),
      (validPage query.offset query.limit, .list .validation)]
  | .listComments slug _ => [((w.post slug).isSome, .comment .commentArticleNotFound)]
  | .getProfile username => [((w.account username).isSome, .profile .profileNotFound)]

def refusal (call : Call) : Option Refusal := firstFailure (w.checks call)

end World

/-- The failure that a call may meet after its checks: an id drawn for a new row is taken. -/
def Call.failure : Call → Option Refusal
  | .createArticle _ => some (.article .articleCreatePersistence)
  | .updateArticle call =>
    if call.request.tagList.isSome then some (.article .updatePersistence) else none
  | .createComment _ => some (.comment .commentPersistence)
  | _ => none

/-! ### What calls do -/

/-- The new article. -/
def newPost (call : CreateCall) (now : Timestamp) : Post where
  id := call.id
  author := call.username
  title := call.request.title
  description := call.request.description
  body := call.request.body
  tags := uniqueArticleTagNames (call.request.tagList.getD [])
  createdAt := now
  updatedAt := now

/-- The article with what the request gives; `updatedAt` moves if that is something else. -/
def updatedPost (request : ArticleUpdate) (now : Timestamp) (p : Post) : Post :=
  let q : Post :=
    { p with
      title := request.title.getD p.title
      description := request.description.getD p.description
      body := request.body.getD p.body
      tags := request.tagNames p.tags }
  { q with updatedAt := if q = p then p.updatedAt else now }

/-- The new comment. -/
def newRemark (call : CommentCall) (now : Timestamp) : Remark where
  slug := call.slug
  author := call.username
  body := trim call.body
  createdAt := now
  updatedAt := now

/-- What a list request asks for. -/
def ArticleListQueryDto.filter (query : ArticleListQueryDto) : World.Filter where
  tag := query.tag
  author := query.author
  favorited := query.favorited
  followedBy := none

/-- What a feed asks for: articles by authors whom the viewer follows. -/
def feedFilter (viewerUsername : Str) : World.Filter where
  tag := none
  author := none
  favorited := none
  followedBy := some viewerUsername

/-- `w'` is `w` after the call, which is answered `answer`. -/
inductive Does (now : Timestamp) (w w' : World) : Call → Answer → Prop where
  | createArticle {call : CreateCall} (hid : w.FreshId call.id)
      (h : w'.toContent = { w.toContent with
        post := Function.update w.post call.slug (some (newPost call now))
        tags := w.tags ∪ {name | name ∈ (newPost call now).tags} }) :
      Does now w w' (.createArticle call)
        (.article (w'.detail (some call.username) call.slug (newPost call now)))
  | updateArticle {call : UpdateCall} {p : Post} (hp : w.post call.slug = some p)
      (h : w'.toContent = { w.toContent with
        post := Function.update w.post call.slug (some (updatedPost call.request now p))
        tags := w.tags ∪ {name | name ∈ (updatedPost call.request now p).tags} }) :
      Does now w w' (.updateArticle call)
        (.article (w'.detail (some call.username) call.slug (updatedPost call.request now p)))
  | deleteArticle {slug username : Str}
      (h : w'.toContent = { w.toContent with
        post := Function.update w.post slug none
        favorites := {x | x ∈ w.favorites ∧ x.2 ≠ slug}
        remark := fun id => (w.remark id).filter (·.slug ≠ slug) }) :
      Does now w w' (.deleteArticle slug username) .done
  | createFavorite {slug username : Str} {p : Post} (hp : w.post slug = some p)
      (h : w'.toContent =
        { w.toContent with favorites := insert (username, slug) w.favorites }) :
      Does now w w' (.createFavorite slug username)
        (.article (w'.detail (some username) slug p))
  | deleteFavorite {slug username : Str} {p : Post} (hp : w.post slug = some p)
      (h : w'.toContent = { w.toContent with favorites := w.favorites \ {(username, slug)} }) :
      Does now w w' (.deleteFavorite slug username)
        (.article (w'.detail (some username) slug p))
  | createComment {call : CommentCall} (hid : w.remark call.id = none)
      (h : w'.toContent = { w.toContent with
        remark := Function.update w.remark call.id (some (newRemark call now)) }) :
      Does now w w' (.createComment call)
        (.comment (w'.comment (some call.username) call.id (newRemark call now)))
  | deleteComment {slug username : Str} {commentId : ℤ}
      (h : w'.toContent =
        { w.toContent with remark := Function.update w.remark commentId.toNat none }) :
      Does now w w' (.deleteComment slug commentId username) .done
  | follow {followerUsername username : Str}
      (h : w'.toContent =
        { w.toContent with follows := insert (followerUsername, username) w.follows }) :
      Does now w w' (.follow followerUsername username)
        (.profile ⟨w'.profile (some followerUsername) username⟩)
  | unfollow {followerUsername username : Str}
      (h : w'.toContent =
        { w.toContent with follows := w.follows \ {(followerUsername, username)} }) :
      Does now w w' (.unfollow followerUsername username)
        (.profile ⟨w'.profile (some followerUsername) username⟩)
  | getArticle {slug : Str} {viewerUsername : Option Str} {p : Post} (hp : w.post slug = some p)
      (h : w' = w) : Does now w w' (.getArticle slug viewerUsername)
        (.article (w.detail viewerUsername slug p))
  | listArticles {query : ArticleListQueryDto} {viewerUsername : Option Str} {list : ArticleList}
      (hlist : w.Lists query.filter query.offset query.limit viewerUsername list) (h : w' = w) :
      Does now w w' (.listArticles query viewerUsername) (.articles list)
  | feedArticles {query : ArticlePaginationDto} {viewerUsername : Str} {list : ArticleList}
      (hlist : w.Lists (feedFilter viewerUsername) query.offset query.limit (some viewerUsername)
        list) (h : w' = w) :
      Does now w w' (.feedArticles query viewerUsername) (.articles list)
  | listComments {slug : Str} {viewerUsername : Option Str} {l : List (ℕ × Remark)}
      (hl : w.Thread slug l) (h : w' = w) : Does now w w' (.listComments slug viewerUsername)
        (.comments (l.map fun x => w.comment viewerUsername x.1 x.2))
  | getProfile {username : Str} (h : w' = w) :
      Does now w w' (.getProfile username) (.profile ⟨w.profile none username⟩)

/-- A call with its start. -/
structure Request where
  now : Timestamp
  call : Call

/-- A request is refused by its first check that fails, or meets a failure, and then changes
nothing; or it passes its checks and is done. -/
def World.Serves (w : World) (e : Request) (result : Except Refusal Answer) (w' : World) : Prop :=
  match result with
  | .ok answer => w.refusal e.call = none ∧ Does e.now w w' e.call answer
  | .error refusal => w' = w ∧ (w.refusal e.call = some refusal ∨
    w.refusal e.call = none ∧ e.call.failure = some refusal)

end MediumClone.Blog

end
