import MediumClone.Support.JsText
import MediumClone.Support.Keyed
import Mathlib.Algebra.Order.Ring.Int

/-!
# Database — Schema

The tables of `src/database/migrations` that articles live in, with the constraints the migrations
declare as fields, so that no state of the database breaks one.

A write that would break a constraint gives `none`: the statement fails.  `ON CONFLICT DO NOTHING`
passes over a row whose key is taken.  `ON DELETE CASCADE` is part of the delete.

Some fields are not declared by a migration.  No username is empty: `RegisterUserDto` asks for
`Length(1, 64)`, and nothing else writes the column.  There are no more than `maxRows` users and no
more than `maxRows` articles: PostgreSQL stores no more rows in a table (`2 ^ 32 - 1` pages of at
most 291).
-/

namespace MediumClone.Schema
open Js Sys

/-! ### Rows -/

/-- A `uuid`, as the number its sixteen bytes spell: the order is PostgreSQL's. -/
abbrev Uuid := ℕ

/-- A `timestamptz`, in microseconds. -/
abbrev Timestamp := ℤ

structure User where
  id : Uuid
  username : Str
  bio : Option Str
  image : Option Str
  deriving DecidableEq

structure Article where
  id : Uuid
  slug : Str
  title : Str
  description : Str
  body : Str
  authorId : Uuid
  createdAt : Timestamp
  updatedAt : Timestamp
  deriving DecidableEq

structure Tag where
  id : Uuid
  name : Str
  deriving DecidableEq

structure ArticleTag where
  articleId : Uuid
  tagId : Uuid
  position : ℕ
  deriving DecidableEq

structure ArticleFavorite where
  articleId : Uuid
  userId : Uuid
  deriving DecidableEq

structure Comment where
  id : ℕ
  articleId : Uuid
  authorId : Uuid
  body : Str
  createdAt : Timestamp
  updatedAt : Timestamp
  deriving DecidableEq

structure UserFollow where
  followerId : Uuid
  followingId : Uuid
  deriving DecidableEq

/-- A row that a transaction locks. -/
inductive Row where
  | user (id : Uuid)
  | article (id : Uuid)
  | comment (id : ℕ)
  deriving DecidableEq

/-- The most rows of one table. -/
def maxRows : ℕ := 4294967295 * 291

/-- What an article keeps while it exists. -/
structure Article.SameIdentity (a b : Article) : Prop where
  id : b.id = a.id
  slug : b.slug = a.slug
  authorId : b.authorId = a.authorId
  createdAt : b.createdAt = a.createdAt

theorem Article.SameIdentity.refl (a : Article) : a.SameIdentity a := ⟨rfl, rfl, rfl, rfl⟩

theorem Article.SameIdentity.trans {a b c : Article} (h : a.SameIdentity b)
    (h' : b.SameIdentity c) : a.SameIdentity c :=
  ⟨h'.id.trans h.id, h'.slug.trans h.slug, h'.authorId.trans h.authorId,
    h'.createdAt.trans h.createdAt⟩

/-! ### The database -/

@[ext] structure Tables where
  users : List User
  articles : List Article
  tags : List Tag
  articleTags : List ArticleTag
  favorites : List ArticleFavorite
  comments : List Comment
  follows : List UserFollow
  pk_users : (users.map (·.id)).Nodup
  uq_users_username : (users.map (·.username)).Nodup
  username_ne : ∀ u ∈ users, u.username ≠ []
  max_users : users.length ≤ maxRows
  pk_articles : (articles.map (·.id)).Nodup
  uq_articles_slug : (articles.map (·.slug)).Nodup
  fk_articles_author : ∀ a ∈ articles, ∃ u ∈ users, u.id = a.authorId
  max_articles : articles.length ≤ maxRows
  pk_tags : (tags.map (·.id)).Nodup
  uq_tags_name : (tags.map (·.name)).Nodup
  pk_article_tags : (articleTags.map fun l => (l.articleId, l.tagId)).Nodup
  uq_article_tags_article_position : (articleTags.map fun l => (l.articleId, l.position)).Nodup
  fk_article_tags_article : ∀ l ∈ articleTags, ∃ a ∈ articles, a.id = l.articleId
  fk_article_tags_tag : ∀ l ∈ articleTags, ∃ t ∈ tags, t.id = l.tagId
  pk_article_favorites : favorites.Nodup
  fk_article_favorites_article : ∀ f ∈ favorites, ∃ a ∈ articles, a.id = f.articleId
  fk_article_favorites_user : ∀ f ∈ favorites, ∃ u ∈ users, u.id = f.userId
  pk_comments : (comments.map (·.id)).Nodup
  fk_comments_article : ∀ c ∈ comments, ∃ a ∈ articles, a.id = c.articleId
  fk_comments_author : ∀ c ∈ comments, ∃ u ∈ users, u.id = c.authorId
  pk_user_follows : follows.Nodup
  fk_user_follows_follower : ∀ f ∈ follows, ∃ u ∈ users, u.id = f.followerId
  fk_user_follows_following : ∀ f ∈ follows, ∃ u ∈ users, u.id = f.followingId
  chk_user_follows : ∀ f ∈ follows, f.followerId ≠ f.followingId

namespace Tables

variable {db : Tables}

/-! ### Lookups -/

/-- `findOneBy({ username })`. -/
def findUser (db : Tables) (username : Str) : Option User :=
  db.users.find? (·.username = username)

/-- `findOne({ where: { slug } })`. -/
def findArticle (db : Tables) (slug : Str) : Option Article :=
  db.articles.find? (·.slug = slug)

theorem findUser_eq_some {username : Str} {u : User} :
    db.findUser username = some u ↔ u ∈ db.users ∧ u.username = username :=
  Keyed.find_eq_some db.uq_users_username

theorem findArticle_eq_some {slug : Str} {a : Article} :
    db.findArticle slug = some a ↔ a ∈ db.articles ∧ a.slug = slug :=
  Keyed.find_eq_some db.uq_articles_slug

theorem findArticle_eq_none {slug : Str} :
    db.findArticle slug = none ↔ ∀ a ∈ db.articles, a.slug ≠ slug :=
  Keyed.find_eq_none

theorem article_ext {a b : Article} (ha : a ∈ db.articles) (hb : b ∈ db.articles)
    (h : a.id = b.id) : a = b :=
  Keyed.eq_of_key db.pk_articles ha hb h

/-! ### Foreign keys under a change of the table they point to -/

section ForeignKey

variable {α β : Type*} {l : List Article} {rows : List β} {fk : β → Uuid} {k : Uuid}

theorem exists_append {l : List α} {key : α → Uuid} {x : α} (h : ∃ a ∈ l, key a = k) :
    ∃ a ∈ l ++ [x], key a = k :=
  h.imp fun _ ha => ⟨List.mem_append_left _ ha.1, ha.2⟩

theorem forall_append {l : List α} {p : α → Prop} {x : α} (h : ∀ y ∈ l, p y) (hx : p x) :
    ∀ y ∈ l ++ [x], p y := by
  intro y hy
  rcases List.mem_append.mp hy with hy | hy
  · exact h y hy
  · cases List.mem_singleton.mp hy
    exact hx

theorem exists_map {g : Article → Article} {id : Uuid} (hg : ∀ a : Article, a.SameIdentity (g a))
    (h : ∃ a ∈ l, a.id = k) : ∃ a ∈ l.map fun a => if a.id = id then g a else a, a.id = k := by
  obtain ⟨a, ha, rfl⟩ := h
  refine ⟨_, List.mem_map_of_mem ha, ?_⟩
  split <;> simp [(hg a).id]

theorem exists_filter {id : Uuid} (h : ∀ r ∈ rows, ∃ a ∈ l, a.id = fk r) :
    ∀ r ∈ rows.filter (fk · ≠ id), ∃ a ∈ l.filter (·.id ≠ id), a.id = fk r := by
  intro r hr
  obtain ⟨hr, hid⟩ := List.mem_filter.mp hr
  obtain ⟨a, ha, hk⟩ := h r hr
  exact ⟨a, List.mem_filter.mpr ⟨ha, by simpa [hk] using hid⟩, hk⟩

end ForeignKey

/-! ### Articles -/

def insertArticle (db : Tables) (a : Article) : Option Tables :=
  if h : (∀ b ∈ db.articles, b.id ≠ a.id) ∧ (∀ b ∈ db.articles, b.slug ≠ a.slug) ∧
      (∃ u ∈ db.users, u.id = a.authorId) ∧ db.articles.length < maxRows then
    some { db with
      articles := db.articles ++ [a]
      pk_articles := Keyed.concat db.pk_articles h.1
      uq_articles_slug := Keyed.concat db.uq_articles_slug h.2.1
      fk_articles_author := forall_append db.fk_articles_author h.2.2.1
      max_articles := by
        rw [List.length_append, List.length_singleton]
        exact h.2.2.2
      fk_article_tags_article := fun l hl => exists_append (db.fk_article_tags_article l hl)
      fk_article_favorites_article := fun f hf =>
        exists_append (db.fk_article_favorites_article f hf)
      fk_comments_article := fun c hc => exists_append (db.fk_comments_article c hc) }
  else none

/-- `UPDATE articles … WHERE id = id`, of columns other than those of the identity. -/
def updateArticle (db : Tables) (id : Uuid) (g : Article → Article)
    (hg : ∀ a : Article, a.SameIdentity (g a)) : Tables :=
  { db with
    articles := db.articles.map fun a => if a.id = id then g a else a
    pk_articles := Keyed.map (fun a => by split <;> simp [(hg a).id]) db.pk_articles
    uq_articles_slug := Keyed.map (fun a => by split <;> simp [(hg a).slug]) db.uq_articles_slug
    fk_articles_author := by
      intro b hb
      obtain ⟨a, ha, rfl⟩ := List.mem_map.mp hb
      have hauthor := db.fk_articles_author a ha
      split <;> simpa [(hg a).authorId] using hauthor
    max_articles := by simpa using db.max_articles
    fk_article_tags_article := fun l hl => exists_map hg (db.fk_article_tags_article l hl)
    fk_article_favorites_article := fun f hf => exists_map hg (db.fk_article_favorites_article f hf)
    fk_comments_article := fun c hc => exists_map hg (db.fk_comments_article c hc) }

/-- `DELETE FROM articles WHERE id = id`, with the cascades. -/
def deleteArticle (db : Tables) (id : Uuid) : Tables :=
  { db with
    articles := db.articles.filter (·.id ≠ id)
    articleTags := db.articleTags.filter (·.articleId ≠ id)
    favorites := db.favorites.filter (·.articleId ≠ id)
    comments := db.comments.filter (·.articleId ≠ id)
    pk_articles := Keyed.filter db.pk_articles
    uq_articles_slug := Keyed.filter db.uq_articles_slug
    fk_articles_author := fun a ha => db.fk_articles_author a (List.mem_of_mem_filter ha)
    max_articles := (List.length_filter_le _ _).trans db.max_articles
    pk_article_tags := Keyed.filter db.pk_article_tags
    uq_article_tags_article_position := Keyed.filter db.uq_article_tags_article_position
    fk_article_tags_article := exists_filter db.fk_article_tags_article
    fk_article_tags_tag := fun l hl => db.fk_article_tags_tag l (List.mem_of_mem_filter hl)
    pk_article_favorites := db.pk_article_favorites.filter _
    fk_article_favorites_article := exists_filter db.fk_article_favorites_article
    fk_article_favorites_user := fun f hf =>
      db.fk_article_favorites_user f (List.mem_of_mem_filter hf)
    pk_comments := Keyed.filter db.pk_comments
    fk_comments_article := exists_filter db.fk_comments_article
    fk_comments_author := fun c hc => db.fk_comments_author c (List.mem_of_mem_filter hc) }

/-- Only articles differ. -/
structure ArticlesOnly (d d' : Tables) : Prop where
  users : d'.users = d.users
  tags : d'.tags = d.tags
  articleTags : d'.articleTags = d.articleTags
  favorites : d'.favorites = d.favorites
  comments : d'.comments = d.comments
  follows : d'.follows = d.follows

theorem insertArticle_eq_some {a : Article} {db' : Tables} (h : db.insertArticle a = some db') :
    (∀ b ∈ db.articles, b.id ≠ a.id) ∧ db'.articles = db.articles ++ [a] ∧ ArticlesOnly db db' := by
  rw [insertArticle] at h
  split at h
  · rename_i hkeys
    obtain rfl := Option.some.inj h
    exact ⟨hkeys.1, rfl, rfl, rfl, rfl, rfl, rfl, rfl⟩
  · cases h

/-- An article that does not exist has no links. -/
theorem no_links {id : Uuid} (h : ∀ b ∈ db.articles, b.id ≠ id) :
    ∀ l ∈ db.articleTags, l.articleId ≠ id := by
  intro l hl
  obtain ⟨b, hb, hbl⟩ := db.fk_article_tags_article l hl
  exact hbl ▸ h b hb

/-! ### Tags and their links -/

/-- One row of `INSERT INTO tags … ON CONFLICT DO NOTHING`. -/
def insertTag (db : Tables) (t : Tag) : Tables :=
  if h : (∀ u ∈ db.tags, u.id ≠ t.id) ∧ (∀ u ∈ db.tags, u.name ≠ t.name) then
    { db with
      tags := db.tags ++ [t]
      pk_tags := Keyed.concat db.pk_tags h.1
      uq_tags_name := Keyed.concat db.uq_tags_name h.2
      fk_article_tags_tag := fun l hl => exists_append (db.fk_article_tags_tag l hl) }
  else db

def insertTags (db : Tables) (rows : List Tag) : Tables := rows.foldl insertTag db

def deleteArticleTags (db : Tables) (articleId : Uuid) : Tables :=
  { db with
    articleTags := db.articleTags.filter (·.articleId ≠ articleId)
    pk_article_tags := Keyed.filter db.pk_article_tags
    uq_article_tags_article_position := Keyed.filter db.uq_article_tags_article_position
    fk_article_tags_article := fun l hl => db.fk_article_tags_article l (List.mem_of_mem_filter hl)
    fk_article_tags_tag := fun l hl => db.fk_article_tags_tag l (List.mem_of_mem_filter hl) }

def insertArticleTag (db : Tables) (l : ArticleTag) : Option Tables :=
  if h : (∀ m ∈ db.articleTags, (m.articleId, m.tagId) ≠ (l.articleId, l.tagId)) ∧
      (∀ m ∈ db.articleTags, (m.articleId, m.position) ≠ (l.articleId, l.position)) ∧
      (∃ a ∈ db.articles, a.id = l.articleId) ∧ (∃ t ∈ db.tags, t.id = l.tagId) then
    some { db with
      articleTags := db.articleTags ++ [l]
      pk_article_tags := Keyed.concat (x := l) db.pk_article_tags h.1
      uq_article_tags_article_position :=
        Keyed.concat (x := l) db.uq_article_tags_article_position h.2.1
      fk_article_tags_article := forall_append db.fk_article_tags_article h.2.2.1
      fk_article_tags_tag := forall_append db.fk_article_tags_tag h.2.2.2 }
  else none

/-- The rows of one `INSERT`. -/
def insertArticleTags (db : Tables) (rows : List ArticleTag) : Option Tables :=
  rows.foldlM insertArticleTag db

/-- Only links differ. -/
structure LinksOnly (d d' : Tables) : Prop where
  users : d'.users = d.users
  articles : d'.articles = d.articles
  tags : d'.tags = d.tags
  favorites : d'.favorites = d.favorites
  comments : d'.comments = d.comments
  follows : d'.follows = d.follows

/-- Only tags differ, and those there were are there. -/
structure TagsGrow (d d' : Tables) : Prop where
  users : d'.users = d.users
  articles : d'.articles = d.articles
  tags : d.tags <+: d'.tags
  articleTags : d'.articleTags = d.articleTags
  favorites : d'.favorites = d.favorites
  comments : d'.comments = d.comments
  follows : d'.follows = d.follows

theorem tagsGrow_insertTags (rows : List Tag) : TagsGrow db (db.insertTags rows) := by
  induction rows generalizing db with
  | nil => exact ⟨rfl, rfl, List.prefix_rfl, rfl, rfl, rfl, rfl⟩
  | cons t rows ih =>
      have hrest := @ih (db.insertTag t)
      by_cases h : (∀ u ∈ db.tags, u.id ≠ t.id) ∧ ∀ u ∈ db.tags, u.name ≠ t.name
      · rw [insertTag, dif_pos h] at hrest
        rw [insertTags, List.foldl_cons, insertTag, dif_pos h]
        exact ⟨hrest.users, hrest.articles, (List.prefix_append _ _).trans hrest.tags,
          hrest.articleTags, hrest.favorites, hrest.comments, hrest.follows⟩
      · rw [insertTag, dif_neg h] at hrest
        rw [insertTags, List.foldl_cons, insertTag, dif_neg h]
        exact hrest

theorem insertArticleTag_eq_some {l : ArticleTag} {db' : Tables}
    (h : db.insertArticleTag l = some db') :
    db'.articleTags = db.articleTags ++ [l] ∧ LinksOnly db db' := by
  rw [insertArticleTag] at h
  split at h
  · obtain rfl := Option.some.inj h
    exact ⟨rfl, rfl, rfl, rfl, rfl, rfl, rfl⟩
  · cases h

theorem insertArticleTags_eq_some {rows : List ArticleTag} {db' : Tables}
    (h : db.insertArticleTags rows = some db') :
    db'.articleTags = db.articleTags ++ rows ∧ LinksOnly db db' := by
  induction rows generalizing db with
  | nil =>
      obtain rfl : db = db' := Option.some.inj h
      exact ⟨(List.append_nil _).symm, rfl, rfl, rfl, rfl, rfl, rfl⟩
  | cons l rows ih =>
      rw [insertArticleTags, List.foldlM_cons] at h
      obtain ⟨db₁, h₁, h⟩ := Option.bind_eq_some_iff.mp h
      obtain ⟨hlink, ho⟩ := insertArticleTag_eq_some h₁
      obtain ⟨hlinks, ho'⟩ := ih h
      refine ⟨by rw [hlinks, hlink, List.append_assoc, List.singleton_append], ?_⟩
      exact ⟨ho'.users.trans ho.users, ho'.articles.trans ho.articles, ho'.tags.trans ho.tags,
        ho'.favorites.trans ho.favorites, ho'.comments.trans ho.comments,
        ho'.follows.trans ho.follows⟩

/-! ### Favorites, comments, follows -/

/-- `INSERT INTO article_favorites … ON CONFLICT DO NOTHING`. -/
def insertFavorite (db : Tables) (f : ArticleFavorite) : Option Tables :=
  if h : f ∈ db.favorites then some db
  else if h' : (∃ a ∈ db.articles, a.id = f.articleId) ∧ ∃ u ∈ db.users, u.id = f.userId then
    some { db with
      favorites := db.favorites ++ [f]
      pk_article_favorites := by
        have hn := List.disjoint_singleton.mpr h
        exact List.Nodup.append db.pk_article_favorites (List.nodup_singleton f) hn
      fk_article_favorites_article := forall_append db.fk_article_favorites_article h'.1
      fk_article_favorites_user := forall_append db.fk_article_favorites_user h'.2 }
  else none

def deleteFavorite (db : Tables) (f : ArticleFavorite) : Tables :=
  { db with
    favorites := db.favorites.filter (· ≠ f)
    pk_article_favorites := db.pk_article_favorites.filter _
    fk_article_favorites_article := fun g hg =>
      db.fk_article_favorites_article g (List.mem_of_mem_filter hg)
    fk_article_favorites_user := fun g hg =>
      db.fk_article_favorites_user g (List.mem_of_mem_filter hg) }

/-- Only favorites differ. -/
structure FavoritesOnly (d d' : Tables) : Prop where
  users : d'.users = d.users
  articles : d'.articles = d.articles
  tags : d'.tags = d.tags
  articleTags : d'.articleTags = d.articleTags
  comments : d'.comments = d.comments
  follows : d'.follows = d.follows

theorem insertFavorite_eq_some {f : ArticleFavorite} {db' : Tables}
    (h : db.insertFavorite f = some db') :
    db'.favorites = (if f ∈ db.favorites then db.favorites else db.favorites ++ [f]) ∧
      FavoritesOnly db db' := by
  rw [insertFavorite] at h
  split at h
  · rename_i hf
    obtain rfl := Option.some.inj h
    exact ⟨(if_pos hf).symm, rfl, rfl, rfl, rfl, rfl, rfl⟩
  · rename_i hf
    split at h
    · obtain rfl := Option.some.inj h
      exact ⟨(if_neg hf).symm, rfl, rfl, rfl, rfl, rfl, rfl⟩
    · cases h

/-- The favorite of an article by a user can be set when there are both. -/
theorem isSome_insertFavorite {f : ArticleFavorite} : (db.insertFavorite f).isSome ↔
    (∃ a ∈ db.articles, a.id = f.articleId) ∧ ∃ u ∈ db.users, u.id = f.userId := by
  rw [insertFavorite]
  split
  · rename_i hf
    exact ⟨fun _ => ⟨db.fk_article_favorites_article f hf, db.fk_article_favorites_user f hf⟩,
      fun _ => rfl⟩
  · split
    · rename_i hrefs
      exact ⟨fun _ => hrefs, fun _ => rfl⟩
    · rename_i hrefs
      exact ⟨nofun, fun h => absurd h hrefs⟩

/-- Who has the article favorited. -/
def favoritedBy (articleId : Uuid) (db : Tables) : List User :=
  db.users.filter fun u => ⟨articleId, u.id⟩ ∈ db.favorites

/-- A favorite of the article for each user who has it favorited. -/
theorem length_favoritedBy (articleId : Uuid) (db : Tables) :
    (favoritedBy articleId db).length = (db.favorites.filter (·.articleId = articleId)).length := by
  have hkeys : ((db.favorites.filter (·.articleId = articleId)).map (·.userId)).Nodup := by
    refine List.Nodup.map_on ?_ (db.pk_article_favorites.filter _)
    rintro ⟨article, user⟩ hf ⟨article', user'⟩ hf' rfl
    have harticle : article = articleId := of_decide_eq_true (List.mem_filter.mp hf).2
    have harticle' : article' = articleId := of_decide_eq_true (List.mem_filter.mp hf').2
    rw [harticle, harticle']
  have hcount := Keyed.length_filter_refs db.pk_users hkeys
    fun f hf => db.fk_article_favorites_user f (List.mem_of_mem_filter hf)
  rw [← hcount, favoritedBy]
  refine congrArg List.length (List.filter_congr fun u _ => decide_eq_decide.mpr ?_)
  constructor
  · intro hf
    exact List.mem_map.mpr ⟨_, List.mem_filter.mpr ⟨hf, decide_eq_true rfl⟩, rfl⟩
  · intro hu
    obtain ⟨f, hf, hfu⟩ := List.mem_map.mp hu
    obtain ⟨hf, hid⟩ := List.mem_filter.mp hf
    obtain rfl : f = ⟨articleId, u.id⟩ := by
      rw [← of_decide_eq_true hid, ← hfu]
    exact hf

def insertComment (db : Tables) (c : Comment) : Option Tables :=
  if h : (∀ b ∈ db.comments, b.id ≠ c.id) ∧ (∃ a ∈ db.articles, a.id = c.articleId) ∧
      (∃ u ∈ db.users, u.id = c.authorId) then
    some { db with
      comments := db.comments ++ [c]
      pk_comments := Keyed.concat db.pk_comments h.1
      fk_comments_article := forall_append db.fk_comments_article h.2.1
      fk_comments_author := forall_append db.fk_comments_author h.2.2 }
  else none

/-- Only comments differ. -/
structure CommentsOnly (d d' : Tables) : Prop where
  users : d'.users = d.users
  articles : d'.articles = d.articles
  tags : d'.tags = d.tags
  articleTags : d'.articleTags = d.articleTags
  favorites : d'.favorites = d.favorites
  follows : d'.follows = d.follows

theorem insertComment_eq_some {c : Comment} {db' : Tables} (h : db.insertComment c = some db') :
    db'.comments = db.comments ++ [c] ∧ CommentsOnly db db' := by
  rw [insertComment] at h
  split at h
  · obtain rfl := Option.some.inj h
    exact ⟨rfl, rfl, rfl, rfl, rfl, rfl, rfl⟩
  · cases h

def deleteComments (db : Tables) (p : Comment → Bool) : Tables :=
  { db with
    comments := db.comments.filter (!p ·)
    pk_comments := Keyed.filter db.pk_comments
    fk_comments_article := fun c hc => db.fk_comments_article c (List.mem_of_mem_filter hc)
    fk_comments_author := fun c hc => db.fk_comments_author c (List.mem_of_mem_filter hc) }

/-- `INSERT INTO user_follows … ON CONFLICT DO NOTHING`. -/
def insertFollow (db : Tables) (f : UserFollow) : Option Tables :=
  if h : f ∈ db.follows then some db
  else if h' : (∃ u ∈ db.users, u.id = f.followerId) ∧ (∃ u ∈ db.users, u.id = f.followingId) ∧
      f.followerId ≠ f.followingId then
    some { db with
      follows := db.follows ++ [f]
      pk_user_follows := by
        have hn := List.disjoint_singleton.mpr h
        exact List.Nodup.append db.pk_user_follows (List.nodup_singleton f) hn
      fk_user_follows_follower := forall_append db.fk_user_follows_follower h'.1
      fk_user_follows_following := forall_append db.fk_user_follows_following h'.2.1
      chk_user_follows := forall_append db.chk_user_follows h'.2.2 }
  else none

/-- Only follows differ. -/
structure FollowsOnly (d d' : Tables) : Prop where
  users : d'.users = d.users
  articles : d'.articles = d.articles
  tags : d'.tags = d.tags
  articleTags : d'.articleTags = d.articleTags
  favorites : d'.favorites = d.favorites
  comments : d'.comments = d.comments

theorem insertFollow_eq_some {f : UserFollow} {db' : Tables} (h : db.insertFollow f = some db') :
    f ∈ db'.follows ∧ FollowsOnly db db' := by
  rw [insertFollow] at h
  split at h
  · rename_i hf
    obtain rfl := Option.some.inj h
    exact ⟨hf, rfl, rfl, rfl, rfl, rfl, rfl⟩
  · split at h
    · obtain rfl := Option.some.inj h
      exact ⟨List.mem_append_right _ List.mem_cons_self, rfl, rfl, rfl, rfl, rfl, rfl⟩
    · cases h

def deleteFollow (db : Tables) (f : UserFollow) : Tables :=
  { db with
    follows := db.follows.filter (· ≠ f)
    pk_user_follows := db.pk_user_follows.filter _
    fk_user_follows_follower := fun g hg =>
      db.fk_user_follows_follower g (List.mem_of_mem_filter hg)
    fk_user_follows_following := fun g hg =>
      db.fk_user_follows_following g (List.mem_of_mem_filter hg)
    chk_user_follows := fun g hg => db.chk_user_follows g (List.mem_of_mem_filter hg) }

/-- A small state: an article with two tags, whose author has a follower, who favorited and
commented on it. -/
def sample : Tables where
  users := [⟨1, ['u'], none, none⟩, ⟨2, ['v'], some ['b'], none⟩]
  articles := [⟨5, ['s'], ['t'], ['d'], ['b'], 1, 1000, 1000⟩]
  tags := [⟨7, ['x']⟩, ⟨8, ['t']⟩]
  articleTags := [⟨5, 8, 0⟩, ⟨5, 7, 1⟩]
  favorites := [⟨5, 2⟩]
  comments := [⟨1, 5, 2, ['c'], 1000, 1000⟩]
  follows := [⟨2, 1⟩]
  pk_users := by decide
  uq_users_username := by decide
  username_ne := by decide
  max_users := by decide
  pk_articles := by decide
  uq_articles_slug := by decide
  fk_articles_author := by decide
  max_articles := by decide
  pk_tags := by decide
  uq_tags_name := by decide
  pk_article_tags := by decide
  uq_article_tags_article_position := by decide
  fk_article_tags_article := by decide
  fk_article_tags_tag := by decide
  pk_article_favorites := by decide
  fk_article_favorites_article := by decide
  fk_article_favorites_user := by decide
  pk_comments := by decide
  fk_comments_article := by decide
  fk_comments_author := by decide
  pk_user_follows := by decide
  fk_user_follows_follower := by decide
  fk_user_follows_following := by decide
  chk_user_follows := by decide

end Tables

end MediumClone.Schema
