import MediumClone.Database.Schema
import MediumClone.Support.JsDate
import MediumClone.Support.Sql
import MediumClone.Support.Transaction

/-!
# Articles — Read

`ArticleReadService.getBySlug` (`src/articles/article.service.ts`) and the serializer it ends in
(`src/common/serializers/article.serializer.ts`).

With a transaction manager the reads are statements of that transaction, one after another
(`getBySlug`).  Without one they run on the pool (`getBySlugPool`), where a state that does not
change in between answers them all.  On one state the two agree (`exec_getBySlug`), and what they
return is `IsDetail`.
-/

namespace MediumClone.Articles
open Js Sys Schema

/-! ### Serialization -/

structure ArticleSerializationContext where
  tags : List Str
  favorited : Bool
  favoritesCount : ℕ
  authorFollowing : Bool
  deriving DecidableEq

structure AuthorFields where
  username : Str
  bio : Option Str
  image : Option Str
  following : Bool
  deriving DecidableEq

structure ArticleFields where
  slug : Str
  title : Str
  description : Str
  tagList : List Str
  createdAt : Str
  updatedAt : Str
  favorited : Bool
  favoritesCount : ℕ
  author : AuthorFields
  deriving DecidableEq

/-- `{ ...toArticleFields(article), body }`. -/
structure ArticleDetail where
  fields : ArticleFields
  body : Str
  deriving DecidableEq

/-- `ArticleListSerializationInput`. -/
structure ListSerializationInput where
  slug : Str
  title : Str
  description : Str
  createdAt : Date
  updatedAt : Date
  author : User
  context : ArticleSerializationContext

/-- The `Date` the driver reads a column as: milliseconds. -/
def toDate (t : Timestamp) : Date := ⟨t / 1000⟩

def toArticleFields (article : ListSerializationInput) : ArticleFields where
  slug := article.slug
  title := article.title
  description := article.description
  tagList := article.context.tags
  createdAt := article.createdAt.toISOString
  updatedAt := article.updatedAt.toISOString
  favorited := article.context.favorited
  favoritesCount := max 0 article.context.favoritesCount
  author :=
    { username := article.author.username
      bio := article.author.bio
      image := article.author.image
      following := article.context.authorFollowing }

/-- The columns of `article` that a list element is made of, with its author and context. -/
def listInput (article : Article) (author : User) (context : ArticleSerializationContext) :
    ListSerializationInput where
  slug := article.slug
  title := article.title
  description := article.description
  createdAt := toDate article.createdAt
  updatedAt := toDate article.updatedAt
  author := author
  context := context

def serializeArticleDetail (article : Article) (author : User)
    (context : ArticleSerializationContext) : ArticleDetail where
  fields := toArticleFields (listInput article author context)
  body := article.body

/-! ### The queries -/

/-- `innerJoinAndSelect('article.author', 'author').where('article.slug = :slug').getOne()`. -/
def selectBySlug (slug : Str) (db : Tables) : Option (Article × User) :=
  ((Sql.innerJoin db.articles db.users fun a u => u.id = a.authorId).filter
    fun x => x.1.slug = slug).head?

/-- The tag names of an article, in the order of their positions. -/
def loadOrderedTags (articleId : Uuid) (db : Tables) : List Str :=
  (Sql.orderBy (fun x => x.1.position)
    ((Sql.innerJoin db.articleTags db.tags fun l t => t.id = l.tagId).filter
      fun x => x.1.articleId = articleId)).map fun x => x.2.name

def countFavorites (articleId : Uuid) (db : Tables) : ℕ :=
  (db.favorites.filter (·.articleId = articleId)).length

def findFavorite (articleId userId : Uuid) (db : Tables) : Option ArticleFavorite :=
  db.favorites.find? (· = ⟨articleId, userId⟩)

def findFollow (followerId followingId : Uuid) (db : Tables) : Option UserFollow :=
  db.follows.find? (· = ⟨followerId, followingId⟩)

/-! ### The service -/

/-- The error classes of `src/articles`; `queryFailed` is an error of the driver. -/
inductive ArticleError where
  | articleAuthorNotFound
  | articleSlugConflict
  | articleCreatePersistence
  | articleNotFound
  | articleViewerNotFound
  | updateUserNotFound
  | updateArticleNotFound
  | updateForbidden
  | updatePersistence
  | deleteUserNotFound
  | deleteArticleNotFound
  | deleteForbidden
  | deletePersistence
  | favoriteUserNotFound
  | favoriteArticleNotFound
  | tagPersistence
  | queryFailed
  deriving DecidableEq

abbrev ArticleTx (α : Type) := Tx Tables Row ArticleError α

/-- The viewer, where a username is given; `''` is as good as none. -/
def findViewer : Option Str → ArticleTx (Option User)
  | none => pure none
  | some [] => pure none
  | some username => do
    let found ← Tx.select (·.findUser username)
    let viewer ← Tx.orThrow .articleViewerNotFound found
    pure (some viewer)

/-- `viewer ? read : null`. -/
def ifViewer {α : Type} (viewer : Option User) (read : User → Tables → Option α) :
    ArticleTx (Option α) :=
  match viewer with
  | none => pure none
  | some viewer => Tx.select (read viewer)

def serializeDetail (article : Article) (author : User) (tags : List Str) (favoritesCount : ℕ)
    (favorite : Option ArticleFavorite) (follow : Option UserFollow) : ArticleDetail :=
  serializeArticleDetail article author
    { tags := tags
      favorited := favorite.isSome
      favoritesCount := favoritesCount
      authorFollowing := follow.isSome }

/-- With a manager. -/
def getBySlug (slug : Str) (viewerUsername : Option Str) : ArticleTx ArticleDetail := do
  let found ← Tx.select (selectBySlug slug)
  let (article, author) ← Tx.orThrow .articleNotFound found
  let viewer ← findViewer viewerUsername
  let tags ← Tx.select (loadOrderedTags article.id)
  let favoritesCount ← Tx.select (countFavorites article.id)
  let favorite ← ifViewer viewer fun viewer => findFavorite article.id viewer.id
  let follow ← ifViewer viewer fun viewer => findFollow viewer.id article.authorId
  pure (serializeDetail article author tags favoritesCount favorite follow)

/-- Without a manager, on a state that does not change meanwhile. -/
def getBySlugPool (slug : Str) (viewerUsername : Option Str) (db : Tables) :
    Except ArticleError ArticleDetail :=
  match selectBySlug slug db with
  | none => .error .articleNotFound
  | some (article, author) =>
    let given := viewerUsername.filter (· ≠ [])
    let viewer := given.bind db.findUser
    if given.isSome ∧ viewer.isNone then .error .articleViewerNotFound
    else
      let tags := loadOrderedTags article.id db
      let favoritesCount := countFavorites article.id db
      let favorite := viewer.bind fun viewer => findFavorite article.id viewer.id db
      let follow := viewer.bind fun viewer => findFollow viewer.id article.authorId db
      .ok (serializeDetail article author tags favoritesCount favorite follow)

/-! ### What the queries find -/

variable {db d d' : Tables} {slug : Str} {viewerUsername : Option Str} {a : Article} {u : User}

theorem selectBySlug_eq_some :
    selectBySlug slug db = some (a, u) ↔
      (a ∈ db.articles ∧ a.slug = slug) ∧ u ∈ db.users ∧ u.id = a.authorId := by
  have hmem : ∀ x : Article × User, x ∈ (Sql.innerJoin db.articles db.users
      fun a u => u.id = a.authorId).filter (fun x => x.1.slug = slug) ↔
      (x.1 ∈ db.articles ∧ x.1.slug = slug) ∧ x.2 ∈ db.users ∧ x.2.id = x.1.authorId := by
    rintro ⟨b, v⟩
    simp only [List.mem_filter, Sql.mem_innerJoin, decide_eq_true_eq]
    tauto
  constructor
  · intro h
    exact (hmem (a, u)).mp (List.mem_of_head? h)
  · rintro ⟨ha, hu⟩
    cases hhead : selectBySlug slug db with
    | none =>
        have hnil := List.head?_eq_none_iff.mp hhead
        exact absurd ((hmem (a, u)).mpr ⟨ha, hu⟩) (by rw [hnil]; exact List.not_mem_nil)
    | some x =>
        obtain ⟨b, v⟩ := x
        obtain ⟨⟨hb, hbs⟩, hv, hva⟩ := (hmem (b, v)).mp (List.mem_of_head? hhead)
        obtain rfl := Keyed.eq_of_key db.uq_articles_slug hb ha.1 (hbs.trans ha.2.symm)
        obtain rfl := Keyed.eq_of_key db.pk_users hv hu.1 (hva.trans hu.2.symm)
        rfl

theorem findFavorite_eq {articleId userId : Uuid} :
    findFavorite articleId userId db =
      if ⟨articleId, userId⟩ ∈ db.favorites then some ⟨articleId, userId⟩ else none := by
  cases h : findFavorite articleId userId db with
  | none =>
      rw [if_neg]
      intro hmem
      simpa using List.find?_eq_none.mp h _ hmem
  | some f =>
      obtain rfl : f = ⟨articleId, userId⟩ := by simpa using List.find?_some h
      rw [if_pos (List.mem_of_find?_eq_some h)]

theorem isSome_findFavorite {articleId userId : Uuid} :
    (findFavorite articleId userId db).isSome ↔ ⟨articleId, userId⟩ ∈ db.favorites := by
  simp [findFavorite]

theorem loadOrderedTags_eq (articleId : Uuid) (db : Tables) :
    loadOrderedTags articleId db = (Sql.orderBy (fun x => x.1.position)
      (Sql.innerJoin (db.articleTags.filter (·.articleId = articleId)) db.tags
        fun l t => t.id = l.tagId)).map fun x => x.2.name := by
  rw [Sql.innerJoin_filter]
  rfl

/-- The tag that a link names. -/
def tagOf (db : Tables) (l : ArticleTag) : Tag := (db.tags.find? (·.id = l.tagId)).getD ⟨0, []⟩

theorem tagOf_eq {t : Tag} {l : ArticleTag} (ht : t ∈ db.tags) (hl : t.id = l.tagId) :
    tagOf db l = t := by
  rw [tagOf, (Keyed.find_eq_some db.pk_tags).mpr ⟨ht, hl⟩, Option.getD_some]

theorem loadOrderedTags_eq_map (id : Uuid) (db : Tables) : loadOrderedTags id db =
    (Sql.orderBy (·.position) (db.articleTags.filter (·.articleId = id))).map fun l =>
      (tagOf db l).name := by
  have hjoin : ∀ l ∈ db.articleTags.filter (·.articleId = id),
      tagOf db l ∈ db.tags ∧ (tagOf db l).id = l.tagId := by
    intro l hl
    obtain ⟨t, ht, htl⟩ := db.fk_article_tags_tag l (List.mem_of_mem_filter hl)
    rw [tagOf_eq ht htl]
    exact ⟨ht, htl⟩
  have horder := Sql.map_orderBy (fun x : ArticleTag × Tag => x.1.position)
    (fun l => (l, tagOf db l)) (db.articleTags.filter (·.articleId = id))
  rw [loadOrderedTags_eq, Sql.innerJoin_eq_map db.pk_tags hjoin, ← horder, List.map_map]
  rfl

/-- The tags of an article whose links stay are the same, whatever tags are added. -/
theorem loadOrderedTags_of_tags {id : Uuid} (htags : d.tags <+: d'.tags)
    (hl : d'.articleTags.filter (·.articleId = id) = d.articleTags.filter (·.articleId = id)) :
    loadOrderedTags id d' = loadOrderedTags id d := by
  rw [loadOrderedTags_eq_map, loadOrderedTags_eq_map, hl]
  refine List.map_congr_left fun l hmem => ?_
  obtain ⟨t, ht, htl⟩ := d.fk_article_tags_tag l (List.mem_of_mem_filter (Sql.mem_orderBy.mp hmem))
  rw [tagOf_eq ht htl, tagOf_eq (htags.subset ht) htl]

/-! ### The detail -/

/-- The viewer a request stands for: no one, or a user. -/
def viewerOf (db : Tables) : Option Str → Option User
  | none => none
  | some username => db.findUser username

theorem findUser_nil : db.findUser [] = none := by
  rw [Tables.findUser, Keyed.find_eq_none]
  exact db.username_ne

theorem exec_findViewer_bind {α : Type} {c : Char} {username : Str}
    {f : Option User → ArticleTx α} : (findViewer (some (c :: username)) >>= f).exec db =
      match db.findUser (c :: username) with
      | none => .error .articleViewerNotFound
      | some viewer => (f (some viewer)).exec db := by
  simp only [findViewer, bind_assoc, pure_bind, Tx.exec_select_bind]
  cases db.findUser (c :: username) <;> rfl

/-- The two ways of reading agree on one state. -/
theorem exec_getBySlug : (getBySlug slug viewerUsername).exec db =
    (getBySlugPool slug viewerUsername db).map fun detail => (detail, db) := by
  rw [getBySlug, Tx.exec_select_bind, getBySlugPool]
  cases selectBySlug slug db with
  | none => rfl
  | some x =>
      obtain ⟨a, u⟩ := x
      rcases viewerUsername with _ | _ | ⟨c, username⟩
      · rfl
      · rfl
      · change Tx.exec (findViewer (some (c :: username)) >>= _) db = _
        rw [exec_findViewer_bind]
        cases h : db.findUser (c :: username) with
        | none => simp [h, Option.filter, Except.map]
        | some viewer =>
            simp [h, Option.filter, Except.map]
            rfl

/-- What a successful read returns: the article and its author, and the tags, favorites and follows
of the article as `viewer` sees them. -/
def detailOf (db : Tables) (a : Article) (u : User) (viewer : Option User) : ArticleDetail :=
  serializeDetail a u (loadOrderedTags a.id db) (countFavorites a.id db)
    (viewer.bind fun viewer => findFavorite a.id viewer.id db)
    (viewer.bind fun viewer => findFollow viewer.id a.authorId db)

theorem getBySlugPool_ok (ha : a ∈ db.articles) (hu : u ∈ db.users) (hau : u.id = a.authorId)
    (hv : viewerUsername.isSome → (viewerOf db viewerUsername).isSome) :
    getBySlugPool a.slug viewerUsername db =
      .ok (detailOf db a u (viewerOf db viewerUsername)) := by
  rw [getBySlugPool, selectBySlug_eq_some.mpr ⟨⟨ha, rfl⟩, hu, hau⟩]
  rcases viewerUsername with _ | _ | ⟨c, username⟩
  · rfl
  · exact absurd (hv rfl) (by simp [viewerOf, findUser_nil])
  · obtain ⟨viewer, hviewer⟩ := Option.isSome_iff_exists.mp (hv rfl)
    rw [viewerOf] at hviewer
    simp [Option.filter, hviewer, viewerOf, detailOf]

/-! ### What the detail depends on -/

/-- The article `a` stands in both, with all that its detail is read from. -/
structure SameDetail (a : Article) (d d' : Tables) : Prop where
  users : d'.users = d.users
  tags : d'.tags = d.tags
  follows : d'.follows = d.follows
  left : a ∈ d.articles
  right : a ∈ d'.articles
  favorites : d'.favorites.filter (·.articleId = a.id) = d.favorites.filter (·.articleId = a.id)
  articleTags :
    d'.articleTags.filter (·.articleId = a.id) = d.articleTags.filter (·.articleId = a.id)

theorem SameDetail.refl (ha : a ∈ d.articles) : SameDetail a d d :=
  ⟨rfl, rfl, rfl, ha, ha, rfl, rfl⟩

theorem SameDetail.trans {d'' : Tables} (h : SameDetail a d d') (h' : SameDetail a d' d'') :
    SameDetail a d d'' :=
  ⟨h'.users.trans h.users, h'.tags.trans h.tags, h'.follows.trans h.follows, h.left, h'.right,
    h'.favorites.trans h.favorites, h'.articleTags.trans h.articleTags⟩

theorem SameDetail.selectBySlug (h : SameDetail a d d') :
    selectBySlug a.slug d' = selectBySlug a.slug d := by
  obtain ⟨u, hu⟩ := d.fk_articles_author a h.left
  rw [selectBySlug_eq_some.mpr ⟨⟨h.left, rfl⟩, hu⟩,
    selectBySlug_eq_some.mpr ⟨⟨h.right, rfl⟩, by rwa [h.users]⟩]

theorem SameDetail.loadOrderedTags (h : SameDetail a d d') :
    loadOrderedTags a.id d' = loadOrderedTags a.id d := by
  rw [loadOrderedTags_eq, loadOrderedTags_eq, h.articleTags, h.tags]

theorem SameDetail.countFavorites (h : SameDetail a d d') :
    countFavorites a.id d' = countFavorites a.id d := by
  rw [Articles.countFavorites, h.favorites, Articles.countFavorites]

theorem SameDetail.findFavorite {userId : Uuid} (h : SameDetail a d d') :
    findFavorite a.id userId d' = findFavorite a.id userId d := by
  have hmem : ∀ db : Tables, (⟨a.id, userId⟩ : ArticleFavorite) ∈ db.favorites ↔
      ⟨a.id, userId⟩ ∈ db.favorites.filter (·.articleId = a.id) := by simp
  rw [findFavorite_eq, findFavorite_eq]
  simp only [hmem, h.favorites]

theorem SameDetail.findFollow {followerId followingId : Uuid} (h : SameDetail a d d') :
    findFollow followerId followingId d' = findFollow followerId followingId d := by
  rw [Articles.findFollow, h.follows, Articles.findFollow]

theorem SameDetail.findUser {username : Str} (h : SameDetail a d d') :
    d'.findUser username = d.findUser username := by
  rw [Tables.findUser, h.users, Tables.findUser]

/-- A read of the detail of `a` depends on no more, and writes nothing. -/
theorem confined_getBySlug {F : Tables → Tables → Prop} (hF : ∀ d, F d d) :
    (getBySlug a.slug viewerUsername).Confined (SameDetail a) F := by
  -- what follows the first read: it found `a` itself
  have htail : ∀ b, b.id = a.id → ∀ u viewer, Tx.Confined (SameDetail a) F (α := ArticleDetail) (do
      let tags ← Tx.select (loadOrderedTags b.id)
      let favoritesCount ← Tx.select (countFavorites b.id)
      let favorite ← ifViewer viewer fun viewer => findFavorite b.id viewer.id
      let follow ← ifViewer viewer fun viewer => findFollow viewer.id b.authorId
      pure (serializeDetail b u tags favoritesCount favorite follow)) := by
    intro b hb u viewer
    rw [hb]
    refine Tx.confined_select hF (fun d d' h => h.loadOrderedTags) fun _ _ => ?_
    refine Tx.confined_select hF (fun d d' h => h.countFavorites) fun _ _ => ?_
    cases viewer with
    | none => exact Tx.confined_pure
    | some viewer =>
        refine Tx.confined_select hF (fun d d' h => h.findFavorite) fun _ _ => ?_
        exact Tx.confined_select hF (fun d d' h => h.findFollow) fun _ _ => Tx.confined_pure
  rw [getBySlug]
  refine Tx.confined_select hF (fun d d' h => h.selectBySlug) fun d hd => ?_
  refine Tx.confined_orThrow fun x hx => ?_
  obtain ⟨b, u⟩ := x
  obtain ⟨hb, -⟩ := selectBySlug_eq_some.mp hx
  obtain rfl := Keyed.eq_of_key d.uq_articles_slug hb.1 hd.left hb.2
  rcases viewerUsername with _ | _ | ⟨c, username⟩
  · exact htail b rfl u none
  · exact htail b rfl u none
  · simp only [findViewer, bind_assoc, pure_bind]
    refine Tx.confined_select hF (fun d d' h => h.findUser) fun _ _ => ?_
    exact Tx.confined_orThrow fun viewer _ => htail b rfl u (some viewer)

end MediumClone.Articles
