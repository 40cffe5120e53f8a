import MediumClone.Articles.ListQuery
import MediumClone.Support.JsMap

/-!
# Articles — Hydration

`ArticleListHydrator.hydrate` (`src/articles/article-list-hydrator.ts`) and
`ArticleListService.load` (`src/articles/article.service.ts`).

A page of articles is completed from three queries over the whole page: the tags of its articles,
their favorites by article, and which of its authors the viewer follows.  The rows are put into maps
and each article looks itself up.  What an article finds is what a query for it alone returns
(`get_loadTags`, `get_loadFavorites`, `has_loadFollowingAuthors`), so an element of a list is the
detail of its article without the body (`load_eq_details`).
-/

namespace MediumClone.Articles
open Js Sys Schema

/-! ### The hydrator -/

/-- `safe` or `throw`. -/
def parseFavoritesCount (count : ℕ) : Except ListError ℕ :=
  if isSafeInteger count then .ok count else .error .persistence

/-- `tags.set(articleId, [...(tags.get(articleId) ?? []), name])`. -/
def pushTag (tags : Map Uuid (List Str)) (row : ArticleTag × Tag) : Map Uuid (List Str) :=
  tags.set row.1.articleId ((tags row.1.articleId).getD [] ++ [row.2.name])

def loadTags (articleIds : List Uuid) (db : Tables) : Map Uuid (List Str) :=
  let rows := Sql.orderBy (fun x => toLex (x.1.articleId, x.1.position))
    ((Sql.innerJoin db.articleTags db.tags fun l t => t.id = l.tagId).filter
      fun x => x.1.articleId ∈ articleIds)
  rows.foldl pushTag Map.empty

structure FavoritesEntry where
  favoritesCount : ℕ
  favorited : Bool
  deriving DecidableEq

/-- The row of one group: `COUNT(*)`, and `COUNT(*) FILTER (…) > 0` or `FALSE`. -/
def favoritesRow (viewerId : Option Uuid) (rows : List ArticleFavorite) :
    Except ListError FavoritesEntry :=
  (parseFavoritesCount rows.length).map fun count =>
    { favoritesCount := count
      favorited := viewerId.elim false fun id => 0 < (rows.filter (·.userId = id)).length }

def loadFavorites (articleIds : List Uuid) (viewerId : Option Uuid) (db : Tables) :
    Except ListError (Map Uuid FavoritesEntry) :=
  let groups := Sql.groupBy (·.articleId) (db.favorites.filter (·.articleId ∈ articleIds))
  (groups.mapM fun g => (favoritesRow viewerId g.2).map fun row => (g.1, row)).map Map.ofEntries

def loadFollowingAuthors (viewerId : Uuid) (authorIds : List Uuid) (db : Tables) : List Uuid :=
  (db.follows.filter fun f => f.followerId = viewerId ∧ f.followingId ∈ authorIds).map
    (·.followingId)

def hydrateOne (tags : Map Uuid (List Str)) (favorites : Map Uuid FavoritesEntry)
    (followingAuthors : List Uuid) (article : ArticleListQueryArticle) :
    ListSerializationInput where
  slug := article.slug
  title := article.title
  description := article.description
  createdAt := article.createdAt
  updatedAt := article.updatedAt
  author := article.author
  context :=
    { tags := (tags article.id).getD []
      favorited := ((favorites article.id).map (·.favorited)).getD false
      favoritesCount := ((favorites article.id).map (·.favoritesCount)).getD 0
      authorFollowing := article.author.id ∈ followingAuthors }

def hydrate (articles : List ArticleListQueryArticle) (viewerId : Option Uuid) (db : Tables) :
    Except ListError (List ListSerializationInput) :=
  if articles = [] then .ok []
  else
    let articleIds := articles.map (·.id)
    let authorIds := (articles.map (·.author.id)).dedup
    (loadFavorites articleIds viewerId db).map fun favorites =>
      let followingAuthors := viewerId.elim [] fun id => loadFollowingAuthors id authorIds db
      articles.map (hydrateOne (loadTags articleIds db) favorites followingAuthors)

/-! ### The service -/

structure ArticleList where
  articles : List ArticleFields
  articlesCount : ℕ
  deriving DecidableEq

def serializeArticleList (articles : List ListSerializationInput) (articlesCount : ℕ) :
    ArticleList where
  articles := articles.map toArticleFields
  articlesCount := articlesCount

/-- What `load` makes of an error thrown inside. -/
def wrapListError : ListError → ListError
  | .validation => .validation
  | .viewerNotFound => .viewerNotFound
  | .queryPersistence => .persistence
  | .persistence => .persistence

/-- The elements of a page, as `load` returns them. -/
def complete (result : ArticleListQueryResult) (viewerId : Option Uuid) (db : Tables) :
    Except ListError ArticleList :=
  if result.articles = [] then .ok (serializeArticleList [] result.articlesCount)
  else (hydrate result.articles viewerId db).map (serializeArticleList · result.articlesCount)

def load (criteria : ArticleListQueryCriteria) (viewerUsername : Option Str)
    (followedAuthorsOnly : Bool) (db : Tables) : Except ListError ArticleList :=
  Except.mapError wrapListError do
    let viewer := viewerUsername.bind db.findUser
    if viewerUsername.isSome ∧ viewer.isNone then .error .viewerNotFound
    let queryCriteria ←
      if followedAuthorsOnly then
        match viewer with
        | none => .error .viewerNotFound
        | some viewer => pure { criteria with followedByUserId := some viewer.id }
      else pure criteria
    let result ← ArticleListQueryService.list queryCriteria db
    complete result (viewer.map (·.id)) db

def ArticleListService.list (criteria : ArticleListQueryCriteria) (viewerUsername : Option Str)
    (db : Tables) : Except ListError ArticleList :=
  load criteria viewerUsername false db

def ArticleListService.feed (criteria : ArticleListQueryCriteria) (viewerUsername : Str)
    (db : Tables) : Except ListError ArticleList :=
  load criteria (some viewerUsername) true db

/-! ### What an article finds -/

section

variable {db : Tables} {ids : List Uuid} {id : Uuid} {viewerId : Option Uuid}

theorem foldl_pushTag (rows : List (ArticleTag × Tag)) (m : Map Uuid (List Str)) :
    (rows.foldl pushTag m id).getD [] = (m id).getD [] ++
      (rows.filter fun x => x.1.articleId = id).map fun x => x.2.name := by
  induction rows generalizing m with
  | nil => simp
  | cons x rows ih =>
      rw [List.foldl_cons, ih]
      by_cases h : x.1.articleId = id
      · subst h
        simp [pushTag, Map.set]
      · simp [pushTag, Map.set, h, Function.update_of_ne (Ne.symm h)]

/-- The links of the join, each once. -/
theorem map_fst_tagJoin :
    (Sql.innerJoin db.articleTags db.tags fun l t => t.id = l.tagId).map Prod.fst =
      db.articleTags :=
  Sql.map_fst_innerJoin db.pk_tags db.fk_article_tags_tag

theorem nodup_tagJoin : ((Sql.innerJoin db.articleTags db.tags fun l t => t.id = l.tagId).map
    fun x => toLex (x.1.articleId, x.1.position)).Nodup := by
  have huq := db.uq_article_tags_article_position
  rw [← map_fst_tagJoin, List.map_map] at huq
  exact huq

/-- The rows of one article come in the order of their positions in either query. -/
theorem orderBy_position {rows : List (ArticleTag × Tag)}
    (hn : (rows.map fun x => toLex (x.1.articleId, x.1.position)).Nodup)
    (hid : ∀ x ∈ rows, x.1.articleId = id) :
    Sql.orderBy (fun x => toLex (x.1.articleId, x.1.position)) rows =
      Sql.orderBy (fun x => x.1.position) rows := by
  refine Sql.eq_orderBy ?_ Sql.perm_orderBy ?_
  · refine List.Nodup.of_map (fun p => toLex (id, p)) ?_
    rw [List.map_map]
    convert hn using 1
    exact List.map_congr_left fun x hx => by simp [hid x hx]
  · refine Sql.sorted_orderBy.imp_of_mem fun {x y} hx hy hxy => ?_
    rw [Sql.mem_orderBy] at hx hy
    simpa [Prod.Lex.toLex_le_toLex, hid x hx, hid y hy] using hxy

theorem get_loadTags (h : id ∈ ids) : (loadTags ids db id).getD [] = loadOrderedTags id db := by
  have hfilter : ((Sql.innerJoin db.articleTags db.tags fun l t => t.id = l.tagId).filter
      fun x => x.1.articleId ∈ ids).filter (fun x => x.1.articleId = id) =
      (Sql.innerJoin db.articleTags db.tags fun l t => t.id = l.tagId).filter
        fun x => x.1.articleId = id := by
    exact Keyed.filter_filter_mem h
  rw [loadTags, foldl_pushTag, Sql.filter_orderBy (Keyed.filter nodup_tagJoin), hfilter,
    orderBy_position (Keyed.filter nodup_tagJoin) (fun x hx => by
      simpa using (List.mem_filter.mp hx).2), loadOrderedTags]
  rfl

theorem filter_favorites (h : id ∈ ids) :
    (db.favorites.filter (·.articleId ∈ ids)).filter (·.articleId = id) =
      db.favorites.filter (·.articleId = id) :=
  Keyed.filter_filter_mem h

theorem favoritesRow_ok {rows : List ArticleFavorite} (h : rows.length ≤ maxRows) :
    favoritesRow viewerId rows = .ok
      { favoritesCount := rows.length
        favorited := viewerId.elim false fun id => 0 < (rows.filter (·.userId = id)).length } := by
  rw [favoritesRow, parseFavoritesCount, if_pos (isSafeInteger_of_le h)]
  rfl

/-- The count and the flag that the group of an article gives are those of the article alone. -/
theorem favorited_group :
    (viewerId.elim false fun user =>
      decide (0 < ((db.favorites.filter (·.articleId = id)).filter (·.userId = user)).length)) =
      (viewerId.bind fun user => findFavorite id user db).isSome := by
  cases viewerId with
  | none => rfl
  | some user =>
      rw [Bool.eq_iff_iff, Option.bind_some, isSome_findFavorite, Option.elim_some,
        decide_eq_true_eq, List.length_pos_iff_exists_mem]
      constructor
      · rintro ⟨⟨article, user'⟩, hf⟩
        simp only [List.mem_filter, decide_eq_true_eq] at hf
        obtain ⟨⟨hf, rfl⟩, rfl⟩ := hf
        exact hf
      · intro hf
        exact ⟨⟨id, user⟩, by simpa using hf⟩

theorem get_loadFavorites (viewerId : Option Uuid) (ids : List Uuid) (db : Tables) :
    ∃ favorites, loadFavorites ids viewerId db = .ok favorites ∧ ∀ id ∈ ids,
      ((favorites id).map (·.favoritesCount)).getD 0 = countFavorites id db ∧
      ((favorites id).map (·.favorited)).getD false =
        (viewerId.bind fun user => findFavorite id user db).isSome := by
  let entry (rows : List ArticleFavorite) : FavoritesEntry :=
    { favoritesCount := rows.length
      favorited := viewerId.elim false fun id => 0 < (rows.filter (·.userId = id)).length }
  let groups := Sql.groupBy (·.articleId) (db.favorites.filter (·.articleId ∈ ids))
  have hrows : ∀ g ∈ groups, (favoritesRow viewerId g.2).map (fun row => (g.1, row)) =
      .ok (g.1, entry g.2) := by
    intro g hg
    obtain ⟨⟨f, hf, hfg⟩, hrows⟩ := Sql.mem_groupBy.mp hg
    have hin : g.1 ∈ ids := hfg ▸ of_decide_eq_true (List.mem_filter.mp hf).2
    have hlen : g.2.length ≤ maxRows := by
      rw [hrows, filter_favorites hin, ← Tables.length_favoritedBy]
      exact (List.length_filter_le _ _).trans db.max_users
    rw [favoritesRow_ok hlen]
    rfl
  refine ⟨Map.ofEntries (groups.map fun g => (g.1, entry g.2)), ?_, fun id hid => ?_⟩
  · rw [loadFavorites, mapM_eq_pure hrows]
    rfl
  · have hkeys : ((groups.map fun g => (g.1, entry g.2)).map Prod.fst).Nodup := by
      rw [List.map_map]
      exact Sql.nodup_groupBy
    have hentry : (entry (db.favorites.filter (·.articleId = id))).favorited =
      (viewerId.bind fun user => findFavorite id user db).isSome := favorited_group
    by_cases hsome : ∃ f ∈ db.favorites.filter (·.articleId ∈ ids), f.articleId = id
    · have hgroup := Sql.mem_groupBy.mpr ⟨hsome, rfl⟩
      rw [filter_favorites hid] at hgroup
      rw [(Map.get_ofEntries hkeys).mpr (List.mem_map.mpr ⟨_, hgroup, rfl⟩)]
      exact ⟨rfl, hentry⟩
    -- an article nobody has favorited has no group, and gets the defaults
    · have hnil : db.favorites.filter (·.articleId = id) = [] := by
        rw [← filter_favorites hid, List.filter_eq_nil_iff]
        exact fun f hf h => hsome ⟨f, hf, by simpa using h⟩
      have hkey : id ∉ (groups.map fun g => (g.1, entry g.2)).map Prod.fst := by
        rw [List.map_map]
        rintro hmem
        obtain ⟨g, hg, rfl⟩ := List.mem_map.mp hmem
        exact hsome (Sql.mem_groupBy.mp hg).1
      rw [Map.get_ofEntries_eq_none hkey, ← hentry, hnil, countFavorites, hnil]
      exact ⟨rfl, by cases viewerId <;> rfl⟩

theorem mem_loadFollowingAuthors {viewer authorId : Uuid} {authorIds : List Uuid}
    (h : authorId ∈ authorIds) : authorId ∈ loadFollowingAuthors viewer authorIds db ↔
      (findFollow viewer authorId db).isSome := by
  simp only [loadFollowingAuthors, findFollow, List.mem_map, List.mem_filter, decide_eq_true_eq,
    List.find?_isSome]
  constructor
  · rintro ⟨f, ⟨hf, rfl, -⟩, rfl⟩
    exact ⟨f, hf, rfl⟩
  · rintro ⟨f, hf, rfl⟩
    exact ⟨_, ⟨hf, rfl, h⟩, rfl⟩

end

/-! ### Elements are details -/

section

variable {db : Tables} {xs : List (Article × User)} {viewer : Option User}
  {criteria : ArticleListQueryCriteria} {result : ArticleListQueryResult}

theorem hydrate_eq (db : Tables) (viewer : Option User)
    (hxs : ∀ x ∈ xs, x.2.id = x.1.authorId) :
    ∃ inputs, hydrate (xs.map toQueryArticle) (viewer.map (·.id)) db = .ok inputs ∧
      inputs.map toArticleFields = xs.map fun x => (detailOf db x.1 x.2 viewer).fields := by
  by_cases hnil : xs.map toQueryArticle = []
  · refine ⟨[], by rw [hydrate, if_pos hnil], ?_⟩
    rw [List.map_eq_nil_iff.mp hnil]
    rfl
  · obtain ⟨favorites, hok, hget⟩ :=
      get_loadFavorites (viewer.map (·.id)) ((xs.map toQueryArticle).map (·.id)) db
    let followingAuthors := (viewer.map (·.id)).elim [] fun id =>
      loadFollowingAuthors id ((xs.map toQueryArticle).map (·.author.id)).dedup db
    refine ⟨(xs.map toQueryArticle).map (hydrateOne
      (loadTags ((xs.map toQueryArticle).map (·.id)) db) favorites followingAuthors), ?_, ?_⟩
    · rw [hydrate, if_neg hnil]
      simp only [hok]
      rfl
    -- the ids the grouped queries ask for cover the article and its author
    rw [List.map_map, List.map_map]
    refine List.map_congr_left fun x hx => ?_
    have hid : x.1.id ∈ (xs.map toQueryArticle).map (·.id) := by
      rw [List.map_map]
      exact List.mem_map_of_mem hx
    have hauthor : x.1.authorId ∈ ((xs.map toQueryArticle).map (·.author.id)).dedup := by
      rw [List.mem_dedup, List.map_map, ← hxs x hx]
      exact List.mem_map_of_mem hx
    obtain ⟨hcount, hfavorited⟩ := hget x.1.id hid
    change toArticleFields (hydrateOne _ _ _ (toQueryArticle x)) =
      toArticleFields (listInput x.1 x.2 _)
    refine congrArg toArticleFields ?_
    simp only [hydrateOne, listInput, toQueryArticle, get_loadTags hid, hcount, hfavorited,
      ListSerializationInput.mk.injEq, ArticleSerializationContext.mk.injEq, true_and]
    cases viewer with
    | none => exact ⟨rfl, rfl⟩
    | some viewer =>
        refine ⟨rfl, ?_⟩
        refine Bool.eq_iff_iff.mpr (decide_eq_true_iff.trans ?_)
        rw [hxs x hx]
        exact mem_loadFollowingAuthors hauthor

/-- The elements are, one by one, what a read of their articles returns, without the body. -/
def ElementsAreDetails (db : Tables) (viewerUsername : Option Str)
    (articles : List ArticleListQueryArticle) (elements : List ArticleFields) : Prop :=
  List.Forall₂ (fun article element => ∃ detail,
    getBySlugPool article.slug viewerUsername db = .ok detail ∧ element = detail.fields)
    articles elements

theorem viewerOf_username (hviewer : ∀ v ∈ viewer, v ∈ db.users) :
    (viewer.map (·.username)).bind db.findUser = viewer ∧
      viewerOf db (viewer.map (·.username)) = viewer := by
  cases viewer with
  | none => exact ⟨rfl, rfl⟩
  | some v =>
      have h := Tables.findUser_eq_some.mpr ⟨hviewer v rfl, rfl⟩
      exact ⟨h, h⟩

theorem elementsAreDetails (hviewer : ∀ v ∈ viewer, v ∈ db.users)
    (hxs : ∀ x ∈ xs, x.1 ∈ db.articles ∧ x.2 ∈ db.users ∧ x.2.id = x.1.authorId) :
    ElementsAreDetails db (viewer.map (·.username)) (xs.map toQueryArticle)
      (xs.map fun x => (detailOf db x.1 x.2 viewer).fields) := by
  rw [ElementsAreDetails, List.forall₂_map_left_iff, List.forall₂_map_right_iff,
    List.forall₂_same]
  intro x hx
  obtain ⟨ha, hu, hau⟩ := hxs x hx
  have hv := (viewerOf_username hviewer).2
  refine ⟨_, getBySlugPool_ok ha hu hau ?_, by rw [hv]⟩
  rw [hv, Option.isSome_map]
  exact id

theorem load_of_list {followedAuthorsOnly : Bool} (hviewer : ∀ v ∈ viewer, v ∈ db.users)
    (hfeed : followedAuthorsOnly → viewer.isSome)
    (hvalid : validPage criteria.offset criteria.limit) : ∃ result elements,
      ArticleListQueryService.list (if followedAuthorsOnly then
        { criteria with followedByUserId := viewer.map (·.id) } else criteria) db = .ok result ∧
      load criteria (viewer.map (·.username)) followedAuthorsOnly db =
        .ok { articles := elements, articlesCount := result.articlesCount } ∧
      ElementsAreDetails db (viewer.map (·.username)) result.articles elements := by
  let queryCriteria : ArticleListQueryCriteria := if followedAuthorsOnly then
    { criteria with followedByUserId := viewer.map (·.id) } else criteria
  have hpage : validPage queryCriteria.offset queryCriteria.limit := by
    cases followedAuthorsOnly <;> exact hvalid
  have hlisting := isListing_orderBy queryCriteria.toListFilters db
  have hlist := list_of_isListing hlisting hpage
  generalize Sql.orderBy newestFirst (queryRows queryCriteria.toListFilters db) = listing at *
  generalize hxs : Sql.page queryCriteria.offset.toNat queryCriteria.limit.toNat listing = xs at *
  have hmem : ∀ x ∈ xs, x.1 ∈ db.articles ∧ x.2 ∈ db.users ∧ x.2.id = x.1.authorId := by
    intro x hx
    rw [← hxs] at hx
    obtain ⟨ha, -, hu⟩ := (hlisting.mem x.1 x.2).mp (List.mem_of_mem_drop (List.mem_of_mem_take hx))
    exact ⟨ha, hu⟩
  obtain ⟨inputs, hok, hinputs⟩ := hydrate_eq db viewer fun x hx => (hmem x hx).2.2
  refine ⟨_, _, hlist, ?_, elementsAreDetails hviewer hmem⟩
  have hload : load criteria (viewer.map (·.username)) followedAuthorsOnly db =
      ((ArticleListQueryService.list queryCriteria db).bind fun result =>
        complete result (viewer.map (·.id)) db).mapError wrapListError := by
    rw [load]
    simp only [(viewerOf_username hviewer).1]
    cases followedAuthorsOnly with
    | false => cases viewer <;> rfl
    | true =>
        obtain ⟨v, rfl⟩ := Option.isSome_iff_exists.mp (hfeed rfl)
        rfl
  rw [hload, hlist]
  change (complete _ (viewer.map (·.id)) db).mapError wrapListError = _
  rw [complete]
  by_cases hnil : xs.map toQueryArticle = []
  · rw [if_pos hnil, List.map_eq_nil_iff.mp hnil]
    rfl
  · rw [if_neg hnil, hok, ← hinputs]
    rfl

end

/-- **List elements are details.**  For every valid request, what `list` and `feed` serialize for
the articles of the page is what `getBySlug` returns for them to the same viewer, without the body;
and `getBySlug` reads the same with and without a manager. -/
theorem list_elements_eq_getBySlug (db : Tables) (criteria : ArticleListQueryCriteria)
    (viewer : Option User) (hviewer : ∀ v ∈ viewer, v ∈ db.users)
    (hvalid : validPage criteria.offset criteria.limit) :
    (∃ result elements, ArticleListQueryService.list criteria db = .ok result ∧
      ArticleListService.list criteria (viewer.map (·.username)) db =
        .ok { articles := elements, articlesCount := result.articlesCount } ∧
      ElementsAreDetails db (viewer.map (·.username)) result.articles elements) ∧
    (∀ v ∈ viewer, ∃ result elements,
      ArticleListQueryService.list { criteria with followedByUserId := some v.id } db = .ok result ∧
      ArticleListService.feed criteria v.username db =
        .ok { articles := elements, articlesCount := result.articlesCount } ∧
      ElementsAreDetails db (some v.username) result.articles elements) ∧
    ∀ slug viewerUsername, (getBySlug slug viewerUsername).exec db =
      (getBySlugPool slug viewerUsername db).map fun detail => (detail, db) := by
  refine ⟨?_, ?_, fun slug viewerUsername => exec_getBySlug⟩
  · have h := @load_of_list db viewer criteria false hviewer nofun hvalid
    rwa [if_neg (by decide)] at h
  · rintro v rfl
    have h := @load_of_list db _ criteria true hviewer (fun _ => rfl) hvalid
    rwa [if_pos rfl] at h

/-- A page of the sample, to its second user. -/
theorem list_elements_eq_getBySlug_sample :
    (∃ result elements, ArticleListQueryService.list
        ⟨⟨some ['t'], none, none, none⟩, 0, 20⟩ Tables.sample = .ok result ∧
      ArticleListService.list ⟨⟨some ['t'], none, none, none⟩, 0, 20⟩ (some ['v']) Tables.sample =
        .ok { articles := elements, articlesCount := result.articlesCount } ∧
      ElementsAreDetails Tables.sample (some ['v']) result.articles elements) :=
  (list_elements_eq_getBySlug Tables.sample ⟨⟨some ['t'], none, none, none⟩, 0, 20⟩
    (some ⟨2, ['v'], some ['b'], none⟩) (by decide) (by decide)).1

end MediumClone.Articles
