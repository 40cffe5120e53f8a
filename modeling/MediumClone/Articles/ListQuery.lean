import MediumClone.Articles.Read
import Mathlib.Data.Prod.Lex
import Mathlib.Order.OrderDual

/-!
# Articles — ListQuery

`ArticleListQueryService.list` (`src/articles/article-list-query.service.ts`): one query with the
given filters, counted over its distinct articles, then ordered and cut to a page.

`getMany` with `skip` and `take` runs twice: the first query cuts the distinct ids to the page, the
second loads the rows with these ids in the same order.

**The specification.**  `IsListing` says of a list that it holds the articles that satisfy the
filters, each once with its author, from the newest to the oldest, by id where they are equally old.
There is one such list, and `list` returns its length and the requested page of it
(`list_eq_page`).
-/

namespace MediumClone.Articles
open Js Sys Schema

/-! ### The service -/

structure ListFilters where
  tag : Option Str
  authorUsername : Option Str
  favoritedUsername : Option Str
  followedByUserId : Option Uuid
  deriving DecidableEq

structure ArticleListQueryCriteria extends ListFilters where
  offset : ℤ
  limit : ℤ
  deriving DecidableEq

structure ArticleListQueryArticle where
  id : Uuid
  authorId : Uuid
  slug : Str
  title : Str
  description : Str
  createdAt : Date
  updatedAt : Date
  author : User
  deriving DecidableEq

structure ArticleListQueryResult where
  articles : List ArticleListQueryArticle
  articlesCount : ℕ
  deriving DecidableEq

inductive ListError where
  | validation
  | queryPersistence
  | viewerNotFound
  | persistence
  deriving DecidableEq

def maxSafeInteger : ℤ := 2 ^ 53 - 1

def isSafeInteger (n : ℤ) : Bool := -maxSafeInteger ≤ n ∧ n ≤ maxSafeInteger

theorem isSafeInteger_iff {n : ℤ} :
    isSafeInteger n ↔ -maxSafeInteger ≤ n ∧ n ≤ maxSafeInteger :=
  decide_eq_true_iff

/-- What `validateCriteria` lets pass. -/
def validPage (offset limit : ℤ) : Prop :=
  isSafeInteger offset ∧ 0 ≤ offset ∧ isSafeInteger limit ∧ 1 ≤ limit ∧ limit ≤ 100

instance (offset limit : ℤ) : Decidable (validPage offset limit) := by
  unfold validPage
  infer_instance

/-- The conditions that `addFilters` puts on an article and its author. -/
def addFilters (criteria : ListFilters) (db : Tables) (x : Article × User) : Bool :=
  (criteria.followedByUserId.all fun id =>
    db.follows.any fun f => f.followerId = id ∧ f.followingId = x.1.authorId) &&
  (criteria.authorUsername.all fun username => x.2.username = username) &&
  (criteria.tag.all fun name =>
    (Sql.innerJoin db.articleTags db.tags fun l t => t.id = l.tagId).any fun y =>
      y.1.articleId = x.1.id ∧ y.2.name = name) &&
  (criteria.favoritedUsername.all fun username =>
    (Sql.innerJoin db.favorites db.users fun f u => u.id = f.userId).any fun y =>
      y.1.articleId = x.1.id ∧ y.2.username = username)

/-- The rows of the query. -/
def queryRows (criteria : ListFilters) (db : Tables) : List (Article × User) :=
  (Sql.innerJoin db.articles db.users fun a u => u.id = a.authorId).filter (addFilters criteria db)

/-- `ORDER BY created_at DESC, id DESC`. -/
def newestFirst (x : Article × User) : (ℤ ×ₗ ℕ)ᵒᵈ := .toDual (toLex (x.1.createdAt, x.1.id))

/-- `skip`, `take` and `getMany`. -/
def getMany (offset limit : ℕ) (rows : List (Article × User)) : List (Article × User) :=
  let ids := Sql.page offset limit ((Sql.orderBy newestFirst rows).map (·.1.id)).dedup
  Sql.orderBy newestFirst (rows.filter fun x => x.1.id ∈ ids)

/-- The selected columns. -/
def toQueryArticle (x : Article × User) : ArticleListQueryArticle where
  id := x.1.id
  authorId := x.1.authorId
  slug := x.1.slug
  title := x.1.title
  description := x.1.description
  createdAt := toDate x.1.createdAt
  updatedAt := toDate x.1.updatedAt
  author := x.2

def ArticleListQueryService.list (criteria : ArticleListQueryCriteria) (db : Tables) :
    Except ListError ArticleListQueryResult :=
  if validPage criteria.offset criteria.limit then
    let rows := queryRows criteria.toListFilters db
    let articlesCount := Sql.countDistinct (·.1.id) rows
    if isSafeInteger articlesCount then
      .ok { articles := (getMany criteria.offset.toNat criteria.limit.toNat rows).map toQueryArticle
            articlesCount := articlesCount }
    else .error .queryPersistence
  else .error .validation

/-! ### The specification -/

/-- The article satisfies every filter that is given. -/
structure Satisfies (criteria : ListFilters) (db : Tables) (a : Article) : Prop where
  author : ∀ username ∈ criteria.authorUsername,
    ∃ u ∈ db.users, u.id = a.authorId ∧ u.username = username
  tag : ∀ name ∈ criteria.tag,
    ∃ l ∈ db.articleTags, l.articleId = a.id ∧ ∃ t ∈ db.tags, t.id = l.tagId ∧ t.name = name
  favorited : ∀ username ∈ criteria.favoritedUsername,
    ∃ f ∈ db.favorites, f.articleId = a.id ∧ ∃ u ∈ db.users, u.id = f.userId ∧ u.username = username
  followed : ∀ id ∈ criteria.followedByUserId, ⟨id, a.authorId⟩ ∈ db.follows

/-- `a` comes before `b`. -/
def Before (a b : Article) : Prop :=
  b.createdAt < a.createdAt ∨ b.createdAt = a.createdAt ∧ b.id < a.id

/-- The articles that satisfy the filters, with their authors, each once and in order. -/
structure IsListing (criteria : ListFilters) (db : Tables) (listing : List (Article × User)) :
    Prop where
  mem : ∀ a u, (a, u) ∈ listing ↔
    a ∈ db.articles ∧ Satisfies criteria db a ∧ u ∈ db.users ∧ u.id = a.authorId
  sorted : listing.Pairwise fun x y => Before x.1 y.1

/-- The requests for consecutive pages of the sizes `limits`. -/
def consecutivePages (filters : ListFilters) (db : Tables) :
    ℕ → List ℕ → List (Except ListError ArticleListQueryResult)
  | _, [] => []
  | offset, limit :: limits =>
    ArticleListQueryService.list { filters with offset := offset, limit := limit } db ::
      consecutivePages filters db (offset + limit) limits

/-! ### The query meets it -/

section

variable {criteria : ListFilters} {db : Tables} {a b : Article} {u : User}
  {x y : Article × User} {rows : List (Article × User)} {offset limit : ℕ}

/-- For an article with its author, the conditions of the query are the filters. -/
theorem addFilters_iff (hu : u ∈ db.users) (hau : u.id = a.authorId) :
    addFilters criteria db (a, u) ↔ Satisfies criteria db a := by
  simp only [addFilters, Bool.and_eq_true, Option.all_eq_true, List.any_eq_true, Prod.exists,
    Sql.mem_innerJoin, decide_eq_true_eq]
  constructor
  · rintro ⟨⟨⟨hfollow, hauthor⟩, htag⟩, hfavorite⟩
    constructor
    · exact fun name h => ⟨u, hu, hau, hauthor name h⟩
    · intro name h
      obtain ⟨l, t, ⟨hl, ht, hlt⟩, hla, htn⟩ := htag name h
      exact ⟨l, hl, hla, t, ht, hlt, htn⟩
    · intro name h
      obtain ⟨f, v, ⟨hf, hv, hfv⟩, hfa, hvn⟩ := hfavorite name h
      exact ⟨f, hf, hfa, v, hv, hfv, hvn⟩
    · intro id h
      obtain ⟨f, hf, rfl, hfa⟩ := hfollow id h
      exact hfa ▸ hf
  · rintro ⟨hauthor, htag, hfavorite, hfollow⟩
    refine ⟨⟨⟨?_, ?_⟩, ?_⟩, ?_⟩
    · exact fun id h => ⟨_, hfollow id h, rfl, rfl⟩
    -- the user of that name who wrote the article is the one it was joined with
    · intro name h
      obtain ⟨v, hv, hva, hvn⟩ := hauthor name h
      rwa [Keyed.eq_of_key db.pk_users hu hv (hau.trans hva.symm)]
    · intro name h
      obtain ⟨l, hl, hla, t, ht, hlt, htn⟩ := htag name h
      exact ⟨l, t, ⟨hl, ht, hlt⟩, hla, htn⟩
    · intro name h
      obtain ⟨f, hf, hfa, v, hv, hfv, hvn⟩ := hfavorite name h
      exact ⟨f, v, ⟨hf, hv, hfv⟩, hfa, hvn⟩

theorem mem_queryRows : (a, u) ∈ queryRows criteria db ↔
    a ∈ db.articles ∧ Satisfies criteria db a ∧ u ∈ db.users ∧ u.id = a.authorId := by
  simp only [queryRows, List.mem_filter, Sql.mem_innerJoin, decide_eq_true_eq]
  constructor
  · rintro ⟨⟨ha, hu, hau⟩, hf⟩
    exact ⟨ha, (addFilters_iff hu hau).mp hf, hu, hau⟩
  · rintro ⟨ha, hs, hu, hau⟩
    exact ⟨⟨ha, hu, hau⟩, (addFilters_iff hu hau).mpr hs⟩

theorem nodup_queryRows (criteria : ListFilters) (db : Tables) :
    ((queryRows criteria db).map (·.1.id)).Nodup := by
  refine Keyed.filter ?_
  have hfst := Sql.map_fst_innerJoin db.pk_users db.fk_articles_author
  have hid := db.pk_articles
  rw [← hfst, List.map_map] at hid
  exact hid

theorem nodup_newestFirst (h : (rows.map (·.1.id)).Nodup) : (rows.map newestFirst).Nodup := by
  refine List.Nodup.of_map (fun k => (ofLex k.ofDual).2) ?_
  rw [List.map_map]
  exact h

theorem newestFirst_lt : newestFirst x < newestFirst y ↔ Before x.1 y.1 := by
  simp only [newestFirst, OrderDual.toDual_lt_toDual, Prod.Lex.toLex_lt_toLex, Before]

/-- The second query loads the page that the first one cut. -/
theorem getMany_eq_page (h : (rows.map (·.1.id)).Nodup) :
    getMany offset limit rows = Sql.page offset limit (Sql.orderBy newestFirst rows) := by
  have hids : ((Sql.orderBy newestFirst rows).map (·.1.id)).Nodup :=
    (Sql.perm_orderBy.map _).nodup_iff.mpr h
  rw [getMany, hids.dedup, ← Sql.filter_orderBy (nodup_newestFirst h), Sql.page_map]
  exact Sql.filter_mem_page hids

theorem count_le_maxRows : (queryRows criteria db).length ≤ maxRows := by
  have hfst := Sql.map_fst_innerJoin db.pk_users db.fk_articles_author
  calc (queryRows criteria db).length
      ≤ (Sql.innerJoin db.articles db.users fun a u => u.id = a.authorId).length :=
        List.length_filter_le _ _
    _ = db.articles.length := by rw [← List.length_map, hfst]
    _ ≤ maxRows := db.max_articles

theorem isListing_orderBy (criteria : ListFilters) (db : Tables) :
    IsListing criteria db (Sql.orderBy newestFirst (queryRows criteria db)) where
  mem a u := by rw [Sql.mem_orderBy, mem_queryRows]
  sorted := by
    have hn := nodup_newestFirst (nodup_queryRows criteria db)
    have hperm : (Sql.orderBy newestFirst (queryRows criteria db)).Perm (queryRows criteria db) :=
      Sql.perm_orderBy
    have hn' := (hperm.map newestFirst).nodup_iff.mpr hn
    refine (Sql.sorted_orderBy.and (List.pairwise_map.mp hn')).imp ?_
    rintro x y ⟨hle, hne⟩
    exact newestFirst_lt.mp (lt_of_le_of_ne hle hne)

theorem IsListing.eq_orderBy {listing : List (Article × User)}
    (h : IsListing criteria db listing) :
    listing = Sql.orderBy newestFirst (queryRows criteria db) := by
  have hn := nodup_queryRows criteria db
  have hlt : listing.Pairwise fun x y => newestFirst x < newestFirst y :=
    h.sorted.imp newestFirst_lt.mpr
  have hnodup : listing.Nodup := hlt.imp fun hxy h => absurd (congrArg newestFirst h) hxy.ne
  refine Sql.eq_orderBy (nodup_newestFirst hn) ?_ (hlt.imp le_of_lt)
  rw [List.perm_ext_iff_of_nodup hnodup (List.Nodup.of_map _ hn)]
  rintro ⟨a, u⟩
  rw [h.mem, mem_queryRows]

theorem isSafeInteger_of_le {n : ℕ} (h : n ≤ maxRows) : isSafeInteger n := by
  rw [maxRows] at h
  rw [isSafeInteger_iff, maxSafeInteger]
  omega

theorem list_of_isListing {listing : List (Article × User)} (h : IsListing criteria db listing)
    {offset limit : ℤ} (hvalid : validPage offset limit) :
    ArticleListQueryService.list { criteria with offset := offset, limit := limit } db =
      .ok { articles := (Sql.page offset.toNat limit.toNat listing).map toQueryArticle
            articlesCount := listing.length } := by
  have hn := nodup_queryRows criteria db
  have hcount : Sql.countDistinct (·.1.id) (queryRows criteria db) = listing.length := by
    rw [Sql.countDistinct_of_nodup hn, h.eq_orderBy, Sql.length_orderBy]
  have hsafe : isSafeInteger listing.length := by
    rw [← hcount, Sql.countDistinct_of_nodup hn]
    exact isSafeInteger_of_le count_le_maxRows
  rw [ArticleListQueryService.list]
  simp only [if_pos hvalid, hcount, if_pos hsafe, getMany_eq_page hn, ← h.eq_orderBy]

/-- Consecutive requests return consecutive pages. -/
theorem consecutivePages_eq {listing : List (Article × User)} (h : IsListing criteria db listing)
    {limits : List ℕ} (hlimits : ∀ limit ∈ limits, 1 ≤ limit ∧ limit ≤ 100)
    (hsum : ((offset + limits.sum : ℕ) : ℤ) ≤ maxSafeInteger) :
    consecutivePages criteria db offset limits = (Sql.pages offset limits listing).map fun page =>
      .ok { articles := page.map toQueryArticle, articlesCount := listing.length } := by
  induction limits generalizing offset with
  | nil => rfl
  | cons limit limits ih =>
      obtain ⟨hone, hhundred⟩ := hlimits limit List.mem_cons_self
      rw [List.sum_cons] at hsum
      have hvalid : validPage offset limit := by
        simp only [validPage, isSafeInteger_iff, maxSafeInteger] at hsum ⊢
        omega
      have hrest := @ih (offset + limit) (fun l hl => hlimits l (List.mem_cons_of_mem limit hl))
        (by rwa [add_assoc])
      rw [consecutivePages, list_of_isListing h hvalid, hrest, Sql.pages, List.map_cons,
        Int.toNat_natCast, Int.toNat_natCast]

end

/-- **The list query is its specification.**  In every state of the database there is one listing of
the articles that satisfy the filters.  Every valid request returns its page of the listing and the
length of the listing.  Consecutive pages, of any sizes, list it from the start; a page past the
end is empty. -/
theorem list_eq_page (filters : ListFilters) (db : Tables) :
    ∃ listing, IsListing filters db listing ∧
      (∀ other, IsListing filters db other → other = listing) ∧
      (∀ offset limit, validPage offset limit →
        ArticleListQueryService.list { filters with offset := offset, limit := limit } db =
          .ok { articles := (Sql.page offset.toNat limit.toNat listing).map toQueryArticle
                articlesCount := listing.length }) ∧
      (∀ limits : List ℕ, (∀ limit ∈ limits, 1 ≤ limit ∧ limit ≤ 100) →
        (limits.sum : ℤ) ≤ maxSafeInteger →
        consecutivePages filters db 0 limits = ((Sql.pages 0 limits listing).map fun page =>
          .ok { articles := page.map toQueryArticle, articlesCount := listing.length }) ∧
        (listing.length ≤ limits.sum → (Sql.pages 0 limits listing).flatten = listing)) ∧
      (∀ offset limit, validPage offset limit → listing.length ≤ offset →
        ArticleListQueryService.list { filters with offset := offset, limit := limit } db =
          .ok { articles := [], articlesCount := listing.length }) := by
  have h := isListing_orderBy filters db
  refine ⟨_, h, fun other ho => ho.eq_orderBy, fun offset limit hv => list_of_isListing h hv,
    ?_, ?_⟩
  · intro limits hlimits hsum
    refine ⟨consecutivePages_eq h hlimits (by rwa [Nat.zero_add]), fun hlen => ?_⟩
    rw [Sql.flatten_pages, Sql.page, List.drop_zero, List.take_of_length_le hlen]
  · intro offset limit hv hpast
    rw [list_of_isListing h hv, Sql.page_eq_nil (by omega), List.map_nil]

end MediumClone.Articles
