import MediumClone.Blog.World

/-!
# Blog — Abstraction

The world that the tables stand for (`world`): ids are read as the names they belong to.  The
constraints of the schema are what makes it a `World`.

What the service reads from the tables is what the views show of their world: `detail_eq`,
`fields_eq`, `comment_eq`, `profile_eq`, and `lists_of_list`, `thread_commentRows` for listings.
-/

noncomputable section

namespace MediumClone.Blog
open Js Sys Schema Articles Comments Profiles
open scoped Classical

/-! ### Names for ids -/

def nameOf (db : Tables) (userId : Uuid) : Str :=
  ((db.users.find? (·.id = userId)).map (·.username)).getD []

def slugOf (db : Tables) (articleId : Uuid) : Str :=
  ((db.articles.find? (·.id = articleId)).map (·.slug)).getD []

def accountOf (u : User) : Account where
  bio := u.bio
  image := u.image

def postOf (db : Tables) (a : Article) : Post where
  id := a.id
  author := nameOf db a.authorId
  title := a.title
  description := a.description
  body := a.body
  tags := loadOrderedTags a.id db
  createdAt := a.createdAt
  updatedAt := a.updatedAt

def remarkOf (db : Tables) (c : Comment) : Remark where
  slug := slugOf db c.articleId
  author := nameOf db c.authorId
  body := c.body
  createdAt := c.createdAt
  updatedAt := c.updatedAt

/-- The user and the article of a favorite. -/
def favoriteName (db : Tables) (f : ArticleFavorite) : Str × Str :=
  (nameOf db f.userId, slugOf db f.articleId)

def followName (db : Tables) (f : UserFollow) : Str × Str :=
  (nameOf db f.followerId, nameOf db f.followingId)

def content (db : Tables) : Content where
  account username := (db.findUser username).map accountOf
  post slug := (db.findArticle slug).map (postOf db)
  favorites := favoriteName db '' {f | f ∈ db.favorites}
  follows := followName db '' {f | f ∈ db.follows}
  remark id := (db.comments.find? (·.id = id)).map (remarkOf db)
  tags := {name | ∃ t ∈ db.tags, t.name = name}

section

variable {db : Tables} {u v : User} {a : Article} {c : Comment} {slug username : Str} {p : Post}
  {r : Remark} {id : ℕ}

theorem nameOf_eq (hu : u ∈ db.users) : nameOf db u.id = u.username := by
  rw [nameOf, (Keyed.find_eq_some db.pk_users).mpr ⟨hu, rfl⟩]
  rfl

theorem slugOf_eq (ha : a ∈ db.articles) : slugOf db a.id = a.slug := by
  rw [slugOf, (Keyed.find_eq_some db.pk_articles).mpr ⟨ha, rfl⟩]
  rfl

/-- The author of an article. -/
theorem exists_author (ha : a ∈ db.articles) : ∃ u ∈ db.users, u.id = a.authorId ∧
    nameOf db a.authorId = u.username := by
  obtain ⟨u, hu, hid⟩ := db.fk_articles_author a ha
  exact ⟨u, hu, hid, hid ▸ nameOf_eq hu⟩

theorem user_eq (hu : u ∈ db.users) (hv : v ∈ db.users) (h : u.username = v.username) : u = v :=
  Keyed.eq_of_key db.uq_users_username hu hv h

theorem article_eq {b : Article} (ha : a ∈ db.articles) (hb : b ∈ db.articles)
    (h : a.slug = b.slug) : a = b :=
  Keyed.eq_of_key db.uq_articles_slug ha hb h

/-! ### What the world holds -/

theorem account_eq : (content db).account username = (db.findUser username).map accountOf := rfl

theorem post_eq : (content db).post slug = (db.findArticle slug).map (postOf db) := rfl

theorem account_of_mem (hu : u ∈ db.users) :
    (content db).account u.username = some (accountOf u) := by
  rw [account_eq, Tables.findUser_eq_some.mpr ⟨hu, rfl⟩]
  rfl

theorem isSome_account : ((content db).account username).isSome ↔ ∃ u ∈ db.users,
    u.username = username := by
  rw [content, Option.isSome_map, Option.isSome_iff_exists]
  simp only [Tables.findUser_eq_some]

theorem post_eq_some : (content db).post slug = some p ↔
    ∃ a ∈ db.articles, a.slug = slug ∧ postOf db a = p := by
  rw [content, Option.map_eq_some_iff]
  simp only [Tables.findArticle_eq_some, and_assoc]

theorem post_of_mem (ha : a ∈ db.articles) : (content db).post a.slug = some (postOf db a) :=
  post_eq_some.mpr ⟨a, ha, rfl, rfl⟩

theorem isSome_post : ((content db).post slug).isSome ↔ ∃ a ∈ db.articles, a.slug = slug := by
  rw [content, Option.isSome_map, Option.isSome_iff_exists]
  simp only [Tables.findArticle_eq_some]

theorem favoriteName_mk (hu : u ∈ db.users) (ha : a ∈ db.articles) :
    favoriteName db ⟨a.id, u.id⟩ = (u.username, a.slug) := by
  rw [favoriteName, nameOf_eq hu, slugOf_eq ha]

theorem followName_mk (hu : u ∈ db.users) (hv : v ∈ db.users) :
    followName db ⟨u.id, v.id⟩ = (u.username, v.username) := by
  rw [followName, nameOf_eq hu, nameOf_eq hv]

/-- A favorite of the world is a row, of a user and an article. -/
theorem favorite_iff : (username, slug) ∈ (content db).favorites ↔ ∃ u ∈ db.users,
    ∃ a ∈ db.articles, u.username = username ∧ a.slug = slug ∧ ⟨a.id, u.id⟩ ∈ db.favorites := by
  constructor
  · rintro ⟨f, hf, heq⟩
    obtain ⟨rfl, rfl⟩ := Prod.mk.inj heq
    obtain ⟨u, hu, hid⟩ := db.fk_article_favorites_user f hf
    obtain ⟨a, ha, hid'⟩ := db.fk_article_favorites_article f hf
    rw [← hid, ← hid', nameOf_eq hu, slugOf_eq ha]
    refine ⟨u, hu, a, ha, rfl, rfl, ?_⟩
    rwa [hid, hid']
  · rintro ⟨u, hu, a, ha, rfl, rfl, hf⟩
    exact ⟨_, hf, favoriteName_mk hu ha⟩

theorem follow_iff {follower : Str} : (follower, username) ∈ (content db).follows ↔ ∃ u ∈ db.users,
    ∃ v ∈ db.users, u.username = follower ∧ v.username = username ∧
      ⟨u.id, v.id⟩ ∈ db.follows := by
  constructor
  · rintro ⟨f, hf, heq⟩
    obtain ⟨rfl, rfl⟩ := Prod.mk.inj heq
    obtain ⟨u, hu, hid⟩ := db.fk_user_follows_follower f hf
    obtain ⟨v, hv, hid'⟩ := db.fk_user_follows_following f hf
    rw [← hid, ← hid', nameOf_eq hu, nameOf_eq hv]
    refine ⟨u, hu, v, hv, rfl, rfl, ?_⟩
    rwa [hid, hid']
  · rintro ⟨u, hu, v, hv, rfl, rfl, hf⟩
    exact ⟨_, hf, followName_mk hu hv⟩

theorem mem_favorites (hu : u ∈ db.users) (ha : a ∈ db.articles) :
    (u.username, a.slug) ∈ (content db).favorites ↔ ⟨a.id, u.id⟩ ∈ db.favorites := by
  rw [favorite_iff]
  constructor
  · rintro ⟨v, hv, b, hb, hname, hslug, hf⟩
    obtain rfl := user_eq hv hu hname
    obtain rfl := article_eq hb ha hslug
    exact hf
  · exact fun hf => ⟨u, hu, a, ha, rfl, rfl, hf⟩

theorem mem_follows (hu : u ∈ db.users) (hv : v ∈ db.users) :
    (u.username, v.username) ∈ (content db).follows ↔ ⟨u.id, v.id⟩ ∈ db.follows := by
  rw [follow_iff]
  constructor
  · rintro ⟨u', hu', v', hv', hname, hname', hf⟩
    obtain rfl := user_eq hu' hu hname
    obtain rfl := user_eq hv' hv hname'
    exact hf
  · exact fun hf => ⟨u, hu, v, hv, rfl, rfl, hf⟩

theorem remark_eq_some : (content db).remark id = some r ↔
    ∃ c ∈ db.comments, c.id = id ∧ remarkOf db c = r := by
  rw [content, Option.map_eq_some_iff]
  simp only [Keyed.find_eq_some db.pk_comments, and_assoc]

theorem name_mem_tags {name : Str} (h : name ∈ loadOrderedTags id db) :
    name ∈ (content db).tags := by
  rw [loadOrderedTags_eq_map] at h
  obtain ⟨l, hl, rfl⟩ := List.mem_map.mp h
  have hl := List.mem_of_mem_filter (Sql.mem_orderBy.mp hl)
  obtain ⟨t, ht, htl⟩ := db.fk_article_tags_tag l hl
  exact ⟨t, ht, by rw [tagOf_eq ht htl]⟩

end

/-- The constraints of the schema keep the world together. -/
def world (db : Tables) : World where
  toContent := content db
  account_nil := by
    rw [account_eq, findUser_nil]
    rfl
  post_author := by
    intro slug p hp
    obtain ⟨a, ha, -, rfl⟩ := post_eq_some.mp hp
    obtain ⟨u, hu, -, hname⟩ := exists_author ha
    exact isSome_account.mpr ⟨u, hu, hname.symm⟩
  post_tags := by
    intro slug p hp name hname
    obtain ⟨a, -, -, rfl⟩ := post_eq_some.mp hp
    exact name_mem_tags hname
  post_id := by
    intro slug slug' p p' hp hp' hid
    obtain ⟨a, ha, rfl, rfl⟩ := post_eq_some.mp hp
    obtain ⟨b, hb, rfl, rfl⟩ := post_eq_some.mp hp'
    rw [Tables.article_ext ha hb hid]
  favorite_known := by
    intro username slug h
    obtain ⟨u, hu, a, ha, hname, hslug, -⟩ := favorite_iff.mp h
    exact ⟨isSome_account.mpr ⟨u, hu, hname⟩, isSome_post.mpr ⟨a, ha, hslug⟩⟩
  follow_known := by
    intro follower username h
    obtain ⟨u, hu, v, hv, hname, hname', -⟩ := follow_iff.mp h
    exact ⟨isSome_account.mpr ⟨u, hu, hname⟩, isSome_account.mpr ⟨v, hv, hname'⟩⟩
  follow_other := by
    intro username h
    obtain ⟨u, hu, v, hv, rfl, hname, hf⟩ := follow_iff.mp h
    obtain rfl := user_eq hv hu hname
    exact db.chk_user_follows _ hf rfl
  remark_known := by
    intro id r hr
    obtain ⟨c, hc, -, rfl⟩ := remark_eq_some.mp hr
    obtain ⟨u, hu, hid⟩ := db.fk_comments_author c hc
    obtain ⟨a, ha, hid'⟩ := db.fk_comments_article c hc
    refine ⟨isSome_account.mpr ⟨u, hu, ?_⟩, isSome_post.mpr ⟨a, ha, ?_⟩⟩
    · rw [remarkOf, ← hid, nameOf_eq hu]
    · rw [remarkOf, ← hid', slugOf_eq ha]

@[simp] theorem toContent_world (db : Tables) : (world db).toContent = content db := rfl

/-! ### Views -/

section

variable {db : Tables} {u v : User} {a : Article} {c : Comment} {viewer : Option User}

/-- The name that a viewer is known by. -/
def viewerName (viewer : Option User) : Option Str := viewer.map (·.username)

theorem follows_iff (hviewer : ∀ v ∈ viewer, v ∈ db.users) (hu : u ∈ db.users) :
    (world db).Follows (viewerName viewer) u.username ↔
      (viewer.bind fun v => findFollow v.id u.id db).isSome := by
  cases viewer with
  | none => simp [World.Follows, viewerName]
  | some v =>
      have hv := hviewer v rfl
      simp only [World.Follows, viewerName, Option.map_some, Option.mem_def, Option.some.injEq,
        exists_eq_left', Option.bind_some]
      rw [toContent_world, mem_follows hv hu]
      simp [findFollow]

theorem favorited_iff (hviewer : ∀ v ∈ viewer, v ∈ db.users) (ha : a ∈ db.articles) :
    (world db).Favorited (viewerName viewer) a.slug ↔
      (viewer.bind fun v => findFavorite a.id v.id db).isSome := by
  cases viewer with
  | none => simp [World.Favorited, viewerName]
  | some v =>
      have hv := hviewer v rfl
      simp only [World.Favorited, viewerName, Option.map_some, Option.mem_def, Option.some.injEq,
        exists_eq_left', Option.bind_some]
      rw [toContent_world, mem_favorites hv ha, isSome_findFavorite]

/-- The count of the rows is the number of users who have the article favorited. -/
theorem ncard_favorites (ha : a ∈ db.articles) :
    {username | (username, a.slug) ∈ (content db).favorites}.ncard = countFavorites a.id db := by
  have hset : {username | (username, a.slug) ∈ (content db).favorites} =
      ↑((Tables.favoritedBy a.id db).map (·.username)).toFinset := by
    ext username
    simp only [Set.mem_ofPred_eq, favorite_iff, List.coe_toFinset, List.mem_map,
      Tables.favoritedBy, List.mem_filter, decide_eq_true_eq]
    constructor
    · rintro ⟨u, hu, b, hb, rfl, hslug, hf⟩
      obtain rfl := article_eq hb ha hslug
      exact ⟨u, ⟨hu, hf⟩, rfl⟩
    · rintro ⟨u, ⟨hu, hf⟩, rfl⟩
      exact ⟨u, hu, a, ha, rfl, rfl, hf⟩
  have hnodup : ((Tables.favoritedBy a.id db).map (·.username)).Nodup :=
    Keyed.filter db.uq_users_username
  rw [hset, Set.ncard_coe_finset, List.toFinset_card_of_nodup hnodup, List.length_map,
    Tables.length_favoritedBy, countFavorites]

theorem profile_eq {name : Option Str} {following : Bool} (hu : u ∈ db.users)
    (h : following = true ↔ (world db).Follows name u.username) :
    (world db).profile name u.username = ⟨u.username, u.bio, u.image, following⟩ := by
  rw [World.profile, toContent_world, account_of_mem hu]
  simp only [Option.bind_some, accountOf, AuthorFields.mk.injEq, true_and]
  rw [← h, Bool.decide_eq_true]

/-- **A detail is what its world shows.** -/
theorem detail_eq (hviewer : ∀ v ∈ viewer, v ∈ db.users) (ha : a ∈ db.articles) (hu : u ∈ db.users)
    (hau : u.id = a.authorId) : detailOf db a u viewer =
      (world db).detail (viewerName viewer) a.slug (postOf db a) := by
  have hname : nameOf db a.authorId = u.username := hau ▸ nameOf_eq hu
  have hprofile := profile_eq hu (follows_iff hviewer hu).symm
  have hfavorited := favorited_iff hviewer ha
  rw [hau] at hprofile
  rw [World.detail, World.fields]
  simp only [postOf, hname, hprofile, toContent_world, ncard_favorites ha, hfavorited,
    Bool.decide_eq_true]
  simp [detailOf, serializeDetail, serializeArticleDetail, toArticleFields, listInput]

theorem comment_eq {name : Option Str} {following : Bool} (hu : u ∈ db.users)
    (hcu : u.id = c.authorId) (h : following = true ↔ (world db).Follows name u.username) :
    serializeComment c u following = (world db).comment name c.id (remarkOf db c) := by
  have hname : nameOf db c.authorId = u.username := hcu ▸ nameOf_eq hu
  rw [World.comment]
  simp only [remarkOf, hname, profile_eq hu h]
  rfl

/-- For any name, also one that no user has. -/
theorem viewerFollows_iff {name : Option Str} (hu : u ∈ db.users) :
    ViewerFollows name u.id db ↔ (world db).Follows name u.username := by
  rw [ViewerFollows, World.Follows, toContent_world]
  refine exists_congr fun name => and_congr_right fun _ => ?_
  constructor
  · rintro ⟨v, hv, rfl, hf⟩
    exact (mem_follows hv hu).mpr hf
  · intro h
    obtain ⟨v, hv, u', hu', rfl, hname, hf⟩ := follow_iff.mp h
    obtain rfl := user_eq hu' hu hname
    exact ⟨v, hv, rfl, hf⟩

/-! ### Listings -/

variable {filters : ListFilters} {filter : World.Filter} {listing : List (Article × User)}

theorem mem_loadOrderedTags {name : Str} : name ∈ loadOrderedTags a.id db ↔
    ∃ l ∈ db.articleTags, l.articleId = a.id ∧ ∃ t ∈ db.tags, t.id = l.tagId ∧ t.name = name := by
  rw [loadOrderedTags_eq_map]
  constructor
  · intro h
    obtain ⟨l, hl, rfl⟩ := List.mem_map.mp h
    obtain ⟨hl, hid⟩ := List.mem_filter.mp (Sql.mem_orderBy.mp hl)
    obtain ⟨t, ht, htl⟩ := db.fk_article_tags_tag l hl
    exact ⟨l, hl, of_decide_eq_true hid, t, ht, htl, by rw [tagOf_eq ht htl]⟩
  · rintro ⟨l, hl, hid, t, ht, htl, rfl⟩
    refine List.mem_map.mpr ⟨l, ?_, by rw [tagOf_eq ht htl]⟩
    exact Sql.mem_orderBy.mpr (List.mem_filter.mpr ⟨hl, decide_eq_true hid⟩)

/-- The filters say the same by name, where the follower is `viewer`. -/
structure SameFilter (filters : ListFilters) (filter : World.Filter) (viewer : Option User) :
    Prop where
  tag : filter.tag = filters.tag
  author : filter.author = filters.authorUsername
  favorited : filter.favorited = filters.favoritedUsername
  followedByUserId : filters.followedByUserId = viewer.map (·.id)
  followedBy : filter.followedBy = viewerName viewer

theorem passes_iff (hsame : SameFilter filters filter viewer) (hviewer : ∀ v ∈ viewer, v ∈ db.users)
    (ha : a ∈ db.articles) :
    (world db).Passes filter a.slug (postOf db a) ↔ Satisfies filters db a := by
  obtain ⟨u, hu, hau, hname⟩ := exists_author ha
  have hfollowed : (∀ name ∈ filter.followedBy, (world db).Follows (some name) u.username) ↔
      ∀ id ∈ filters.followedByUserId, (⟨id, a.authorId⟩ : UserFollow) ∈ db.follows := by
    rw [hsame.followedBy, hsame.followedByUserId]
    cases viewer with
    | none => simp [viewerName]
    | some v =>
        have hv := hviewer v rfl
        simp [viewerName, World.Follows, mem_follows hv hu, hau]
  constructor
  · rintro ⟨htag, hauthor, hfavorited, hfollow⟩
    refine ⟨fun name h => ?_, fun name h => ?_, fun name h => ?_, ?_⟩
    · exact ⟨u, hu, hau, hname.symm.trans (hauthor name (hsame.author ▸ h))⟩
    · exact mem_loadOrderedTags.mp (htag name (hsame.tag ▸ h))
    · obtain ⟨_, ⟨⟩, h⟩ := hfavorited name (hsame.favorited ▸ h)
      obtain ⟨v, hv, b, hb, hvn, hslug, hf⟩ := favorite_iff.mp h
      obtain rfl := article_eq hb ha hslug
      exact ⟨_, hf, rfl, v, hv, rfl, hvn⟩
    · exact hfollowed.mp fun name h => hname ▸ hfollow name h
  · rintro ⟨hauthor, htag, hfavorited, hfollow⟩
    refine ⟨fun name h => ?_, fun name h => ?_, fun name h => ?_, fun name h => ?_⟩
    · exact mem_loadOrderedTags.mpr (htag name (hsame.tag ▸ h))
    · obtain ⟨v, hv, hav, rfl⟩ := hauthor name (hsame.author ▸ h)
      rw [postOf, ← hav, nameOf_eq hv]
    · obtain ⟨⟨_, _⟩, hf, rfl, v, hv, rfl, rfl⟩ := hfavorited name (hsame.favorited ▸ h)
      exact ⟨_, rfl, (mem_favorites hv ha).mpr hf⟩
    · have h := hfollowed.mpr hfollow name h
      rwa [← hname] at h

/-- The listing of the tables, by name. -/
theorem listing_of_isListing (hsame : SameFilter filters filter viewer)
    (hviewer : ∀ v ∈ viewer, v ∈ db.users) (h : IsListing filters db listing) :
    (world db).Listing filter (listing.map fun x => (x.1.slug, postOf db x.1)) where
  mem slug p := by
    simp only [List.mem_map, Prod.mk.injEq, Prod.exists, h.mem, toContent_world, post_eq_some]
    constructor
    · rintro ⟨a, u, ⟨ha, hs, -⟩, rfl, rfl⟩
      exact ⟨⟨a, ha, rfl, rfl⟩, (passes_iff hsame hviewer ha).mpr hs⟩
    · rintro ⟨⟨a, ha, rfl, rfl⟩, hp⟩
      obtain ⟨u, hu, hau, -⟩ := exists_author ha
      exact ⟨a, u, ⟨ha, (passes_iff hsame hviewer ha).mp hp, hu, hau⟩, rfl, rfl⟩
  sorted := List.pairwise_map.mpr h.sorted

/-- The comments of an article, oldest first, by name. -/
theorem thread_of_lists {rows : List Comment} {shown : List SerializedComment} {name : Option Str}
    (ha : a ∈ db.articles) (h : Comments.Lists name db db a rows shown) :
    (world db).Thread a.slug (rows.map fun c => (c.id, remarkOf db c)) ∧
      shown = (rows.map fun c => (c.id, remarkOf db c)).map fun x =>
        (world db).comment name x.1 x.2 := by
  have hmem : ∀ c, c ∈ rows ↔ c ∈ db.comments ∧ c.articleId = a.id := by
    intro c
    rw [h.perm.mem_iff, List.mem_filter, decide_eq_true_eq]
  refine ⟨⟨fun id r => ?_, List.pairwise_map.mpr h.sorted⟩, ?_⟩
  · simp only [List.mem_map, Prod.mk.injEq, hmem, toContent_world, remark_eq_some]
    constructor
    · rintro ⟨c, ⟨hc, hca⟩, rfl, rfl⟩
      exact ⟨⟨c, hc, rfl, rfl⟩, by rw [remarkOf, hca, slugOf_eq ha]⟩
    · rintro ⟨⟨c, hc, rfl, rfl⟩, hslug⟩
      obtain ⟨b, hb, hbc⟩ := db.fk_comments_article c hc
      rw [remarkOf, ← hbc, slugOf_eq hb] at hslug
      obtain rfl := article_eq hb ha hslug
      exact ⟨c, ⟨hc, hbc.symm⟩, rfl, rfl⟩
  · have hshown : List.Forall₂ (fun c r => (world db).comment name c.id (remarkOf db c) = r)
        rows shown := by
      refine h.shown.imp fun c r hr => ?_
      obtain ⟨u, hu, hcu, following, hfollowing, rfl⟩ := hr
      rw [← hcu, viewerFollows_iff hu] at hfollowing
      exact (comment_eq hu hcu hfollowing).symm
    rw [List.map_map]
    rw [← List.forall₂_map_left_iff, List.forall₂_eq_eq_eq] at hshown
    exact hshown.symm

end

end MediumClone.Blog

end
