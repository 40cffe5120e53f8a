import MediumClone.Articles.Update

/-!
# Articles — Favorites

Favorites set and taken back, and articles deleted, all at once: any number of calls by any users on
any articles, each a transaction of its own (`Sys.Transaction`).

A favorite is written under the locks of its user and its article.  The count and the flag of the
response are read after the write, each by a statement of its own, and what they are read from is
protected by the lock of the article: no other call adds or removes one of its favorites, or the
article itself, until this one ends (`SameFavorites`).  So the response tells what the call left
behind in the serial history of the commits (`favorites_linearizable`).
-/

namespace MediumClone.Articles
open Js Sys Schema

/-! ### Calls -/

inductive FavoriteCall where
  | create (slug username : Str)
  | delete (slug username : Str)
  | deleteArticle (slug username : Str)

def FavoriteCall.slug : FavoriteCall → Str
  | .create slug _ => slug
  | .delete slug _ => slug
  | .deleteArticle slug _ => slug

def FavoriteCall.username : FavoriteCall → Str
  | .create _ username => username
  | .delete _ username => username
  | .deleteArticle _ username => username

/-- The transaction of a call; setting and taking back return the article. -/
def FavoriteCall.run : FavoriteCall → ArticleTx (Option ArticleDetail)
  | .create slug username => some <$> ArticleFavoriteService.create slug username
  | .delete slug username => some <$> ArticleFavoriteService.delete slug username
  | .deleteArticle slug username => (fun _ => none) <$> ArticleDeleteService.delete slug username

/-- Whether the user is to have the article favorited after the call. -/
def FavoriteCall.favorited : FavoriteCall → Option Bool
  | .create _ _ => some true
  | .delete _ _ => some false
  | .deleteArticle _ _ => none

/-- What the call makes of the rows, where `f` is the favorite of its article by its user. -/
def FavoriteCall.act (f : ArticleFavorite) (rows : List ArticleFavorite) :
    FavoriteCall → List ArticleFavorite
  | .create _ _ => if f ∈ rows then rows else rows ++ [f]
  | .delete _ _ => rows.filter (· ≠ f)
  | .deleteArticle _ _ => rows.filter (·.articleId ≠ f.articleId)

/-! ### The discipline -/

/-- Users stay, no article comes, and an article whose lock is held stays. -/
structure KeepsArticles (Same : Set Row → Tables → Tables → Prop) : Prop where
  users : ∀ {L d d'}, Same L d d' → d'.users = d.users
  articles : ∀ {L d d'}, Same L d d' → d'.articles ⊆ d.articles
  held : ∀ {L d d'} {a : Article}, Same L d d' → a ∈ d.articles → Row.article a.id ∈ L →
    a ∈ d'.articles

namespace KeepsArticles

variable {Same : Set Row → Tables → Tables → Prop} {slug username : Str} {d d' b : Tables}
  {L : Set Row} {a : Article}

theorem findUser (K : KeepsArticles Same) (h : Same L d d') :
    d'.findUser username = d.findUser username := by
  rw [Tables.findUser, K.users h, Tables.findUser]

theorem findArticle_none (K : KeepsArticles Same) (h : Same L d d')
    (ha : d.findArticle slug = none) : d'.findArticle slug = none := by
  rw [Tables.findArticle_eq_none] at ha ⊢
  exact fun a ha' => ha a (K.articles h ha')

theorem findArticle_some (K : KeepsArticles Same) (h : Same L d d')
    (ha : d.findArticle slug = some a) (hL : Row.article a.id ∈ L) :
    d'.findArticle slug = some a := by
  obtain ⟨hmem, hslug⟩ := Tables.findArticle_eq_some.mp ha
  exact Tables.findArticle_eq_some.mpr ⟨K.held h hmem hL, hslug⟩

/-- The delete of an article, when it is not seen without the article's lock. -/
theorem wellLocked_delete (K : KeepsArticles Same)
    (hdelete : ∀ {id M d}, Row.article id ∉ M → Same M d (Tables.deleteArticle d id)) :
    WellLocked Same (ArticleDeleteService.delete slug username) ∅ id b := by
  refine WellLocked.mapError ?_
  refine wellLocked_select (fun _ _ _ h => K.findUser h) fun d _ => ?_
  refine wellLocked_orThrow fun user _ => ?_
  refine wellLocked_selectForUpdate (fun d₁ _ hnone => ?_) fun d₁ _ a ha => ?_
  · exact ⟨fun d' h => K.findArticle_none h hnone, wellLocked_orThrow nofun⟩
  have hlock : Row.article a.id ∈ insert (Row.article a.id) (∅ : Set Row) := Set.mem_insert _ _
  refine ⟨fun d' h => K.findArticle_some h ha hlock, ?_⟩
  refine wellLocked_orThrow fun a' ha' => wellLocked_require fun _ => ?_
  obtain rfl := Option.some.inj ha'
  obtain ⟨hmem, rfl⟩ := Tables.findArticle_eq_some.mp ha
  -- the locked row is the one that the delete finds
  have hone : ∀ d : Tables, a ∈ d.articles → (d.articles.filter (·.id = a.id)).length = 1 := by
    intro d hd
    rw [Keyed.filter_eq_singleton d.pk_articles hd, List.length_singleton]
  refine wellLocked_execute (fun d hd d' hd' => ?_) fun d _ => wellLocked_require fun _ => ?_
  · have hmem' := K.held hd hmem hlock
    exact (hone d' (K.held hd' hmem' hlock)).trans (hone d hmem').symm
  · exact wellLocked_pure fun d _ M hM => hdelete fun hin => hM _ hin hlock

end KeepsArticles

/-- Users, tags and follows stay, no article comes, and an article whose lock is held stays, with
its favorites and tags. -/
structure SameFavorites (L : Set Row) (d d' : Tables) : Prop where
  users : d'.users = d.users
  tags : d'.tags = d.tags
  follows : d'.follows = d.follows
  articles : d'.articles ⊆ d.articles
  held : ∀ a ∈ d.articles, Row.article a.id ∈ L → SameDetail a d d'

theorem protects_sameFavorites : Protects SameFavorites where
  refl _ _ := ⟨rfl, rfl, rfl, fun _ h => h, fun _ ha _ => SameDetail.refl ha⟩
  trans h h' := by
    refine ⟨h'.users.trans h.users, h'.tags.trans h.tags, h'.follows.trans h.follows,
      fun _ ha => h.articles (h'.articles ha), fun a ha hL => ?_⟩
    exact (h.held a ha hL).trans (h'.held a (h.held a ha hL).right hL)
  anti hL h := ⟨h.users, h.tags, h.follows, h.articles, fun a ha ha' => h.held a ha (hL ha')⟩

theorem keepsArticles_sameFavorites : KeepsArticles SameFavorites where
  users h := h.users
  articles h := h.articles
  held h ha hL := (h.held _ ha hL).right

section

variable {slug username : Str} {d d' b : Tables} {a : Article}

/-- What the writes of a call on the article may touch: the favorites of that article. -/
structure FavoritesOf (id : Uuid) (d d' : Tables) : Prop where
  only : Tables.FavoritesOnly d d'
  others : ∀ other, other ≠ id →
    d'.favorites.filter (·.articleId = other) = d.favorites.filter (·.articleId = other)

theorem FavoritesOf.refl (id : Uuid) (d : Tables) : FavoritesOf id d d :=
  ⟨⟨rfl, rfl, rfl, rfl, rfl, rfl⟩, fun _ _ => rfl⟩

theorem FavoritesOf.trans {id : Uuid} {d'' : Tables} (h : FavoritesOf id d d')
    (h' : FavoritesOf id d' d'') : FavoritesOf id d d'' where
  only := ⟨h'.only.users.trans h.only.users, h'.only.articles.trans h.only.articles,
    h'.only.tags.trans h.only.tags, h'.only.articleTags.trans h.only.articleTags,
    h'.only.comments.trans h.only.comments, h'.only.follows.trans h.only.follows⟩
  others id hid := (h'.others id hid).trans (h.others id hid)

/-- Without the lock of the article, such a write is not seen. -/
theorem FavoritesOf.same {id : Uuid} {M : Set Row} (h : FavoritesOf id d d')
    (hM : Row.article id ∉ M) : SameFavorites M d d' where
  users := h.only.users
  tags := h.only.tags
  follows := h.only.follows
  articles := h.only.articles ▸ fun _ ha => ha
  held a ha haM := ⟨h.only.users, h.only.tags, h.only.follows, ha, h.only.articles ▸ ha,
    h.others a.id fun hid => hM (hid ▸ haM), by rw [h.only.articleTags]⟩

theorem favoritesOf_insertFavorite {f : ArticleFavorite} (h : d.insertFavorite f = some d') :
    FavoritesOf f.articleId d d' := by
  obtain ⟨hrows, honly⟩ := Tables.insertFavorite_eq_some h
  refine ⟨honly, fun id hid => ?_⟩
  rw [hrows]
  split
  · rfl
  · have hnew : [f].filter (·.articleId = id) = [] := by simp [Ne.symm hid]
    rw [List.filter_append, hnew, List.append_nil]

theorem filter_insertFavorite {f : ArticleFavorite} (id : Uuid) (hf : f.articleId = id)
    (h : d.insertFavorite f = some d') : d'.favorites.filter (·.articleId = id) =
      if f ∈ d.favorites.filter (·.articleId = id) then d.favorites.filter (·.articleId = id)
      else d.favorites.filter (·.articleId = id) ++ [f] := by
  have hmem : f ∈ d.favorites.filter (·.articleId = id) ↔ f ∈ d.favorites := by simp [hf]
  rw [(Tables.insertFavorite_eq_some h).1]
  by_cases hin : f ∈ d.favorites
  · rw [if_pos hin, if_pos (hmem.mpr hin)]
  · rw [if_neg hin, if_neg fun h => hin (hmem.mp h), List.filter_append]
    simp [hf]

theorem favoritesOf_deleteFavorite (f : ArticleFavorite) :
    FavoritesOf f.articleId d (d.deleteFavorite f) := by
  refine ⟨⟨rfl, rfl, rfl, rfl, rfl, rfl⟩, fun id hid => ?_⟩
  change (d.favorites.filter _).filter _ = _
  rw [List.filter_filter]
  refine List.filter_congr fun g _ => ?_
  by_cases hg : g.articleId = id
  · have hne : g ≠ f := fun h => hid (h ▸ hg.symm)
    simp [hg, hne]
  · simp [hg]

/-! The write and the reads after it. -/

theorem SameDetail.favoritesOnly {e e' : Tables} (h : SameDetail a d d')
    (hd : Tables.FavoritesOnly d e) (hd' : Tables.FavoritesOnly d' e')
    (hf : e'.favorites.filter (·.articleId = a.id) = e.favorites.filter (·.articleId = a.id)) :
    SameDetail a e e' where
  users := by rw [hd.users, hd'.users, h.users]
  tags := by rw [hd.tags, hd'.tags, h.tags]
  follows := by rw [hd.follows, hd'.follows, h.follows]
  left := hd.articles ▸ h.left
  right := hd'.articles ▸ h.right
  favorites := hf
  articleTags := by rw [hd.articleTags, hd'.articleTags, h.articleTags]

theorem confined_create {userId : Uuid} {e : Tables → ArticleError} {e₀ : ArticleError}
    (he : ∀ d, e d = e₀) : Tx.Confined (SameDetail a) (FavoritesOf a.id) (do
      Tx.attempt (·.insertFavorite ⟨a.id, userId⟩) e
      getBySlug a.slug (some username)) := by
  refine Tx.confined_attempt (fun d d' h => ?_) (fun d _ => ?_)
    (confined_getBySlug (FavoritesOf.refl a.id))
  · -- the insert fails only for want of the article or the user
    have hsome : (d'.insertFavorite ⟨a.id, userId⟩).isSome =
        (d.insertFavorite ⟨a.id, userId⟩).isSome := by
      rw [Bool.eq_iff_iff, Tables.isSome_insertFavorite, Tables.isSome_insertFavorite, h.users]
      exact and_congr_left fun _ => ⟨fun _ => ⟨a, h.left, rfl⟩, fun _ => ⟨a, h.right, rfl⟩⟩
    refine ⟨hsome, by rw [he, he], ?_⟩
    cases hd : d.insertFavorite ⟨a.id, userId⟩ with
    | none =>
        rw [hd, Option.isSome_none, Option.isSome_eq_false_iff, Option.isNone_iff_eq_none] at hsome
        rw [hsome]
        exact h
    | some e =>
        rw [hd, Option.isSome_some] at hsome
        obtain ⟨e', hd'⟩ := Option.isSome_iff_exists.mp hsome
        rw [hd']
        refine h.favoritesOnly (Tables.insertFavorite_eq_some hd).2
          (Tables.insertFavorite_eq_some hd').2 ?_
        rw [Option.getD_some, Option.getD_some, filter_insertFavorite a.id rfl hd',
          filter_insertFavorite a.id rfl hd, h.favorites]
  · cases hd : d.insertFavorite ⟨a.id, userId⟩ with
    | none => exact FavoritesOf.refl a.id d
    | some e => exact favoritesOf_insertFavorite hd

theorem confined_delete {userId : Uuid} : Tx.Confined (SameDetail a) (FavoritesOf a.id) (do
    Tx.execute (·.deleteFavorite ⟨a.id, userId⟩) fun _ => ()
    getBySlug a.slug (some username) : ArticleTx ArticleDetail) := by
  refine Tx.confined_execute (fun _ _ _ => rfl) (fun d d' h => ?_)
    (fun d _ => favoritesOf_deleteFavorite ⟨a.id, userId⟩)
    fun _ _ => confined_getBySlug (FavoritesOf.refl a.id)
  refine h.favoritesOnly ⟨rfl, rfl, rfl, rfl, rfl, rfl⟩ ⟨rfl, rfl, rfl, rfl, rfl, rfl⟩ ?_
  change (d'.favorites.filter _).filter _ = (d.favorites.filter _).filter _
  rw [List.filter_comm, h.favorites, List.filter_comm]

theorem wellLocked_favorite {write : ArticleFavorite → ArticleTx Unit}
    (hwrite : ∀ (a : Article) userId, Tx.Confined (SameDetail a) (FavoritesOf a.id) (do
      write ⟨a.id, userId⟩
      getBySlug a.slug (some username))) :
    WellLocked SameFavorites (favorite write slug username) ∅ id b := by
  have K := keepsArticles_sameFavorites
  refine wellLocked_selectForUpdate (fun d _ hnone => ?_) fun d _ viewer hviewer => ?_
  · exact ⟨fun d' h => (K.findUser h).trans hnone, wellLocked_orThrow nofun⟩
  refine ⟨fun d' h => (K.findUser h).trans hviewer, wellLocked_orThrow fun viewer' _ => ?_⟩
  refine wellLocked_selectForUpdate (fun d₁ _ hnone => ?_) fun d₁ _ a ha => ?_
  · exact ⟨fun d' h => K.findArticle_none h hnone, wellLocked_orThrow nofun⟩
  refine ⟨fun d' h => K.findArticle_some h ha (Set.mem_insert _ _), ?_⟩
  refine wellLocked_orThrow fun a' ha' => ?_
  obtain rfl := Option.some.inj ha'
  obtain ⟨hmem, rfl⟩ := Tables.findArticle_eq_some.mp ha
  have hlock : Row.article a.id ∈ insert (Row.article a.id) (insert (Row.user viewer.id) ∅) :=
    Set.mem_insert _ _
  refine WellLocked.of_confined protects_sameFavorites (hwrite a viewer'.id) (fun d d' h h' => ?_)
    (fun d _ => FavoritesOf.refl a.id d) (fun _ _ _ h h' => h.trans h') ?_
  · exact h'.held a (h.held a hmem hlock).right hlock
  · intro d d' M h hM hF
    exact hF.same fun hin => hM _ hin hlock

/-- Without the lock of the article, its delete is not seen. -/
theorem sameFavorites_deleteArticle {id : Uuid} {M : Set Row} (hM : Row.article id ∉ M) :
    SameFavorites M d (d.deleteArticle id) := by
  refine ⟨rfl, rfl, rfl, fun _ ha => List.mem_of_mem_filter ha, fun a ha haM => ?_⟩
  have hid : a.id ≠ id := fun h => hM (h ▸ haM)
  exact ⟨rfl, rfl, rfl, ha, List.mem_filter.mpr ⟨ha, decide_eq_true hid⟩,
    Keyed.filter_filter_ne hid, Keyed.filter_filter_ne hid⟩

theorem wellLocked_favoriteCall {c : FavoriteCall} :
    WellLocked SameFavorites c.run ∅ id b := by
  cases c with
  | create slug username =>
      exact (wellLocked_favorite fun _ _ => confined_create fun _ => rfl).map
  | delete slug username => exact (wellLocked_favorite fun _ _ => confined_delete).map
  | deleteArticle slug username =>
      exact (keepsArticles_sameFavorites.wellLocked_delete sameFavorites_deleteArticle).map

end

/-! ### What a call alone does -/

/-- The favorite that a call is about, by the names that it is given. -/
def FavoriteCall.favorite (d : Tables) (c : FavoriteCall) : Option ArticleFavorite := do
  let a ← d.findArticle c.slug
  let u ← d.findUser c.username
  pure ⟨a.id, u.id⟩

/-- What a call about `f` leaves and returns. -/
structure FavoriteCall.Done (c : FavoriteCall) (f : ArticleFavorite) (r : Option ArticleDetail)
    (d d' : Tables) : Prop where
  users : d'.users = d.users
  articles : d'.articles ⊆ d.articles
  favorites : d'.favorites = c.act f d.favorites
  answer : ∀ favorited, c.favorited = some favorited → ∃ detail, r = some detail ∧
    detail.fields.favorited = favorited ∧
    detail.fields.favoritesCount = (Tables.favoritedBy f.articleId d').length
  /-- What is so already is left as it is. -/
  idempotent : c.favorited = some (decide (f ∈ d.favorites)) → d' = d
  gone : c.favorited = none → ∀ a ∈ d'.articles, a.id ≠ f.articleId

section

variable {slug username : Str} {d d' : Tables} {a : Article} {u : User} {c : FavoriteCall}
  {r : Option ArticleDetail} {detail : ArticleDetail}

theorem FavoriteCall.favorite_eq_some (ha : d.findArticle c.slug = some a)
    (hu : d.findUser c.username = some u) : c.favorite d = some ⟨a.id, u.id⟩ := by
  simp [FavoriteCall.favorite, ha, hu]

/-- The response after the write. -/
theorem answer_of_getBySlugPool (ha : d.findArticle slug = some a)
    (hu : d.findUser username = some u)
    (h : getBySlugPool slug (some username) d = .ok detail) :
    detail.fields.favorited = decide (⟨a.id, u.id⟩ ∈ d.favorites) ∧
      detail.fields.favoritesCount = (Tables.favoritedBy a.id d).length := by
  obtain ⟨hmem, rfl⟩ := Tables.findArticle_eq_some.mp ha
  obtain ⟨author, hauthor, hid⟩ := d.fk_articles_author a hmem
  have hviewer : viewerOf d (some username) = some u := hu
  rw [getBySlugPool_ok hmem hauthor hid fun _ => by rw [hviewer]; rfl, hviewer] at h
  obtain rfl := Except.ok.inj h
  constructor
  · change (findFavorite a.id u.id d).isSome = _
    rw [Bool.eq_iff_iff, isSome_findFavorite, decide_eq_true_eq]
  · rw [Tables.length_favoritedBy]
    exact max_eq_right (Nat.zero_le _)

theorem done_create {slug username : Str}
    (h : (ArticleFavoriteService.create slug username).exec d = .ok (detail, d')) :
    ∃ f, (FavoriteCall.create slug username).favorite d = some f ∧
      (FavoriteCall.create slug username).Done f (some detail) d d' := by
  obtain ⟨u, a, hu, ha, hwrite, hr⟩ := exec_favorite h
  have hinsert := Tx.exec_attempt.mp hwrite
  obtain ⟨hrows, ho⟩ := Tables.insertFavorite_eq_some hinsert
  have hin : ⟨a.id, u.id⟩ ∈ d'.favorites := by
    rw [hrows]
    split
    · assumption
    · exact List.mem_append_right _ List.mem_cons_self
  have hanswer := answer_of_getBySlugPool (a := a) (u := u)
    (by rw [Tables.findArticle, ho.articles]; exact ha)
    (by rw [Tables.findUser, ho.users]; exact hu) hr
  refine ⟨⟨a.id, u.id⟩, FavoriteCall.favorite_eq_some ha hu, ho.users,
    ho.articles ▸ fun _ h => h, hrows, ?_, ?_, ?_⟩
  · rintro favorited ⟨⟩
    exact ⟨detail, rfl, hanswer.1.trans (decide_eq_true hin), hanswer.2⟩
  · -- the row is there: `ON CONFLICT DO NOTHING`
    intro hset
    have hset := of_decide_eq_true (Option.some.inj hset).symm
    rw [Tables.insertFavorite, dif_pos hset] at hinsert
    exact (Option.some.inj hinsert).symm
  · rintro ⟨⟩

theorem done_delete {slug username : Str}
    (h : (ArticleFavoriteService.delete slug username).exec d = .ok (detail, d')) :
    ∃ f, (FavoriteCall.delete slug username).favorite d = some f ∧
      (FavoriteCall.delete slug username).Done f (some detail) d d' := by
  obtain ⟨u, a, hu, ha, hwrite, hr⟩ := exec_favorite h
  obtain rfl : d.deleteFavorite ⟨a.id, u.id⟩ = d' := (Prod.mk.inj (Except.ok.inj hwrite)).2
  have hout : ⟨a.id, u.id⟩ ∉ (d.deleteFavorite ⟨a.id, u.id⟩).favorites := fun hin =>
    absurd rfl (of_decide_eq_true (List.mem_filter.mp hin).2)
  have hanswer := answer_of_getBySlugPool (d := d.deleteFavorite ⟨a.id, u.id⟩) ha hu hr
  refine ⟨⟨a.id, u.id⟩, FavoriteCall.favorite_eq_some ha hu, rfl, fun _ h => h, rfl, ?_, ?_, ?_⟩
  · rintro favorited ⟨⟩
    exact ⟨detail, rfl, hanswer.1.trans (decide_eq_false hout), hanswer.2⟩
  · intro hset
    have hset := of_decide_eq_false (Option.some.inj hset).symm
    have hall : d.favorites.filter (· ≠ ⟨a.id, u.id⟩) = d.favorites :=
      List.filter_eq_self.mpr fun g hg => decide_eq_true fun h => hset (h ▸ hg)
    exact Tables.ext rfl rfl rfl rfl hall rfl rfl
  · rintro ⟨⟩

theorem done_deleteArticle {slug username : Str}
    (h : (ArticleDeleteService.delete slug username).exec d = .ok ((), d')) :
    ∃ f, (FavoriteCall.deleteArticle slug username).favorite d = some f ∧
      (FavoriteCall.deleteArticle slug username).Done f none d d' := by
  obtain ⟨u, a, hu, ha, -, rfl⟩ := exec_delete h
  refine ⟨⟨a.id, u.id⟩, FavoriteCall.favorite_eq_some ha hu, rfl,
    fun _ h => List.mem_of_mem_filter h, rfl, ?_, ?_, fun _ b hb => ?_⟩
  · rintro favorited ⟨⟩
  · rintro ⟨⟩
  · exact of_decide_eq_true (List.mem_filter.mp hb).2

theorem exec_favoriteCall (h : c.run.exec d = .ok (r, d')) :
    ∃ f, c.favorite d = some f ∧ c.Done f r d d' := by
  cases c with
  | create slug username =>
      obtain ⟨detail, h, rfl⟩ := Tx.exec_map_ok.mp h
      exact done_create h
  | delete slug username =>
      obtain ⟨detail, h, rfl⟩ := Tx.exec_map_ok.mp h
      exact done_delete h
  | deleteArticle slug username =>
      obtain ⟨u, h, rfl⟩ := Tx.exec_map_ok.mp h
      exact done_deleteArticle h

end

/-! ### Linearizability -/

section

variable {ι : Type} {calls : ι → FavoriteCall} {d₀ d : Tables} {log : RunLog ι}

/-- The calls of a run, by their start. -/
def favoriteProgram (calls : ι → FavoriteCall) (i : ι) (_ : Timestamp) :
    ArticleTx (Option ArticleDetail) :=
  (calls i).run

/-- The rows after the calls of the log, one after another. -/
def replayFavorites (calls : ι → FavoriteCall) (d₀ : Tables) (log : RunLog ι)
    (rows : List ArticleFavorite) : List ArticleFavorite :=
  log.foldl (fun rows c => ((calls c.call).favorite d₀).elim rows ((calls c.call).act · rows)) rows

/-- Users stay and no article comes. -/
structure Within (d₀ d : Tables) : Prop where
  users : d.users = d₀.users
  articles : d.articles ⊆ d₀.articles

/-- A call is about the same favorite later as it is at first. -/
theorem Within.favorite {c : FavoriteCall} {f : ArticleFavorite} (h : Within d₀ d)
    (hf : c.favorite d = some f) : c.favorite d₀ = some f := by
  simp only [FavoriteCall.favorite, Option.bind_eq_bind, Option.bind_eq_some_iff] at hf ⊢
  obtain ⟨a, ha, u, hu, hf⟩ := hf
  obtain ⟨hmem, hslug⟩ := Tables.findArticle_eq_some.mp ha
  refine ⟨a, Tables.findArticle_eq_some.mpr ⟨h.articles hmem, hslug⟩, u, ?_, hf⟩
  rwa [Tables.findUser, ← h.users]

theorem favorites_of_replays (h : Transaction.Replays (favoriteProgram calls) d₀ log d) :
    Within d₀ d ∧ d.favorites = replayFavorites calls d₀ log d₀.favorites ∧
      ∀ c ∈ log, ∃ f, (calls c.call).favorite d₀ = some f ∧
        (calls c.call).Done f c.result c.before c.after ∧
        ((calls c.call).favorited = none → ∀ a ∈ d.articles, a.id ≠ f.articleId) := by
  induction h with
  | nil => exact ⟨⟨rfl, fun _ h => h⟩, rfl, nofun⟩
  | @snoc log c h hc ih =>
      obtain ⟨hwithin, hrows, hall⟩ := ih
      obtain ⟨f, hf, hdone⟩ := exec_favoriteCall (c := calls c.call) hc
      have hf₀ := hwithin.favorite hf
      refine ⟨⟨hdone.users.trans hwithin.users, fun _ ha => hwithin.articles (hdone.articles ha)⟩,
        ?_, fun c' hc' => ?_⟩
      · rw [replayFavorites, List.foldl_append, hdone.favorites, hrows]
        simp only [List.foldl_cons, List.foldl_nil, hf₀, Option.elim_some]
        rfl
      · rcases List.mem_append.mp hc' with hc' | hc'
        · obtain ⟨f', hf', hdone', hgone⟩ := hall c' hc'
          exact ⟨f', hf', hdone', fun hnone a ha => hgone hnone a (hdone.articles ha)⟩
        · cases List.mem_singleton.mp hc'
          exact ⟨f, hf₀, hdone, hdone.gone⟩

variable [DecidableEq ι] {s : RunState ι} {t₀ : Timestamp}
  {es : List (Transaction.Event ι Timestamp)}

/-- **Favorites are linearizable and idempotent.**  In every run of calls that set a favorite, take
it back or delete an article: the commits are a serial history, and calls that fail change nothing;
the rows are what the committed calls make of them in that order, no two of them equal; each
response has the flag that the call asks for and the number of users that have the article favorited
right after the call; a call for what is so already changes nothing; and of a deleted article no
favorite is left. -/
theorem favorites_linearizable
    (hr : run (Transaction.step (favoriteProgram calls)) (Transaction.State.init d₀ t₀) es =
      some s) :
    Transaction.Serialized (favoriteProgram calls) d₀ s ∧
    s.db.favorites = replayFavorites calls d₀ s.log d₀.favorites ∧ s.db.favorites.Nodup ∧
    ∀ c ∈ s.log, ∃ f, (calls c.call).favorite d₀ = some f ∧
      (calls c.call).Done f c.result c.before c.after ∧
      ((calls c.call).favorited = none → ∀ g ∈ s.db.favorites, g.articleId ≠ f.articleId) := by
  have hinv := Transaction.serializable protects_sameFavorites
    (fun i _ _ => wellLocked_favoriteCall (c := calls i)) hr
  obtain ⟨-, hrows, hall⟩ := favorites_of_replays hinv.replays
  refine ⟨hinv.serialized protects_sameFavorites, hrows, s.db.pk_article_favorites, fun c hc => ?_⟩
  obtain ⟨f, hf, hdone, hgone⟩ := hall c hc
  refine ⟨f, hf, hdone, fun hnone g hg hid => ?_⟩
  obtain ⟨a, ha, hag⟩ := s.db.fk_article_favorites_article g hg
  exact hgone hnone a ha (hag.trans hid)

/-- In the sample the author sets a favorite while the other user takes its own back. -/
def sampleFavorites : Bool → FavoriteCall
  | true => .create ['s'] ['u']
  | false => .delete ['s'] ['v']

theorem favorites_linearizable_sample : ∃ s : RunState Bool,
    run (Transaction.step (favoriteProgram sampleFavorites))
      (Transaction.State.init Tables.sample 1000) sampleEvents = some s ∧
    Transaction.Serialized (favoriteProgram sampleFavorites) Tables.sample s ∧
    s.db.favorites = [⟨5, 1⟩] ∧
    s.log.map (fun c => c.result.map fun detail =>
      (detail.fields.favorited, detail.fields.favoritesCount)) =
      [some (true, 2), some (false, 1)] := by
  have hruns : (run (Transaction.step (favoriteProgram sampleFavorites))
      (Transaction.State.init Tables.sample 1000) sampleEvents).map (fun s =>
        (s.db.favorites, s.log.map fun c => c.result.map fun detail =>
          (detail.fields.favorited, detail.fields.favoritesCount))) =
      some ([⟨5, 1⟩], [some (true, 2), some (false, 1)]) := rfl
  obtain ⟨s, hs, hread⟩ := Option.map_eq_some_iff.mp hruns
  obtain ⟨hrows, hanswers⟩ := Prod.mk.inj hread
  exact ⟨s, hs, (favorites_linearizable hs).1, hrows, hanswers⟩

end

end MediumClone.Articles
