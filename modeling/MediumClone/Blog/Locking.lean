import MediumClone.Comments.Store
import MediumClone.Articles.Failures

/-!
# Blog — Locking

The calls that lock an article before they write: its favorites, its comments, its text and tags,
and its deletion.

What such a call reads and writes after the lock belongs to that article (`own`), or is the same for
all calls: the users, the follows, and the tags as long as no new ones come.  So the calls of each
kind fit one discipline, in which the lock of an article protects all that belongs to it
(`SameHeld`), and they can run beside each other.
-/

namespace MediumClone.Blog
open Js Sys Schema Articles Comments

/-! ### What belongs to an article -/

/-- The rows of an article, and those that refer to it. -/
structure Own where
  articles : List Article
  favorites : List ArticleFavorite
  articleTags : List ArticleTag
  comments : List Comment

def own (id : Uuid) (db : Tables) : Own where
  articles := db.articles.filter (·.id = id)
  favorites := db.favorites.filter (·.articleId = id)
  articleTags := db.articleTags.filter (·.articleId = id)
  comments := db.comments.filter (·.articleId = id)

/-- Nothing that all calls share changes: no article comes, and none changes its slug. -/
structure Shared (d d' : Tables) : Prop where
  users : d'.users = d.users
  tags : d'.tags = d.tags
  follows : d'.follows = d.follows
  slugs : ∀ b ∈ d'.articles, ∃ a ∈ d.articles, a.id = b.id ∧ a.slug = b.slug

theorem Shared.refl (d : Tables) : Shared d d := ⟨rfl, rfl, rfl, fun b hb => ⟨b, hb, rfl, rfl⟩⟩

theorem Shared.trans {d d' d'' : Tables} (h : Shared d d') (h' : Shared d' d'') :
    Shared d d'' where
  users := h'.users.trans h.users
  tags := h'.tags.trans h.tags
  follows := h'.follows.trans h.follows
  slugs c hc := by
    obtain ⟨b, hb, hid, hslug⟩ := h'.slugs c hc
    obtain ⟨a, ha, hid', hslug'⟩ := h.slugs b hb
    exact ⟨a, ha, hid'.trans hid, hslug'.trans hslug⟩

/-- The articles whose locks are held stay, with all that belongs to them. -/
structure SameHeld (L : Set Row) (d d' : Tables) : Prop where
  shared : Shared d d'
  held : ∀ a ∈ d.articles, Row.article a.id ∈ L → own a.id d' = own a.id d

/-- Only what belongs to the article changes. -/
structure OnlyOwn (id : Uuid) (d d' : Tables) : Prop where
  shared : Shared d d'
  others : ∀ other, other ≠ id → own other d' = own other d

/-- Both have the same article under the slug, with all that belongs to it, and the tags of the
names. -/
structure SameOwn (names : List Str) (id : Uuid) (slug : Str) (d d' : Tables) : Prop where
  users : d'.users = d.users
  tags : d'.tags = d.tags
  follows : d'.follows = d.follows
  own : own id d' = own id d
  left : ∀ a ∈ d.articles, a.slug = slug ↔ a.id = id
  right : ∀ a ∈ d'.articles, a.slug = slug ↔ a.id = id
  known : ∀ name ∈ names, ∃ t ∈ d.tags, t.name = name

section

variable {slug username : Str} {d d' b : Tables} {L M : Set Row} {a : Article} {articleId : Uuid}
  {names : List Str} {now : Timestamp}

theorem mem_of_own (h : own a.id d' = own a.id d) (ha : a ∈ d.articles) : a ∈ d'.articles := by
  have hin : a ∈ (own a.id d).articles := List.mem_filter.mpr ⟨ha, decide_eq_true rfl⟩
  rw [← h] at hin
  exact List.mem_of_mem_filter hin

theorem protects_sameHeld : Protects SameHeld where
  refl _ d := ⟨Shared.refl d, fun _ _ _ => rfl⟩
  trans h h' := ⟨h.shared.trans h'.shared, fun a ha hL =>
    (h'.held a (mem_of_own (h.held a ha hL) ha) hL).trans (h.held a ha hL)⟩
  anti hL h := ⟨h.shared, fun a ha ha' => h.held a ha (hL ha')⟩

theorem OnlyOwn.refl (articleId : Uuid) (d : Tables) : OnlyOwn articleId d d :=
  ⟨Shared.refl d, fun _ _ => rfl⟩

theorem OnlyOwn.trans {d'' : Tables} (h : OnlyOwn articleId d d') (h' : OnlyOwn articleId d' d'') :
    OnlyOwn articleId d d'' :=
  ⟨h.shared.trans h'.shared, fun other hid => (h'.others other hid).trans (h.others other hid)⟩

/-- Without the lock of the article, a change of what belongs to it is not seen. -/
theorem OnlyOwn.same (h : OnlyOwn articleId d d') (hM : Row.article articleId ∉ M) :
    SameHeld M d d' :=
  ⟨h.shared, fun a _ ha => h.others a.id fun hid => hM (hid ▸ ha)⟩

namespace SameHeld

theorem findUser (h : SameHeld L d d') : d'.findUser username = d.findUser username := by
  rw [Tables.findUser, h.shared.users, Tables.findUser]

theorem findArticle_none (h : SameHeld L d d') (ha : d.findArticle slug = none) :
    d'.findArticle slug = none := by
  rw [Tables.findArticle_eq_none] at ha ⊢
  intro b hb hslug
  obtain ⟨a, ha', -, hs⟩ := h.shared.slugs b hb
  exact ha a ha' (hs.trans hslug)

theorem findArticle_some (h : SameHeld L d d') (ha : d.findArticle slug = some a)
    (hL : Row.article a.id ∈ L) : d'.findArticle slug = some a := by
  obtain ⟨hmem, hslug⟩ := Tables.findArticle_eq_some.mp ha
  exact Tables.findArticle_eq_some.mpr ⟨mem_of_own (h.held a hmem hL) hmem, hslug⟩

theorem sameOwn (h : SameHeld L d d') (ha : a ∈ d.articles) (hL : Row.article a.id ∈ L)
    (hnames : ∀ name ∈ names, ∃ t ∈ d.tags, t.name = name) :
    SameOwn names a.id a.slug d d' := by
  have hslug : ∀ db : Tables, a ∈ db.articles →
      ∀ b ∈ db.articles, b.slug = a.slug ↔ b.id = a.id := by
    intro db ha b hb
    refine ⟨fun hs => ?_, fun hid => ?_⟩
    · rw [Keyed.eq_of_key db.uq_articles_slug hb ha hs]
    · rw [Keyed.eq_of_key db.pk_articles hb ha hid]
  have hown := h.held a ha hL
  exact ⟨h.shared.users, h.shared.tags, h.shared.follows, hown, hslug d ha,
    hslug d' (mem_of_own hown ha), hnames⟩

end SameHeld

/-- After the lock of an article, a call that depends on what belongs to it, and changes that. -/
theorem wellLocked_own {ε α : Type} {x : Tx Tables Row ε α}
    (hx : x.Confined (SameOwn names a.id a.slug) (OnlyOwn a.id)) (ha : a ∈ b.articles)
    (hL : Row.article a.id ∈ L) (hnames : ∀ name ∈ names, ∃ t ∈ b.tags, t.name = name) :
    WellLocked SameHeld x L id b := by
  refine WellLocked.of_confined protects_sameHeld hx (fun d d' hd hdd' => ?_)
    (fun d _ => OnlyOwn.refl a.id d) (fun _ _ _ h h' => h.trans h') fun d d' M _ hM hF =>
      hF.same fun hin => hM _ hin hL
  have hmem := mem_of_own (hd.held a ha hL) ha
  exact hdd'.sameOwn hmem hL (hd.shared.tags ▸ hnames)

/-! ### Reads -/

namespace SameOwn

theorem exists_iff (h : SameOwn names articleId slug d d') :
    (∃ a ∈ d'.articles, a.id = articleId) ↔ ∃ a ∈ d.articles, a.id = articleId := by
  have hrows : ∀ db : Tables, (∃ a ∈ db.articles, a.id = articleId) ↔
      ∃ a, a ∈ (Blog.own articleId db).articles := by
    intro db
    simp [Blog.own]
  rw [hrows, hrows, h.own]

theorem selectBySlug (h : SameOwn names articleId slug d d') :
    selectBySlug slug d' = selectBySlug slug d := by
  have hmem : ∀ a, a ∈ d'.articles ∧ a.slug = slug ↔ a ∈ d.articles ∧ a.slug = slug := by
    intro a
    have hrows : ∀ db : Tables, (∀ a ∈ db.articles, a.slug = slug ↔ a.id = articleId) →
        (a ∈ db.articles ∧ a.slug = slug ↔ a ∈ (Blog.own articleId db).articles) := by
      intro db hslug
      rw [Blog.own, List.mem_filter, decide_eq_true_eq]
      exact and_congr_right fun ha => hslug a ha
    rw [hrows d' h.right, hrows d h.left, h.own]
  refine Option.ext fun x => ?_
  obtain ⟨a, u⟩ := x
  rw [selectBySlug_eq_some, selectBySlug_eq_some, hmem, h.users]

theorem loadOrderedTags (h : SameOwn names articleId slug d d') :
    loadOrderedTags articleId d' = loadOrderedTags articleId d := by
  rw [loadOrderedTags_eq, loadOrderedTags_eq, h.tags]
  have hrows := congrArg Own.articleTags h.own
  rw [show d'.articleTags.filter _ = _ from hrows]
  rfl

theorem countFavorites (h : SameOwn names articleId slug d d') :
    countFavorites articleId d' = countFavorites articleId d :=
  congrArg (List.length ∘ Own.favorites) h.own

theorem findFavorite (h : SameOwn names articleId slug d d') {userId : Uuid} :
    findFavorite articleId userId d' = findFavorite articleId userId d := by
  have hmem : ∀ db : Tables, (⟨articleId, userId⟩ : ArticleFavorite) ∈ db.favorites ↔
      ⟨articleId, userId⟩ ∈ (Blog.own articleId db).favorites := by
    intro db
    simp [Blog.own]
  rw [findFavorite_eq, findFavorite_eq]
  simp only [hmem, h.own]

theorem findFollow (h : SameOwn names articleId slug d d') {followerId followingId : Uuid} :
    findFollow followerId followingId d' = findFollow followerId followingId d := by
  rw [Articles.findFollow, h.follows, Articles.findFollow]

theorem findUser (h : SameOwn names articleId slug d d') :
    d'.findUser username = d.findUser username := by
  rw [Tables.findUser, h.users, Tables.findUser]

end SameOwn

/-- A read of the article under the slug. -/
theorem confined_read {F : Tables → Tables → Prop} {viewerUsername : Option Str}
    (hF : ∀ d, F d d) :
    (getBySlug slug viewerUsername).Confined (SameOwn names articleId slug) F := by
  have htail : ∀ b : Article, b.id = articleId → ∀ u viewer,
      Tx.Confined (SameOwn names articleId slug) F (α := ArticleDetail) (do
        let tags ← Tx.select (loadOrderedTags b.id)
        let favoritesCount ← Tx.select (countFavorites b.id)
        let favorite ← ifViewer viewer fun viewer => findFavorite b.id viewer.id
        let follow ← ifViewer viewer fun viewer => findFollow viewer.id b.authorId
        pure (serializeDetail b u tags favoritesCount favorite follow)) := by
    intro b hb u viewer
    rw [hb]
    refine Tx.confined_select hF (fun d d' h => h.loadOrderedTags) fun _ _ => ?_
    refine Tx.confined_select hF (fun d d' h => h.countFavorites) fun _ _ => ?_
    cases viewer with
    | none => exact Tx.confined_pure
    | some viewer =>
        refine Tx.confined_select hF (fun d d' h => h.findFavorite) fun _ _ => ?_
        exact Tx.confined_select hF (fun d d' h => h.findFollow) fun _ _ => Tx.confined_pure
  rw [getBySlug]
  refine Tx.confined_select hF (fun d d' h => h.selectBySlug) fun d hd => ?_
  refine Tx.confined_orThrow fun x hx => ?_
  obtain ⟨b, u⟩ := x
  obtain ⟨⟨hb, hslug⟩, -⟩ := selectBySlug_eq_some.mp hx
  have hid := (hd.left b hb).mp hslug
  rcases viewerUsername with _ | _ | ⟨c, username⟩
  · exact htail b hid u none
  · exact htail b hid u none
  · simp only [findViewer, bind_assoc, pure_bind]
    refine Tx.confined_select hF (fun d d' h => h.findUser) fun _ _ => ?_
    exact Tx.confined_orThrow fun viewer _ => htail b hid u (some viewer)

/-! ### Writes -/

/-- Writes of what belongs to the article, that make the same of the same. -/
theorem SameOwn.write {e e' : Tables} (h : SameOwn names articleId slug d d')
    (hd : OnlyOwn articleId d e) (hd' : OnlyOwn articleId d' e')
    (hown : Blog.own articleId e' = Blog.own articleId e) :
    SameOwn names articleId slug e e' := by
  have hslug : ∀ {d e : Tables}, OnlyOwn articleId d e →
      (∀ a ∈ d.articles, a.slug = slug ↔ a.id = articleId) →
      ∀ a ∈ e.articles, a.slug = slug ↔ a.id = articleId := by
    intro d e hd h b hb
    obtain ⟨a, ha, hid, hs⟩ := hd.shared.slugs b hb
    rw [← hid, ← hs]
    exact h a ha
  refine ⟨?_, ?_, ?_, hown, hslug hd h.left, hslug hd' h.right, ?_⟩
  · rw [hd'.shared.users, h.users, hd.shared.users]
  · rw [hd'.shared.tags, h.tags, hd.shared.tags]
  · rw [hd'.shared.follows, h.follows, hd.shared.follows]
  · rw [hd.shared.tags]
    exact h.known

theorem SameOwn.isSome {w : Tables → Option Tables} (h : SameOwn names articleId slug d d')
    (hsome : (w d').isSome = (w d).isSome)
    (honly : ∀ d e, w d = some e → OnlyOwn articleId d e)
    (hown : ∀ e e', w d = some e → w d' = some e' →
      Blog.own articleId e' = Blog.own articleId e) :
    SameOwn names articleId slug ((w d).getD d) ((w d').getD d') := by
  cases hd : w d with
  | none =>
      rw [hd, Option.isSome_none, Option.isSome_eq_false_iff, Option.isNone_iff_eq_none] at hsome
      rw [hsome]
      exact h
  | some e =>
      rw [hd, Option.isSome_some] at hsome
      obtain ⟨e', hd'⟩ := Option.isSome_iff_exists.mp hsome
      rw [hd']
      exact h.write (honly d e hd) (honly d' e' hd') (hown e e' hd hd')

theorem onlyOwn_getD {w : Tables → Option Tables}
    (honly : ∀ d e, w d = some e → OnlyOwn articleId d e) (d : Tables) :
    OnlyOwn articleId d ((w d).getD d) := by
  cases hd : w d with
  | none => exact OnlyOwn.refl articleId d
  | some e => exact honly d e hd

/-! The article itself. -/

theorem filter_updateArticle {g : Article → Article} {hg : ∀ a : Article, a.SameIdentity (g a)}
    (other : Uuid) : (d.updateArticle articleId g hg).articles.filter (·.id = other) =
      (d.articles.filter (·.id = other)).map fun a => if a.id = articleId then g a else a := by
  change (d.articles.map _).filter _ = _
  rw [List.filter_map]
  refine congrArg _ (List.filter_congr fun a _ => ?_)
  simp only [Function.comp_apply]
  split
  · rw [(hg a).id]
  · rfl

theorem onlyOwn_updateArticle {g : Article → Article} {hg : ∀ a : Article, a.SameIdentity (g a)} :
    OnlyOwn articleId d (d.updateArticle articleId g hg) where
  shared := by
    refine ⟨rfl, rfl, rfl, fun b hb => ?_⟩
    obtain ⟨a, ha, rfl⟩ := List.mem_map.mp hb
    refine ⟨a, ha, ?_⟩
    split
    · exact ⟨(hg a).id.symm, (hg a).slug.symm⟩
    · exact ⟨rfl, rfl⟩
  others other hother := by
    rw [own, filter_updateArticle, List.map_congr_left (g := fun a => a), List.map_id']
    · rfl
    · intro a ha
      have hid : a.id = other := of_decide_eq_true (List.mem_filter.mp ha).2
      rw [if_neg fun h => hother (hid ▸ h)]

theorem own_updateArticle {g : Article → Article} {hg : ∀ a : Article, a.SameIdentity (g a)}
    (h : own articleId d' = own articleId d) :
    own articleId (d'.updateArticle articleId g hg) =
      own articleId (d.updateArticle articleId g hg) := by
  have harticles : d'.articles.filter _ = d.articles.filter _ := congrArg Own.articles h
  have hrest := Own.mk.injEq .. ▸ h
  rw [own, filter_updateArticle, harticles, own, filter_updateArticle]
  simp only [Own.mk.injEq, true_and]
  exact hrest.2

theorem onlyOwn_deleteArticle : OnlyOwn articleId d (d.deleteArticle articleId) where
  shared := ⟨rfl, rfl, rfl, fun b hb => ⟨b, List.mem_of_mem_filter hb, rfl, rfl⟩⟩
  others other hother := by
    rw [own, own, Own.mk.injEq]
    exact ⟨Keyed.filter_filter_ne hother, Keyed.filter_filter_ne hother,
      Keyed.filter_filter_ne hother, Keyed.filter_filter_ne hother⟩

theorem own_deleteArticle : own articleId (d.deleteArticle articleId) = ⟨[], [], [], []⟩ := by
  have hnone : ∀ {α : Type} (l : List α) (key : α → Uuid),
      (l.filter (key · ≠ articleId)).filter (key · = articleId) = [] := by
    intro α l key
    rw [List.filter_filter, List.filter_eq_nil_iff]
    simp
  rw [own, Own.mk.injEq]
  exact ⟨hnone _ _, hnone _ _, hnone _ _, hnone _ _⟩

/-! What refers to it. -/

theorem onlyOwn_of_links (h : Tables.LinksOnly d d')
    (hrows : ∀ other, other ≠ articleId →
      d'.articleTags.filter (·.articleId = other) = d.articleTags.filter (·.articleId = other)) :
    OnlyOwn articleId d d' where
  shared := ⟨h.users, h.tags, h.follows, fun b hb => ⟨b, h.articles ▸ hb, rfl, rfl⟩⟩
  others other hother := by
    rw [own, own, h.articles, h.favorites, h.comments, hrows other hother]

theorem onlyOwn_of_favorites (h : FavoritesOf articleId d d') : OnlyOwn articleId d d' where
  shared := ⟨h.only.users, h.only.tags, h.only.follows,
    fun b hb => ⟨b, h.only.articles ▸ hb, rfl, rfl⟩⟩
  others other hother := by
    rw [own, own, h.only.articles, h.only.articleTags, h.only.comments, h.others other hother]

theorem onlyOwn_of_comments (h : Tables.CommentsOnly d d')
    (hrows : ∀ other, other ≠ articleId →
      d'.comments.filter (·.articleId = other) = d.comments.filter (·.articleId = other)) :
    OnlyOwn articleId d d' where
  shared := ⟨h.users, h.tags, h.follows, fun b hb => ⟨b, h.articles ▸ hb, rfl, rfl⟩⟩
  others other hother := by
    rw [own, own, h.articles, h.favorites, h.articleTags, hrows other hother]

theorem filter_append_of_ne {α : Type} {l rows : List α} {key : α → Uuid} {other : Uuid}
    (hrows : ∀ x ∈ rows, key x = articleId) (hother : other ≠ articleId) :
    (l ++ rows).filter (key · = other) = l.filter (key · = other) := by
  have hnone : rows.filter (key · = other) = [] := by
    rw [List.filter_eq_nil_iff]
    intro x hx
    simp [hrows x hx, Ne.symm hother]
  rw [List.filter_append, hnone, List.append_nil]

/-! The tags. -/

/-- Where there are tags of all names, no new ones come. -/
theorem insertTags_of_known {rows : List Tag} (h : ∀ t ∈ rows, ∃ t' ∈ d.tags, t'.name = t.name) :
    d.insertTags rows = d := by
  induction rows with
  | nil => rfl
  | cons t rows ih =>
      obtain ⟨t', ht', hname⟩ := h t List.mem_cons_self
      rw [Tables.insertTags, List.foldl_cons, Tables.insertTag,
        dif_neg fun hfree => hfree.2 t' ht' hname]
      exact ih fun t ht => h t (List.mem_cons_of_mem _ ht)

theorem onlyOwn_insertArticleTags {rows : List ArticleTag}
    (hrows : ∀ l ∈ rows, l.articleId = articleId)
    (h : d.insertArticleTags rows = some d') : OnlyOwn articleId d d' := by
  obtain ⟨hlinks, honly⟩ := Tables.insertArticleTags_eq_some h
  refine onlyOwn_of_links honly fun other hother => ?_
  rw [hlinks]
  exact filter_append_of_ne hrows hother

theorem own_insertArticleTags {rows : List ArticleTag} (h : d.insertArticleTags rows = some d') :
    own articleId d' = { own articleId d with
      articleTags := (own articleId d).articleTags ++ rows.filter (·.articleId = articleId) } := by
  obtain ⟨hlinks, honly⟩ := Tables.insertArticleTags_eq_some h
  rw [own, honly.articles, honly.favorites, honly.comments, hlinks, List.filter_append]
  rfl

theorem SameOwn.isSome_insertArticleTag {l : ArticleTag} (h : SameOwn names articleId slug d d')
    (hl : l.articleId = articleId) :
    (d'.insertArticleTag l).isSome = (d.insertArticleTag l).isSome := by
  have hsome : ∀ db : Tables, (db.insertArticleTag l).isSome = true ↔
      (∀ m ∈ (Blog.own articleId db).articleTags, (m.articleId, m.tagId) ≠ (l.articleId, l.tagId)) ∧
      (∀ m ∈ (Blog.own articleId db).articleTags,
        (m.articleId, m.position) ≠ (l.articleId, l.position)) ∧
      (∃ a ∈ db.articles, a.id = articleId) ∧ ∃ t ∈ db.tags, t.id = l.tagId := by
    intro db
    have hown : ∀ {key : ArticleTag → Uuid}, (∀ m ∈ (Blog.own articleId db).articleTags,
        (m.articleId, key m) ≠ (l.articleId, key l)) ↔
        ∀ m ∈ db.articleTags, (m.articleId, key m) ≠ (l.articleId, key l) := by
      intro key
      refine ⟨fun h m hm heq => ?_, fun h m hm => h m (List.mem_of_mem_filter hm)⟩
      have hid : m.articleId = articleId := (Prod.mk.inj heq).1.trans hl
      exact h m (List.mem_filter.mpr ⟨hm, decide_eq_true hid⟩) heq
    rw [hown, hown, Tables.insertArticleTag, ← hl]
    split
    · rename_i hfree
      exact ⟨fun _ => hfree, fun _ => rfl⟩
    · rename_i hfree
      exact iff_of_false Bool.false_ne_true hfree
  rw [Bool.eq_iff_iff, hsome, hsome, h.own, h.exists_iff, h.tags]

/-- The links of an article go in, or do not, whatever others there are. -/
theorem SameOwn.isSome_insertArticleTags {rows : List ArticleTag}
    (h : SameOwn names articleId slug d d') (hrows : ∀ l ∈ rows, l.articleId = articleId) :
    (d'.insertArticleTags rows).isSome = (d.insertArticleTags rows).isSome := by
  induction rows generalizing d d' with
  | nil => rfl
  | cons l rows ih =>
      have hl := hrows l List.mem_cons_self
      have hsome := h.isSome_insertArticleTag hl
      rw [Tables.insertArticleTags, Tables.insertArticleTags, List.foldlM_cons, List.foldlM_cons]
      cases hd : d.insertArticleTag l with
      | none =>
          rw [hd, Option.isSome_none, Option.isSome_eq_false_iff,
            Option.isNone_iff_eq_none] at hsome
          rw [hsome]
      | some e =>
          rw [hd, Option.isSome_some] at hsome
          obtain ⟨e', hd'⟩ := Option.isSome_iff_exists.mp hsome
          rw [hd']
          have hone : ∀ {d e : Tables}, d.insertArticleTag l = some e →
              d.insertArticleTags [l] = some e := fun h => by
            rw [Tables.insertArticleTags, List.foldlM_cons, h]
            rfl
          have hlist : ∀ m ∈ [l], m.articleId = articleId := by simpa using hl
          refine ih (h.write (onlyOwn_insertArticleTags hlist (hone hd))
            (onlyOwn_insertArticleTags hlist (hone hd')) ?_)
            fun m hm => hrows m (List.mem_cons_of_mem _ hm)
          rw [own_insertArticleTags (hone hd'), own_insertArticleTags (hone hd), h.own]

/-! ### Updates -/

theorem confined_saveArticle {changed : Bool} {entity : Article} (hid : entity.id = articleId) :
    (saveArticle changed entity now).Confined (SameOwn names articleId slug)
      (OnlyOwn articleId) := by
  subst hid
  cases changed with
  | false => exact Tx.confined_pure
  | true =>
      exact Tx.confined_execute (fun _ _ _ => rfl)
        (fun d d' h =>
          h.write onlyOwn_updateArticle onlyOwn_updateArticle (own_updateArticle h.own))
        (fun d _ => onlyOwn_updateArticle) fun _ _ => Tx.confined_pure

theorem confined_touchUpdatedAt {changed : Bool} : (touchUpdatedAt changed articleId now).Confined
    (SameOwn names articleId slug) (OnlyOwn articleId) := by
  cases changed with
  | true => exact Tx.confined_pure
  | false =>
      exact Tx.confined_execute (fun _ _ _ => rfl)
        (fun d d' h =>
          h.write onlyOwn_updateArticle onlyOwn_updateArticle (own_updateArticle h.own))
        (fun d _ => onlyOwn_updateArticle) fun _ _ => Tx.confined_pure

/-- The tags of known names are looked up. -/
theorem confined_ensureTagsExist {newTagId : Str → Uuid} :
    (ensureTagsExist newTagId names).Confined (SameOwn names articleId slug)
      (OnlyOwn articleId) := by
  unfold ensureTagsExist
  split
  · exact Tx.confined_pure
  have hknown : ∀ {d d' : Tables}, SameOwn names articleId slug d d' →
      d.insertTags (names.map fun name => ⟨newTagId name, name⟩) = d := by
    intro d d' h
    refine insertTags_of_known fun t ht => ?_
    obtain ⟨name, hname, rfl⟩ := List.mem_map.mp ht
    exact h.known name hname
  refine Tx.confined_execute (fun _ _ _ => rfl) (fun d d' h => ?_) (fun d h => ?_) fun _ _ => ?_
  · have h' : SameOwn names articleId slug d' d' := ⟨rfl, rfl, rfl, rfl, h.right, h.right, by
      rw [h.tags]
      exact h.known⟩
    rw [hknown h, hknown h']
    exact h
  · rw [hknown h]
    exact OnlyOwn.refl articleId d
  refine Tx.confined_select (OnlyOwn.refl articleId) (fun d d' h => by rw [h.tags]) fun _ _ => ?_
  exact Tx.confined_require fun _ => Tx.confined_pure

theorem articleId_of_linkRows {names' : List Str} {tagIds : Map Str Uuid} {rows : List ArticleTag}
    (h : linkRows articleId names' tagIds = some rows) : ∀ l ∈ rows, l.articleId = articleId := by
  rw [linkRows] at h
  generalize names'.zipIdx = positions at h
  induction positions generalizing rows with
  | nil =>
      cases h
      exact nofun
  | cons x positions ih =>
      rw [List.mapM_cons] at h
      obtain ⟨l, hl, h⟩ := Option.bind_eq_some_iff.mp h
      obtain ⟨rest, hrest, h⟩ := Option.bind_eq_some_iff.mp h
      obtain rfl := Option.some.inj h
      intro m hm
      rcases List.mem_cons.mp hm with rfl | hm
      · obtain ⟨tagId, -, rfl⟩ := Option.map_eq_some_iff.mp hl
        rfl
      · exact ih hrest m hm

theorem confined_insertArticleTagLinks {names' : List Str} {tagIds : Map Str Uuid} :
    (insertArticleTagLinks articleId names' tagIds).Confined (SameOwn names articleId slug)
      (OnlyOwn articleId) := by
  unfold insertArticleTagLinks
  split
  · exact Tx.confined_pure
  rw [← bind_pure (Tx.attempt _ _)]
  cases hrows : linkRows articleId names' tagIds with
  | none =>
      exact Tx.confined_attempt (fun d d' h => ⟨rfl, rfl, h⟩) (fun d _ => OnlyOwn.refl articleId d)
        Tx.confined_pure
  | some rows =>
      have hids := articleId_of_linkRows hrows
      have honly : ∀ d e : Tables, d.insertArticleTags rows = some e → OnlyOwn articleId d e :=
        fun d e => onlyOwn_insertArticleTags hids
      refine Tx.confined_attempt (fun d d' h => ⟨?_, rfl, ?_⟩) (fun d _ => ?_) Tx.confined_pure
      · exact h.isSome_insertArticleTags hids
      · refine h.isSome (h.isSome_insertArticleTags hids) honly fun e e' he he' => ?_
        rw [own_insertArticleTags he, own_insertArticleTags he', h.own]
      · exact onlyOwn_getD honly d

theorem confined_replaceArticleTags {newTagId : Str → Uuid} {tagList : List Str}
    (hnames : uniqueArticleTagNames tagList = names) :
    (replaceArticleTags newTagId articleId tagList).Confined (SameOwn names articleId slug)
      (OnlyOwn articleId) := by
  unfold replaceArticleTags
  rw [hnames]
  have honly : ∀ d : Tables, OnlyOwn articleId d (d.deleteArticleTags articleId) := by
    intro d
    exact onlyOwn_of_links ⟨rfl, rfl, rfl, rfl, rfl, rfl⟩ fun other hother =>
      Keyed.filter_filter_ne hother
  refine confined_ensureTagsExist.bind fun tagIds => ?_
  refine Tx.confined_execute (fun _ _ _ => rfl) (fun d d' h => ?_) (fun d _ => honly d) fun _ _ =>
    confined_insertArticleTagLinks.bind fun _ => Tx.confined_pure
  refine h.write (honly d) (honly d') ?_
  have hnone : ∀ db : Tables, own articleId (db.deleteArticleTags articleId) =
      { own articleId db with articleTags := [] } := by
    intro db
    have hlinks : (db.deleteArticleTags articleId).articleTags.filter (·.articleId = articleId) =
        [] := by
      change (db.articleTags.filter _).filter _ = _
      rw [List.filter_filter, List.filter_eq_nil_iff]
      simp
    rw [own, hlinks]
    rfl
  rw [hnone, hnone, h.own]

theorem confined_updateTags {call : UpdateCall} {changed : Bool} :
    (updateTags call now articleId changed).Confined
      (SameOwn call.request.newNames articleId slug) (OnlyOwn articleId) := by
  unfold updateTags ArticleUpdate.newNames
  cases call.request.tagList with
  | none => exact Tx.confined_pure
  | some tagList =>
      refine Tx.confined_select (OnlyOwn.refl articleId) (fun d d' h => h.loadOrderedTags)
        fun d _ => ?_
      change Tx.Confined _ _ (if (!hasSameOrderedTagNames _ _) = true then _ else _)
      split
      · exact confined_touchUpdatedAt.bind fun _ =>
          (confined_replaceArticleTags (uniqueArticleTagNames_idem tagList)).bind fun _ =>
            Tx.confined_pure
      · exact Tx.confined_pure

theorem confined_updateLocked {call : UpdateCall} : (updateLocked call now a).Confined
    (SameOwn call.request.newNames a.id call.slug) (OnlyOwn a.id) := by
  unfold updateLocked
  simp only [applyScalarChanges_fst, applyScalarChanges_snd]
  have hid : (call.request.fields a).id = a.id := rfl
  exact (confined_saveArticle hid).bind fun _ => confined_updateTags.bind fun _ =>
    confined_read (OnlyOwn.refl a.id)

theorem confined_deleteLocked :
    (deleteLocked a).Confined (SameOwn names a.id slug) (OnlyOwn a.id) := by
  refine Tx.confined_execute (fun d d' h => ?_) (fun d d' h => ?_)
    (fun d _ => onlyOwn_deleteArticle) fun _ _ => Tx.confined_require fun _ => Tx.confined_pure
  · exact congrArg (List.length ∘ Own.articles) h.own
  · refine h.write onlyOwn_deleteArticle onlyOwn_deleteArticle ?_
    rw [own_deleteArticle, own_deleteArticle]

/-! ### Favorites -/

theorem confined_createFavorite {userId : Uuid} {e : ArticleError} :
    Tx.Confined (SameOwn names articleId slug) (OnlyOwn articleId) (do
      Tx.attempt (·.insertFavorite ⟨articleId, userId⟩) fun _ => e
      getBySlug slug (some username)) := by
  have honly : ∀ d e : Tables, d.insertFavorite ⟨articleId, userId⟩ = some e →
      OnlyOwn articleId d e := fun d e he => onlyOwn_of_favorites (favoritesOf_insertFavorite he)
  have hsome : ∀ {d d' : Tables}, SameOwn names articleId slug d d' →
      (d'.insertFavorite ⟨articleId, userId⟩).isSome =
        (d.insertFavorite ⟨articleId, userId⟩).isSome := by
    intro d d' h
    rw [Bool.eq_iff_iff, Tables.isSome_insertFavorite, Tables.isSome_insertFavorite, h.exists_iff,
      h.users]
  refine Tx.confined_attempt (fun d d' h => ⟨hsome h, rfl, ?_⟩) (fun d _ => onlyOwn_getD honly d)
    (confined_read (OnlyOwn.refl articleId))
  refine h.isSome (hsome h) honly fun e e' he he' => ?_
  have hrows := congrArg Own.favorites h.own
  have hinsert := filter_insertFavorite articleId rfl he
  have hinsert' := filter_insertFavorite articleId rfl he'
  obtain ⟨-, ho⟩ := Tables.insertFavorite_eq_some he
  obtain ⟨-, ho'⟩ := Tables.insertFavorite_eq_some he'
  rw [own, own, ho.articles, ho'.articles, ho.articleTags, ho'.articleTags, ho.comments,
    ho'.comments, hinsert, hinsert']
  change Own.mk (own articleId d').articles (if _ ∈ (own articleId d').favorites then
    (own articleId d').favorites else (own articleId d').favorites ++ _)
    (own articleId d').articleTags (own articleId d').comments = _
  rw [h.own]
  rfl

theorem confined_deleteFavorite {userId : Uuid} :
    Tx.Confined (SameOwn names articleId slug) (OnlyOwn articleId) (do
      Tx.execute (·.deleteFavorite ⟨articleId, userId⟩) fun _ => ()
      getBySlug slug (some username) : ArticleTx ArticleDetail) := by
  have honly : ∀ d : Tables, OnlyOwn articleId d (d.deleteFavorite ⟨articleId, userId⟩) :=
    fun d => onlyOwn_of_favorites (favoritesOf_deleteFavorite ⟨articleId, userId⟩)
  refine Tx.confined_execute (fun _ _ _ => rfl) (fun d d' h => ?_) (fun d _ => honly d)
    fun _ _ => confined_read (OnlyOwn.refl articleId)
  refine h.write (honly d) (honly d') ?_
  have hrows : ∀ db : Tables, own articleId (db.deleteFavorite ⟨articleId, userId⟩) =
      { own articleId db with favorites :=
        (own articleId db).favorites.filter (· ≠ ⟨articleId, userId⟩) } := by
    intro db
    rw [own, own, Own.mk.injEq]
    exact ⟨rfl, List.filter_comm .., rfl, rfl⟩
  rw [hrows, hrows, h.own]

/-! ### Comments -/

theorem onlyOwn_deleteComments {authorId : Uuid} {commentId : ℤ} :
    OnlyOwn articleId d (d.deleteComments (ownComment articleId authorId commentId)) := by
  refine onlyOwn_of_comments ⟨rfl, rfl, rfl, rfl, rfl, rfl⟩ fun other hother => ?_
  change (d.comments.filter _).filter _ = _
  rw [List.filter_filter]
  refine List.filter_congr fun c _ => ?_
  by_cases hc : c.articleId = other
  · simp [ownComment, hc, hother]
  · simp [hc]

theorem own_deleteComments {p : Comment → Bool} : own articleId (d.deleteComments p) =
    { own articleId d with comments := (own articleId d).comments.filter fun c => !p c } := by
  rw [own, own, Own.mk.injEq]
  exact ⟨rfl, rfl, rfl, List.filter_comm ..⟩

/-- The statements of a comment's delete after the article is locked. -/
theorem confined_deleteComment {commentId : ℤ} :
    Tx.Confined (ε := CommentError) (SameOwn names articleId slug) (OnlyOwn articleId) (do
      let found ← Tx.select (·.findUser username)
      let user ← Tx.orThrow .commentUserNotFound found
      Tx.require (validCommentId commentId) .commentNotFound
      let found ← Tx.selectForUpdate (findComment articleId commentId) fun c => Row.comment c.id
      let comment ← Tx.orThrow .commentNotFound found
      Tx.require (comment.authorId = user.id) .commentForbidden
      let own := ownComment articleId user.id commentId
      let affected ← Tx.execute (·.deleteComments own) fun db => (db.comments.filter own).length
      Tx.require (affected = 1) .commentPersistence
      pure ()) := by
  refine Tx.confined_select (OnlyOwn.refl articleId) (fun d d' h => h.findUser) fun _ _ => ?_
  refine Tx.confined_orThrow fun user _ => Tx.confined_require fun _ => ?_
  have hcomments : ∀ {d d' : Tables}, SameOwn names articleId slug d d' →
      d'.comments.filter (·.articleId = articleId) = d.comments.filter (·.articleId = articleId) :=
    fun h => congrArg Own.comments h.own
  refine Tx.confined_selectForUpdate (OnlyOwn.refl articleId) (fun d d' h => ?_) fun _ _ => ?_
  · rw [findComment_eq, findComment_eq, hcomments h]
  refine Tx.confined_orThrow fun comment _ => Tx.confined_require fun _ => ?_
  refine Tx.confined_execute (fun d d' h => ?_) (fun d d' h => ?_)
    (fun d _ => onlyOwn_deleteComments) fun _ _ => Tx.confined_require fun _ => Tx.confined_pure
  · rw [filter_ownComment, filter_ownComment, hcomments h]
  · refine h.write onlyOwn_deleteComments onlyOwn_deleteComments ?_
    rw [own_deleteComments, own_deleteComments, h.own]

/-! ### Calls -/

variable {Rely : Tables → Prop}

/-- The statements that an update and a delete begin with: the user, the article under its lock, and
the check that they belong together. -/
theorem wellLocked_checked {α : Type} {e₁ e₂ e₃ : ArticleError} {x : Article → ArticleTx α}
    (hx : ∀ a, (x a).Confined (SameOwn names a.id slug) (OnlyOwn a.id))
    (hnames : ∀ d, Rely d → ∀ name ∈ names, ∃ t ∈ d.tags, t.name = name) :
    WellLockedIn Rely SameHeld (do
      let found ← Tx.select (·.findUser username)
      let user ← Tx.orThrow e₁ found
      let found ← Tx.selectForUpdate (·.findArticle slug) fun article => Row.article article.id
      let article ← Tx.orThrow e₂ found
      Tx.require (article.authorId = user.id) e₃
      x article) ∅ id b := by
  refine wellLockedIn_select (fun _ _ _ _ _ h => h.findUser) fun d hr _ => ?_
  refine wellLockedIn_orThrow fun user _ => ?_
  refine wellLockedIn_selectForUpdate (fun d₁ _ _ hnone => ?_) fun d₁ hr₁ _ a ha => ?_
  · exact ⟨fun d' _ h => h.findArticle_none hnone, wellLockedIn_orThrow nofun⟩
  refine ⟨fun d' _ h => h.findArticle_some ha (Set.mem_insert _ _), ?_⟩
  refine WellLocked.toIn (wellLocked_orThrow fun a' ha' => wellLocked_require fun _ => ?_)
  obtain rfl := Option.some.inj ha'
  obtain ⟨hmem, rfl⟩ := Tables.findArticle_eq_some.mp ha
  exact wellLocked_own (hx a) hmem (Set.mem_insert _ _) (hnames d₁ hr₁)

theorem wellLocked_favorite {write : ArticleFavorite → ArticleTx Unit}
    (hwrite : ∀ (a : Article) userId, Tx.Confined (SameOwn [] a.id slug) (OnlyOwn a.id) (do
      write ⟨a.id, userId⟩
      getBySlug slug (some username))) :
    WellLocked SameHeld (favorite write slug username) ∅ id b := by
  refine wellLocked_selectForUpdate (fun d _ hnone => ?_) fun d _ viewer hviewer => ?_
  · exact ⟨fun d' h => h.findUser.trans hnone, wellLocked_orThrow nofun⟩
  refine ⟨fun d' h => h.findUser.trans hviewer, wellLocked_orThrow fun viewer' _ => ?_⟩
  refine wellLocked_selectForUpdate (fun d₁ _ hnone => ?_) fun d₁ _ a ha => ?_
  · exact ⟨fun d' h => h.findArticle_none hnone, wellLocked_orThrow nofun⟩
  refine ⟨fun d' h => h.findArticle_some ha (Set.mem_insert _ _), ?_⟩
  refine wellLocked_orThrow fun a' ha' => ?_
  obtain rfl := Option.some.inj ha'
  obtain ⟨hmem, rfl⟩ := Tables.findArticle_eq_some.mp ha
  exact wellLocked_own (hwrite a viewer'.id) hmem (Set.mem_insert _ _) nofun

theorem wellLocked_deleteComment {commentId : ℤ} :
    WellLocked SameHeld (CommentService.delete slug commentId username) ∅ id b := by
  refine WellLocked.mapError ?_
  refine wellLocked_selectForUpdate (fun d _ hnone => ?_) fun d _ a ha => ?_
  · exact ⟨fun d' h => h.findArticle_none hnone, wellLocked_orThrow nofun⟩
  refine ⟨fun d' h => h.findArticle_some ha (Set.mem_insert _ _), ?_⟩
  refine wellLocked_orThrow fun a' ha' => ?_
  obtain rfl := Option.some.inj ha'
  obtain ⟨hmem, rfl⟩ := Tables.findArticle_eq_some.mp ha
  have hnames : ∀ name ∈ ([] : List Str), ∃ t ∈ d.tags, t.name = name := nofun
  exact wellLocked_own confined_deleteComment hmem (Set.mem_insert _ _) hnames

theorem onlyOwn_insertComment {c : Comment} (h : d.insertComment c = some d') :
    OnlyOwn c.articleId d d' := by
  obtain ⟨hrows, honly⟩ := Tables.insertComment_eq_some h
  refine onlyOwn_of_comments honly fun other hother => ?_
  rw [hrows]
  exact filter_append_of_ne (by simp) hother

/-- That the insert goes through does not follow from locks. -/
theorem wellLocked_createComment {call : CommentCall} (hfree : ∀ d, Rely d → FreeId call.id d) :
    WellLockedIn Rely SameHeld (CommentService.create call now) ∅ id b := by
  refine WellLockedIn.mapError ?_
  refine wellLockedIn_select (fun _ _ _ _ _ h => h.findUser) fun d _ _ => ?_
  refine wellLockedIn_orThrow fun user huser => ?_
  obtain ⟨huser, -⟩ := Tables.findUser_eq_some.mp huser
  refine wellLockedIn_selectForUpdate (fun d₁ _ _ hnone => ?_) fun d₁ _ hd₁ a ha => ?_
  · exact ⟨fun d' _ h => h.findArticle_none hnone, wellLockedIn_orThrow nofun⟩
  have hlock : Row.article a.id ∈ insert (Row.article a.id) (∅ : Set Row) := Set.mem_insert _ _
  refine ⟨fun d' _ h => h.findArticle_some ha hlock, wellLockedIn_orThrow fun a' ha' => ?_⟩
  obtain rfl := Option.some.inj ha'
  obtain ⟨hmem, -⟩ := Tables.findArticle_eq_some.mp ha
  have hinsert : ∀ d₂, Rely d₂ → SameHeld (insert (Row.article a.id) ∅) d₁ d₂ →
      (d₂.insertComment (call.comment a user now)).isSome := fun d₂ hr h₂ =>
    isSome_insertComment (hfree d₂ hr) ⟨a, mem_of_own (h₂.held a hmem hlock) hmem, rfl⟩
      ⟨user, by rw [h₂.shared.users, hd₁.shared.users]; exact huser, rfl⟩
  refine wellLockedIn_attempt protects_sameHeld hinsert fun d₂ _ hd₂ => ?_
  intro d₃ hr hd₃ M hM
  obtain ⟨d₄, hd₄⟩ := Option.isSome_iff_exists.mp
    (hinsert d₃ hr (protects_sameHeld.trans hd₂ hd₃))
  change SameHeld M d₃ ((d₃.insertComment (call.comment a user now)).getD d₃)
  rw [hd₄]
  exact (onlyOwn_insertComment hd₄).same fun hin => hM _ hin hlock

end

end MediumClone.Blog
