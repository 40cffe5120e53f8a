import MediumClone.Blog.Abstraction
import MediumClone.Articles.Ownership
import MediumClone.Articles.Failures

/-!
# Blog — Effects

What the writes of the services are in the world: each row that comes or goes is one change of its
content.  A write that keeps users, ids and slugs keeps the names of everything it does not touch
(`Keeps`).
-/

noncomputable section

namespace MediumClone.Blog
open Js Sys Schema Articles Comments Profiles

section

variable {d d' : Tables} {a : Article} {id : Uuid}

/-! ### Names that stay -/

/-- Users stay, and the articles there are keep their ids and slugs. -/
structure Keeps (d d' : Tables) : Prop where
  users : d'.users = d.users
  slugs : ∀ a ∈ d.articles, ∃ b ∈ d'.articles, b.id = a.id ∧ b.slug = a.slug

theorem Keeps.of_articles (husers : d'.users = d.users) (h : d'.articles = d.articles) :
    Keeps d d' :=
  ⟨husers, fun a ha => ⟨a, h ▸ ha, rfl, rfl⟩⟩

namespace Keeps

theorem nameOf (h : Keeps d d') : nameOf d' = nameOf d := by
  funext id
  rw [Blog.nameOf, h.users, Blog.nameOf]

theorem slugOf (h : Keeps d d') (ha : ∃ a ∈ d.articles, a.id = id) :
    slugOf d' id = slugOf d id := by
  obtain ⟨a, ha, rfl⟩ := ha
  obtain ⟨b, hb, hid, hslug⟩ := h.slugs a ha
  rw [slugOf_eq ha, ← hid, slugOf_eq hb, hslug]

theorem account (h : Keeps d d') : (content d').account = (content d).account := by
  funext username
  rw [account_eq, account_eq, Tables.findUser, h.users, Tables.findUser]

theorem favorites (h : Keeps d d') (hf : d'.favorites = d.favorites) :
    (content d').favorites = (content d).favorites := by
  change favoriteName d' '' {f | f ∈ d'.favorites} = _
  rw [hf]
  refine Set.image_congr fun f hin => ?_
  rw [favoriteName, h.nameOf, h.slugOf (d.fk_article_favorites_article f hin), favoriteName]

theorem follows (h : Keeps d d') (hf : d'.follows = d.follows) :
    (content d').follows = (content d).follows := by
  change followName d' '' {f | f ∈ d'.follows} = _
  rw [hf]
  refine Set.image_congr fun f _ => ?_
  rw [followName, h.nameOf, followName]

theorem remarkOf (h : Keeps d d') {c : Comment} (hc : c ∈ d.comments) :
    remarkOf d' c = remarkOf d c := by
  rw [Blog.remarkOf, Blog.remarkOf, h.nameOf, h.slugOf (d.fk_comments_article c hc)]

theorem remark (h : Keeps d d') (hc : d'.comments = d.comments) :
    (content d').remark = (content d).remark := by
  funext id
  refine Option.ext fun r => ?_
  rw [remark_eq_some, remark_eq_some, hc]
  exact exists_congr fun c => and_congr_right fun hin => by rw [h.remarkOf hin]

theorem postOf (h : Keeps d d') (ht : loadOrderedTags a.id d' = loadOrderedTags a.id d) :
    postOf d' a = postOf d a := by
  rw [Blog.postOf, Blog.postOf, h.nameOf, ht]

end Keeps

theorem tags_congr (h : d'.tags = d.tags) : (content d').tags = (content d).tags := by
  rw [content, content, h]

theorem post_congr (husers : d'.users = d.users) (h : d'.articles = d.articles)
    (ht : ∀ a ∈ d.articles, loadOrderedTags a.id d' = loadOrderedTags a.id d) :
    (content d').post = (content d).post := by
  have hkeeps := Keeps.of_articles husers h
  funext slug
  refine Option.ext fun p => ?_
  rw [post_eq_some, post_eq_some, h]
  exact exists_congr fun a => and_congr_right fun ha => by rw [hkeeps.postOf (ht a ha)]

theorem Beside.post (husers : d'.users = d.users) (h : Beside d d') :
    (content d').post = (content d).post :=
  post_congr husers h.articles fun _ ha => (h.unchanged ha).tags

/-! ### Favorites and follows -/

variable {u v : User}

theorem insertFollow_rows {f : UserFollow} (h : d.insertFollow f = some d') :
    d'.follows = if f ∈ d.follows then d.follows else d.follows ++ [f] := by
  rw [Tables.insertFollow] at h
  split at h
  · rename_i hf
    obtain rfl := Option.some.inj h
    exact (if_pos hf).symm
  · rename_i hf
    split at h
    · obtain rfl := Option.some.inj h
      exact (if_neg hf).symm
    · cases h

/-- The rows after an insert that passes over a row there is. -/
theorem setOf_insert {α : Type} [DecidableEq α] {x : α} {l : List α} :
    {y | y ∈ if x ∈ l then l else l ++ [x]} = insert x {y | y ∈ l} := by
  ext y
  simp only [Set.mem_ofPred_eq, Set.mem_insert_iff]
  split
  · rename_i hx
    exact ⟨.inr, fun h => h.elim (fun h => h ▸ hx) id⟩
  · rw [List.mem_append, List.mem_singleton, or_comm]

/-- The rows after a delete of the one with the name. -/
theorem image_filter_ne {α β : Type} [DecidableEq α] {name : α → β} {x : α} {l : List α}
    (h : ∀ y ∈ l, name y = name x → y = x) :
    name '' {y | y ∈ l.filter (· ≠ x)} = name '' {y | y ∈ l} \ {name x} := by
  ext b
  constructor
  · rintro ⟨y, hy, rfl⟩
    obtain ⟨hy, hne⟩ := List.mem_filter.mp hy
    exact ⟨⟨y, hy, rfl⟩, fun heq => of_decide_eq_true hne (h y hy heq)⟩
  · rintro ⟨⟨y, hy, rfl⟩, hne⟩
    exact ⟨y, List.mem_filter.mpr ⟨hy, decide_eq_true fun heq => hne (congrArg name heq)⟩, rfl⟩

theorem content_insertFavorite (hu : u ∈ d.users) (ha : a ∈ d.articles)
    (h : d.insertFavorite ⟨a.id, u.id⟩ = some d') : content d' =
      { content d with favorites := insert (u.username, a.slug) (content d).favorites } := by
  obtain ⟨hrows, ho⟩ := Tables.insertFavorite_eq_some h
  have hkeeps := Keeps.of_articles ho.users ho.articles
  have hname : favoriteName d' = favoriteName d := by
    funext f
    rw [favoriteName, hkeeps.nameOf, slugOf, ho.articles, favoriteName, slugOf]
  refine Content.ext hkeeps.account (Beside.post ho.users ⟨ho.articles, ho.tags, ho.articleTags⟩)
    ?_ (hkeeps.follows ho.follows) (hkeeps.remark ho.comments) (tags_congr ho.tags)
  change favoriteName d' '' {f | f ∈ d'.favorites} = insert _ (favoriteName d '' _)
  rw [hname, hrows, setOf_insert, Set.image_insert_eq, favoriteName_mk hu ha]

theorem content_deleteFavorite (hu : u ∈ d.users) (ha : a ∈ d.articles) :
    content (d.deleteFavorite ⟨a.id, u.id⟩) =
      { content d with favorites := (content d).favorites \ {(u.username, a.slug)} } := by
  refine Content.ext rfl (Beside.post rfl ⟨rfl, rfl, rfl⟩) ?_ rfl rfl rfl
  rw [← favoriteName_mk hu ha]
  change favoriteName d '' {f | f ∈ d.favorites.filter _} = _
  refine image_filter_ne fun f hf hname => ?_
  obtain ⟨v, hv, hid⟩ := d.fk_article_favorites_user f hf
  obtain ⟨b, hb, hid'⟩ := d.fk_article_favorites_article f hf
  obtain ⟨articleId, userId⟩ := f
  cases hid
  cases hid'
  rw [favoriteName_mk hv hb, favoriteName_mk hu ha] at hname
  obtain ⟨hname, hslug⟩ := Prod.mk.inj hname
  rw [user_eq hv hu hname, article_eq hb ha hslug]

theorem content_insertFollow (hu : u ∈ d.users) (hv : v ∈ d.users)
    (h : d.insertFollow ⟨u.id, v.id⟩ = some d') : content d' =
      { content d with follows := insert (u.username, v.username) (content d).follows } := by
  obtain ⟨-, ho⟩ := Tables.insertFollow_eq_some h
  have hkeeps := Keeps.of_articles ho.users ho.articles
  have hname : followName d' = followName d := by
    funext f
    rw [followName, hkeeps.nameOf, followName]
  refine Content.ext hkeeps.account (Beside.post ho.users ⟨ho.articles, ho.tags, ho.articleTags⟩)
    (hkeeps.favorites ho.favorites) ?_ (hkeeps.remark ho.comments) (tags_congr ho.tags)
  change followName d' '' {f | f ∈ d'.follows} = insert _ (followName d '' _)
  rw [hname, insertFollow_rows h, setOf_insert, Set.image_insert_eq, followName_mk hu hv]

theorem content_deleteFollow (hu : u ∈ d.users) (hv : v ∈ d.users) :
    content (d.deleteFollow ⟨u.id, v.id⟩) =
      { content d with follows := (content d).follows \ {(u.username, v.username)} } := by
  refine Content.ext rfl (Beside.post rfl ⟨rfl, rfl, rfl⟩) rfl ?_ rfl rfl
  rw [← followName_mk hu hv]
  change followName d '' {f | f ∈ d.follows.filter _} = _
  refine image_filter_ne fun f hf hname => ?_
  obtain ⟨u', hu', hid⟩ := d.fk_user_follows_follower f hf
  obtain ⟨v', hv', hid'⟩ := d.fk_user_follows_following f hf
  obtain ⟨followerId, followingId⟩ := f
  cases hid
  cases hid'
  rw [followName_mk hu' hv', followName_mk hu hv] at hname
  obtain ⟨hname, hname'⟩ := Prod.mk.inj hname
  rw [user_eq hu' hu hname, user_eq hv' hv hname']

/-! ### Comments -/

variable {c : Comment}

theorem content_insertComment (hid : ∀ b ∈ d.comments, b.id ≠ c.id)
    (hrows : d'.comments = d.comments ++ [c]) (ho : Tables.CommentsOnly d d') :
    content d' = { content d with
      remark := Function.update (content d).remark c.id (some (remarkOf d c)) } := by
  have hkeeps := Keeps.of_articles ho.users ho.articles
  have hremark : remarkOf d' c = remarkOf d c := by
    rw [remarkOf, hkeeps.nameOf, slugOf, ho.articles, remarkOf, slugOf]
  refine Content.ext hkeeps.account (Beside.post ho.users ⟨ho.articles, ho.tags, ho.articleTags⟩)
    (hkeeps.favorites ho.favorites) (hkeeps.follows ho.follows) ?_ (tags_congr ho.tags)
  funext i
  refine Option.ext fun r => remark_eq_some.trans ?_
  change _ ↔ Function.update (content d).remark c.id (some (remarkOf d c)) i = some r
  rw [hrows]
  by_cases hi : i = c.id
  · subst hi
    simp only [Function.update_self, Option.some.injEq, List.mem_append, List.mem_singleton]
    constructor
    · rintro ⟨b, hb | rfl, hbi, rfl⟩
      · exact absurd hbi (hid b hb)
      · exact hremark.symm
    · rintro rfl
      exact ⟨c, .inr rfl, rfl, hremark⟩
  · rw [Function.update_of_ne hi, remark_eq_some]
    simp only [List.mem_append, List.mem_singleton]
    constructor
    · rintro ⟨b, hb | rfl, hbi, rfl⟩
      · exact ⟨b, hb, hbi, (hkeeps.remarkOf hb).symm⟩
      · exact absurd hbi.symm hi
    · rintro ⟨b, hb, hbi, rfl⟩
      exact ⟨b, .inl hb, hbi, hkeeps.remarkOf hb⟩

theorem content_deleteComment (hc : c ∈ d.comments) :
    content (d.deleteComments (· = c)) =
      { content d with remark := Function.update (content d).remark c.id none } := by
  refine Content.ext rfl (Beside.post rfl ⟨rfl, rfl, rfl⟩) rfl rfl ?_ rfl
  have hrows : ∀ b, b ∈ (d.deleteComments (· = c)).comments ↔ b ∈ d.comments ∧ b ≠ c := by
    intro b
    change b ∈ d.comments.filter _ ↔ _
    simp [List.mem_filter]
  funext i
  refine Option.ext fun r => remark_eq_some.trans ?_
  change _ ↔ Function.update (content d).remark c.id none i = some r
  simp only [hrows]
  by_cases hi : i = c.id
  · subst hi
    rw [Function.update_self]
    constructor
    · rintro ⟨b, ⟨hb, hne⟩, hid, -⟩
      exact absurd (Keyed.eq_of_key d.pk_comments hb hc hid) hne
    · rintro ⟨⟩
  · rw [Function.update_of_ne hi, remark_eq_some]
    constructor
    · rintro ⟨b, ⟨hb, -⟩, hid, rfl⟩
      exact ⟨b, hb, hid, rfl⟩
    · rintro ⟨b, hb, rfl, rfl⟩
      exact ⟨b, ⟨hb, fun h => hi (h ▸ rfl)⟩, rfl, rfl⟩

/-! ### Articles -/

variable {call : CreateCall} {author : User} {now : Timestamp} {request : ArticleUpdate}

theorem Keeps.of_created (h : Created call author now d d') : Keeps d d' :=
  ⟨h.users, fun a ha => ⟨a, h.articles ▸ List.mem_append_left _ ha, rfl, rfl⟩⟩

theorem Keeps.of_updated (h : Updated request now a d d') (ha : a ∈ d.articles) : Keeps d d' := by
  refine ⟨h.users, fun b hb => ?_⟩
  by_cases hid : b.id = a.id
  · obtain rfl := Tables.article_ext hb ha hid
    obtain ⟨c, hc, hsame⟩ := h.stays ha
    exact ⟨c, hc, hsame.id, hsame.slug⟩
  · exact ⟨b, (h.unchanged hb hid).row, rfl, rfl⟩

/-- A write that leaves the articles with other slugs alone changes the post with the slug only. -/
theorem post_update {slug : Str} {x : Option Post} (hx : (content d').post slug = x)
    (hmem : ∀ b : Article, b.slug ≠ slug → (b ∈ d'.articles ↔ b ∈ d.articles))
    (hpost : ∀ b ∈ d.articles, b.slug ≠ slug → postOf d' b = postOf d b) :
    (content d').post = Function.update (content d).post slug x := by
  funext s
  by_cases hs : s = slug
  · rw [hs, Function.update_self, hx]
  · rw [Function.update_of_ne hs]
    refine Option.ext fun p => ?_
    rw [post_eq_some, post_eq_some]
    constructor
    · rintro ⟨b, hb, rfl, rfl⟩
      have hb' := (hmem b hs).mp hb
      exact ⟨b, hb', rfl, (hpost b hb' hs).symm⟩
    · rintro ⟨b, hb, rfl, rfl⟩
      exact ⟨b, (hmem b hs).mpr hb, rfl, hpost b hb hs⟩

/-- Where every name is there in the end, the new tags are exactly the names. -/
theorem tags_of_within {names : List Str} (hgrow : d.tags <+: d'.tags)
    (hwithin : TagsWithin names d d') (hall : ∀ name ∈ names, name ∈ (content d').tags) :
    (content d').tags = (content d).tags ∪ {name | name ∈ names} := by
  ext name
  constructor
  · rintro ⟨t, ht, rfl⟩
    exact (hwithin t ht).imp (fun h => ⟨t, h, rfl⟩) id
  · rintro (⟨t, ht, rfl⟩ | hname)
    · exact ⟨t, hgrow.subset ht, rfl⟩
    · exact hall name hname

theorem postOf_created (h : Created call author now d d') (hauthor : author ∈ d.users)
    (hname : author.username = call.username) :
    postOf d' (call.article author.id now) = newPost call now := by
  have hnameOf : nameOf d' author.id = call.username := by
    rw [(Keeps.of_created h).nameOf, nameOf_eq hauthor, hname]
  rw [postOf, newPost, CreateCall.article]
  simp only [hnameOf, h.ordered]

theorem content_create (h : Created call author now d d') (hauthor : author ∈ d.users)
    (hname : author.username = call.username)
    (hwithin : TagsWithin (newPost call now).tags d d') : content d' =
      { content d with
        post := Function.update (content d).post call.slug (some (newPost call now))
        tags := (content d).tags ∪ {name | name ∈ (newPost call now).tags} } := by
  have hkeeps := Keeps.of_created h
  have hnew := postOf_created h hauthor hname
  have hin : call.article author.id now ∈ d'.articles :=
    h.articles ▸ List.mem_append_right _ List.mem_cons_self
  refine Content.ext hkeeps.account (post_update ?_ (fun b hb => ?_) fun b hb _ => ?_)
    (hkeeps.favorites h.favorites) (hkeeps.follows h.follows) (hkeeps.remark h.comments)
    (tags_of_within h.tags hwithin fun name hmem => ?_)
  · rw [← hnew]
    exact post_of_mem hin
  · rw [h.articles, List.mem_append, List.mem_singleton]
    exact or_iff_left fun hb' => hb (hb' ▸ rfl)
  · exact hkeeps.postOf (h.unchanged hb).tags
  · rw [← hnew] at hmem
    exact name_mem_tags hmem

theorem postOf_updated (h : Updated request now a d d') (ha : a ∈ d.articles) :
    postOf d' (request.row now a (loadOrderedTags a.id d)) =
      updatedPost request now (postOf d a) := by
  have hchanges : request.changes a (loadOrderedTags a.id d) = false ↔
      { postOf d a with
        title := request.title.getD a.title
        description := request.description.getD a.description
        body := request.body.getD a.body
        tags := request.tagNames (loadOrderedTags a.id d) } = postOf d a := by
    rw [ArticleUpdate.changes, Bool.or_eq_false_iff, decide_eq_false_iff_not, not_not,
      decide_eq_false_iff_not, not_not, fields_eq_self_iff]
    simp [postOf, and_assoc]
  have hnameOf := (Keeps.of_updated h ha).nameOf
  rw [updatedPost]
  simp only [postOf, ArticleUpdate.row, ArticleUpdate.fields, hnameOf] at hchanges ⊢
  rw [h.ordered]
  simp only [← hchanges]
  cases request.changes a (loadOrderedTags a.id d) <;> simp

theorem content_update (h : Updated request now a d d') (ha : a ∈ d.articles)
    (hwithin : TagsWithin (updatedPost request now (postOf d a)).tags d d') : content d' =
      { content d with
        post := Function.update (content d).post a.slug
          (some (updatedPost request now (postOf d a)))
        tags := (content d).tags ∪
          {name | name ∈ (updatedPost request now (postOf d a)).tags} } := by
  have hkeeps := Keeps.of_updated h ha
  have hnew := postOf_updated h ha
  have hin : request.row now a (loadOrderedTags a.id d) ∈ d'.articles :=
    h.articles ▸ List.mem_map.mpr ⟨a, ha, if_pos rfl⟩
  have hother : ∀ b ∈ d.articles, b.slug ≠ a.slug → b.id ≠ a.id := fun b hb hs hid =>
    hs (congrArg Article.slug (Tables.article_ext hb ha hid))
  refine Content.ext hkeeps.account (post_update ?_ (fun b hs => ⟨fun hb => ?_, fun hb => ?_⟩)
    fun b hb hs => ?_) (hkeeps.favorites h.favorites) (hkeeps.follows h.follows)
    (hkeeps.remark h.comments) (tags_of_within h.tags hwithin fun name hmem => ?_)
  · rw [← hnew]
    exact post_of_mem hin
  · rw [h.articles] at hb
    obtain ⟨b', hb', rfl⟩ := List.mem_map.mp hb
    split at hs
    · exact absurd rfl hs
    · rename_i hid
      rwa [if_neg hid]
  · exact (h.unchanged hb (hother b hb hs)).row
  · exact hkeeps.postOf (h.unchanged hb (hother b hb hs)).tags
  · rw [← hnew] at hmem
    exact name_mem_tags hmem

section Delete

theorem mem_deleteArticle (ha : a ∈ d.articles) {b : Article} :
    b ∈ (d.deleteArticle a.id).articles ↔ b ∈ d.articles ∧ b.slug ≠ a.slug := by
  change b ∈ d.articles.filter _ ↔ _
  rw [List.mem_filter, decide_eq_true_eq]
  refine and_congr_right fun hb => not_congr ⟨fun h => ?_, fun h => ?_⟩
  · rw [Tables.article_ext hb ha h]
  · rw [article_eq hb ha h]

theorem Keeps.of_deleteArticle : Keeps (d.deleteArticle a.id) d :=
  ⟨rfl, fun b hb => ⟨b, List.mem_of_mem_filter hb, rfl, rfl⟩⟩

/-- What refers to another article refers to one with another slug. -/
theorem slugOf_ne (ha : a ∈ d.articles) (h : ∃ b ∈ d.articles, b.id = id) :
    slugOf d id ≠ a.slug ↔ id ≠ a.id := by
  obtain ⟨b, hb, rfl⟩ := h
  rw [slugOf_eq hb]
  refine not_congr ⟨fun h => ?_, fun h => ?_⟩
  · rw [article_eq hb ha h]
  · rw [Tables.article_ext hb ha h]

theorem favorites_deleteArticle (ha : a ∈ d.articles) : (content (d.deleteArticle a.id)).favorites =
    {x | x ∈ (content d).favorites ∧ x.2 ≠ a.slug} := by
  ext x
  constructor
  · rintro ⟨f, hf, rfl⟩
    obtain ⟨hf', hne⟩ := List.mem_filter.mp hf
    have hsame := Keeps.of_deleteArticle.slugOf
      ((d.deleteArticle a.id).fk_article_favorites_article f hf)
    have hname : favoriteName (d.deleteArticle a.id) f = favoriteName d f := by
      rw [favoriteName, ← hsame]
      rfl
    rw [hname]
    exact ⟨⟨f, hf', rfl⟩,
      (slugOf_ne ha (d.fk_article_favorites_article f hf')).mpr (of_decide_eq_true hne)⟩
  · rintro ⟨⟨f, hf, rfl⟩, hne⟩
    have hid := (slugOf_ne ha (d.fk_article_favorites_article f hf)).mp hne
    have hf' : f ∈ (d.deleteArticle a.id).favorites :=
      List.mem_filter.mpr ⟨hf, decide_eq_true hid⟩
    have hsame := Keeps.of_deleteArticle.slugOf
      ((d.deleteArticle a.id).fk_article_favorites_article f hf')
    refine ⟨f, hf', ?_⟩
    rw [favoriteName, ← hsame]
    rfl

theorem remark_deleteArticle (ha : a ∈ d.articles) : (content (d.deleteArticle a.id)).remark =
    fun id => ((content d).remark id).filter (·.slug ≠ a.slug) := by
  funext id
  refine Option.ext fun r => remark_eq_some.trans ?_
  simp only [Option.filter_eq_some_iff, remark_eq_some]
  constructor
  · rintro ⟨c, hc, rfl, rfl⟩
    obtain ⟨hc', hne⟩ := List.mem_filter.mp hc
    rw [← Keeps.of_deleteArticle.remarkOf hc]
    exact ⟨⟨c, hc', rfl, rfl⟩, decide_eq_true
      ((slugOf_ne ha (d.fk_comments_article c hc')).mpr (of_decide_eq_true hne))⟩
  · rintro ⟨⟨c, hc, rfl, rfl⟩, hne⟩
    have hid := (slugOf_ne ha (d.fk_comments_article c hc)).mp (of_decide_eq_true hne)
    have hc' : c ∈ (d.deleteArticle a.id).comments :=
      List.mem_filter.mpr ⟨hc, decide_eq_true hid⟩
    exact ⟨c, hc', rfl, (Keeps.of_deleteArticle.remarkOf hc').symm⟩

theorem content_deleteArticle (ha : a ∈ d.articles) : content (d.deleteArticle a.id) =
    { content d with
      post := Function.update (content d).post a.slug none
      favorites := {x | x ∈ (content d).favorites ∧ x.2 ≠ a.slug}
      remark := fun id => ((content d).remark id).filter (·.slug ≠ a.slug) } := by
  have hremoved : Removed a.id d (d.deleteArticle a.id) := ⟨rfl, rfl, rfl, rfl, rfl, rfl, rfl⟩
  refine Content.ext rfl (post_update ?_ (fun b hs => ?_) fun b hb hs => ?_)
    (favorites_deleteArticle ha) rfl (remark_deleteArticle ha) rfl
  · have hslug := findArticle_deleteArticle (Tables.findArticle_eq_some.mpr ⟨ha, rfl⟩)
    rw [post_eq, hslug]
    rfl
  · rw [mem_deleteArticle ha]
    exact and_iff_left hs
  · have hsame := hremoved.unchanged hb fun hid =>
      hs (congrArg Article.slug (Tables.article_ext hb ha hid))
    exact (Keeps.of_deleteArticle.postOf hsame.tags.symm).symm

end Delete

end

end MediumClone.Blog

end
