import MediumClone.Articles.TagRoundTrip
import MediumClone.Articles.Failures

/-!
# Articles — Success

When the transactions on articles go through.  The rows that link an article to its tags break no
constraint: the names are different, each has a tag of its own, and the positions count up.  So
where the ids of new tags are free (`FreshTagIds`) tags can always be written, and a create or an
update whose checks hold succeeds (`succeeds_create`, `succeeds_update`).
-/

namespace MediumClone.Articles
open Js Sys Schema

section

variable {d d' : Tables} {newTagId : Str → Uuid} {names : List Str} {articleId : Uuid}
  {tagIds : Map Str Uuid} {rows : List ArticleTag}

/-! ### Links -/

/-- Rows with new keys, of an article and tags that there are, can be inserted. -/
theorem exists_insertArticleTags
    (hpk : ((d.articleTags ++ rows).map fun l => (l.articleId, l.tagId)).Nodup)
    (hposition : ((d.articleTags ++ rows).map fun l => (l.articleId, l.position)).Nodup)
    (harticle : ∀ l ∈ rows, ∃ a ∈ d.articles, a.id = l.articleId)
    (htag : ∀ l ∈ rows, ∃ t ∈ d.tags, t.id = l.tagId) :
    ∃ d', d.insertArticleTags rows = some d' := by
  induction rows generalizing d with
  | nil => exact ⟨d, rfl⟩
  | cons l rows ih =>
      have hnew : ∀ {κ : Type} {key : ArticleTag → κ},
          ((d.articleTags ++ l :: rows).map key).Nodup → ∀ m ∈ d.articleTags, key m ≠ key l := by
        intro κ key h m hm heq
        rw [List.map_append, List.map_cons] at h
        exact (List.nodup_append.mp h).2.2 _ (List.mem_map_of_mem hm) _ List.mem_cons_self heq
      obtain ⟨d₁, h₁⟩ : ∃ d₁, d.insertArticleTag l = some d₁ := by
        rw [Tables.insertArticleTag, dif_pos ⟨hnew hpk, hnew hposition,
          harticle l List.mem_cons_self, htag l List.mem_cons_self⟩]
        exact ⟨_, rfl⟩
      obtain ⟨hlink, ho⟩ := Tables.insertArticleTag_eq_some h₁
      have hrows : d₁.articleTags ++ rows = d.articleTags ++ l :: rows := by
        rw [hlink, List.append_assoc, List.singleton_append]
      obtain ⟨d', h'⟩ := ih (hrows ▸ hpk) (hrows ▸ hposition)
        (fun m hm => ho.articles ▸ harticle m (List.mem_cons_of_mem _ hm))
        fun m hm => ho.tags ▸ htag m (List.mem_cons_of_mem _ hm)
      refine ⟨d', ?_⟩
      rw [Tables.insertArticleTags, List.foldlM_cons, h₁]
      exact h'

/-- Each name has the id of a tag of this name. -/
def Stored (names : List Str) (tagIds : Map Str Uuid) (d : Tables) : Prop :=
  ∀ name ∈ names, ∃ id, tagIds name = some id ∧ ⟨id, name⟩ ∈ d.tags

theorem linkRows_of_stored (h : Stored names tagIds d) :
    linkRows articleId names tagIds = some (links articleId names tagIds) := by
  refine mapM_eq_pure fun x hx => ?_
  obtain ⟨id, hid, -⟩ := h x.1 (List.fst_mem_of_mem_zipIdx hx)
  rw [hid]
  rfl

/-- No two of the links have one tag. -/
theorem nodup_links_tagId (hnames : names.Nodup) (h : Stored names tagIds d) :
    ((links articleId names tagIds).map fun l => (l.articleId, l.tagId)).Nodup := by
  have hmap : ((links articleId names tagIds).map fun l => (l.articleId, l.tagId)) =
      names.map fun name => (articleId, (tagIds name).getD 0) := by
    rw [links, List.map_map, ← List.zipIdx_map_fst 0 names, List.map_map, List.zipIdx_map_fst]
    rfl
  rw [hmap]
  refine List.Nodup.map_on (fun name hname name' hname' heq => ?_) hnames
  obtain ⟨id, hid, htag⟩ := h name hname
  obtain ⟨id', hid', htag'⟩ := h name' hname'
  have hsame : id = id' := by simpa [hid, hid'] using heq
  exact congrArg Tag.name (Keyed.eq_of_key d.pk_tags htag htag' hsame)

theorem nodup_links_position :
    ((links articleId names tagIds).map fun l => (l.articleId, l.position)).Nodup := by
  have hmap : ((links articleId names tagIds).map fun l => (l.articleId, l.position)) =
      (names.zipIdx.map Prod.snd).map fun position => (articleId, position) := by
    rw [links, List.map_map, List.map_map]
    rfl
  rw [hmap, List.zipIdx_map_snd]
  exact List.Nodup.map (fun _ _ h => (Prod.mk.inj h).2) List.nodup_range'

theorem succeeds_insertArticleTagLinks (hnames : names.Nodup) (h : Stored names tagIds d)
    (harticle : ∃ a ∈ d.articles, a.id = articleId)
    (hnew : ∀ l ∈ d.articleTags, l.articleId ≠ articleId) :
    (insertArticleTagLinks articleId names tagIds).Succeeds d := by
  unfold insertArticleTagLinks
  split
  · exact Tx.succeeds_pure
  · have hmine : ∀ l ∈ links articleId names tagIds, l.articleId = articleId := by
      intro l hl
      obtain ⟨x, -, rfl⟩ := List.mem_map.mp hl
      rfl
    have happend : ∀ {κ : Type} {key : ArticleTag → Uuid × κ}, (∀ l, (key l).1 = l.articleId) →
        (d.articleTags.map key).Nodup → ((links articleId names tagIds).map key).Nodup →
        ((d.articleTags ++ links articleId names tagIds).map key).Nodup := by
      intro κ key hkey hold hlinks
      rw [List.map_append]
      refine List.nodup_append.mpr ⟨hold, hlinks, ?_⟩
      intro x hx y hy heq
      obtain ⟨l, hl, rfl⟩ := List.mem_map.mp hx
      obtain ⟨m, hm, rfl⟩ := List.mem_map.mp hy
      exact hnew l hl (by rw [← hkey, heq, hkey, hmine m hm])
    obtain ⟨d', hd'⟩ := exists_insertArticleTags
      (happend (fun _ => rfl) d.pk_article_tags (nodup_links_tagId hnames h))
      (happend (fun _ => rfl) d.uq_article_tags_article_position nodup_links_position)
      (fun l hl => hmine l hl ▸ harticle)
      (by
        intro l hl
        obtain ⟨x, hx, rfl⟩ := List.mem_map.mp hl
        obtain ⟨id, hid, htag⟩ := h x.1 (List.fst_mem_of_mem_zipIdx hx)
        exact ⟨_, htag, by simp [hid]⟩)
    refine ⟨((), d'), Tx.exec_attempt.mpr ?_⟩
    rw [linkRows_of_stored h]
    exact hd'

/-! ### Tags -/

theorem succeeds_ensureTagsExist (hfresh : FreshTagIds newTagId names d) :
    (ensureTagsExist newTagId names).Succeeds d := by
  unfold ensureTagsExist
  split
  · exact Tx.succeeds_pure
  · refine Tx.succeeds_execute_bind <| Tx.succeeds_select_bind <|
      Tx.succeeds_require_bind (fun name hname => ?_) Tx.succeeds_pure
    exact isSome_storedTags (exists_tag_insertTags hfresh name hname) hname

theorem nodup_uniqueArticleTagNames (names : List Str) : (uniqueArticleTagNames names).Nodup :=
  nodup_foldl_new List.nodup_nil

/-- The tags of a new article can be written. -/
theorem succeeds_persistArticleTags (hfresh : FreshTagIds newTagId (uniqueArticleTagNames names) d)
    (harticle : ∃ a ∈ d.articles, a.id = articleId)
    (hnew : ∀ l ∈ d.articleTags, l.articleId ≠ articleId) :
    (persistArticleTags newTagId articleId names).Succeeds d := by
  refine (succeeds_ensureTagsExist hfresh).bind fun tagIds d₁ h₁ => ?_
  obtain ⟨hgrow, hstored⟩ := exec_ensureTagsExist h₁
  exact (succeeds_insertArticleTagLinks (nodup_uniqueArticleTagNames names) hstored
    (hgrow.articles ▸ harticle) (hgrow.articleTags ▸ hnew)).bind fun _ _ _ => Tx.succeeds_pure

theorem succeeds_replaceArticleTags (hfresh : FreshTagIds newTagId (uniqueArticleTagNames names) d)
    (harticle : ∃ a ∈ d.articles, a.id = articleId) :
    (replaceArticleTags newTagId articleId names).Succeeds d := by
  refine (succeeds_ensureTagsExist hfresh).bind fun tagIds d₁ h₁ => ?_
  obtain ⟨hgrow, hstored⟩ := exec_ensureTagsExist h₁
  have hstored₂ : Stored (uniqueArticleTagNames names) tagIds (d₁.deleteArticleTags articleId) :=
    hstored
  refine Tx.succeeds_execute_bind <| (succeeds_insertArticleTagLinks
    (nodup_uniqueArticleTagNames names) hstored₂ ?_ fun l hl => ?_).bind
      fun _ _ _ => Tx.succeeds_pure
  · exact hgrow.articles ▸ harticle
  · exact of_decide_eq_true (List.mem_filter.mp hl).2

/-! ### Services -/

variable {now : Timestamp} {author : User} {a : Article} {scalarChanged : Bool}

/-- A create whose slug and ids are free succeeds, while there is room. -/
theorem succeeds_create {call : CreateCall} (hu : d.findUser call.username = some author)
    (hid : ∀ b ∈ d.articles, b.id ≠ call.id) (hslug : ∀ b ∈ d.articles, b.slug ≠ call.slug)
    (hroom : d.articles.length < maxRows) (hfresh : FreshTagIds call.newTagId
      (uniqueArticleTagNames (call.request.tagList.getD [])) d) :
    (ArticleCreateService.create call now).Succeeds d := by
  obtain ⟨d₁, h₁⟩ : ∃ d₁, d.insertArticle (call.article author.id now) = some d₁ := by
    rw [Tables.insertArticle, dif_pos ⟨hid, hslug, ⟨author, (Tables.findUser_eq_some.mp hu).1, rfl⟩,
      hroom⟩]
    exact ⟨_, rfl⟩
  obtain ⟨-, harticles, ho⟩ := Tables.insertArticle_eq_some h₁
  refine Tx.Succeeds.mapError <| Tx.succeeds_select_bind <| Tx.succeeds_orThrow_bind hu <|
    Tx.succeeds_attempt_bind h₁ <| Tx.Succeeds.bind ?_ fun _ _ _ => Tx.succeeds_pure
  refine succeeds_persistArticleTags (hfresh.congr ho.tags) ?_ ?_
  · exact ⟨_, harticles ▸ List.mem_append_right _ List.mem_cons_self, rfl⟩
  · rw [ho.articleTags]
    exact Tables.no_links hid

theorem succeeds_touchUpdatedAt : (touchUpdatedAt scalarChanged articleId now).Succeeds d := by
  cases scalarChanged <;> exact ⟨_, rfl⟩

theorem exec_touchUpdatedAt {u : Unit}
    (h : (touchUpdatedAt scalarChanged articleId now).exec d = .ok (u, d')) :
    d'.tags = d.tags ∧ ∀ b ∈ d.articles, ∃ b' ∈ d'.articles, b'.id = b.id := by
  cases scalarChanged with
  | true =>
      cases h
      exact ⟨rfl, fun b hb => ⟨b, hb, rfl⟩⟩
  | false =>
      cases h
      refine ⟨rfl, fun b hb => ⟨_, List.mem_map_of_mem hb, ?_⟩⟩
      split <;> rfl

theorem succeeds_updateTags {call : UpdateCall} (ha : a ∈ d.articles)
    (hfresh : ∀ names ∈ call.request.tagList,
      FreshTagIds call.newTagId (uniqueArticleTagNames names) d) :
    (updateTags call now a.id scalarChanged).Succeeds d := by
  unfold updateTags
  cases hlist : call.request.tagList with
  | none => exact Tx.succeeds_pure
  | some names =>
      have hfresh := hfresh names hlist
      rw [← uniqueArticleTagNames_idem] at hfresh
      refine Tx.succeeds_select_bind ?_
      change Tx.Succeeds (if (!hasSameOrderedTagNames _ _) = true then _ else _) d
      split
      · refine succeeds_touchUpdatedAt.bind fun _ d₁ h₁ => ?_
        obtain ⟨htags, hstays⟩ := exec_touchUpdatedAt h₁
        exact (succeeds_replaceArticleTags (hfresh.congr htags) (hstays a ha)).bind
          fun _ _ _ => Tx.succeeds_pure
      · exact Tx.succeeds_pure

/-- An update of an own article succeeds where the ids of its tags are free. -/
theorem succeeds_update {call : UpdateCall} (hu : d.findUser call.username = some author)
    (ha : d.findArticle call.slug = some a) (hown : a.authorId = author.id)
    (hfresh : ∀ names ∈ call.request.tagList,
      FreshTagIds call.newTagId (uniqueArticleTagNames names) d) :
    (ArticleUpdateService.update call now).Succeeds d := by
  obtain ⟨hmem, hslug⟩ := Tables.findArticle_eq_some.mp ha
  refine Tx.Succeeds.mapError <| Tx.succeeds_select_bind <| Tx.succeeds_orThrow_bind hu <|
    Tx.succeeds_selectForUpdate_bind <| Tx.succeeds_orThrow_bind ha <|
      Tx.succeeds_require_bind hown ?_
  unfold updateLocked
  simp only [applyScalarChanges_fst, applyScalarChanges_snd]
  refine Tx.Succeeds.bind ⟨_, exec_saveArticle⟩ fun _ d₁ h₁ => ?_
  -- what is saved keeps users, tags, and the article with its slug
  have hsaved : d₁.users = d.users ∧ d₁.tags = d.tags ∧
      ∃ b ∈ d₁.articles, b.id = a.id ∧ b.slug = call.slug := by
    rw [exec_saveArticle] at h₁
    obtain ⟨-, rfl⟩ := Prod.mk.inj (Except.ok.inj h₁)
    split
    · refine ⟨rfl, rfl, _, List.mem_map_of_mem hmem, ?_⟩
      split
      · exact ⟨(sameIdentity_saveInto _ now a).id, (sameIdentity_saveInto _ now a).slug.trans hslug⟩
      · exact ⟨rfl, hslug⟩
    · exact ⟨rfl, rfl, a, hmem, rfl, hslug⟩
  obtain ⟨husers, htags, b, hb, hid, hbslug⟩ := hsaved
  rw [← hid]
  refine (succeeds_updateTags hb fun names hnames => (hfresh names hnames).congr htags).bind
    fun _ d₂ h₂ => ?_
  have hupdated := exec_updateTags h₂
  have hfound : (d₂.findArticle call.slug).isSome := by
    rw [Option.isSome_iff_ne_none, Ne, Tables.findArticle_eq_none, hupdated.articles]
    intro hnone
    refine hnone _ (List.mem_map_of_mem hb) ?_
    split <;> exact hbslug
  have huser : (d₂.findUser call.username).isSome := by
    rw [Tables.findUser, hupdated.users, husers]
    exact Option.isSome_iff_exists.mpr ⟨author, hu⟩
  obtain ⟨r, hr⟩ := getBySlugPool_isOk huser hfound
  exact ⟨(r, d₂), exec_getBySlug_ok.mpr ⟨hr, rfl⟩⟩

end

end MediumClone.Articles
