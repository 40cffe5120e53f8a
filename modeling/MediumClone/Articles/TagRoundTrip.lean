import MediumClone.Articles.Hydration
import MediumClone.Articles.Ownership

/-!
# Articles — Tag round trip

The tag list of an article, written by a create or an update and read back.

* `mem_uniqueArticleTagNames`, `pairwise_uniqueArticleTagNames`: what is kept of a list is each of
  its names, in the order of their first occurrences.
* `Positioned`: the links of an article have the positions `0 … n - 1`.  Requests keep it.
* `never_tagPersistence`: every name that was inserted is found again, whatever other transactions
  commit between the statements, so long as new tags get new ids.
* `tags_round_trip`: after a write both readers return the names that were asked for.
-/

namespace MediumClone.Articles
open Js Sys Schema

/-! ### The names kept of a list -/

section

variable {names : List Str} {x : Str}

theorem uniqueArticleTagNames_concat : uniqueArticleTagNames (names ++ [x]) =
    if x ∈ uniqueArticleTagNames names then uniqueArticleTagNames names
    else uniqueArticleTagNames names ++ [x] := by
  rw [uniqueArticleTagNames, List.foldl_append]
  rfl

theorem mem_uniqueArticleTagNames : x ∈ uniqueArticleTagNames names ↔ x ∈ names := by
  induction names using List.reverseRecOn with
  | nil => rfl
  | append_singleton names y ih =>
      rw [uniqueArticleTagNames_concat, List.mem_append, List.mem_singleton]
      split
      · rename_i hy
        constructor
        · exact fun hx => .inl (ih.mp hx)
        · rintro (hx | rfl)
          · exact ih.mpr hx
          · exact hy
      · rw [List.mem_append, List.mem_singleton, ih]

/-- The names come in the order of their first occurrences. -/
theorem pairwise_uniqueArticleTagNames : (uniqueArticleTagNames names).Pairwise fun x y =>
    names.idxOf x < names.idxOf y := by
  induction names using List.reverseRecOn with
  | nil => exact .nil
  | append_singleton names z ih =>
      -- what is in the list already keeps its first occurrence
      have hkeep : (uniqueArticleTagNames names).Pairwise fun x y =>
          (names ++ [z]).idxOf x < (names ++ [z]).idxOf y := by
        refine ih.imp_of_mem fun hx hy hlt => ?_
        rwa [List.idxOf_append_of_mem (mem_uniqueArticleTagNames.mp hx),
          List.idxOf_append_of_mem (mem_uniqueArticleTagNames.mp hy)]
      rw [uniqueArticleTagNames_concat]
      split
      · exact hkeep
      · rename_i hz
        refine List.pairwise_append.mpr ⟨hkeep, List.pairwise_singleton _ _, fun x hx y hy => ?_⟩
        obtain rfl := List.mem_singleton.mp hy
        have hx := mem_uniqueArticleTagNames.mp hx
        rw [List.idxOf_append_of_mem hx,
          List.idxOf_append_of_notMem fun hz' => hz (mem_uniqueArticleTagNames.mpr hz')]
        exact (List.idxOf_lt_length_iff.mpr hx).trans_le (Nat.le_add_right _ _)

end

/-! ### Positions -/

/-- The links of an article. -/
def linksOf (articleId : Uuid) (d : Tables) : List ArticleTag :=
  d.articleTags.filter (·.articleId = articleId)

/-- The links of every article have the positions from zero on, each once. -/
def Positioned (d : Tables) : Prop :=
  ∀ id, ((linksOf id d).map (·.position)).Perm (List.range (linksOf id d).length)

section

variable {d d' d₁ : Tables} {id : Uuid} {names : List Str} {tagIds : Map Str Uuid}
  {kept : List ArticleTag}

theorem positioned_nil (h : d.articleTags = []) : Positioned d := by
  intro id
  rw [linksOf, h]
  exact .nil

theorem Positioned.congr (h : Positioned d) (hl : d'.articleTags = d.articleTags) :
    Positioned d' := by
  intro id
  rw [linksOf, hl]
  exact h id

/-- New links for one article, in order. -/
theorem Positioned.linked (h : Positioned d) (hl : Linked id names tagIds kept d d₁ d')
    (hkept : kept = d.articleTags.filter (·.articleId ≠ id)) : Positioned d' := by
  intro other
  by_cases hid : other = id
  · subst hid
    have hmine : linksOf other d' = links other names tagIds := by
      rw [linksOf, hl.articleTags, hkept, List.filter_append, List.filter_filter]
      simp [links, List.filter_map, Function.comp_def]
    have hpositions : (links other names tagIds).map (·.position) = List.range names.length := by
      rw [links, List.map_map]
      change names.zipIdx.map Prod.snd = _
      rw [List.zipIdx_map_snd, List.range_eq_range']
    rw [hmine, hpositions, links, List.length_map, List.length_zipIdx]
  · have hsame : linksOf other d' = linksOf other d := by
      have hnew : (links id names tagIds).filter (·.articleId = other) = [] := by
        simp [links, List.filter_map, Function.comp_def, Ne.symm hid]
      rw [linksOf, hl.articleTags, hkept, List.filter_append, hnew, List.append_nil]
      exact Keyed.filter_filter_ne hid
    rw [hsame]
    exact h other

theorem Positioned.deleteArticle (h : Positioned d) : Positioned (d.deleteArticle id) := by
  intro other
  by_cases hid : other = id
  · subst hid
    have hnone : linksOf other (d.deleteArticle other) = [] := by
      rw [linksOf, List.filter_eq_nil_iff]
      intro l hl hother
      exact of_decide_eq_true (List.mem_filter.mp hl).2 (of_decide_eq_true hother)
    rw [hnone]
    exact .nil
  · have hsame : linksOf other (d.deleteArticle id) = linksOf other d :=
      Keyed.filter_filter_ne hid
    rw [hsame]
    exact h other

/-! ### Requests keep the positions -/

variable {now : Timestamp} {op : Operation} {scalarChanged : Bool} {u : Unit}

theorem Positioned.createArticle {call : CreateCall} {r : ArticleDetail} (h : Positioned d)
    (hexec : (ArticleCreateService.create call now).exec d = .ok (r, d')) : Positioned d' := by
  simp only [ArticleCreateService.create, insertArticle, Tx.exec_mapError_ok, Tx.exec_select_bind,
    Tx.exec_orThrow_bind, Tx.exec_attempt_bind] at hexec
  obtain ⟨author, -, d₁, h₁, hexec⟩ := hexec
  obtain ⟨tags, d₂, h₂, hexec⟩ := Tx.exec_bind_ok.mp hexec
  cases hexec
  obtain ⟨hfresh, -, ho⟩ := Tables.insertArticle_eq_some h₁
  obtain ⟨⟨tagIds, d₃, hl⟩, -⟩ := linked_persistArticleTags h₂
  refine (h.congr ho.articleTags).linked hl (List.filter_eq_self.mpr fun l hmem => ?_).symm
  rw [ho.articleTags] at hmem
  exact decide_eq_true (Tables.no_links hfresh l hmem)

theorem Positioned.updateTags {call : UpdateCall} (h : Positioned d)
    (hexec : (updateTags call now id scalarChanged).exec d = .ok (u, d')) : Positioned d' := by
  unfold Articles.updateTags at hexec
  cases hlist : call.request.tagList with
  | none =>
      rw [hlist] at hexec
      cases hexec
      exact h
  | some tagList =>
      simp only [hlist, Tx.exec_select_bind] at hexec
      by_cases hsame : hasSameOrderedTagNames (loadOrderedTags id d) (uniqueArticleTagNames tagList)
      · rw [hsame] at hexec
        cases hexec
        exact h
      · rw [Bool.eq_false_iff.mpr hsame] at hexec
        simp only [Bool.not_false, if_true, Tx.exec_bind_ok] at hexec
        obtain ⟨⟨⟩, d₁, h₁, tagNames, d₂, h₂, hexec⟩ := hexec
        cases hexec
        obtain ⟨tagIds, d₃, hl⟩ := linked_replaceArticleTags h₂
        have htouch : d₁.articleTags = d.articleTags := by
          cases scalarChanged <;> cases h₁ <;> rfl
        exact (h.congr htouch).linked hl rfl

theorem Positioned.updateArticle {call : UpdateCall} {r : ArticleDetail} (h : Positioned d)
    (hexec : (ArticleUpdateService.update call now).exec d = .ok (r, d')) : Positioned d' := by
  simp only [ArticleUpdateService.update, Tx.exec_mapError_ok, Tx.exec_select_bind,
    Tx.exec_orThrow_bind, Tx.exec_selectForUpdate_bind, Tx.exec_require_bind] at hexec
  obtain ⟨author, -, a, -, -, hexec⟩ := hexec
  unfold updateLocked at hexec
  simp only [Tx.exec_bind_ok, exec_saveArticle, exec_getBySlug_ok] at hexec
  obtain ⟨⟨⟩, d₁, h₁, ⟨⟩, d₂, h₂, -, rfl⟩ := hexec
  obtain ⟨-, rfl⟩ := Prod.mk.inj (Except.ok.inj h₁)
  refine Positioned.updateTags (h.congr ?_) h₂
  split <;> rfl

theorem Positioned.exec (h : Positioned d) (hexec : (op.tx now).exec d = .ok ((), d')) :
    Positioned d' := by
  obtain ⟨-, heffect⟩ := effect_of_exec hexec
  cases heffect with
  | created _ =>
      obtain ⟨r, hr⟩ := exec_done.mp hexec
      exact h.createArticle hr
  | updated _ _ _ =>
      obtain ⟨r, hr⟩ := exec_done.mp hexec
      exact h.updateArticle hr
  | @deleted slug username a _ _ hremoved =>
      exact Positioned.congr (d := d.deleteArticle a.id) h.deleteArticle hremoved.articleTags
  | beside hbeside => exact h.congr hbeside.articleTags

end

/-- The states that requests lead to from a database without links.  What else writes, such as a
registration, leaves the links alone. -/
inductive Reachable : Tables → Prop where
  | init {d : Tables} (h : d.articleTags = []) : Reachable d
  | request {d d' : Tables} {e : Request} (h : Reachable d) (hs : perform d e = some d') :
      Reachable d'
  | other {d d' : Tables} (h : Reachable d) (hl : d'.articleTags = d.articleTags) : Reachable d'

theorem Reachable.positioned {d : Tables} (h : Reachable d) : Positioned d := by
  induction h with
  | init h => exact positioned_nil h
  | @request d d' e _ hs ih =>
      obtain rfl := Option.some.inj hs
      cases hexec : (e.op.tx e.now).exec d with
      | ok r =>
          rw [Tx.settle_ok hexec]
          exact ih.exec hexec
      | error refusal =>
          rw [Tx.settle_error hexec]
          exact ih
  | other _ hl ih => exact ih.congr hl

/-! ### Every inserted name is found -/

/-- The ids of new tags are different, and no stored tag of another name has one. -/
structure FreshTagIds (newTagId : Str → Uuid) (names : List Str) (d : Tables) : Prop where
  inj : ∀ name ∈ names, ∀ name' ∈ names, newTagId name = newTagId name' → name = name'
  free : ∀ name ∈ names, ∀ t ∈ d.tags, t.id = newTagId name → t.name = name

section

variable {d : Tables} {newTagId : Str → Uuid} {names : List Str} {articleId : Uuid}
  {pend : Tables → Tables} {t u : Tag} {name : Str}

theorem mem_tags_insertTag (h : t ∈ (d.insertTag u).tags) : t ∈ d.tags ∨ t = u := by
  rw [Tables.insertTag] at h
  split at h
  · rcases List.mem_append.mp h with h | h
    · exact .inl h
    · exact .inr (List.mem_singleton.mp h)
  · exact .inl h

theorem exists_tag_insertTag (hfree : ∀ t ∈ d.tags, t.id = u.id → t.name = u.name) :
    ∃ t ∈ (d.insertTag u).tags, t.name = u.name := by
  rw [Tables.insertTag]
  split
  · exact ⟨u, List.mem_append_right _ List.mem_cons_self, rfl⟩
  · rename_i htaken
    rw [not_and_or] at htaken
    push Not at htaken
    rcases htaken with ⟨t, ht, hid⟩ | ⟨t, ht, hname⟩
    · exact ⟨t, ht, hfree t ht hid⟩
    · exact ⟨t, ht, hname⟩

/-- `ON CONFLICT DO NOTHING` leaves a row of each name. -/
theorem exists_tag_insertTags (hfresh : FreshTagIds newTagId names d) :
    ∀ name ∈ names, ∃ t ∈ (d.insertTags (names.map fun name => ⟨newTagId name, name⟩)).tags,
      t.name = name := by
  induction names generalizing d with
  | nil => exact nofun
  | cons name names ih =>
      intro name' hname'
      have hgrow : Tables.TagsGrow (d.insertTag ⟨newTagId name, name⟩) _ :=
        Tables.tagsGrow_insertTags (names.map fun name => ⟨newTagId name, name⟩)
      rcases List.mem_cons.mp hname' with rfl | hname'
      · obtain ⟨t, ht, htname⟩ := exists_tag_insertTag (u := ⟨newTagId name', name'⟩)
          (hfresh.free name' List.mem_cons_self)
        exact ⟨t, hgrow.tags.subset ht, htname⟩
      · refine ih ⟨fun x hx y hy => hfresh.inj x (List.mem_cons_of_mem _ hx) y
          (List.mem_cons_of_mem _ hy), fun x hx t ht hid => ?_⟩ name' hname'
        rcases mem_tags_insertTag ht with ht | rfl
        · exact hfresh.free x (List.mem_cons_of_mem _ hx) t ht hid
        · exact hfresh.inj name List.mem_cons_self x (List.mem_cons_of_mem _ hx) hid

theorem isSome_storedTags (h : ∃ t ∈ d.tags, t.name = name) (hname : name ∈ names) :
    (Map.ofEntries ((d.tags.filter (names.contains ·.name)).map fun tag =>
      (tag.name, tag.id)) name).isSome := by
  obtain ⟨t, ht, rfl⟩ := h
  have hkeys : (((d.tags.filter (names.contains ·.name)).map fun tag =>
      (tag.name, tag.id)).map Prod.fst).Nodup := by
    rw [List.map_map]
    exact Keyed.filter d.uq_tags_name
  have hget := (Map.get_ofEntries hkeys).mpr (List.mem_map.mpr
    ⟨t, List.mem_filter.mpr ⟨ht, by simpa using hname⟩, rfl⟩)
  exact hget ▸ rfl

theorem FreshTagIds.congr {d' : Tables} (h : FreshTagIds newTagId names d)
    (htags : d'.tags = d.tags) : FreshTagIds newTagId names d' :=
  ⟨h.inj, htags ▸ h.free⟩

/-- The transaction finds what it inserted, whatever is committed in between. -/
theorem never_ensureTagsExist (hpend : ∀ d, (pend d).tags = d.tags) :
    (ensureTagsExist newTagId names).Never (FreshTagIds newTagId names) .tagPersistence pend := by
  unfold ensureTagsExist
  split
  · trivial
  · refine Tx.never_execute fun _ _ => Tx.never_select fun d hd => ?_
    refine Tx.never_require (fun name hname => isSome_storedTags ?_ hname) trivial
    exact exists_tag_insertTags (hd.congr (hpend d)) name hname

theorem never_insertArticleTagLinks {S : Tables → Prop} {tagIds : Map Str Uuid} :
    (insertArticleTagLinks articleId names tagIds).Never S .tagPersistence pend := by
  unfold insertArticleTagLinks
  split
  · trivial
  · exact Tx.never_attempt fun _ => nofun

/-- Neither write of tags reaches the branch that gives up. -/
theorem never_tagPersistence (hpend : ∀ d, (pend d).tags = d.tags) :
    (persistArticleTags newTagId articleId names).Never
        (FreshTagIds newTagId (uniqueArticleTagNames names)) .tagPersistence pend ∧
      (replaceArticleTags newTagId articleId names).Never
        (FreshTagIds newTagId (uniqueArticleTagNames names)) .tagPersistence pend := by
  constructor
  · exact (never_ensureTagsExist hpend).bind fun _ _ =>
      never_insertArticleTagLinks.bind fun _ _ => trivial
  · refine (never_ensureTagsExist hpend).bind fun _ _ => ?_
    exact Tx.never_execute fun _ _ => never_insertArticleTagLinks.bind fun _ _ => trivial

end

/-! ### There and back -/

/-- The list of `a` is `names`, by every reader; each name has one tag, which all its links share;
the links of the other articles are as they were. -/
structure RoundTrip (a : Article) (names : List Str) (d d' : Tables) (r : ArticleDetail) :
    Prop where
  positions : ((linksOf a.id d').map (·.position)).Perm
    (List.range (uniqueArticleTagNames names).length)
  tagIds : ((linksOf a.id d').map (·.tagId)).Nodup
  detail : ∀ viewer r', getBySlugPool a.slug viewer d' = .ok r' →
    r'.fields.tagList = uniqueArticleTagNames names
  readable : ∃ r', getBySlugPool a.slug none d' = .ok r'
  hydrated : ∀ ids, a.id ∈ ids → (loadTags ids d' a.id).getD [] = uniqueArticleTagNames names
  response : r.fields.tagList = uniqueArticleTagNames names
  kept : d.tags <+: d'.tags
  oneTag : ∀ name ∈ names, ∃ t ∈ d'.tags, t.name = name ∧
    (∀ t' ∈ d'.tags, t'.name = name → t' = t) ∧
    ∀ l ∈ d'.articleTags, (tagOf d' l).name = name → l.tagId = t.id
  others : ∀ id, id ≠ a.id → linksOf id d' = linksOf id d

section

variable {d d' : Tables} {a : Article} {names : List Str} {now : Timestamp} {r : ArticleDetail}

theorem tagOf_mem {l : ArticleTag} (hl : l ∈ d.articleTags) :
    tagOf d l ∈ d.tags ∧ (tagOf d l).id = l.tagId := by
  obtain ⟨t, ht, htl⟩ := d.fk_article_tags_tag l hl
  rw [tagOf_eq ht htl]
  exact ⟨ht, htl⟩

theorem nodup_tagIds (id : Uuid) (d : Tables) : ((linksOf id d).map (·.tagId)).Nodup := by
  have hkeys : ((linksOf id d).map fun l => (l.articleId, l.tagId)).Nodup :=
    Keyed.filter d.pk_article_tags
  refine List.Nodup.map_on ?_ (List.Nodup.of_map _ hkeys)
  intro l hl m hm heq
  have hl' : l.articleId = id := of_decide_eq_true (List.mem_filter.mp hl).2
  have hm' : m.articleId = id := of_decide_eq_true (List.mem_filter.mp hm).2
  exact Keyed.eq_of_key hkeys hl hm (by rw [hl', hm', heq])

theorem exists_tag_of_mem {id : Uuid} {name : Str} (h : name ∈ loadOrderedTags id d) :
    ∃ t ∈ d.tags, t.name = name := by
  rw [loadOrderedTags_eq_map] at h
  obtain ⟨l, hl, rfl⟩ := List.mem_map.mp h
  exact ⟨_, (tagOf_mem (List.mem_of_mem_filter (Sql.mem_orderBy.mp hl))).1, rfl⟩

theorem tagList_getBySlugPool {viewer : Option Str} (ha : a ∈ d.articles)
    (h : getBySlugPool a.slug viewer d = .ok r) : r.fields.tagList = loadOrderedTags a.id d := by
  obtain ⟨u, hu, hid⟩ := d.fk_articles_author a ha
  rw [getBySlugPool, selectBySlug_eq_some.mpr ⟨⟨ha, rfl⟩, hu, hid⟩] at h
  dsimp only at h
  split at h
  · cases h
  · cases h
    rfl

/-- An ordered list that a reader finds, in a state with positions, comes back everywhere. -/
theorem roundTrip_of_ordered (hd' : Positioned d') (ha : a ∈ d'.articles)
    (hordered : loadOrderedTags a.id d' = uniqueArticleTagNames names)
    (hresponse : r.fields.tagList = uniqueArticleTagNames names) (hkept : d.tags <+: d'.tags)
    (hothers : ∀ id, id ≠ a.id → linksOf id d' = linksOf id d) : RoundTrip a names d d' r where
  positions := by
    have hlength : (linksOf a.id d').length = (uniqueArticleTagNames names).length := by
      rw [← hordered, loadOrderedTags_eq_map, List.length_map, Sql.length_orderBy]
      rfl
    exact hlength ▸ hd' a.id
  tagIds := nodup_tagIds a.id d'
  detail viewer r' h := (tagList_getBySlugPool ha h).trans hordered
  readable := by
    obtain ⟨u, hu, hid⟩ := d'.fk_articles_author a ha
    exact ⟨_, getBySlugPool_ok ha hu hid nofun⟩
  hydrated ids hids := (get_loadTags hids).trans hordered
  response := hresponse
  kept := hkept
  oneTag name hname := by
    rw [← mem_uniqueArticleTagNames, ← hordered] at hname
    obtain ⟨t, ht, rfl⟩ := exists_tag_of_mem hname
    have hone : ∀ t' ∈ d'.tags, t'.name = t.name → t' = t := fun t' ht' h =>
      Keyed.eq_of_key d'.uq_tags_name ht' ht h
    refine ⟨t, ht, rfl, hone, fun l hl hl' => ?_⟩
    obtain ⟨hmem, hid⟩ := tagOf_mem hl
    rw [← hid, hone _ hmem hl']
  others := hothers

theorem roundTrip_create {call : CreateCall} (hd : Positioned d)
    (h : (ArticleCreateService.create call now).exec d = .ok (r, d')) :
    ∃ a ∈ d'.articles, a.id = call.id ∧ a.slug = call.slug ∧
      RoundTrip a (call.request.tagList.getD []) d d' r := by
  obtain ⟨author, -, hc, rfl⟩ := Articles.exec_create h
  refine ⟨call.article author.id now, ?_, rfl, rfl, ?_⟩
  · rw [hc.articles]
    exact List.mem_append_right _ List.mem_cons_self
  · refine roundTrip_of_ordered (hd.createArticle h) ?_ hc.ordered rfl hc.tags hc.others
    rw [hc.articles]
    exact List.mem_append_right _ List.mem_cons_self

theorem roundTrip_update {call : UpdateCall} (hd : Positioned d)
    (hlist : call.request.tagList = some names)
    (h : (ArticleUpdateService.update call now).exec d = .ok (r, d')) :
    ∃ a ∈ d'.articles, a.slug = call.slug ∧ RoundTrip a names d d' r := by
  obtain ⟨author, a, -, ha, -, hu, hr⟩ := exec_update h
  obtain ⟨hmem, hslug⟩ := Tables.findArticle_eq_some.mp ha
  obtain ⟨b, hb, hsame⟩ := hu.stays hmem
  have hordered : loadOrderedTags b.id d' = uniqueArticleTagNames names := by
    rw [hsame.id, hu.ordered, ArticleUpdate.tagNames, hlist]
    rfl
  have hslug' : b.slug = call.slug := hsame.slug.trans hslug
  refine ⟨b, hb, hslug', roundTrip_of_ordered (hd.updateArticle h) hb hordered ?_ hu.tags ?_⟩
  · exact (tagList_getBySlugPool hb (hslug'.symm ▸ hr)).trans hordered
  · exact fun id hid => hu.others id fun h => hid (h.trans hsame.id.symm)

/-- **Tags make the round trip.**  In every reachable state, a create or an update with a tag list
leaves the article with the names of the list, each once, in the order of their first occurrences:
so say its links, the detail, the list and the response.  The branch that gives up for want of a tag
is not taken, whatever is committed between the statements. -/
theorem tags_round_trip (hd : Reachable d) :
    (∀ call now r d', (ArticleCreateService.create call now).exec d = .ok (r, d') →
      ∃ a ∈ d'.articles, a.id = call.id ∧ a.slug = call.slug ∧
        RoundTrip a (call.request.tagList.getD []) d d' r) ∧
    (∀ call now names r d', call.request.tagList = some names →
      (ArticleUpdateService.update call now).exec d = .ok (r, d') →
      ∃ a ∈ d'.articles, a.slug = call.slug ∧ RoundTrip a names d d' r) ∧
    (∀ names, (∀ name, name ∈ uniqueArticleTagNames names ↔ name ∈ names) ∧
      (uniqueArticleTagNames names).Pairwise fun x y => names.idxOf x < names.idxOf y) ∧
    ∀ newTagId names articleId pend, (∀ d : Tables, (pend d).tags = d.tags) →
      (persistArticleTags newTagId articleId names).Never
          (FreshTagIds newTagId (uniqueArticleTagNames names)) .tagPersistence pend ∧
        (replaceArticleTags newTagId articleId names).Never
          (FreshTagIds newTagId (uniqueArticleTagNames names)) .tagPersistence pend :=
  ⟨fun _ _ _ _ h => roundTrip_create hd.positioned h,
    fun _ _ _ _ _ hlist h => roundTrip_update hd.positioned hlist h,
    fun _ => ⟨fun _ => mem_uniqueArticleTagNames, pairwise_uniqueArticleTagNames⟩,
    fun _ _ _ _ hpend => never_tagPersistence hpend⟩

/-- In the sample two names are new, and one is given twice. -/
def sampleTagged : UpdateCall where
  slug := ['s']
  username := ['u']
  request := ⟨none, none, none, some [['y'], ['x'], ['y'], ['z']]⟩
  newTagId name := if name = ['y'] then 20 else 30

theorem tags_round_trip_sample : ∃ r d',
    (ArticleUpdateService.update sampleTagged 2000).exec (Tables.sample.deleteArticleTags 5) =
      .ok (r, d') ∧
    linksOf 5 d' = [⟨5, 20, 0⟩, ⟨5, 7, 1⟩, ⟨5, 30, 2⟩] ∧
    r.fields.tagList = [['y'], ['x'], ['z']] := by
  have hruns : ((ArticleUpdateService.update sampleTagged 2000).exec
      (Tables.sample.deleteArticleTags 5)).map (fun x => linksOf 5 x.2) =
      .ok [⟨5, 20, 0⟩, ⟨5, 7, 1⟩, ⟨5, 30, 2⟩] := rfl
  cases hexec : (ArticleUpdateService.update sampleTagged 2000).exec
      (Tables.sample.deleteArticleTags 5) with
  | error e => rw [hexec] at hruns; cases hruns
  | ok x =>
      rw [hexec] at hruns
      obtain ⟨a, -, -, h⟩ := (tags_round_trip (.init rfl)).2.1 _ _ _ _ _ rfl hexec
      exact ⟨x.1, x.2, rfl, Except.ok.inj hruns, h.response⟩

end

end MediumClone.Articles
