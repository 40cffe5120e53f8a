import MediumClone.Articles.Update

/-!
# Articles — Failures

What the transactions on articles may do besides what they are asked for.  After its checks a
transaction throws errors of one kind only (`throws_persistArticleTags`, `throws_updateLocked`).
The tags it leaves are those it found, with the names it was given (`TagsWithin`).
-/

namespace MediumClone.Articles
open Js Sys Schema

section

variable {d d' : Tables} {a : Article} {now : Timestamp} {slug : Str} {names : List Str}
  {newTagId : Str → Uuid}

/-! ### Errors -/

section Throws

variable {E : Set ArticleError} {id : Uuid} {changed : Bool}

theorem throws_ensureTagsExist (htag : .tagPersistence ∈ E) :
    (ensureTagsExist newTagId names).Throws E := by
  unfold ensureTagsExist
  split
  · exact Tx.throws_pure
  · exact Tx.throws_execute.bind fun _ => Tx.throws_select.bind fun _ =>
      (Tx.throws_require htag).bind fun _ => Tx.throws_pure

theorem throws_insertArticleTagLinks {tagIds : Map Str Uuid} (hquery : .queryFailed ∈ E) :
    (insertArticleTagLinks id names tagIds).Throws E := by
  unfold insertArticleTagLinks
  split
  · exact Tx.throws_pure
  · exact Tx.throws_attempt fun _ => hquery

theorem throws_persistArticleTags (htag : .tagPersistence ∈ E) (hquery : .queryFailed ∈ E) :
    (persistArticleTags newTagId id names).Throws E :=
  (throws_ensureTagsExist htag).bind fun _ =>
    (throws_insertArticleTagLinks hquery).bind fun _ => Tx.throws_pure

theorem throws_replaceArticleTags (htag : .tagPersistence ∈ E) (hquery : .queryFailed ∈ E) :
    (replaceArticleTags newTagId id names).Throws E :=
  (throws_ensureTagsExist htag).bind fun _ => Tx.throws_execute.bind fun _ =>
    (throws_insertArticleTagLinks hquery).bind fun _ => Tx.throws_pure

theorem throws_saveArticle {entity : Article} : (saveArticle changed entity now).Throws E := by
  cases changed with
  | true => exact Tx.throws_execute
  | false => exact Tx.throws_pure

theorem throws_touchUpdatedAt : (touchUpdatedAt changed id now).Throws E := by
  cases changed with
  | true => exact Tx.throws_pure
  | false => exact Tx.throws_execute

theorem throws_updateTags {call : UpdateCall} (htag : .tagPersistence ∈ E)
    (hquery : .queryFailed ∈ E) : (updateTags call now id changed).Throws E := by
  unfold updateTags
  split
  · exact Tx.throws_pure
  · refine Tx.throws_select.bind fun existing => ?_
    change Tx.Throws _ (if (!hasSameOrderedTagNames _ _) = true then _ else _)
    split
    · exact throws_touchUpdatedAt.bind fun _ =>
        (throws_replaceArticleTags htag hquery).bind fun _ => Tx.throws_pure
    · exact Tx.throws_pure

theorem throws_getBySlug {name : Option Str} (harticle : .articleNotFound ∈ E)
    (hviewer : .articleViewerNotFound ∈ E) : (getBySlug slug name).Throws E := by
  refine Tx.throws_select.bind fun _ => (Tx.throws_orThrow harticle).bind fun x =>
    Tx.Throws.bind ?_ fun viewer => Tx.throws_select.bind fun _ => Tx.throws_select.bind fun _ => ?_
  · rcases name with _ | _ | ⟨c, name⟩
    · exact Tx.throws_pure
    · exact Tx.throws_pure
    · exact Tx.throws_select.bind fun _ => (Tx.throws_orThrow hviewer).bind fun _ => Tx.throws_pure
  · cases viewer with
    | none => exact Tx.throws_pure
    | some viewer =>
        exact Tx.throws_select.bind fun _ => Tx.throws_select.bind fun _ => Tx.throws_pure

end Throws

/-- The errors that `update` does not let through. -/
def unexpectedUpdateErrors : Set ArticleError := {e | wrapUpdateError e = .updatePersistence}

theorem mem_unexpectedUpdateErrors {e : ArticleError} (h : wrapUpdateError e = .updatePersistence) :
    e ∈ unexpectedUpdateErrors := h

theorem throws_updateLocked {call : UpdateCall} :
    (updateLocked call now a).Throws unexpectedUpdateErrors := by
  have h {e : ArticleError} := @mem_unexpectedUpdateErrors e
  exact throws_saveArticle.bind fun _ => (throws_updateTags (h rfl) (h rfl)).bind fun _ =>
    throws_getBySlug (h rfl) (h rfl)

/-! ### Tags -/

/-- The tags after it are those before it, and some of the names. -/
def TagsWithin (names : List Str) (d d' : Tables) : Prop :=
  ∀ t ∈ d'.tags, t ∈ d.tags ∨ t.name ∈ names

theorem tagsWithin_refl (d : Tables) : TagsWithin names d d := fun _ => .inl

theorem tagsWithin_trans {d'' : Tables} (h : TagsWithin names d d')
    (h' : TagsWithin names d' d'') : TagsWithin names d d'' :=
  fun t ht => (h' t ht).elim (h t) .inr

theorem tagsWithin_of_tags (h : d'.tags = d.tags) : TagsWithin names d d' :=
  fun _ ht => .inl (h ▸ ht)

theorem tagsWithin_insertTags {rows : List Tag} (hrows : ∀ t ∈ rows, t.name ∈ names) :
    TagsWithin names d (d.insertTags rows) := by
  induction rows generalizing d with
  | nil => exact tagsWithin_refl d
  | cons t rows ih =>
      have hrest : TagsWithin names (d.insertTag t) ((d.insertTag t).insertTags rows) :=
        ih fun t' ht' => hrows t' (List.mem_cons_of_mem t ht')
      refine tagsWithin_trans ?_ hrest
      rw [Tables.insertTag]
      split
      · intro t' ht'
        obtain ht' | ht' := List.mem_append.mp ht'
        · exact .inl ht'
        · cases List.mem_singleton.mp ht'
          exact .inr (hrows t List.mem_cons_self)
      · exact tagsWithin_refl d

section Within

variable {id : Uuid} {changed : Bool} {tagIds : Map Str Uuid}

theorem within_ensureTagsExist :
    (ensureTagsExist newTagId names).Confined Eq (TagsWithin names) := by
  unfold ensureTagsExist
  split
  · exact Tx.writes_pure
  · refine (Tx.writes_execute fun _ => tagsWithin_insertTags fun t ht => ?_).bind fun _ =>
      (Tx.writes_select tagsWithin_refl).bind fun _ => Tx.writes_require.bind fun _ =>
        Tx.writes_pure
    obtain ⟨name, hname, rfl⟩ := List.mem_map.mp ht
    exact hname

theorem within_insertArticleTagLinks {names' : List Str} :
    (insertArticleTagLinks id names' tagIds).Confined Eq (TagsWithin names) := by
  unfold insertArticleTagLinks
  split
  · exact Tx.writes_pure
  · refine Tx.writes_attempt tagsWithin_refl fun d d' h => ?_
    obtain ⟨rows, -, h⟩ := Option.bind_eq_some_iff.mp h
    exact tagsWithin_of_tags (Tables.insertArticleTags_eq_some h).2.tags

theorem within_persistArticleTags : (persistArticleTags newTagId id names).Confined Eq
    (TagsWithin (uniqueArticleTagNames names)) :=
  within_ensureTagsExist.bind fun _ => within_insertArticleTagLinks.bind fun _ => Tx.writes_pure

theorem within_replaceArticleTags : (replaceArticleTags newTagId id names).Confined Eq
    (TagsWithin (uniqueArticleTagNames names)) :=
  within_ensureTagsExist.bind fun _ =>
    (Tx.writes_execute fun _ => tagsWithin_of_tags rfl).bind fun _ =>
      within_insertArticleTagLinks.bind fun _ => Tx.writes_pure

theorem within_saveArticle {entity : Article} :
    (saveArticle changed entity now).Confined Eq (TagsWithin names) := by
  cases changed with
  | true => exact Tx.writes_execute fun _ => tagsWithin_of_tags rfl
  | false => exact Tx.writes_pure

theorem within_touchUpdatedAt : (touchUpdatedAt changed id now).Confined Eq (TagsWithin names) := by
  cases changed with
  | true => exact Tx.writes_pure
  | false => exact Tx.writes_execute fun _ => tagsWithin_of_tags rfl

/-- The names an update asks for. -/
def ArticleUpdate.newNames (request : ArticleUpdate) : List Str :=
  (request.tagList.map uniqueArticleTagNames).getD []

theorem within_updateTags {call : UpdateCall} :
    (updateTags call now id changed).Confined Eq (TagsWithin call.request.newNames) := by
  unfold updateTags ArticleUpdate.newNames
  cases call.request.tagList with
  | none => exact Tx.writes_pure
  | some tagList =>
      refine (Tx.writes_select tagsWithin_refl).bind fun existing => ?_
      change Tx.Confined Eq _ (if (!hasSameOrderedTagNames _ _) = true then _ else _)
      have hreplace : (replaceArticleTags call.newTagId id (uniqueArticleTagNames tagList)).Confined
          Eq (TagsWithin (uniqueArticleTagNames (uniqueArticleTagNames tagList))) :=
        within_replaceArticleTags
      rw [uniqueArticleTagNames_idem] at hreplace
      split
      · exact within_touchUpdatedAt.bind fun _ => hreplace.bind fun _ => Tx.writes_pure
      · exact Tx.writes_pure

theorem within_updateLocked {call : UpdateCall} :
    (updateLocked call now a).Confined Eq (TagsWithin call.request.newNames) :=
  within_saveArticle.bind fun _ => within_updateTags.bind fun _ =>
    writes_getBySlug tagsWithin_refl

end Within

/-! ### Services -/

section Services

variable {author : User} {e : ArticleError} {r : ArticleDetail}

theorem within_create {call : CreateCall}
    (h : (ArticleCreateService.create call now).exec d = .ok (r, d')) :
    TagsWithin (uniqueArticleTagNames (call.request.tagList.getD [])) d d' := by
  simp only [ArticleCreateService.create, insertArticle, Tx.exec_mapError_ok, Tx.exec_select_bind,
    Tx.exec_orThrow_bind, Tx.exec_attempt_bind] at h
  obtain ⟨author, -, d₁, h₁, h⟩ := h
  obtain ⟨tags, d₂, h₂, h⟩ := Tx.exec_bind_ok.mp h
  cases h
  refine tagsWithin_trans (tagsWithin_of_tags (Tables.insertArticle_eq_some h₁).2.2.tags) ?_
  exact within_persistArticleTags.exec_ok tagsWithin_refl tagsWithin_trans h₂

theorem within_update {call : UpdateCall}
    (h : (ArticleUpdateService.update call now).exec d = .ok (r, d')) :
    TagsWithin call.request.newNames d d' := by
  simp only [ArticleUpdateService.update, Tx.exec_mapError_ok, Tx.exec_select_bind,
    Tx.exec_orThrow_bind, Tx.exec_selectForUpdate_bind, Tx.exec_require_bind] at h
  obtain ⟨author, -, a, -, -, h⟩ := h
  exact within_updateLocked.exec_ok tagsWithin_refl tagsWithin_trans h

/-- The slug is taken, and the id is not. -/
def SlugTaken (call : CreateCall) (d : Tables) : Prop :=
  (∀ b ∈ d.articles, b.id ≠ call.id) ∧ (d.findArticle call.slug).isSome

theorem slugTaken_iff {call : CreateCall} : SlugTaken call d ↔
    (d.articles.all (·.id ≠ call.id) && (d.findArticle call.slug).isSome) = true := by
  rw [Bool.and_eq_true, List.all_eq_true, SlugTaken]
  exact and_congr_left' <| forall₂_congr fun _ _ => decide_eq_true_iff.symm

/-- What goes wrong for an author is the slug, if that is taken, or else not the author's fault. -/
theorem exec_create_error {call : CreateCall} (hu : d.findUser call.username = some author)
    (h : (ArticleCreateService.create call now).exec d = .error e) :
    SlugTaken call d ∧ e = .articleSlugConflict ∨
      ¬ SlugTaken call d ∧ e = .articleCreatePersistence := by
  simp only [ArticleCreateService.create, insertArticle, Tx.exec_mapError, Tx.exec_select_bind, hu,
    Tx.exec_orThrow_some_bind] at h
  cases hinsert : d.insertArticle (call.article author.id now) with
  | none =>
      rw [Tx.exec_attempt_none_bind hinsert] at h
      have he : wrapCreateError (if d.articles.all (·.id ≠ call.id) &&
          (d.findArticle call.slug).isSome then .articleSlugConflict else .queryFailed) = e :=
        Except.error.inj h
      by_cases htaken : SlugTaken call d
      · rw [if_pos (slugTaken_iff.mp htaken)] at he
        exact .inl ⟨htaken, he.symm⟩
      · rw [if_neg (mt slugTaken_iff.mpr htaken)] at he
        exact .inr ⟨htaken, he.symm⟩
  | some d₁ =>
      rw [Tx.exec_attempt_some_bind hinsert] at h
      have hfree : ¬ SlugTaken call d := by
        rintro ⟨-, hslug⟩
        rw [Tables.insertArticle] at hinsert
        split at hinsert
        · rename_i hkeys
          obtain ⟨b, hb⟩ := Option.isSome_iff_exists.mp hslug
          obtain ⟨hmem, hbs⟩ := Tables.findArticle_eq_some.mp hb
          exact hkeys.2.1 b hmem hbs
        · cases hinsert
      refine .inr ⟨hfree, ?_⟩
      cases htags : (persistArticleTags call.newTagId (call.article author.id now).id
          (call.request.tagList.getD [])).exec d₁ with
      | ok x =>
          rw [show Tx.exec (persistArticleTags _ _ _ >>= _) d₁ = _ from Tx.exec_bind, htags] at h
          cases h
      | error e' =>
          rw [show Tx.exec (persistArticleTags _ _ _ >>= _) d₁ = _ from Tx.exec_bind, htags] at h
          have he := Except.error.inj h
          have hthrows : (persistArticleTags call.newTagId (call.article author.id now).id
              (call.request.tagList.getD [])).Throws {.tagPersistence, .queryFailed} :=
            throws_persistArticleTags (.inl rfl) (.inr rfl)
          obtain rfl | rfl := hthrows.exec_error htags
          · exact he.symm
          · exact he.symm

theorem getBySlugPool_isOk {username : Str} (hu : (d.findUser username).isSome)
    (ha : (d.findArticle slug).isSome) : ∃ r, getBySlugPool slug (some username) d = .ok r := by
  obtain ⟨a, ha⟩ := Option.isSome_iff_exists.mp ha
  obtain ⟨hmem, rfl⟩ := Tables.findArticle_eq_some.mp ha
  obtain ⟨u, hmemu, hid⟩ := d.fk_articles_author a hmem
  exact ⟨_, getBySlugPool_ok hmem hmemu hid fun _ => hu⟩

/-- An update without tags goes through. -/
theorem exec_updateLocked_ok {call : UpdateCall} (hu : (d.findUser call.username).isSome)
    (ha : d.findArticle call.slug = some a) (htags : call.request.tagList = none) :
    ∃ x, (updateLocked call now a).exec d = .ok x := by
  obtain ⟨hmem, hslug⟩ := Tables.findArticle_eq_some.mp ha
  unfold updateLocked
  simp only [applyScalarChanges_fst, applyScalarChanges_snd]
  have hread : ∀ d₁ : Tables, d₁.users = d.users → (∃ b ∈ d₁.articles, b.slug = call.slug) →
      ∃ x, (getBySlug call.slug (some call.username)).exec d₁ = .ok x := by
    rintro d₁ husers ⟨b, hb, hbs⟩
    have hfound : (d₁.findArticle call.slug).isSome := by
      rw [Tables.findArticle_eq_some.mpr ⟨hb, hbs⟩]
      rfl
    obtain ⟨r, hr⟩ := getBySlugPool_isOk (by rwa [Tables.findUser, husers]) hfound
    exact ⟨(r, d₁), exec_getBySlug_ok.mpr ⟨hr, rfl⟩⟩
  have hskip : ∀ changed, updateTags call now a.id changed = pure () := by
    intro changed
    rw [updateTags, htags]
  let d₁ := if call.request.fields a ≠ a then d.updateArticle (call.request.fields a).id
      (saveInto (call.request.fields a) now) (sameIdentity_saveInto (call.request.fields a) now)
    else d
  obtain ⟨x, hx⟩ := hread d₁ (by unfold d₁; split <;> rfl) (by
    unfold d₁
    split
    · refine ⟨_, List.mem_map_of_mem hmem, ?_⟩
      split
      · exact (sameIdentity_saveInto _ now a).slug.trans hslug
      · exact hslug
    · exact ⟨a, hmem, hslug⟩)
  refine ⟨x, Tx.exec_bind_ok.mpr ⟨(), d₁, ?_, ?_⟩⟩
  · rw [exec_saveArticle]
    simp only [decide_eq_true_eq]
    rfl
  · rw [hskip]
    exact hx

theorem exec_update_error {call : UpdateCall} (hu : d.findUser call.username = some author)
    (ha : d.findArticle call.slug = some a) (hown : a.authorId = author.id)
    (h : (ArticleUpdateService.update call now).exec d = .error e) :
    e = .updatePersistence ∧ call.request.tagList.isSome := by
  simp only [ArticleUpdateService.update, Tx.exec_mapError, Tx.exec_select_bind, hu,
    Tx.exec_orThrow_some_bind, Tx.exec_selectForUpdate_bind, ha, Tx.exec_require_pos_bind hown] at h
  cases hexec : (updateLocked call now a).exec d with
  | ok x =>
      rw [hexec] at h
      cases h
  | error e' =>
      rw [hexec] at h
      refine ⟨(Except.error.inj h).symm.trans (throws_updateLocked.exec_error hexec), ?_⟩
      by_contra hnone
      rw [Bool.not_eq_true, Option.isSome_eq_false_iff, Option.isNone_iff_eq_none] at hnone
      obtain ⟨x, hx⟩ := exec_updateLocked_ok (by rw [hu]; rfl) ha hnone
      rw [hexec] at hx
      cases hx

theorem exec_delete_ok {username : Str} (hu : d.findUser username = some author)
    (ha : d.findArticle slug = some a) (hown : a.authorId = author.id) :
    (ArticleDeleteService.delete slug username).exec d = .ok ((), d.deleteArticle a.id) := by
  have hone : (d.articles.filter (·.id = a.id)).length = 1 := by
    rw [Keyed.filter_eq_singleton d.pk_articles (Tables.findArticle_eq_some.mp ha).1,
      List.length_singleton]
  simp only [ArticleDeleteService.delete, deleteLocked, Tx.exec_mapError, Tx.exec_select_bind, hu,
    Tx.exec_orThrow_some_bind, Tx.exec_selectForUpdate_bind, ha, Tx.exec_require_pos_bind hown,
    Tx.exec_execute_bind, Tx.exec_require_pos_bind hone]
  rfl

end Services

end

end MediumClone.Articles
