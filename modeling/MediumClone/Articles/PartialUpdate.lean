import MediumClone.Articles.TagRoundTrip
import MediumClone.Articles.Update

/-!
# Articles — Partial update

What `ArticleUpdateService.update` makes of the fields a request leaves out, and of those that are
as they were.

An update that asks for nothing else than what there is writes nothing (`update_unchanged`).  After
an update, the same request asks for nothing else than what there is; so a second update finds the
first one's response and writes nothing (`partial_update`).
-/

namespace MediumClone.Articles
open Js Sys Schema

/-- Some field or the tag list that the request gives is not what there is. -/
def ArticleUpdate.Differs (request : ArticleUpdate) (a : Article) (tags : List Str) : Prop :=
  (∃ title ∈ request.title, title ≠ a.title) ∨
    (∃ description ∈ request.description, description ≠ a.description) ∨
    (∃ body ∈ request.body, body ≠ a.body) ∨
    ∃ tagList ∈ request.tagList, uniqueArticleTagNames tagList ≠ tags

section

variable {d d' : Tables} {call : UpdateCall} {now : Timestamp} {a : Article} {author : User}
  {r : ArticleDetail} {request : ArticleUpdate} {tags : List Str}

theorem getD_ne_iff {α : Type} {v : Option α} {x : α} : v.getD x ≠ x ↔ ∃ y ∈ v, y ≠ x := by
  cases v with
  | none => simp
  | some y => simp

theorem changes_iff : request.changes a tags = true ↔ request.Differs a tags := by
  have htags : request.tagNames tags ≠ tags ↔
      ∃ tagList ∈ request.tagList, uniqueArticleTagNames tagList ≠ tags := by
    rw [ArticleUpdate.tagNames, getD_ne_iff]
    simp
  have hfields : request.fields a ≠ a ↔ (∃ title ∈ request.title, title ≠ a.title) ∨
      (∃ description ∈ request.description, description ≠ a.description) ∨
      ∃ body ∈ request.body, body ≠ a.body := by
    rw [Ne, fields_eq_self_iff, not_and_or, not_and_or]
    exact or_congr getD_ne_iff (or_congr getD_ne_iff getD_ne_iff)
  rw [ArticleUpdate.changes, Bool.or_eq_true, decide_eq_true_eq, decide_eq_true_eq, hfields, htags,
    ArticleUpdate.Differs, or_assoc, or_assoc]

/-! ### Nothing to change -/

theorem applyScalarChanges_unchanged (h : request.fields a = a) :
    applyScalarChanges a request = (a, false) :=
  Prod.ext (applyScalarChanges_fst.trans h) (applyScalarChanges_snd.trans (by simp [h]))

theorem updateTags_unchanged
    (h : call.request.tagNames (loadOrderedTags a.id d) = loadOrderedTags a.id d) :
    (updateTags call now a.id false).exec d = .ok ((), d) ∧
      (updateTags call now a.id false).WritesNothing d := by
  unfold updateTags
  cases hlist : call.request.tagList with
  | none => exact ⟨rfl, trivial⟩
  | some tagList =>
      have hsame : hasSameOrderedTagNames (loadOrderedTags a.id d)
          (uniqueArticleTagNames tagList) = true := by
        rw [ArticleUpdate.tagNames, hlist] at h
        exact hasSameOrderedTagNames_iff.mpr h.symm
      constructor
      · dsimp only
        rw [Tx.exec_select_bind, hsame]
        rfl
      · refine ⟨rfl, ?_⟩
        change Tx.WritesNothing (if !hasSameOrderedTagNames (loadOrderedTags a.id d)
          (uniqueArticleTagNames tagList) then _ else _) d
        rw [hsame]
        trivial

/-- An update that asks for what there is reads it, and writes nothing. -/
theorem update_unchanged (hauthor : d.findUser call.username = some author)
    (ha : d.findArticle call.slug = some a) (hown : a.authorId = author.id)
    (hsame : call.request.changes a (loadOrderedTags a.id d) = false)
    (hr : getBySlugPool call.slug (some call.username) d = .ok r) :
    (ArticleUpdateService.update call now).exec d = .ok (r, d) ∧
      (ArticleUpdateService.update call now).WritesNothing d := by
  obtain ⟨hfields, htags⟩ : call.request.fields a = a ∧
      call.request.tagNames (loadOrderedTags a.id d) = loadOrderedTags a.id d := by
    simpa [ArticleUpdate.changes] using hsame
  obtain ⟨hexec, hwrites⟩ : (updateTags call now a.id false).exec d = .ok ((), d) ∧ _ :=
    updateTags_unchanged htags
  have hread := exec_getBySlug_ok.mpr ⟨hr, rfl⟩
  have hlocked : (updateLocked call now a).exec d = .ok (r, d) ∧
      (updateLocked call now a).WritesNothing d := by
    rw [updateLocked, applyScalarChanges_unchanged hfields]
    constructor
    · exact Tx.exec_bind_ok.mpr ⟨(), d, rfl, Tx.exec_bind_ok.mpr ⟨(), d, hexec, hread⟩⟩
    · refine Tx.WritesNothing.bind trivial fun _ _ => hwrites.bind fun _ _ => ?_
      exact Tx.writesNothing_of_confined (writes_getBySlug fun _ => rfl)
  constructor
  · simp only [ArticleUpdateService.update, Tx.exec_mapError_ok, Tx.exec_select_bind,
      Tx.exec_orThrow_bind, Tx.exec_selectForUpdate_bind, Tx.exec_require_bind]
    exact ⟨author, hauthor, a, ha, hown, hlocked.1⟩
  · refine Tx.WritesNothing.mapError ⟨rfl, ?_⟩
    change Tx.WritesNothing (Tx.orThrow _ (d.findUser call.username) >>= _) d
    rw [hauthor]
    refine ⟨rfl, ?_⟩
    change Tx.WritesNothing (Tx.orThrow _ (d.findArticle call.slug) >>= _) d
    rw [ha]
    change Tx.WritesNothing (Tx.require _ _ >>= _) d
    rw [Tx.require, if_pos hown]
    exact hlocked.2

/-! ### After an update -/

theorem tagNames_idem : request.tagNames (request.tagNames tags) = request.tagNames tags := by
  rw [ArticleUpdate.tagNames, ArticleUpdate.tagNames]
  cases request.tagList <;> rfl

/-- The row and the tags that an update leaves are what the request asks for. -/
theorem changes_row : request.changes (request.row now a tags) (request.tagNames tags) = false := by
  have hfields : request.fields (request.row now a tags) = request.row now a tags := by
    rw [fields_eq_self_iff, ArticleUpdate.row, ArticleUpdate.fields]
    cases request.title <;> cases request.description <;> cases request.body <;>
      exact ⟨rfl, rfl, rfl⟩
  simp [ArticleUpdate.changes, hfields, tagNames_idem]

/-- **A partial update.**  A field or tag list that is given is set, one that is not stays.
`updated_at` is written if something given differs from what there was, and else nothing is written
at all.  The response is that of a read afterwards, and the same update once more, at any time,
gives it again and writes nothing. -/
theorem partial_update (h : (ArticleUpdateService.update call now).exec d = .ok (r, d')) :
    ∃ a a', d.findArticle call.slug = some a ∧ d'.findArticle call.slug = some a' ∧ a'.id = a.id ∧
      a'.title = call.request.title.getD a.title ∧
      a'.description = call.request.description.getD a.description ∧
      a'.body = call.request.body.getD a.body ∧
      loadOrderedTags a.id d' =
        (call.request.tagList.map uniqueArticleTagNames).getD (loadOrderedTags a.id d) ∧
      (call.request.Differs a (loadOrderedTags a.id d) → a'.updatedAt = now) ∧
      (¬ call.request.Differs a (loadOrderedTags a.id d) →
        d' = d ∧ (ArticleUpdateService.update call now).WritesNothing d) ∧
      getBySlugPool call.slug (some call.username) d' = .ok r ∧
      ∀ newTagId now', (ArticleUpdateService.update { call with newTagId } now').exec d' =
          .ok (r, d') ∧
        (ArticleUpdateService.update { call with newTagId } now').WritesNothing d' := by
  obtain ⟨author, a, hauthor, ha, hown, hu, hr⟩ := exec_update h
  obtain ⟨hmem, hslug⟩ := Tables.findArticle_eq_some.mp ha
  have ha' : d'.findArticle call.slug =
      some (call.request.row now a (loadOrderedTags a.id d)) := by
    refine Tables.findArticle_eq_some.mpr ⟨?_, hslug⟩
    rw [hu.articles]
    exact List.mem_map.mpr ⟨a, hmem, if_pos rfl⟩
  have hauthor' : d'.findUser call.username = some author := by
    rw [Tables.findUser, hu.users]
    exact hauthor
  refine ⟨a, _, ha, ha', rfl, rfl, rfl, rfl, hu.ordered, fun hdiff => ?_, fun hsame => ?_, hr,
    fun newTagId now' => ?_⟩
  · exact if_pos (changes_iff.mpr hdiff)
  · -- what a read would return now is what the update returned
    have hchanges : call.request.changes a (loadOrderedTags a.id d) = false := by
      rwa [← Bool.not_eq_true, changes_iff]
    obtain ⟨u, hu', hid⟩ := d.fk_articles_author a hmem
    have hviewer : viewerOf d (some call.username) = some author := hauthor
    have hread : getBySlugPool call.slug (some call.username) d =
        .ok (detailOf d a u (some author)) := by
      rw [← hslug, getBySlugPool_ok hmem hu' hid fun _ => by rw [hviewer]; rfl, hviewer]
    have hwrites : (ArticleUpdateService.update call now).WritesNothing d :=
      (update_unchanged hauthor ha hown hchanges hread).2
    exact ⟨hwrites.exec h, hwrites⟩
  · refine update_unchanged hauthor' ha' hown ?_ hr
    have htags : loadOrderedTags a.id d' = call.request.tagNames (loadOrderedTags a.id d) :=
      hu.ordered
    change call.request.changes _ (loadOrderedTags a.id d') = false
    rw [htags]
    exact changes_row

/-- In the sample the title changes, and the tags are given in their order. -/
def sampleUpdate : UpdateCall where
  slug := ['s']
  username := ['u']
  request := ⟨some ['T'], none, some ['b'], some [['t'], ['x'], ['t']]⟩
  newTagId _ := 20

theorem partial_update_sample : ∃ r d',
    (ArticleUpdateService.update sampleUpdate 2000).exec Tables.sample = .ok (r, d') ∧
    d'.articles = [⟨5, ['s'], ['T'], ['d'], ['b'], 1, 1000, 2000⟩] ∧
    (ArticleUpdateService.update sampleUpdate 3000).exec d' = .ok (r, d') := by
  have hruns : ((ArticleUpdateService.update sampleUpdate 2000).exec Tables.sample).map
      (fun x => x.2.articles) = .ok [⟨5, ['s'], ['T'], ['d'], ['b'], 1, 1000, 2000⟩] := rfl
  cases hexec : (ArticleUpdateService.update sampleUpdate 2000).exec Tables.sample with
  | error e => rw [hexec] at hruns; cases hruns
  | ok x =>
      rw [hexec] at hruns
      obtain ⟨a, a', -, -, -, -, -, -, -, -, -, -, hagain⟩ := partial_update hexec
      exact ⟨x.1, x.2, rfl, Except.ok.inj hruns, (hagain sampleUpdate.newTagId 3000).1⟩

end

end MediumClone.Articles
