import MediumClone.Articles.Read
import MediumClone.Articles.TagWrites
import MediumClone.Support.JsMap

/-!
# Articles — Writes

The transactions of `src/articles/article.service.ts` that change articles, and
`src/articles/article-tag-persistence.ts`, statement by statement.

What a call draws is part of the call: the ids that `gen_random_uuid()` gives the rows it inserts,
and the slug that `createArticleSlug` makes of the title and a random suffix.  `now` is
`CURRENT_TIMESTAMP`, the start of the transaction.

Each service has one lemma that says what a successful call alone found, changed and returned:
`exec_create`, `exec_update`, `exec_delete`, `exec_favorite`.
-/

namespace MediumClone.Articles
open Js Sys Schema

/-! ### Requests -/

structure NewArticle where
  title : Str
  description : Str
  body : Str
  tagList : Option (List Str)

structure ArticleUpdate where
  title : Option Str
  description : Option Str
  body : Option Str
  tagList : Option (List Str)
  deriving DecidableEq

/-! ### Tags -/

def ensureTagsExist (newTagId : Str → Uuid) (names : List Str) : ArticleTx (Map Str Uuid) :=
  if names = [] then pure Map.empty
  else do
    Tx.execute (·.insertTags (names.map fun name => ⟨newTagId name, name⟩)) fun _ => ()
    let storedTags ← Tx.select fun db => db.tags.filter (names.contains ·.name)
    let tagIds := Map.ofEntries (storedTags.map fun tag => (tag.name, tag.id))
    Tx.require (∀ name ∈ names, (tagIds name).isSome) .tagPersistence
    pure tagIds

/-- The rows to insert; a name without an id has none. -/
def linkRows (articleId : Uuid) (names : List Str) (tagIds : Map Str Uuid) :
    Option (List ArticleTag) :=
  names.zipIdx.mapM fun x => (tagIds x.1).map fun tagId => ⟨articleId, tagId, x.2⟩

def insertArticleTagLinks (articleId : Uuid) (names : List Str) (tagIds : Map Str Uuid) :
    ArticleTx Unit :=
  if names = [] then pure ()
  else Tx.attempt (fun db => (linkRows articleId names tagIds).bind db.insertArticleTags)
    fun _ => .queryFailed

def persistArticleTags (newTagId : Str → Uuid) (articleId : Uuid) (names : List Str) :
    ArticleTx (List Str) := do
  let uniqueNames := uniqueArticleTagNames names
  let tagIds ← ensureTagsExist newTagId uniqueNames
  insertArticleTagLinks articleId uniqueNames tagIds
  pure uniqueNames

def replaceArticleTags (newTagId : Str → Uuid) (articleId : Uuid) (names : List Str) :
    ArticleTx (List Str) := do
  let uniqueNames := uniqueArticleTagNames names
  let tagIds ← ensureTagsExist newTagId uniqueNames
  Tx.execute (·.deleteArticleTags articleId) fun _ => ()
  insertArticleTagLinks articleId uniqueNames tagIds
  pure uniqueNames

/-! ### Create -/

structure CreateCall where
  username : Str
  request : NewArticle
  id : Uuid
  slug : Str
  newTagId : Str → Uuid

/-- The inserted row. -/
def CreateCall.article (call : CreateCall) (authorId : Uuid) (now : Timestamp) : Article where
  id := call.id
  slug := call.slug
  title := call.request.title
  description := call.request.description
  body := call.request.body
  authorId := authorId
  createdAt := now
  updatedAt := now

/-- What `create` makes of an error thrown inside; a taken slug is caught at the insert. -/
def wrapCreateError : ArticleError → ArticleError
  | .articleAuthorNotFound => .articleAuthorNotFound
  | .articleSlugConflict => .articleSlugConflict
  | _ => .articleCreatePersistence

/-- `INSERT`, and `isSlugConflict`: the key `uq_articles_slug` is checked after `pk_articles`. -/
def insertArticle (article : Article) : ArticleTx Unit :=
  Tx.attempt (·.insertArticle article) fun db =>
    if (db.articles.all (·.id ≠ article.id)) && (db.findArticle article.slug).isSome then
      .articleSlugConflict
    else .queryFailed

def ArticleCreateService.create (call : CreateCall) (now : Timestamp) : ArticleTx ArticleDetail :=
  Tx.mapError wrapCreateError do
    let found ← Tx.select (·.findUser call.username)
    let author ← Tx.orThrow .articleAuthorNotFound found
    let article := call.article author.id now
    insertArticle article
    let tags ← persistArticleTags call.newTagId article.id (call.request.tagList.getD [])
    pure (serializeArticleDetail article author
      { tags := tags, favorited := false, favoritesCount := 0, authorFollowing := false })

/-! ### Update -/

/-- `if (value !== undefined && current !== value) { current = value; changed = true }`. -/
def assign (current : Article → Str) (set : Article → Str → Article) (value : Option Str)
    (x : Article × Bool) : Article × Bool :=
  match value with
  | none => x
  | some value => if current x.1 ≠ value then (set x.1 value, true) else x

def applyScalarChanges (article : Article) (request : ArticleUpdate) : Article × Bool :=
  assign (·.body) (fun a value => { a with body := value }) request.body <|
    assign (·.description) (fun a value => { a with description := value }) request.description <|
      assign (·.title) (fun a value => { a with title := value }) request.title (article, false)

def hasSameOrderedTagNames (current requested : List Str) : Bool :=
  current.length = requested.length &&
    current.zipIdx.all fun x => requested[x.2]? = some x.1

/-- `save(entity)` on a stored row: the columns that differ, and `updated_at` if there are any. -/
def saveInto (entity : Article) (now : Timestamp) (row : Article) : Article :=
  if row.title = entity.title ∧ row.description = entity.description ∧ row.body = entity.body then
    row
  else { row with
    title := entity.title
    description := entity.description
    body := entity.body
    updatedAt := now }

theorem sameIdentity_saveInto (entity : Article) (now : Timestamp) (row : Article) :
    row.SameIdentity (saveInto entity now row) := by
  unfold saveInto
  split <;> exact ⟨rfl, rfl, rfl, rfl⟩

/-- `if (scalarChanged) await articleRepository.save(article)`. -/
def saveArticle (scalarChanged : Bool) (entity : Article) (now : Timestamp) : ArticleTx Unit :=
  if scalarChanged then
    Tx.execute (·.updateArticle entity.id (saveInto entity now) (sameIdentity_saveInto entity now))
      fun _ => ()
  else pure ()

/-- `if (!scalarChanged) await this.touchUpdatedAt(article.id, manager)`. -/
def touchUpdatedAt (scalarChanged : Bool) (articleId : Uuid) (now : Timestamp) : ArticleTx Unit :=
  if scalarChanged then pure ()
  else
    Tx.execute (·.updateArticle articleId (fun row => { row with updatedAt := now })
      fun _ => ⟨rfl, rfl, rfl, rfl⟩) fun _ => ()

structure UpdateCall where
  slug : Str
  username : Str
  request : ArticleUpdate
  newTagId : Str → Uuid

/-- What `update` makes of an error thrown inside. -/
def wrapUpdateError : ArticleError → ArticleError
  | .updateUserNotFound => .updateUserNotFound
  | .updateArticleNotFound => .updateArticleNotFound
  | .updateForbidden => .updateForbidden
  | _ => .updatePersistence

/-- The statements on the tags of the locked article. -/
def updateTags (call : UpdateCall) (now : Timestamp) (articleId : Uuid) (scalarChanged : Bool) :
    ArticleTx Unit :=
  match call.request.tagList with
  | none => pure ()
  | some tagList => do
    let requestedTagNames := uniqueArticleTagNames tagList
    let existingTagNames ← Tx.select (loadOrderedTags articleId)
    let tagsChanged := !hasSameOrderedTagNames existingTagNames requestedTagNames
    if tagsChanged then do
      touchUpdatedAt scalarChanged articleId now
      let _ ← replaceArticleTags call.newTagId articleId requestedTagNames
      pure ()
    else pure ()

/-- The statements after the article is locked. -/
def updateLocked (call : UpdateCall) (now : Timestamp) (article : Article) :
    ArticleTx ArticleDetail := do
  let (entity, scalarChanged) := applyScalarChanges article call.request
  saveArticle scalarChanged entity now
  updateTags call now article.id scalarChanged
  getBySlug call.slug (some call.username)

def ArticleUpdateService.update (call : UpdateCall) (now : Timestamp) : ArticleTx ArticleDetail :=
  Tx.mapError wrapUpdateError do
    let found ← Tx.select (·.findUser call.username)
    let author ← Tx.orThrow .updateUserNotFound found
    let found ← Tx.selectForUpdate (·.findArticle call.slug) fun article => Row.article article.id
    let article ← Tx.orThrow .updateArticleNotFound found
    Tx.require (article.authorId = author.id) .updateForbidden
    updateLocked call now article

/-! ### Delete -/

/-- What `delete` makes of an error thrown inside. -/
def wrapDeleteError : ArticleError → ArticleError
  | .deleteUserNotFound => .deleteUserNotFound
  | .deleteArticleNotFound => .deleteArticleNotFound
  | .deleteForbidden => .deleteForbidden
  | _ => .deletePersistence

/-- The statement after the article is locked. -/
def deleteLocked (article : Article) : ArticleTx Unit := do
  let affected ← Tx.execute (·.deleteArticle article.id) fun db =>
    (db.articles.filter (·.id = article.id)).length
  Tx.require (affected = 1) .deletePersistence
  pure ()

def ArticleDeleteService.delete (slug username : Str) : ArticleTx Unit :=
  Tx.mapError wrapDeleteError do
    let found ← Tx.select (·.findUser username)
    let user ← Tx.orThrow .deleteUserNotFound found
    let found ← Tx.selectForUpdate (·.findArticle slug) fun article => Row.article article.id
    let article ← Tx.orThrow .deleteArticleNotFound found
    Tx.require (article.authorId = user.id) .deleteForbidden
    deleteLocked article

/-! ### Favorites -/

/-- `create` and `delete` differ in the statement between the locks and the read. -/
def favorite (write : ArticleFavorite → ArticleTx Unit) (slug username : Str) :
    ArticleTx ArticleDetail := do
  let found ← Tx.selectForUpdate (·.findUser username) fun user => Row.user user.id
  let viewer ← Tx.orThrow .favoriteUserNotFound found
  let found ← Tx.selectForUpdate (·.findArticle slug) fun article => Row.article article.id
  let article ← Tx.orThrow .favoriteArticleNotFound found
  write ⟨article.id, viewer.id⟩
  getBySlug slug (some username)

def ArticleFavoriteService.create (slug username : Str) : ArticleTx ArticleDetail :=
  favorite (fun f => Tx.attempt (·.insertFavorite f) fun _ => .queryFailed) slug username

def ArticleFavoriteService.delete (slug username : Str) : ArticleTx ArticleDetail :=
  favorite (fun f => Tx.execute (·.deleteFavorite f) fun _ => ()) slug username

/-! ### Tags, alone -/

theorem nodup_foldl_new {l set : List Str} (h : set.Nodup) :
    (l.foldl (fun set name => if name ∈ set then set else set ++ [name]) set).Nodup := by
  induction l generalizing set with
  | nil => exact h
  | cons name l ih =>
      rw [List.foldl_cons]
      split
      · exact ih h
      · rename_i hname
        exact ih (List.Nodup.append h (List.nodup_singleton name)
          (List.disjoint_singleton.mpr hname))

theorem foldl_new_of_nodup {l set : List Str} (h : (set ++ l).Nodup) :
    l.foldl (fun set name => if name ∈ set then set else set ++ [name]) set = set ++ l := by
  induction l generalizing set with
  | nil => rw [List.foldl_nil, List.append_nil]
  | cons name l ih =>
      have hname : name ∉ set := fun hs =>
        (List.nodup_append.mp h).2.2 name hs name List.mem_cons_self rfl
      rw [List.foldl_cons, if_neg hname, ih, List.append_assoc, List.singleton_append]
      rwa [List.append_assoc, List.singleton_append]

/-- A list of different names is its own set. -/
theorem uniqueArticleTagNames_idem (names : List Str) :
    uniqueArticleTagNames (uniqueArticleTagNames names) = uniqueArticleTagNames names :=
  foldl_new_of_nodup (nodup_foldl_new List.nodup_nil)

section

variable {d d' : Tables} {newTagId : Str → Uuid} {names : List Str} {articleId : Uuid}
  {tagIds : Map Str Uuid}

theorem exec_ensureTagsExist (h : (ensureTagsExist newTagId names).exec d = .ok (tagIds, d')) :
    Tables.TagsGrow d d' ∧ ∀ name ∈ names, ∃ id, tagIds name = some id ∧ ⟨id, name⟩ ∈ d'.tags := by
  unfold ensureTagsExist at h
  split at h
  · rename_i hnil
    cases h
    exact ⟨⟨rfl, rfl, List.prefix_rfl, rfl, rfl, rfl, rfl⟩, by simp [hnil]⟩
  · simp only [Tx.exec_execute_bind, Tx.exec_select_bind, Tx.exec_require_bind] at h
    obtain ⟨hall, h⟩ := h
    obtain ⟨rfl, rfl⟩ := Prod.mk.inj (Except.ok.inj h)
    refine ⟨Tables.tagsGrow_insertTags _, fun name hname => ?_⟩
    obtain ⟨id, hid⟩ := Option.isSome_iff_exists.mp (hall name hname)
    refine ⟨id, hid, ?_⟩
    have hkeys : ∀ db : Tables, (((db.tags.filter (names.contains ·.name)).map fun tag =>
        (tag.name, tag.id)).map Prod.fst).Nodup := by
      intro db
      rw [List.map_map]
      exact Keyed.filter db.uq_tags_name
    obtain ⟨⟨id', name'⟩, htag, heq⟩ := List.mem_map.mp ((Map.get_ofEntries (hkeys _)).mp hid)
    obtain ⟨rfl, rfl⟩ := Prod.mk.inj heq
    exact List.mem_of_mem_filter htag

/-- The rows that link the names to their positions. -/
def links (articleId : Uuid) (names : List Str) (tagIds : Map Str Uuid) : List ArticleTag :=
  names.zipIdx.map fun x => ⟨articleId, (tagIds x.1).getD 0, x.2⟩

theorem exec_insertArticleTagLinks (hids : ∀ name ∈ names, ∃ id, tagIds name = some id)
    (h : (insertArticleTagLinks articleId names tagIds).exec d = .ok ((), d')) :
    d'.articleTags = d.articleTags ++ links articleId names tagIds ∧ Tables.LinksOnly d d' := by
  have hrows : linkRows articleId names tagIds = some (links articleId names tagIds) := by
    refine mapM_eq_pure fun x hx => ?_
    obtain ⟨id, hid⟩ := hids x.1 (List.fst_mem_of_mem_zipIdx hx)
    rw [hid]
    rfl
  unfold insertArticleTagLinks at h
  split at h
  · rename_i hnil
    cases h
    rw [hnil]
    exact ⟨(List.append_nil _).symm, rfl, rfl, rfl, rfl, rfl, rfl⟩
  · rw [Tx.exec_attempt, hrows] at h
    exact Tables.insertArticleTags_eq_some h

/-- The links of an article are `names` in order; the links of the others are as they were. -/
structure TagsReplaced (articleId : Uuid) (names : List Str) (d d' : Tables) : Prop where
  users : d'.users = d.users
  articles : d'.articles = d.articles
  tags : d.tags <+: d'.tags
  favorites : d'.favorites = d.favorites
  comments : d'.comments = d.comments
  follows : d'.follows = d.follows
  ordered : loadOrderedTags articleId d' = names
  others : ∀ id, id ≠ articleId →
    d'.articleTags.filter (·.articleId = id) = d.articleTags.filter (·.articleId = id)

/-- New links after those of other articles. -/
theorem tagsReplaced_of_links {d₁ : Tables} (hgrow : Tables.TagsGrow d d₁)
    (hids : ∀ name ∈ names, ∃ id, tagIds name = some id ∧ ⟨id, name⟩ ∈ d₁.tags)
    (hl : d'.articleTags = d.articleTags.filter (·.articleId ≠ articleId) ++
      links articleId names tagIds)
    (hrest : d'.users = d₁.users ∧ d'.articles = d₁.articles ∧ d'.tags = d₁.tags ∧
      d'.favorites = d₁.favorites ∧ d'.comments = d₁.comments ∧ d'.follows = d₁.follows) :
    TagsReplaced articleId names d d' := by
  obtain ⟨husers, harticles, htags, hfavorites, hcomments, hfollows⟩ := hrest
  refine ⟨husers.trans hgrow.users, harticles.trans hgrow.articles, htags ▸ hgrow.tags,
    hfavorites.trans hgrow.favorites, hcomments.trans hgrow.comments,
    hfollows.trans hgrow.follows, ?_, ?_⟩
  · -- the links come in the order of their positions
    have hmine : d'.articleTags.filter (·.articleId = articleId) =
        links articleId names tagIds := by
      rw [hl, List.filter_append, List.filter_filter]
      simp [links, List.filter_map, Function.comp_def]
    have hsorted : (links articleId names tagIds).Pairwise fun l m => l.position ≤ m.position := by
      rw [links, List.pairwise_map]
      have hlt : (names.zipIdx.map Prod.snd).Pairwise (· < ·) := by
        rw [List.zipIdx_map_snd]
        exact List.pairwise_lt_range'
      exact (List.pairwise_map.mp hlt).imp le_of_lt
    rw [loadOrderedTags_eq_map, hmine, Sql.orderBy_eq_self hsorted, links, List.map_map]
    calc names.zipIdx.map _ = names.zipIdx.map Prod.fst := by
          refine List.map_congr_left fun x hx => ?_
          obtain ⟨id, hid, htag⟩ := hids x.1 (List.fst_mem_of_mem_zipIdx hx)
          rw [← htags] at htag
          simp only [Function.comp_apply]
          rw [tagOf_eq htag (by simp [hid])]
      _ = names := List.zipIdx_map_fst 0 names
  · intro id hid
    have hnew : (links articleId names tagIds).filter (·.articleId = id) = [] := by
      simp [links, List.filter_map, Function.comp_def, Ne.symm hid]
    rw [hl, List.filter_append, hnew, List.append_nil]
    exact Keyed.filter_filter_ne hid

/-- What a write of the links of an article leaves: the links `kept`, then those of the names. -/
structure Linked (articleId : Uuid) (names : List Str) (tagIds : Map Str Uuid)
    (kept : List ArticleTag) (d d₁ d' : Tables) : Prop where
  grow : Tables.TagsGrow d d₁
  ids : ∀ name ∈ names, ∃ id, tagIds name = some id ∧ ⟨id, name⟩ ∈ d₁.tags
  articleTags : d'.articleTags = kept ++ links articleId names tagIds
  rest : d'.users = d₁.users ∧ d'.articles = d₁.articles ∧ d'.tags = d₁.tags ∧
    d'.favorites = d₁.favorites ∧ d'.comments = d₁.comments ∧ d'.follows = d₁.follows

theorem linked_replaceArticleTags {r : List Str}
    (h : (replaceArticleTags newTagId articleId names).exec d = .ok (r, d')) :
    ∃ tagIds d₁, Linked articleId (uniqueArticleTagNames names) tagIds
      (d.articleTags.filter (·.articleId ≠ articleId)) d d₁ d' := by
  unfold replaceArticleTags at h
  simp only [Tx.exec_bind_ok, Tx.exec_execute_bind] at h
  obtain ⟨tagIds, d₁, h₁, ⟨⟩, d₂, h₂, h⟩ := h
  cases h
  obtain ⟨hgrow, hids⟩ := exec_ensureTagsExist h₁
  have hsome := fun name hn => (hids name hn).imp fun _ h => h.1
  obtain ⟨hl, ho⟩ := exec_insertArticleTagLinks hsome h₂
  refine ⟨tagIds, d₁, hgrow, hids, ?_, ho.users, ho.articles, ho.tags, ho.favorites, ho.comments,
    ho.follows⟩
  rw [hl]
  change d₁.articleTags.filter _ ++ _ = _
  rw [hgrow.articleTags]

theorem linked_persistArticleTags {r : List Str}
    (h : (persistArticleTags newTagId articleId names).exec d = .ok (r, d')) :
    (∃ tagIds d₁, Linked articleId (uniqueArticleTagNames names) tagIds d.articleTags d d₁ d') ∧
      r = uniqueArticleTagNames names := by
  unfold persistArticleTags at h
  simp only [Tx.exec_bind_ok] at h
  obtain ⟨tagIds, d₁, h₁, ⟨⟩, d₂, h₂, h⟩ := h
  cases h
  obtain ⟨hgrow, hids⟩ := exec_ensureTagsExist h₁
  have hsome := fun name hn => (hids name hn).imp fun _ h => h.1
  obtain ⟨hl, ho⟩ := exec_insertArticleTagLinks hsome h₂
  exact ⟨⟨tagIds, d₁, hgrow, hids, by rw [hl, hgrow.articleTags], ho.users, ho.articles, ho.tags,
    ho.favorites, ho.comments, ho.follows⟩, rfl⟩

theorem exec_replaceArticleTags {r : List Str}
    (h : (replaceArticleTags newTagId articleId names).exec d = .ok (r, d')) :
    TagsReplaced articleId (uniqueArticleTagNames names) d d' := by
  obtain ⟨tagIds, d₁, hl⟩ := linked_replaceArticleTags h
  exact tagsReplaced_of_links hl.grow hl.ids hl.articleTags hl.rest

theorem exec_persistArticleTags {r : List Str}
    (hnew : ∀ l ∈ d.articleTags, l.articleId ≠ articleId)
    (h : (persistArticleTags newTagId articleId names).exec d = .ok (r, d')) :
    TagsReplaced articleId (uniqueArticleTagNames names) d d' ∧
      r = uniqueArticleTagNames names := by
  obtain ⟨⟨tagIds, d₁, hl⟩, hr⟩ := linked_persistArticleTags h
  refine ⟨tagsReplaced_of_links hl.grow hl.ids ?_ hl.rest, hr⟩
  have hall : d.articleTags.filter (·.articleId ≠ articleId) = d.articleTags :=
    List.filter_eq_self.mpr fun l hl => decide_eq_true (hnew l hl)
  rw [hl.articleTags, hall]

end

/-! ### Update, alone -/

/-- The article with the requested fields. -/
def ArticleUpdate.fields (request : ArticleUpdate) (a : Article) : Article :=
  { a with
    title := request.title.getD a.title
    description := request.description.getD a.description
    body := request.body.getD a.body }

/-- The requested tags, or those there were. -/
def ArticleUpdate.tagNames (request : ArticleUpdate) (tags : List Str) : List Str :=
  (request.tagList.map uniqueArticleTagNames).getD tags

/-- The request asks for something else than what it finds. -/
def ArticleUpdate.changes (request : ArticleUpdate) (a : Article) (tags : List Str) : Bool :=
  request.fields a ≠ a || request.tagNames tags ≠ tags

/-- The row after an update that started at `now`. -/
def ArticleUpdate.row (request : ArticleUpdate) (now : Timestamp) (a : Article)
    (tags : List Str) : Article :=
  { request.fields a with updatedAt := if request.changes a tags then now else a.updatedAt }

section

variable {current : Article → Str} {set : Article → Str → Article} {value : Option Str}
  {x : Article × Bool} {a : Article} {request : ArticleUpdate}

theorem assign_fst (h : ∀ a, set a (current a) = a) :
    (assign current set value x).1 = set x.1 (value.getD (current x.1)) := by
  cases value with
  | none => exact (h x.1).symm
  | some v =>
      by_cases hv : current x.1 = v
      · rw [assign, if_neg (not_not.mpr hv), Option.getD_some, ← hv, h]
      · rw [assign, if_pos hv, Option.getD_some]

theorem assign_snd : (assign current set value x).2 =
    (x.2 || value.any fun v => current x.1 ≠ v) := by
  cases value with
  | none => simp [assign]
  | some v => by_cases hv : current x.1 = v <;> simp [assign, hv]

theorem applyScalarChanges_fst : (applyScalarChanges a request).1 = request.fields a := by
  rw [applyScalarChanges, assign_fst fun _ => rfl, assign_fst fun _ => rfl, assign_fst fun _ => rfl]
  rfl

theorem getD_eq_self_iff {v : Option Str} {s : Str} :
    v.getD s = s ↔ v.any (fun v => s ≠ v) = false := by
  cases v with
  | none => simp
  | some v => by_cases h : s = v <;> simp [h, Ne.symm]

theorem fields_eq_self_iff : request.fields a = a ↔ request.title.getD a.title = a.title ∧
    request.description.getD a.description = a.description ∧
    request.body.getD a.body = a.body := by
  obtain ⟨id, slug, title, description, body, authorId, createdAt, updatedAt⟩ := a
  simp [ArticleUpdate.fields]

/-- The flag says whether the entity differs from the row it was read from. -/
theorem applyScalarChanges_snd :
    (applyScalarChanges a request).2 = decide (request.fields a ≠ a) := by
  rw [applyScalarChanges, assign_snd, assign_snd, assign_snd, assign_fst fun _ => rfl,
    assign_fst fun _ => rfl, assign_fst fun _ => rfl, Bool.eq_iff_iff, decide_eq_true_eq, Ne,
    fields_eq_self_iff, getD_eq_self_iff, getD_eq_self_iff, getD_eq_self_iff]
  simp only [Bool.false_or, Bool.or_eq_true, ← Bool.not_eq_true]
  tauto

theorem hasSameOrderedTagNames_iff {names names' : List Str} :
    hasSameOrderedTagNames names names' ↔ names = names' := by
  simp only [hasSameOrderedTagNames, Bool.and_eq_true, decide_eq_true_eq, List.all_eq_true,
    Prod.forall, List.mem_zipIdx_iff_getElem?]
  constructor
  · rintro ⟨hlen, hall⟩
    refine List.ext_getElem? fun i => ?_
    cases hi : names[i]? with
    | some name => exact (hall name i hi).symm
    | none =>
        rw [List.getElem?_eq_none_iff] at hi
        exact (List.getElem?_eq_none (hlen ▸ hi)).symm
  · rintro rfl
    exact ⟨rfl, fun _ _ h => h⟩

end

/-- What an update of `a` leaves: the requested fields and tags, `updated_at` at the start of the
update if they are not what it found, and everything else as it was. -/
structure Updated (request : ArticleUpdate) (now : Timestamp) (a : Article) (d d' : Tables) :
    Prop where
  users : d'.users = d.users
  articles : d'.articles = d.articles.map fun b =>
    if b.id = a.id then request.row now a (loadOrderedTags a.id d) else b
  tags : d.tags <+: d'.tags
  favorites : d'.favorites = d.favorites
  comments : d'.comments = d.comments
  follows : d'.follows = d.follows
  ordered : loadOrderedTags a.id d' = request.tagNames (loadOrderedTags a.id d)
  others : ∀ id, id ≠ a.id →
    d'.articleTags.filter (·.articleId = id) = d.articleTags.filter (·.articleId = id)

section

variable {d d' d₁ : Tables} {call : UpdateCall} {now : Timestamp} {a : Article}
  {scalarChanged : Bool} {u : Unit}

/-- The tags of the article are the requested ones; a row that was not saved is touched. -/
structure TagsUpdated (request : ArticleUpdate) (now : Timestamp) (id : Uuid)
    (scalarChanged : Bool) (d d' : Tables) : Prop where
  users : d'.users = d.users
  articles : d'.articles = d.articles.map fun b =>
    if b.id = id ∧ request.tagNames (loadOrderedTags id d) ≠ loadOrderedTags id d ∧
      scalarChanged = false then { b with updatedAt := now } else b
  tags : d.tags <+: d'.tags
  favorites : d'.favorites = d.favorites
  comments : d'.comments = d.comments
  follows : d'.follows = d.follows
  ordered : loadOrderedTags id d' = request.tagNames (loadOrderedTags id d)
  others : ∀ other, other ≠ id →
    d'.articleTags.filter (·.articleId = other) = d.articleTags.filter (·.articleId = other)

theorem tagsUpdated_of_same {id : Uuid}
    (h : call.request.tagNames (loadOrderedTags id d) = loadOrderedTags id d) :
    TagsUpdated call.request now id scalarChanged d d :=
  ⟨rfl, by simp [h], List.prefix_rfl, rfl, rfl, rfl, h.symm, fun _ _ => rfl⟩

theorem exec_updateTags (h : (updateTags call now a.id scalarChanged).exec d = .ok (u, d')) :
    TagsUpdated call.request now a.id scalarChanged d d' := by
  unfold updateTags at h
  cases hlist : call.request.tagList with
  | none =>
      -- no tags are asked for
      rw [hlist] at h
      cases h
      exact tagsUpdated_of_same (by simp [ArticleUpdate.tagNames, hlist])
  | some tagList =>
      have hnames : call.request.tagNames (loadOrderedTags a.id d) =
          uniqueArticleTagNames tagList := by simp [ArticleUpdate.tagNames, hlist]
      simp only [hlist, Tx.exec_select_bind] at h
      by_cases hsame : loadOrderedTags a.id d = uniqueArticleTagNames tagList
      · rw [hasSameOrderedTagNames_iff.mpr hsame] at h
        cases h
        exact tagsUpdated_of_same (hnames.trans hsame.symm)
      · rw [Bool.eq_false_iff.mpr fun h => hsame (hasSameOrderedTagNames_iff.mp h)] at h
        simp only [Bool.not_false, if_true, Tx.exec_bind_ok] at h
        obtain ⟨⟨⟩, d₁, h₁, tagNames, d₂, h₂, h⟩ := h
        cases h
        have ht := exec_replaceArticleTags h₂
        rw [uniqueArticleTagNames_idem] at ht
        have hdiff := hnames ▸ Ne.symm hsame
        cases scalarChanged with
        | true =>
            -- the row is saved already: it is not touched
            cases h₁
            exact ⟨ht.users, by simp [ht.articles], ht.tags, ht.favorites, ht.comments, ht.follows,
              ht.ordered.trans hnames.symm, ht.others⟩
        | false =>
            cases h₁
            refine ⟨ht.users, ?_, ht.tags, ht.favorites, ht.comments, ht.follows,
              ht.ordered.trans hnames.symm, ht.others⟩
            rw [ht.articles]
            refine List.map_congr_left fun b _ => ?_
            simp [hdiff]

theorem exec_saveArticle {entity : Article} :
    (saveArticle scalarChanged entity now).exec d = .ok ((),
      if scalarChanged then
        d.updateArticle entity.id (saveInto entity now) (sameIdentity_saveInto entity now)
      else d) := by
  cases scalarChanged <;> rfl

theorem exec_getBySlug_ok {slug : Str} {v : Option Str} {r : ArticleDetail} :
    (getBySlug slug v).exec d = .ok (r, d') ↔ getBySlugPool slug v d = .ok r ∧ d' = d := by
  rw [exec_getBySlug]
  cases getBySlugPool slug v d with
  | ok r' => simp [Except.map, eq_comm]
  | error e => simp [Except.map]

/-- Saving the requested fields leaves the requested row, where they differ. -/
theorem saveInto_fields {request : ArticleUpdate} {tags : List Str} (h : request.fields a ≠ a) :
    saveInto (request.fields a) now a = request.row now a tags := by
  have hne : ¬ (a.title = (request.fields a).title ∧
      a.description = (request.fields a).description ∧ a.body = (request.fields a).body) := by
    rintro ⟨ht, hd, hb⟩
    refine h ?_
    obtain ⟨id, slug, title, description, body, authorId, createdAt, updatedAt⟩ := a
    simp only [ArticleUpdate.fields] at ht hd hb ⊢
    rw [← ht, ← hd, ← hb]
  have hchanges : request.changes a tags = true := by simp [ArticleUpdate.changes, h]
  rw [saveInto, if_neg hne, ArticleUpdate.row, hchanges, if_pos rfl]
  rfl

theorem exec_updateLocked {r : ArticleDetail} (ha : a ∈ d.articles)
    (h : (updateLocked call now a).exec d = .ok (r, d')) :
    Updated call.request now a d d' ∧ getBySlugPool call.slug (some call.username) d' = .ok r := by
  unfold updateLocked at h
  simp only [applyScalarChanges_fst, applyScalarChanges_snd, Tx.exec_bind_ok, exec_saveArticle,
    exec_getBySlug_ok] at h
  obtain ⟨⟨⟩, d₁, h₁, ⟨⟩, d₂, h₂, hr, rfl⟩ := h
  have ht := exec_updateTags h₂
  obtain ⟨-, rfl⟩ := Prod.mk.inj (Except.ok.inj h₁)
  refine ⟨?_, hr⟩
  have hrow : ∀ b ∈ d.articles, b.id = a.id → b = a := fun b hb h => Tables.article_ext hb ha h
  by_cases hsame : call.request.fields a = a
  · -- nothing is saved: the row is touched if the tags change
    rw [hsame] at ht
    simp only [ne_eq, not_true_eq_false, decide_false, Bool.false_eq_true, if_false] at ht
    refine ⟨ht.users, ?_, ht.tags, ht.favorites, ht.comments, ht.follows, ht.ordered, ht.others⟩
    rw [ht.articles]
    refine List.map_congr_left fun b hb => ?_
    by_cases hba : b.id = a.id
    · obtain rfl := hrow b hb hba
      by_cases htags : call.request.tagNames (loadOrderedTags b.id d) = loadOrderedTags b.id d <;>
        simp [ArticleUpdate.row, ArticleUpdate.changes, hsame, htags]
    · simp [hba]
  · -- the row is saved, and not touched again
    simp only [ne_eq, hsame, not_false_eq_true, decide_true, if_true] at ht
    refine ⟨ht.users, ?_, ht.tags, ht.favorites, ht.comments, ht.follows, ht.ordered, ht.others⟩
    rw [ht.articles]
    simp only [Bool.true_eq_false, and_false, if_false, List.map_id']
    refine List.map_congr_left fun b hb => ?_
    change (if b.id = a.id then _ else b) = _
    by_cases hba : b.id = a.id
    · rw [if_pos hba, if_pos hba, hrow b hb hba, saveInto_fields hsame]
    · rw [if_neg hba, if_neg hba]

/-! ### What a successful call alone found, changed and returned -/

/-- What a create leaves: the article with the requested tags, and everything else as it was. -/
structure Created (call : CreateCall) (author : User) (now : Timestamp) (d d' : Tables) : Prop where
  fresh : ∀ b ∈ d.articles, b.id ≠ call.id
  users : d'.users = d.users
  articles : d'.articles = d.articles ++ [call.article author.id now]
  tags : d.tags <+: d'.tags
  favorites : d'.favorites = d.favorites
  comments : d'.comments = d.comments
  follows : d'.follows = d.follows
  ordered : loadOrderedTags call.id d' =
    uniqueArticleTagNames (call.request.tagList.getD [])
  others : ∀ id, id ≠ call.id →
    d'.articleTags.filter (·.articleId = id) = d.articleTags.filter (·.articleId = id)

theorem exec_create {call : CreateCall} {r : ArticleDetail}
    (h : (ArticleCreateService.create call now).exec d = .ok (r, d')) :
    ∃ author, d.findUser call.username = some author ∧ Created call author now d d' ∧
      r = serializeArticleDetail (call.article author.id now) author
        ⟨uniqueArticleTagNames (call.request.tagList.getD []), false, 0, false⟩ := by
  simp only [ArticleCreateService.create, insertArticle, Tx.exec_mapError_ok, Tx.exec_select_bind,
    Tx.exec_orThrow_bind, Tx.exec_attempt_bind] at h
  obtain ⟨author, hauthor, d₁, h₁, h⟩ := h
  obtain ⟨tags, d₂, h₂, h⟩ := Tx.exec_bind_ok.mp h
  cases h
  obtain ⟨hfresh, harticles, ho⟩ := Tables.insertArticle_eq_some h₁
  have hnew : ∀ l ∈ d₁.articleTags, l.articleId ≠ call.id := by
    rw [ho.articleTags]
    exact Tables.no_links hfresh
  obtain ⟨ht, rfl⟩ := exec_persistArticleTags hnew h₂
  refine ⟨author, hauthor, ⟨hfresh, ht.users.trans ho.users, ht.articles.trans harticles,
    ho.tags ▸ ht.tags, ht.favorites.trans ho.favorites, ht.comments.trans ho.comments,
    ht.follows.trans ho.follows, ht.ordered, fun id hid => ?_⟩, rfl⟩
  rw [ht.others id hid, ho.articleTags]

theorem exec_update {r : ArticleDetail}
    (h : (ArticleUpdateService.update call now).exec d = .ok (r, d')) :
    ∃ author a, d.findUser call.username = some author ∧ d.findArticle call.slug = some a ∧
      a.authorId = author.id ∧ Updated call.request now a d d' ∧
      getBySlugPool call.slug (some call.username) d' = .ok r := by
  simp only [ArticleUpdateService.update, Tx.exec_mapError_ok, Tx.exec_select_bind,
    Tx.exec_orThrow_bind, Tx.exec_selectForUpdate_bind, Tx.exec_require_bind] at h
  obtain ⟨author, hauthor, a, ha, hown, h⟩ := h
  exact ⟨author, a, hauthor, ha, hown, exec_updateLocked (Tables.findArticle_eq_some.mp ha).1 h⟩

theorem exec_delete {slug username : Str}
    (h : (ArticleDeleteService.delete slug username).exec d = .ok (u, d')) :
    ∃ user a, d.findUser username = some user ∧ d.findArticle slug = some a ∧
      a.authorId = user.id ∧ d' = d.deleteArticle a.id := by
  simp only [ArticleDeleteService.delete, deleteLocked, Tx.exec_mapError_ok, Tx.exec_select_bind,
    Tx.exec_orThrow_bind, Tx.exec_selectForUpdate_bind, Tx.exec_require_bind,
    Tx.exec_execute_bind] at h
  obtain ⟨user, huser, a, ha, hown, -, h⟩ := h
  exact ⟨user, a, huser, ha, hown, (Prod.mk.inj (Except.ok.inj h)).2.symm⟩

theorem exec_favorite {write : ArticleFavorite → ArticleTx Unit} {slug username : Str}
    {r : ArticleDetail} (h : (favorite write slug username).exec d = .ok (r, d')) :
    ∃ viewer a, d.findUser username = some viewer ∧ d.findArticle slug = some a ∧
      (write ⟨a.id, viewer.id⟩).exec d = .ok ((), d') ∧
      getBySlugPool slug (some username) d' = .ok r := by
  simp only [favorite, Tx.exec_selectForUpdate_bind, Tx.exec_orThrow_bind] at h
  obtain ⟨viewer, hviewer, a, ha, h⟩ := h
  obtain ⟨⟨⟩, d₁, hwrite, h⟩ := Tx.exec_bind_ok.mp h
  obtain ⟨hr, rfl⟩ := exec_getBySlug_ok.mp h
  exact ⟨viewer, a, hviewer, ha, hwrite, hr⟩

end

end MediumClone.Articles
