import MediumClone.Comments.Service
import MediumClone.Articles.Favorites

/-!
# Comments — Store

Comments created and deleted, and articles deleted, all at once: any number of calls by any users on
any articles, each a transaction of its own (`Sys.Transaction`).

A call that creates or deletes a comment holds the lock of the comment's article, and while it does
no other call adds or removes a comment of that article, or the article itself (`SameComments`).
That the insert of a new comment goes through does not follow from locks: it rests on the identity
column, which gives no number twice (`IdentityColumn`).

So the commits are a serial history (`comments_serialized`), in which each call does what it is
asked to (`CommentRequest.Did`), no comment is removed twice, and a delete is refused for the first
reason that applies in the state it is refused in (`deleteRefusal`).
-/

namespace MediumClone.Comments
open Js Sys Schema Articles

/-! ### Calls -/

inductive CommentRequest where
  | create (call : CommentCall)
  | delete (slug : Str) (commentId : ℤ) (username : Str)
  | deleteArticle (slug username : Str)

/-- The number that the identity column has for the call. -/
def CommentRequest.newId : CommentRequest → Option ℕ
  | .create call => some call.id
  | .delete _ _ _ => none
  | .deleteArticle _ _ => none

/-- The errors of both services. -/
inductive RequestError where
  | comment (e : CommentError)
  | article (e : ArticleError)
  deriving DecidableEq

/-- The transaction of a call that starts at `now`; a create returns the comment. -/
def CommentRequest.run :
    CommentRequest → Timestamp → Tx Tables Row RequestError (Option SerializedComment)
  | .create call, now => some <$> Tx.mapError .comment (CommentService.create call now)
  | .delete slug commentId username, _ =>
    (fun _ => none) <$> Tx.mapError .comment (CommentService.delete slug commentId username)
  | .deleteArticle slug username, _ =>
    (fun _ => none) <$> Tx.mapError .article (ArticleDeleteService.delete slug username)

/-! ### The discipline -/

/-- Users stay, no article comes, and an article whose lock is held stays, with its comments. -/
structure SameComments (L : Set Row) (d d' : Tables) : Prop where
  users : d'.users = d.users
  articles : d'.articles ⊆ d.articles
  held : ∀ a ∈ d.articles, Row.article a.id ∈ L → a ∈ d'.articles ∧
    d'.comments.filter (·.articleId = a.id) = d.comments.filter (·.articleId = a.id)

theorem protects_sameComments : Protects SameComments where
  refl _ _ := ⟨rfl, fun _ h => h, fun _ ha _ => ⟨ha, rfl⟩⟩
  trans h h' := by
    refine ⟨h'.users.trans h.users, fun _ ha => h.articles (h'.articles ha), fun a ha hL => ?_⟩
    obtain ⟨hin, hrows⟩ := h.held a ha hL
    obtain ⟨hin', hrows'⟩ := h'.held a hin hL
    exact ⟨hin', hrows'.trans hrows⟩
  anti hL h := ⟨h.users, h.articles, fun a ha ha' => h.held a ha (hL ha')⟩

theorem keepsArticles_sameComments : KeepsArticles SameComments where
  users h := h.users
  articles h := h.articles
  held h ha hL := (h.held _ ha hL).1

section

variable {slug username : Str} {d d' b : Tables} {M : Set Row} {a : Article} {now : Timestamp}

/-- A lookup among the comments of one article sees them only. -/
theorem findComment_eq (articleId : Uuid) (id : ℤ) (d : Tables) : findComment articleId id d =
    (d.comments.filter (·.articleId = articleId)).find? fun c => (c.id : ℤ) = id := by
  rw [findComment, List.find?_filter]
  congr 1
  funext c
  by_cases hc : c.articleId = articleId <;> simp [hc]

theorem filter_ownComment (articleId authorId : Uuid) (id : ℤ) (d : Tables) :
    d.comments.filter (ownComment articleId authorId id) =
      (d.comments.filter (·.articleId = articleId)).filter fun c =>
        c.authorId = authorId ∧ (c.id : ℤ) = id := by
  rw [List.filter_filter]
  refine List.filter_congr fun c _ => ?_
  by_cases hc : c.articleId = articleId <;> simp [ownComment, hc]

/-- Without the lock of the article, a write of its comments is not seen. -/
theorem sameComments_of_others {id : Uuid} (hd : Tables.CommentsOnly d d')
    (hrows : ∀ other, other ≠ id →
      d'.comments.filter (·.articleId = other) = d.comments.filter (·.articleId = other))
    (hM : Row.article id ∉ M) : SameComments M d d' where
  users := hd.users
  articles := hd.articles ▸ fun _ ha => ha
  held a ha haM := ⟨hd.articles ▸ ha, hrows a.id fun hid => hM (hid ▸ haM)⟩

theorem sameComments_insertComment {c : Comment} (h : d.insertComment c = some d')
    (hM : Row.article c.articleId ∉ M) : SameComments M d d' := by
  obtain ⟨hrows, honly⟩ := Tables.insertComment_eq_some h
  refine sameComments_of_others honly (fun id hid => ?_) hM
  have hnew : [c].filter (·.articleId = id) = [] := by simp [Ne.symm hid]
  rw [hrows, List.filter_append, hnew, List.append_nil]

theorem sameComments_deleteOwn {authorId : Uuid} {id : ℤ} (hM : Row.article a.id ∉ M) :
    SameComments M d (d.deleteComments (ownComment a.id authorId id)) := by
  refine sameComments_of_others ⟨rfl, rfl, rfl, rfl, rfl, rfl⟩ (fun other hother => ?_) hM
  change (d.comments.filter _).filter _ = _
  rw [List.filter_filter]
  refine List.filter_congr fun c _ => ?_
  by_cases hc : c.articleId = other
  · simp [ownComment, hc, hother]
  · simp [hc]

theorem sameComments_deleteArticle {id : Uuid} (hM : Row.article id ∉ M) :
    SameComments M d (d.deleteArticle id) := by
  refine ⟨rfl, fun _ ha => List.mem_of_mem_filter ha, fun a ha haM => ?_⟩
  have hid : a.id ≠ id := fun h => hM (h ▸ haM)
  exact ⟨List.mem_filter.mpr ⟨ha, decide_eq_true hid⟩, Keyed.filter_filter_ne hid⟩

/-- No stored comment has the number. -/
def FreeId (id : ℕ) (d : Tables) : Prop := ∀ c ∈ d.comments, c.id ≠ id

theorem isSome_insertComment {c : Comment} (hid : FreeId c.id d)
    (ha : ∃ a ∈ d.articles, a.id = c.articleId) (hu : ∃ u ∈ d.users, u.id = c.authorId) :
    (d.insertComment c).isSome := by
  rw [Tables.insertComment, dif_pos ⟨hid, ha, hu⟩]
  rfl

theorem wellLocked_create {call : CommentCall} :
    WellLockedIn (FreeId call.id) SameComments (CommentService.create call now) ∅ id b := by
  have K := keepsArticles_sameComments
  refine WellLockedIn.mapError ?_
  refine wellLockedIn_select (fun _ _ _ _ _ h => K.findUser h) fun d _ _ => ?_
  refine wellLockedIn_orThrow fun user huser => ?_
  obtain ⟨huser, -⟩ := Tables.findUser_eq_some.mp huser
  refine wellLockedIn_selectForUpdate (fun d₁ _ _ hnone => ?_) fun d₁ _ hd₁ a ha => ?_
  · exact ⟨fun d' _ h => K.findArticle_none h hnone, wellLockedIn_orThrow nofun⟩
  have hlock : Row.article a.id ∈ insert (Row.article a.id) (∅ : Set Row) := Set.mem_insert _ _
  refine ⟨fun d' _ h => K.findArticle_some h ha hlock, wellLockedIn_orThrow fun a' ha' => ?_⟩
  obtain rfl := Option.some.inj ha'
  obtain ⟨hmem, -⟩ := Tables.findArticle_eq_some.mp ha
  -- the insert goes through wherever the number is free
  have hinsert : ∀ d₂, FreeId call.id d₂ → SameComments (insert (Row.article a.id) ∅) d₁ d₂ →
      (d₂.insertComment (call.comment a user now)).isSome := fun d₂ hfree h₂ =>
    isSome_insertComment hfree ⟨a, (h₂.held a hmem hlock).1, rfl⟩
      ⟨user, by rw [h₂.users, hd₁.users]; exact huser, rfl⟩
  refine wellLockedIn_attempt protects_sameComments hinsert fun d₂ _ hd₂ => ?_
  intro d₃ hfree hd₃ M hM
  obtain ⟨d₄, hd₄⟩ := Option.isSome_iff_exists.mp
    (hinsert d₃ hfree (protects_sameComments.trans hd₂ hd₃))
  change SameComments M d₃ ((d₃.insertComment (call.comment a user now)).getD d₃)
  rw [hd₄]
  exact sameComments_insertComment hd₄ fun hin => hM _ hin hlock

theorem wellLocked_delete {commentId : ℤ} :
    WellLocked SameComments (CommentService.delete slug commentId username) ∅ id b := by
  have K := keepsArticles_sameComments
  refine WellLocked.mapError ?_
  refine wellLocked_selectForUpdate (fun d _ hnone => ?_) fun d _ a ha => ?_
  · exact ⟨fun d' h => K.findArticle_none h hnone, wellLocked_orThrow nofun⟩
  have hlock : ∀ L : Set Row, Row.article a.id ∈ insert (Row.article a.id) L :=
    fun L => Set.mem_insert _ _
  refine ⟨fun d' h => K.findArticle_some h ha (hlock _), wellLocked_orThrow fun a' ha' => ?_⟩
  obtain rfl := Option.some.inj ha'
  obtain ⟨hmem, -⟩ := Tables.findArticle_eq_some.mp ha
  refine wellLocked_select (fun _ _ _ h => K.findUser h) fun d₁ hd₁ => ?_
  refine wellLocked_orThrow fun user _ => wellLocked_require fun _ => ?_
  have hmem₁ := (hd₁.held a hmem (hlock _)).1
  -- the lock of the article keeps its comments
  have hfind : ∀ L d₂ d₃, SameComments (insert (Row.article a.id) L) d₁ d₂ →
      SameComments (insert (Row.article a.id) L) d₂ d₃ →
      findComment a.id commentId d₃ = findComment a.id commentId d₂ := by
    intro L d₂ d₃ h₂ h₃
    rw [findComment_eq, findComment_eq, (h₃.held a (h₂.held a hmem₁ (hlock _)).1 (hlock _)).2]
  refine wellLocked_selectForUpdate (fun d₂ hd₂ hnone => ?_) fun d₂ hd₂ c hc => ?_
  · exact ⟨fun d' h => (hfind _ _ _ hd₂ h).trans hnone, wellLocked_orThrow nofun⟩
  have hlock' : ∀ L : Set Row, Row.article a.id ∈ insert (Row.comment c.id)
      (insert (Row.article a.id) L) := fun L => Set.mem_insert_of_mem _ (hlock _)
  have hmem₂ := (hd₂.held a hmem₁ (hlock _)).1
  refine ⟨fun d' h => ?_, wellLocked_orThrow fun c' _ => wellLocked_require fun _ => ?_⟩
  · exact (hfind _ _ _ hd₂ (protects_sameComments.anti (Set.subset_insert _ _) h)).trans hc
  refine wellLocked_execute (fun d₃ hd₃ d₄ hd₄ => ?_) fun d₃ hd₃ => wellLocked_require fun _ => ?_
  · have hmem₃ := (hd₃.held a hmem₂ (hlock' _)).1
    change (d₄.comments.filter _).length = (d₃.comments.filter _).length
    rw [filter_ownComment, filter_ownComment, (hd₄.held a hmem₃ (hlock' _)).2]
  · exact wellLocked_pure fun d₄ _ M hM => sameComments_deleteOwn fun hin => hM _ hin (hlock' _)

/-- What a call relies on until it commits. -/
def CommentRequest.Relies (request : CommentRequest) (d : Tables) : Prop :=
  request.newId.elim True (FreeId · d)

theorem wellLocked_commentRequest {request : CommentRequest} :
    WellLockedIn request.Relies SameComments (request.run now) ∅ id b := by
  cases request with
  | create call => exact wellLocked_create.mapError.map
  | delete slug commentId username => exact wellLocked_delete.mapError.map.toIn
  | deleteArticle slug username =>
      exact (keepsArticles_sameComments.wellLocked_delete
        sameComments_deleteArticle).mapError.map.toIn

end

/-! ### What a call alone does -/

/-- What a call that returns has found, changed and returned. -/
def CommentRequest.Did (now : Timestamp) (r : Option SerializedComment) (d d' : Tables) :
    CommentRequest → Prop
  | .create call => ∃ user a, d.findUser call.username = some user ∧
    d.findArticle call.slug = some a ∧ FreeId call.id d ∧
    d'.comments = d.comments ++ [call.comment a user now] ∧ Tables.CommentsOnly d d' ∧
    r = some (serializeComment (call.comment a user now) user false)
  | .delete slug commentId username => ∃ user a c, d.findUser username = some user ∧
    d.findArticle slug = some a ∧ c ∈ d.comments ∧ (c.id : ℤ) = commentId ∧ c.articleId = a.id ∧
    c.authorId = user.id ∧ d' = d.deleteComments (· = c)
  | .deleteArticle slug username => ∃ user a, d.findUser username = some user ∧
    d.findArticle slug = some a ∧ a.authorId = user.id ∧ d' = d.deleteArticle a.id

/-- The first reason for which a delete is refused: the article, the user or the comment is missing,
or the comment is not the user's. -/
def deleteRefusal (slug : Str) (commentId : ℤ) (username : Str) (d : Tables) :
    Option CommentError :=
  if ∀ a ∈ d.articles, a.slug ≠ slug then some .commentArticleNotFound
  else if ∀ u ∈ d.users, u.username ≠ username then some .commentUserNotFound
  else if ∀ c ∈ d.comments, c.id = commentId →
    ∀ a ∈ d.articles, a.id = c.articleId → a.slug ≠ slug then some .commentNotFound
  else if ∀ c ∈ d.comments, c.id = commentId →
    ∀ u ∈ d.users, u.id = c.authorId → u.username ≠ username then some .commentForbidden
  else none

section

variable {slug username : Str} {commentId : ℤ} {d d' : Tables} {now : Timestamp} {a : Article}
  {user : User} {c : Comment} {r : Option SerializedComment}

theorem findComment_eq_some : findComment a.id commentId d = some c ↔
    c ∈ d.comments ∧ c.articleId = a.id ∧ (c.id : ℤ) = commentId := by
  constructor
  · intro h
    have hp : c.articleId = a.id ∧ (c.id : ℤ) = commentId := by simpa using List.find?_some h
    exact ⟨List.mem_of_find?_eq_some h, hp⟩
  · rintro ⟨hc, ha, rfl⟩
    have hsome : (findComment a.id c.id d).isSome :=
      List.find?_isSome.mpr ⟨c, hc, by simp [ha]⟩
    obtain ⟨c', hc'⟩ := Option.isSome_iff_exists.mp hsome
    have hid : c'.id = c.id := by
      have hp := List.find?_some hc'
      simp only [decide_eq_true_eq, Nat.cast_inj] at hp
      exact hp.2
    rw [hc', Keyed.eq_of_key d.pk_comments (List.mem_of_find?_eq_some hc') hc hid]

/-- The delete removes the comment that was found, and no other. -/
theorem deleteComments_own (hc : findComment a.id commentId d = some c)
    (hown : c.authorId = user.id) :
    d.deleteComments (ownComment a.id user.id commentId) = d.deleteComments (· = c) := by
  obtain ⟨hmem, ha, rfl⟩ := findComment_eq_some.mp hc
  refine Tables.ext rfl rfl rfl rfl rfl (List.filter_congr fun x hx => ?_) rfl
  have hiff : ownComment a.id user.id c.id x = decide (x = c) := by
    rw [ownComment, decide_eq_decide]
    constructor
    · rintro ⟨-, -, hid⟩
      exact Keyed.eq_of_key d.pk_comments hx hmem (Nat.cast_inj.mp hid)
    · rintro rfl
      exact ⟨ha, hown, rfl⟩
  rw [hiff]

theorem length_filter_own (hc : findComment a.id commentId d = some c)
    (hown : c.authorId = user.id) :
    (d.comments.filter (ownComment a.id user.id commentId)).length = 1 := by
  obtain ⟨hmem, ha, rfl⟩ := findComment_eq_some.mp hc
  have hkey : d.comments.filter (ownComment a.id user.id c.id) =
      d.comments.filter (·.id = c.id) := by
    refine List.filter_congr fun x hx => ?_
    rw [ownComment, decide_eq_decide]
    constructor
    · rintro ⟨-, -, hid⟩
      exact Nat.cast_inj.mp hid
    · intro hid
      obtain rfl := Keyed.eq_of_key d.pk_comments hx hmem hid
      exact ⟨ha, hown, rfl⟩
  rw [hkey, Keyed.filter_eq_singleton d.pk_comments hmem, List.length_singleton]

theorem findComment_eq_none (ha : d.findArticle slug = some a) :
    findComment a.id commentId d = none ↔ ∀ c ∈ d.comments, c.id = commentId →
      ∀ a' ∈ d.articles, a'.id = c.articleId → a'.slug ≠ slug := by
  obtain ⟨hmem, rfl⟩ := Tables.findArticle_eq_some.mp ha
  rw [Option.eq_none_iff_forall_ne_some]
  constructor
  · intro hnone c hc hid a' ha' hfk hslug
    obtain rfl := Keyed.eq_of_key d.uq_articles_slug ha' hmem hslug
    exact hnone c (findComment_eq_some.mpr ⟨hc, hfk.symm, hid⟩)
  · intro hall c hc
    obtain ⟨hc, hfk, hid⟩ := findComment_eq_some.mp hc
    exact hall c hc hid a hmem hfk.symm rfl

theorem not_author_iff (hu : d.findUser username = some user) (hc : c ∈ d.comments) :
    (∀ c' ∈ d.comments, (c'.id : ℤ) = c.id →
      ∀ u ∈ d.users, u.id = c'.authorId → u.username ≠ username) ↔ c.authorId ≠ user.id := by
  obtain ⟨hmem, rfl⟩ := Tables.findUser_eq_some.mp hu
  constructor
  · intro hall hown
    exact hall c hc rfl user hmem hown.symm rfl
  · intro hown c' hc' hid u hu' hfk hname
    obtain rfl := Keyed.eq_of_key d.pk_comments hc' hc (Nat.cast_inj.mp hid)
    obtain rfl := Keyed.eq_of_key d.uq_users_username hu' hmem hname
    exact hown hfk.symm

/-- A delete alone, where the stored comments have numbers that the column can hold: it is refused
for the first reason that applies, else removes the comment of that number. -/
theorem exec_delete_eq (hids : ∀ c ∈ d.comments, validCommentId c.id) :
    (CommentService.delete slug commentId username).exec d =
      match deleteRefusal slug commentId username d with
      | some e => .error e
      | none => .ok ((), d.deleteComments fun c => (c.id : ℤ) = commentId) := by
  rw [CommentService.delete, Tx.exec_mapError, Tx.exec_selectForUpdate_bind]
  cases ha : d.findArticle slug with
  | none => rw [deleteRefusal, if_pos (Tables.findArticle_eq_none.mp ha)]; rfl
  | some a =>
  have harticle : ¬ ∀ a ∈ d.articles, a.slug ≠ slug := fun h => by
    rw [Tables.findArticle_eq_none.mpr h] at ha
    cases ha
  rw [Tx.exec_orThrow_some_bind, Tx.exec_select_bind, deleteRefusal, if_neg harticle]
  cases hu : d.findUser username with
  | none => rw [if_pos (Keyed.find_eq_none.mp hu)]; rfl
  | some user =>
  have huser : ¬ ∀ u ∈ d.users, u.username ≠ username := fun h => by
    rw [Tables.findUser, Keyed.find_eq_none.mpr h] at hu
    cases hu
  rw [Tx.exec_orThrow_some_bind, if_neg huser]
  by_cases hvalid : validCommentId commentId
  · rw [Tx.exec_require_pos_bind hvalid, Tx.exec_selectForUpdate_bind]
    cases hc : findComment a.id commentId d with
    | none => rw [if_pos ((findComment_eq_none ha).mp hc)]; rfl
    | some c =>
    have hfound : ¬ ∀ c ∈ d.comments, c.id = commentId →
        ∀ a ∈ d.articles, a.id = c.articleId → a.slug ≠ slug := fun h => by
      rw [(findComment_eq_none ha).mpr h] at hc
      cases hc
    rw [Tx.exec_orThrow_some_bind, if_neg hfound]
    obtain ⟨hmem, -, rfl⟩ := findComment_eq_some.mp hc
    by_cases hown : c.authorId = user.id
    · rw [Tx.exec_require_pos_bind hown, if_neg fun h => (not_author_iff hu hmem).mp h hown,
        Tx.exec_execute_bind, Tx.exec_require_pos_bind (length_filter_own hc hown),
        deleteComments_own hc hown]
      refine congrArg (fun d => Except.ok ((), d))
        (Tables.ext rfl rfl rfl rfl rfl (List.filter_congr fun x hx => ?_) rfl)
      have hiff : x = c ↔ (x.id : ℤ) = c.id :=
        ⟨fun h => h ▸ rfl, fun h => Keyed.eq_of_key d.pk_comments hx hmem (Nat.cast_inj.mp h)⟩
      simp only [hiff]
    · rw [Tx.exec_require_neg_bind hown, if_pos ((not_author_iff hu hmem).mpr hown)]
      rfl
  · -- no stored comment has a number outside the column
    have hnone : ∀ c ∈ d.comments, c.id = commentId →
        ∀ a ∈ d.articles, a.id = c.articleId → a.slug ≠ slug := by
      rintro c hc rfl
      exact absurd (hids c hc) hvalid
    rw [Tx.exec_require_neg_bind hvalid, if_pos hnone]
    rfl

theorem did_of_exec {request : CommentRequest} (h : (request.run now).exec d = .ok (r, d')) :
    request.Did now r d d' := by
  cases request with
  | create call =>
      obtain ⟨sc, h, rfl⟩ := Tx.exec_map_ok.mp h
      obtain ⟨user, a, huser, ha, hrows, honly, rfl⟩ := exec_create (Tx.exec_mapError_ok.mp h)
      -- the key of the new row is not taken
      have hkeys := d'.pk_comments
      rw [hrows, List.map_append, List.nodup_append] at hkeys
      have hfree : FreeId call.id d := fun c hc =>
        hkeys.2.2 c.id (List.mem_map_of_mem hc) call.id (List.mem_singleton_self _)
      exact ⟨user, a, huser, ha, hfree, hrows, honly, rfl⟩
  | delete slug commentId username =>
      obtain ⟨u, h, rfl⟩ := Tx.exec_map_ok.mp h
      obtain ⟨user, a, c, huser, ha, hc, hown, rfl⟩ := exec_delete (Tx.exec_mapError_ok.mp h)
      obtain ⟨hmem, hfk, hid⟩ := findComment_eq_some.mp hc
      exact ⟨user, a, c, huser, ha, hmem, hid, hfk, hown, deleteComments_own hc hown⟩
  | deleteArticle slug username =>
      obtain ⟨u, h, rfl⟩ := Tx.exec_map_ok.mp h
      obtain ⟨user, a, huser, ha, hown, rfl⟩ := Articles.exec_delete (Tx.exec_mapError_ok.mp h)
      exact ⟨user, a, huser, ha, hown, rfl⟩

end

/-! ### The history -/

section

variable {ι : Type} {calls : ι → CommentRequest} {d₀ d : Tables}

/-- The calls of a run, by their start. -/
def commentProgram (calls : ι → CommentRequest) (i : ι) (now : Timestamp) :
    Tx Tables Row RequestError (Option SerializedComment) :=
  (calls i).run now

abbrev CommentState (ι : Type) : Type :=
  Transaction.State ι Timestamp Tables Row RequestError (Option SerializedComment)

abbrev CommentCommit (ι : Type) : Type :=
  Transaction.Commit ι Timestamp Tables (Option SerializedComment)

/-- No number is given twice, or is one of a stored comment, and all are within the column. -/
structure IdentityColumn (calls : ι → CommentRequest) (d₀ : Tables) : Prop where
  once : ∀ i j id, (calls i).newId = some id → (calls j).newId = some id → i = j
  free : ∀ i id, (calls i).newId = some id → FreeId id d₀
  valid : ∀ i id, (calls i).newId = some id → validCommentId id
  stored : ∀ c ∈ d₀.comments, validCommentId c.id

/-- The commit removes the comment of the number. -/
def Removes (id : ℕ) (c : CommentCommit ι) : Prop := ¬ FreeId id c.before ∧ FreeId id c.after

section

variable {request : CommentRequest} {now : Timestamp} {r : Option SerializedComment}
  {d' : Tables}

theorem CommentRequest.Did.articles (h : request.Did now r d d') : d'.articles ⊆ d.articles := by
  cases request with
  | create call =>
      obtain ⟨-, -, -, -, -, -, honly, -⟩ := h
      exact honly.articles ▸ fun _ ha => ha
  | delete slug commentId username =>
      obtain ⟨-, -, -, -, -, -, -, -, -, rfl⟩ := h
      exact fun _ ha => ha
  | deleteArticle slug username =>
      obtain ⟨-, -, -, -, -, rfl⟩ := h
      exact fun _ ha => List.mem_of_mem_filter ha

theorem CommentRequest.Did.comments (h : request.Did now r d d') :
    ∀ x ∈ d'.comments, x ∈ d.comments ∨ request.newId = some x.id := by
  intro x hx
  cases request with
  | create call =>
      obtain ⟨user, a, -, -, -, hrows, -, -⟩ := h
      rw [hrows] at hx
      rcases List.mem_append.mp hx with hx | hx
      · exact .inl hx
      · cases List.mem_singleton.mp hx
        exact .inr rfl
  | delete slug commentId username =>
      obtain ⟨user, a, c, -, -, -, -, -, -, rfl⟩ := h
      exact .inl (List.mem_of_mem_filter hx)
  | deleteArticle slug username =>
      obtain ⟨user, a, -, -, -, rfl⟩ := h
      exact .inl (List.mem_of_mem_filter hx)

theorem exists_of_not_free {id : ℕ} (h : ¬ FreeId id d) : ∃ x ∈ d.comments, x.id = id := by
  simpa [FreeId] using h

theorem relies_iff : request.Relies d ↔ ∀ id, request.newId = some id → FreeId id d := by
  rw [CommentRequest.Relies]
  cases request.newId with
  | none => exact ⟨fun _ => nofun, fun _ => trivial⟩
  | some id => exact ⟨by rintro h _ ⟨⟩; exact h, fun h => h id rfl⟩

end

theorem keepsRely_comments (hid : IdentityColumn calls d₀) :
    Transaction.KeepsRely (fun i => (calls i).Relies) (commentProgram calls) := by
  intro i j t r d d' hji _ hj h
  rw [relies_iff] at hj ⊢
  intro id hnew x hx hxid
  rcases (did_of_exec h).comments x hx with hx | hx
  · exact hj id hnew x hx hxid
  · exact hji (hid.once j i id hnew (hxid ▸ hx))

/-- The number was taken at first, or is that of a call that has committed. -/
def Known (calls : ι → CommentRequest) (d₀ : Tables) (log : List (CommentCommit ι)) (id : ℕ) :
    Prop :=
  ¬ FreeId id d₀ ∨ ∃ c ∈ log, (calls c.call).newId = some id

/-- What holds along the history. -/
structure CommentHistory (calls : ι → CommentRequest) (d₀ : Tables) (log : List (CommentCommit ι))
    (d : Tables) : Prop where
  did : ∀ c ∈ log, (calls c.call).Did c.time c.result c.before c.after
  known : ∀ x ∈ d.comments, Known calls d₀ log x.id
  knownBefore : ∀ c ∈ log, ∀ x ∈ c.before.comments, Known calls d₀ log x.id
  articles : ∀ c ∈ log, d.articles ⊆ c.after.articles
  /-- What is removed stays away. -/
  removed : ∀ c ∈ log, ∀ id, Removes id c → FreeId id d
  once : ∀ id, ∀ c ∈ log, ∀ c' ∈ log, Removes id c → Removes id c' → c = c'

section

variable {log : List (CommentCommit ι)} {c : CommentCommit ι}

theorem Known.snoc {id : ℕ} (h : Known calls d₀ log id) : Known calls d₀ (log ++ [c]) id :=
  h.imp (·) fun ⟨c', hc', hnew⟩ => ⟨c', List.mem_append_left _ hc', hnew⟩

theorem Known.valid {id : ℕ} (hid : IdentityColumn calls d₀) (h : Known calls d₀ log id) :
    validCommentId id := by
  rcases h with h | ⟨c, -, hnew⟩
  · obtain ⟨x, hx, rfl⟩ := exists_of_not_free h
    exact hid.stored x hx
  · exact hid.valid _ _ hnew

/-- No call of the history has a number that the next one brings. -/
theorem Known.ne_new {id : ℕ} (hid : IdentityColumn calls d₀) (h : Known calls d₀ log id)
    (hcall : ∀ c' ∈ log, c'.call ≠ c.call) : (calls c.call).newId ≠ some id := by
  intro hnew
  rcases h with h | ⟨c', hc', hnew'⟩
  · exact h (hid.free _ _ hnew)
  · exact hcall c' hc' (hid.once _ _ _ hnew' hnew)

theorem CommentHistory.snoc (hid : IdentityColumn calls d₀)
    (h : CommentHistory calls d₀ log c.before)
    (hdid : (calls c.call).Did c.time c.result c.before c.after)
    (hcall : ∀ c' ∈ log, c'.call ≠ c.call) : CommentHistory calls d₀ (log ++ [c]) c.after := by
  have hlast : c ∈ log ++ [c] := List.mem_append_right _ (List.mem_singleton_self c)
  have hfree : ∀ id, Known calls d₀ log id → FreeId id c.before → FreeId id c.after := by
    rintro id hknown hfree x hx rfl
    rcases hdid.comments x hx with hx | hx
    · exact hfree x hx rfl
    · exact hknown.ne_new hid hcall hx
  have hremoved : ∀ c' ∈ log, ∀ id, Removes id c' → Known calls d₀ log id := by
    intro c' hc' id hrem
    obtain ⟨x, hx, rfl⟩ := exists_of_not_free hrem.1
    exact h.knownBefore c' hc' x hx
  constructor
  · exact List.forall_mem_append.mpr ⟨h.did, List.forall_mem_singleton.mpr hdid⟩
  · intro x hx
    rcases hdid.comments x hx with hx | hx
    · exact (h.known x hx).snoc
    · exact .inr ⟨c, hlast, hx⟩
  · refine List.forall_mem_append.mpr ⟨fun c' hc' x hx => ?_, List.forall_mem_singleton.mpr ?_⟩
    · exact (h.knownBefore c' hc' x hx).snoc
    · exact fun x hx => (h.known x hx).snoc
  · refine List.forall_mem_append.mpr ⟨fun c' hc' a ha => ?_, List.forall_mem_singleton.mpr ?_⟩
    · exact h.articles c' hc' (hdid.articles ha)
    · exact fun _ ha => ha
  · refine List.forall_mem_append.mpr ⟨fun c' hc' id hrem => ?_, List.forall_mem_singleton.mpr ?_⟩
    · exact hfree id (hremoved c' hc' id hrem) (h.removed c' hc' id hrem)
    · exact fun _ hrem => hrem.2
  · intro id c₁ hc₁ c₂ hc₂ h₁ h₂
    rcases List.mem_append.mp hc₁ with hc₁ | hc₁ <;> rcases List.mem_append.mp hc₂ with hc₂ | hc₂
    · exact h.once id c₁ hc₁ c₂ hc₂ h₁ h₂
    · cases List.mem_singleton.mp hc₂
      exact absurd (h.removed c₁ hc₁ id h₁) h₂.1
    · cases List.mem_singleton.mp hc₁
      exact absurd (h.removed c₂ hc₂ id h₂) h₁.1
    · rw [List.mem_singleton.mp hc₁, List.mem_singleton.mp hc₂]

theorem commentHistory_of_replays (hid : IdentityColumn calls d₀)
    (h : Transaction.Replays (commentProgram calls) d₀ log d)
    (hnodup : (log.map (·.call)).Nodup) : CommentHistory calls d₀ log d := by
  induction h with
  | nil =>
      have hnil : ∀ c, c ∉ ([] : List (CommentCommit ι)) := fun _ => List.not_mem_nil
      exact ⟨fun c hc => absurd hc (hnil c), fun x hx => .inl fun hfree => hfree x hx rfl,
        fun c hc => absurd hc (hnil c), fun c hc => absurd hc (hnil c),
        fun c hc => absurd hc (hnil c), fun _ c hc => absurd hc (hnil c)⟩
  | @snoc log c h hc ih =>
      rw [List.map_append, List.nodup_append] at hnodup
      refine (ih hnodup.1).snoc hid (did_of_exec hc) fun c' hc' => ?_
      exact hnodup.2.2 _ (List.mem_map_of_mem hc') _ (List.mem_singleton_self _)

end

/-- Who may remove a comment: its author, by the slug of its own article, or who deletes the
article. -/
def CommentRequest.MayRemove (x : Comment) (d : Tables) (request : CommentRequest) : Prop :=
  ∃ a ∈ d.articles, a.id = x.articleId ∧
    ((∃ u ∈ d.users, u.id = x.authorId ∧ request = .delete a.slug x.id u.username) ∨
      ∃ username, request = .deleteArticle a.slug username)

theorem CommentRequest.Did.mayRemove {request : CommentRequest} {now : Timestamp}
    {r : Option SerializedComment} {d' : Tables} {x : Comment} (h : request.Did now r d d')
    (hx : x ∈ d.comments) (hfree : FreeId x.id d') : request.MayRemove x d := by
  have hgone : x ∉ d'.comments := fun hin => hfree x hin rfl
  cases request with
  | create call =>
      obtain ⟨user, a, -, -, -, hrows, -, -⟩ := h
      exact absurd (hrows ▸ List.mem_append_left _ hx) hgone
  | delete slug commentId username =>
      obtain ⟨user, a, c, hu, ha, -, rfl, hfk, hown, rfl⟩ := h
      obtain ⟨huser, rfl⟩ := Tables.findUser_eq_some.mp hu
      obtain ⟨harticle, rfl⟩ := Tables.findArticle_eq_some.mp ha
      have hxc : x = c := by
        by_contra hne
        exact hgone (List.mem_filter.mpr ⟨hx, by simpa using hne⟩)
      subst hxc
      exact ⟨a, harticle, hfk.symm, .inl ⟨user, huser, hown.symm, rfl⟩⟩
  | deleteArticle slug username =>
      obtain ⟨user, a, -, ha, -, rfl⟩ := h
      obtain ⟨harticle, rfl⟩ := Tables.findArticle_eq_some.mp ha
      refine ⟨a, harticle, ?_, .inr ⟨username, rfl⟩⟩
      by_contra hne
      exact hgone (List.mem_filter.mpr ⟨hx, decide_eq_true (Ne.symm hne)⟩)

/-- A delete that returns had no reason to be refused. -/
theorem CommentRequest.Did.refusal_eq_none {slug username : Str} {commentId : ℤ} {now : Timestamp}
    {r : Option SerializedComment} {d' : Tables}
    (h : (CommentRequest.delete slug commentId username).Did now r d d') :
    deleteRefusal slug commentId username d = none := by
  obtain ⟨user, a, c, hu, ha, hc, hid, hfk, hown, -⟩ := h
  obtain ⟨huser, hname⟩ := Tables.findUser_eq_some.mp hu
  obtain ⟨harticle, hslug⟩ := Tables.findArticle_eq_some.mp ha
  rw [deleteRefusal, if_neg fun h => h a harticle hslug, if_neg fun h => h user huser hname,
    if_neg fun h => h c hc hid a harticle hfk.symm hslug,
    if_neg fun h => h c hc hid user huser hown.symm hname]

theorem exec_run_delete {slug username : Str} {commentId : ℤ} {now : Timestamp} :
    (CommentRequest.run (.delete slug commentId username) now).exec d =
      (((CommentService.delete slug commentId username).exec d).mapError .comment).map
        fun x => (none, x.2) := by
  change (Tx.bind _ _).exec d = _
  rw [Tx.exec_bind, Tx.exec_mapError]
  cases (CommentService.delete slug commentId username).exec d with
  | ok x => rfl
  | error e => rfl

variable [DecidableEq ι] {s : CommentState ι} {t₀ : Timestamp}
  {es : List (Transaction.Event ι Timestamp)}

/-- **The comment store.**  In every run of calls that create a comment, delete one or delete an
article: the commits are a serial history, and calls that fail change nothing; each call that
returns does what it is asked to; a comment is removed at most once, and only by whom may; of a
deleted article no comment is left; a delete that returns had no reason to be refused in the state
it was committed to, and one that throws is refused for the first reason that applies. -/
theorem comments_serialized (hid : IdentityColumn calls d₀)
    (hr : run (Transaction.step (commentProgram calls)) (Transaction.State.init d₀ t₀) es =
      some s) :
    Transaction.Serialized (commentProgram calls) d₀ s ∧
    (∀ c ∈ s.log, (calls c.call).Did c.time c.result c.before c.after) ∧
    (∀ id, ∀ c ∈ s.log, ∀ c' ∈ s.log, Removes id c → Removes id c' → c = c') ∧
    (∀ c ∈ s.log, ∀ x ∈ c.before.comments, FreeId x.id c.after →
      (calls c.call).MayRemove x c.before) ∧
    (∀ c ∈ s.log, ∀ slug username, calls c.call = .deleteArticle slug username →
      ∀ a ∈ c.before.articles, a.slug = slug → ∀ x ∈ s.db.comments, x.articleId ≠ a.id) ∧
    (∀ c ∈ s.log, ∀ slug commentId username, calls c.call = .delete slug commentId username →
      deleteRefusal slug commentId username c.before = none) ∧
    ∀ i t pend e slug commentId username, calls i = .delete slug commentId username →
      s.session i = .running t pend (.throw e) →
      ∃ e', e = .comment e' ∧ deleteRefusal slug commentId username s.db = some e' := by
  have hinv := Transaction.serializableIn protects_sameComments (keepsRely_comments hid)
    (fun i => relies_iff.mpr fun id hnew => hid.free i id hnew)
    (fun _ _ _ => wellLocked_commentRequest) hr
  have hser := hinv.serialized protects_sameComments
  have hist := commentHistory_of_replays hid hser.replays hser.nodup
  refine ⟨hser, hist.did, hist.once, fun c hc x hx hfree => (hist.did c hc).mayRemove hx hfree,
    ?_, ?_, ?_⟩
  · intro c hc slug username hcall a ha hslug x hx hfk
    -- the article is gone from the commit on
    obtain ⟨user, a', -, ha', -, hafter⟩ := by simpa only [hcall] using hist.did c hc
    obtain ⟨hmem, hslug'⟩ := Tables.findArticle_eq_some.mp ha'
    obtain rfl := Keyed.eq_of_key c.before.uq_articles_slug ha hmem (hslug.trans hslug'.symm)
    obtain ⟨b, hb, hbx⟩ := s.db.fk_comments_article x hx
    have hb := hist.articles c hc hb
    rw [hafter] at hb
    exact of_decide_eq_true (List.mem_filter.mp hb).2 (hbx.trans hfk)
  · intro c hc slug commentId username hcall
    exact (by simpa only [hcall] using hist.did c hc :
      (CommentRequest.delete slug commentId username).Did _ _ _ _).refusal_eq_none
  · intro i t pend e slug commentId username hcall hi
    have hexec := hser.refused i t pend e hi
    rw [commentProgram, hcall, exec_run_delete,
      exec_delete_eq fun x hx => (hist.known x hx).valid hid] at hexec
    cases hrefusal : deleteRefusal slug commentId username s.db with
    | none => rw [hrefusal] at hexec; cases hexec
    | some e' => rw [hrefusal] at hexec; cases hexec; exact ⟨e', rfl, rfl⟩

/-- In the sample the author of the comment deletes it, while the other user writes one. -/
def sampleComments : Bool → CommentRequest
  | true => .delete ['s'] 1 ['v']
  | false => .create ⟨['s'], ['u'], [' ', 'x'], 2⟩

theorem identityColumn_sample : IdentityColumn sampleComments Tables.sample where
  once i j id hi hj := by
    cases i with
    | true => cases hi
    | false =>
        cases j with
        | true => cases hj
        | false => rfl
  free i id hi := by
    cases i <;> cases hi
    exact fun c hc hid => by cases List.mem_singleton.mp hc; cases hid
  valid i id hi := by
    cases i <;> cases hi
    decide
  stored c hc := by
    cases List.mem_singleton.mp hc
    decide

theorem comments_serialized_sample : ∃ s : CommentState Bool,
    run (Transaction.step (commentProgram sampleComments)) (Transaction.State.init Tables.sample 0)
      ([.start true 2000, .start false 3000, .exec true, .exec false] ++
        List.replicate 4 (.exec true) ++ List.replicate 3 (.exec false)) = some s ∧
    Transaction.Serialized (commentProgram sampleComments) Tables.sample s ∧
    s.db.comments = [⟨2, 5, 1, ['x'], 3000, 3000⟩] := by
  have hruns : (run (Transaction.step (commentProgram sampleComments))
      (Transaction.State.init Tables.sample 0)
      ([.start true 2000, .start false 3000, .exec true, .exec false] ++
        List.replicate 4 (.exec true) ++ List.replicate 3 (.exec false))).map (·.db.comments) =
      some [⟨2, 5, 1, ['x'], 3000, 3000⟩] := rfl
  obtain ⟨s, hs, hrows⟩ := Option.map_eq_some_iff.mp hruns
  exact ⟨s, hs, (comments_serialized identityColumn_sample hs).1, hrows⟩

end

end MediumClone.Comments
