import MediumClone.Blog.Calls
import MediumClone.Blog.Effects
import MediumClone.Comments.Store

/-!
# Blog — Refinement

The service refines the world: what it answers to a request, and what the request leaves in the
tables, is what the world says (`serves_world`).  So every history of requests with its answers is
one of the world (`history_of_requests`).

Each call has one lemma.  On the way to `ok` the specification of the service says what it found
and wrote; on the way to an error the lookups are split in the order of the code, and what may
still go wrong after them is one kind of error (`Tx.Throws`).
-/

noncomputable section

namespace MediumClone.Blog
open Js Sys Schema Articles Comments Profiles
open scoped Classical

section

variable {d d' : Tables} {u v author : User} {a : Article} {now : Timestamp}
  {slug username : Str} {e : Request}

/-! ### Answers and refusals -/

/-- The service answers the request as the world does. -/
def Right (d : Tables) (e : Request) : Prop :=
  (world d).Serves e (serve d e).1 (world (serve d e).2)

section Exec

variable {ε α : Type} {f : ε → Refusal} {g : α → Answer} {x : Tx Tables Row ε α} {r : α}

theorem right_ok (htx : e.call.tx e.now = Call.tx.answer f g x) (hexec : x.exec d = .ok (r, d'))
    (hchecks : (world d).refusal e.call = none)
    (hdoes : Does e.now (world d) (world d') e.call (g r)) : Right d e := by
  rw [Right, serve, htx, exec_answer, hexec]
  exact ⟨hchecks, hdoes⟩

theorem right_refused (error : ε) (htx : e.call.tx e.now = Call.tx.answer f g x)
    (hexec : x.exec d = .error error) (hchecks : (world d).refusal e.call = some (f error)) :
    Right d e := by
  rw [Right, serve, htx, exec_answer, hexec]
  exact ⟨rfl, .inl hchecks⟩

theorem right_failed (error : ε) (htx : e.call.tx e.now = Call.tx.answer f g x)
    (hexec : x.exec d = .error error) (hchecks : (world d).refusal e.call = none)
    (hfailure : e.call.failure = some (f error)) : Right d e := by
  rw [Right, serve, htx, exec_answer, hexec]
  exact ⟨rfl, .inr ⟨hchecks, hfailure⟩⟩

end Exec

/-! The checks of the world are lookups in the tables. -/

@[simp] theorem firstFailure_nil {ρ : Type} : firstFailure ([] : List (Prop × ρ)) = none := rfl

@[simp] theorem firstFailure_cons {ρ : Type} {check : Prop} {refusal : ρ}
    {checks : List (Prop × ρ)} : firstFailure ((check, refusal) :: checks) =
      if check then firstFailure checks else some refusal := rfl

theorem author_iff (hu : d.findUser username = some u) (ha : a ∈ d.articles) :
    (postOf d a).author = username ↔ a.authorId = u.id := by
  obtain ⟨humem, rfl⟩ := Tables.findUser_eq_some.mp hu
  obtain ⟨v, hv, hid, hname⟩ := exists_author ha
  rw [postOf, hname, ← hid]
  refine ⟨fun h => ?_, fun h => ?_⟩
  · rw [user_eq hv humem h]
  · rw [Keyed.eq_of_key d.pk_users hv humem h]

/-- What a read of an article returns to a user is what the world shows it. -/
theorem getBySlugPool_eq (hu : d.findUser username = some u) (ha : d.findArticle slug = some a) :
    getBySlugPool slug (some username) d =
      .ok ((world d).detail (some username) slug (postOf d a)) := by
  obtain ⟨hmem, rfl⟩ := Tables.findArticle_eq_some.mp ha
  obtain ⟨humem, rfl⟩ := Tables.findUser_eq_some.mp hu
  obtain ⟨v, hv, hid, -⟩ := exists_author hmem
  have hviewer : viewerOf d (some u.username) = some u := hu
  rw [getBySlugPool_ok hmem hv hid (by rw [hviewer]; exact fun _ => rfl), hviewer,
    detail_eq (by rintro _ ⟨⟩; exact humem) hmem hv hid]
  rfl

/-! ### Favorites -/

theorem exec_favorite_eq {write : ArticleFavorite → ArticleTx Unit}
    (hu : d.findUser username = some u) (ha : d.findArticle slug = some a)
    (hwrite : (write ⟨a.id, u.id⟩).exec d = .ok ((), d')) (ho : Tables.FavoritesOnly d d') :
    (favorite write slug username).exec d =
      .ok ((world d').detail (some username) slug (postOf d a), d') := by
  have hu' : d'.findUser username = some u := by rwa [Tables.findUser, ho.users]
  have ha' : d'.findArticle slug = some a := by rwa [Tables.findArticle, ho.articles]
  have hkeeps := Keeps.of_articles ho.users ho.articles
  have hmem := (Tables.findArticle_eq_some.mp ha).1
  have hbeside : Beside d d' := ⟨ho.articles, ho.tags, ho.articleTags⟩
  have hread := exec_getBySlug_ok.mpr ⟨getBySlugPool_eq hu' ha', rfl⟩
  rw [hkeeps.postOf (hbeside.unchanged hmem).tags] at hread
  simp only [favorite, Tx.exec_selectForUpdate_bind, hu, ha, Tx.exec_orThrow_some_bind]
  exact Tx.exec_bind_ok.mpr ⟨(), d', hwrite, hread⟩

/-- Both services check the user, then the article, and then nothing stands in the way of their
write. -/
theorem right_favorite {write : ArticleFavorite → ArticleTx Unit} {call : Call}
    (htx : call.tx now = Call.tx.answer .article .article (favorite write slug username))
    (hchecks : (world d).checks call = (world d).favoriteChecks slug username)
    (hwrite : ∀ u ∈ d.users, ∀ a ∈ d.articles, u.username = username → a.slug = slug → ∃ d',
      (write ⟨a.id, u.id⟩).exec d = .ok ((), d') ∧ Tables.FavoritesOnly d d' ∧
      Does now (world d) (world d') call
        (.article ((world d').detail (some username) slug (postOf d a)))) :
    Right d ⟨now, call⟩ := by
  cases hu : d.findUser username with
  | none =>
      refine right_refused .favoriteUserNotFound htx ?_ ?_
      · simp [favorite, hu]
      · simp [World.refusal, hchecks, World.favoriteChecks, account_eq, hu]
  | some u =>
      obtain ⟨humem, hname⟩ := Tables.findUser_eq_some.mp hu
      cases ha : d.findArticle slug with
      | none =>
          refine right_refused .favoriteArticleNotFound htx ?_ ?_
          · simp [favorite, hu, ha]
          · simp [World.refusal, hchecks, World.favoriteChecks, account_eq, post_eq, hu, ha]
      | some a =>
          obtain ⟨hamem, hslug⟩ := Tables.findArticle_eq_some.mp ha
          obtain ⟨d', hexec, ho, hdoes⟩ := hwrite u humem a hamem hname hslug
          refine right_ok htx (exec_favorite_eq hu ha hexec ho) ?_ hdoes
          simp [World.refusal, hchecks, World.favoriteChecks, account_eq, post_eq, hu, ha]

theorem right_createFavorite : Right d ⟨now, .createFavorite slug username⟩ := by
  refine right_favorite rfl rfl fun u hu a ha hname hslug => ?_
  obtain ⟨d', hinsert⟩ := Option.isSome_iff_exists.mp
    ((Tables.isSome_insertFavorite (f := ⟨a.id, u.id⟩)).mpr ⟨⟨a, ha, rfl⟩, u, hu, rfl⟩)
  refine ⟨d', Tx.exec_attempt.mpr hinsert, (Tables.insertFavorite_eq_some hinsert).2, ?_⟩
  rw [← hname, ← hslug]
  exact .createFavorite (post_of_mem ha) (content_insertFavorite hu ha hinsert)

theorem right_deleteFavorite : Right d ⟨now, .deleteFavorite slug username⟩ := by
  refine right_favorite rfl rfl fun u hu a ha hname hslug => ?_
  refine ⟨d.deleteFavorite ⟨a.id, u.id⟩, rfl, ⟨rfl, rfl, rfl, rfl, rfl, rfl⟩, ?_⟩
  rw [← hname, ← hslug]
  exact .deleteFavorite (post_of_mem ha) (content_deleteFavorite hu ha)

/-! ### Articles -/

/-- An article that its author has just created shows to the author as it was given. -/
theorem detail_created {call : CreateCall} (h : Created call author now d d')
    (hauthor : author ∈ d.users) (hname : author.username = call.username) :
    serializeArticleDetail (call.article author.id now) author
      ⟨uniqueArticleTagNames (call.request.tagList.getD []), false, 0, false⟩ =
      (world d').detail (some call.username) call.slug (newPost call now) := by
  have hin : call.article author.id now ∈ d'.articles :=
    h.articles ▸ List.mem_append_right _ List.mem_cons_self
  have huser : author ∈ d'.users := h.users ▸ hauthor
  have hviewer : ∀ v ∈ some author, v ∈ d'.users := by
    rintro _ ⟨⟩
    exact huser
  have hdetail := detail_eq hviewer hin huser rfl
  rw [viewerName, Option.map_some, hname, postOf_created h hauthor hname] at hdetail
  rw [show call.slug = (call.article author.id now).slug from rfl, ← hdetail]
  -- no one can have favorited it, and no one follows themselves
  have hnone : ∀ f ∈ d'.favorites, f.articleId ≠ call.id := by
    rw [h.favorites]
    intro f hf
    obtain ⟨b, hb, hbf⟩ := d.fk_article_favorites_article f hf
    exact hbf ▸ h.fresh b hb
  have hcount : countFavorites call.id d' = 0 := by
    rw [countFavorites, List.length_eq_zero_iff, List.filter_eq_nil_iff]
    exact fun f hf => by simpa using hnone f hf
  have hfavorite : findFavorite call.id author.id d' = none := by
    rw [findFavorite_eq, if_neg fun hf => hnone _ hf rfl]
  have hfollow : findFollow author.id author.id d' = none := by
    rw [findFollow, List.find?_eq_none]
    intro f hf
    have hne := d'.chk_user_follows f hf
    simp only [decide_eq_true_eq]
    rintro rfl
    exact hne rfl
  rw [detailOf]
  simp only [CreateCall.article, Option.bind_some, hcount, hfavorite, hfollow, h.ordered]
  rfl

theorem slug_free_of_created {call : CreateCall} (h : Created call author now d d') :
    d.findArticle call.slug = none := by
  rw [Tables.findArticle_eq_none]
  intro b hb hslug
  have hn := d'.uq_articles_slug
  rw [h.articles, List.map_append] at hn
  exact List.disjoint_of_nodup_append hn (List.mem_map_of_mem hb)
    (List.mem_singleton.mpr (by rw [hslug]; rfl))

theorem freshId_iff {id : Uuid} : (world d).FreshId id ↔ ∀ b ∈ d.articles, b.id ≠ id := by
  constructor
  · exact fun h b hb => h b.slug _ (post_of_mem hb)
  · intro h slug p hp
    obtain ⟨b, hb, -, rfl⟩ := post_eq_some.mp hp
    exact h b hb

theorem right_createArticle {call : CreateCall} : Right d ⟨now, .createArticle call⟩ := by
  cases hu : d.findUser call.username with
  | none =>
      refine right_refused .articleAuthorNotFound rfl ?_ ?_
      · simp [ArticleCreateService.create, hu, Except.mapError, wrapCreateError]
      · simp [World.refusal, World.checks, account_eq, hu]
  | some author =>
      obtain ⟨humem, hname⟩ := Tables.findUser_eq_some.mp hu
      have hcheck : (¬ (world d).FreshId call.id ∨ (world d).post call.slug = none) ↔
          ¬ SlugTaken call d := by
        rw [freshId_iff, SlugTaken, toContent_world, post_eq, Option.map_eq_none_iff,
          ← Option.not_isSome_iff_eq_none, not_and_or]
      cases hexec : (ArticleCreateService.create call now).exec d with
      | ok x =>
          obtain ⟨r, d'⟩ := x
          obtain ⟨author', hauthor, hcreated, rfl⟩ := Articles.exec_create hexec
          obtain rfl := Option.some.inj (hauthor.symm.trans hu)
          refine right_ok rfl hexec ?_ ?_
          · simp [World.refusal, World.checks, account_eq, post_eq, hu,
              slug_free_of_created hcreated]
          · rw [detail_created hcreated humem hname]
            exact .createArticle (freshId_iff.mpr hcreated.fresh)
              (content_create hcreated humem hname (within_create hexec))
      | error error =>
          obtain ⟨htaken, rfl⟩ | ⟨htaken, rfl⟩ := exec_create_error hu hexec
          · refine right_refused _ rfl hexec ?_
            simp only [World.refusal, World.checks, firstFailure_cons, hcheck, htaken]
            simp [account_eq, hu]
          · refine right_failed _ rfl hexec ?_ rfl
            simp only [World.refusal, World.checks, firstFailure_cons, hcheck, htaken]
            simp [account_eq, hu]

theorem right_updateArticle {call : UpdateCall} : Right d ⟨now, .updateArticle call⟩ := by
  cases hu : d.findUser call.username with
  | none =>
      refine right_refused .updateUserNotFound rfl ?_ ?_
      · simp [ArticleUpdateService.update, hu, Except.mapError, wrapUpdateError]
      · simp [World.refusal, World.checks, account_eq, hu]
  | some author =>
      cases ha : d.findArticle call.slug with
      | none =>
          refine right_refused .updateArticleNotFound rfl ?_ ?_
          · simp [ArticleUpdateService.update, hu, ha, Except.mapError, wrapUpdateError]
          · simp [World.refusal, World.checks, account_eq, post_eq, hu, ha]
      | some a =>
          obtain ⟨hamem, hslug⟩ := Tables.findArticle_eq_some.mp ha
          have hauthor := author_iff hu hamem
          by_cases hown : a.authorId = author.id
          · have hchecks : (world d).refusal (.updateArticle call) = none := by
              simp [World.refusal, World.checks, account_eq, post_eq, hu, ha, hauthor, hown]
            cases hexec : (ArticleUpdateService.update call now).exec d with
            | ok x =>
                obtain ⟨r, d'⟩ := x
                obtain ⟨author', a', hauthor', ha', -, hupdated, hr⟩ := exec_update hexec
                obtain rfl := Option.some.inj (hauthor'.symm.trans hu)
                obtain rfl := Option.some.inj (ha'.symm.trans ha)
                have hu' : d'.findUser call.username = some author' := by
                  rwa [Tables.findUser, hupdated.users]
                have hread := getBySlugPool_eq hu' (hupdated.findArticle ha)
                rw [postOf_updated hupdated hamem] at hread
                obtain rfl := Except.ok.inj (hr.symm.trans hread)
                have hnames : ∀ name ∈ call.request.newNames,
                    name ∈ (updatedPost call.request now (postOf d a')).tags := by
                  rw [ArticleUpdate.newNames]
                  change ∀ name ∈ _, name ∈ call.request.tagNames _
                  rw [ArticleUpdate.tagNames]
                  cases call.request.tagList with
                  | none =>
                      intro name hname
                      cases hname
                  | some names => exact fun _ h => h
                have hwithin : TagsWithin (updatedPost call.request now (postOf d a')).tags d d' :=
                  fun t ht => (within_update hexec t ht).imp_right (hnames t.name)
                have hpost : (world d).post call.slug = some (postOf d a') := by
                  rw [toContent_world, post_eq, ha']
                  rfl
                refine right_ok rfl hexec hchecks (.updateArticle hpost ?_)
                rw [← hslug]
                exact content_update hupdated hamem hwithin
            | error error =>
                obtain ⟨rfl, htags⟩ := exec_update_error hu ha hown hexec
                refine right_failed _ rfl hexec hchecks ?_
                simp [Call.failure, htags]
          · refine right_refused .updateForbidden rfl ?_ ?_
            · simp [ArticleUpdateService.update, hu, ha, Except.mapError, wrapUpdateError,
                Tx.exec_require_neg_bind hown]
            · simp [World.refusal, World.checks, account_eq, post_eq, hu, ha, hauthor, hown]

theorem right_deleteArticle : Right d ⟨now, .deleteArticle slug username⟩ := by
  cases hu : d.findUser username with
  | none =>
      refine right_refused .deleteUserNotFound rfl ?_ ?_
      · simp [ArticleDeleteService.delete, hu, Except.mapError, wrapDeleteError]
      · simp [World.refusal, World.checks, account_eq, hu]
  | some author =>
      cases ha : d.findArticle slug with
      | none =>
          refine right_refused .deleteArticleNotFound rfl ?_ ?_
          · simp [ArticleDeleteService.delete, hu, ha, Except.mapError, wrapDeleteError]
          · simp [World.refusal, World.checks, account_eq, post_eq, hu, ha]
      | some a =>
          obtain ⟨hamem, hslug⟩ := Tables.findArticle_eq_some.mp ha
          have hauthor := author_iff hu hamem
          by_cases hown : a.authorId = author.id
          · refine right_ok rfl (exec_delete_ok hu ha hown) ?_ (.deleteArticle ?_)
            · simp [World.refusal, World.checks, account_eq, post_eq, hu, ha, hauthor, hown]
            · rw [← hslug]
              exact content_deleteArticle hamem
          · refine right_refused .deleteForbidden rfl ?_ ?_
            · simp [ArticleDeleteService.delete, hu, ha, Except.mapError, wrapDeleteError,
                Tx.exec_require_neg_bind hown]
            · simp [World.refusal, World.checks, account_eq, post_eq, hu, ha, hauthor, hown]

/-! ### Comments -/

theorem right_createComment {call : CommentCall} : Right d ⟨now, .createComment call⟩ := by
  cases hu : d.findUser call.username with
  | none =>
      refine right_refused .commentUserNotFound rfl ?_ ?_
      · simp [CommentService.create, hu, Except.mapError, rethrowCommentError]
      · simp [World.refusal, World.checks, account_eq, hu]
  | some user =>
      obtain ⟨humem, hname⟩ := Tables.findUser_eq_some.mp hu
      cases ha : d.findArticle call.slug with
      | none =>
          refine right_refused .commentArticleNotFound rfl ?_ ?_
          · simp [CommentService.create, hu, ha, Except.mapError, rethrowCommentError]
          · simp [World.refusal, World.checks, account_eq, post_eq, hu, ha]
      | some a =>
          obtain ⟨hamem, hslug⟩ := Tables.findArticle_eq_some.mp ha
          have hchecks : (world d).refusal (.createComment call) = none := by
            simp [World.refusal, World.checks, account_eq, post_eq, hu, ha]
          let c := call.comment a user now
          have hremark : remarkOf d c = newRemark call now := by
            rw [remarkOf, newRemark]
            simp only [c, CommentCall.comment, slugOf_eq hamem, nameOf_eq humem, hslug, hname]
          cases hinsert : d.insertComment c with
          | none =>
              refine right_failed .commentPersistence rfl ?_ hchecks rfl
              simp only [CommentService.create, Tx.exec_mapError, Tx.exec_select_bind, hu, ha,
                Tx.exec_orThrow_some_bind, Tx.exec_selectForUpdate_bind]
              rw [Tx.exec_attempt_none_bind hinsert]
              rfl
          | some d' =>
              obtain ⟨hrows, ho⟩ := Tables.insertComment_eq_some hinsert
              have hkeeps := Keeps.of_articles ho.users ho.articles
              have hfree : ∀ b ∈ d.comments, b.id ≠ call.id := by
                have hn := d'.pk_comments
                rw [hrows, List.map_append] at hn
                exact fun b hb hid => List.disjoint_of_nodup_append hn (List.mem_map_of_mem hb)
                  (List.mem_singleton.mpr hid)
              have hshown : serializeComment c user false =
                  (world d').comment (some call.username) call.id (newRemark call now) := by
                have hremark' : remarkOf d' c = newRemark call now := by
                  rw [← hremark, remarkOf, hkeeps.nameOf, slugOf, ho.articles, remarkOf, slugOf]
                rw [← hremark']
                refine comment_eq (ho.users ▸ humem) rfl (iff_of_false Bool.false_ne_true ?_)
                rintro ⟨_, ⟨⟩, hf⟩
                rw [hname] at hf
                exact absurd hf ((world d').follow_other _)
              have hexec : (CommentService.create call now).exec d =
                  .ok (serializeComment c user false, d') := by
                simp only [CommentService.create, Tx.exec_mapError, Tx.exec_select_bind, hu, ha,
                  Tx.exec_orThrow_some_bind, Tx.exec_selectForUpdate_bind]
                rw [Tx.exec_attempt_some_bind hinsert]
                rfl
              refine right_ok rfl hexec hchecks ?_
              rw [hshown]
              refine .createComment ?_ ?_
              · rw [toContent_world, Option.eq_none_iff_forall_ne_some]
                intro r hr
                obtain ⟨b, hb, hid, -⟩ := remark_eq_some.mp hr
                exact hfree b hb hid
              · rw [← hremark]
                exact content_insertComment hfree hrows ho

theorem remark_of_find {n : ℕ} {c : Comment} (hc : findComment a.id n d = some c) :
    (content d).remark n = some (remarkOf d c) := by
  obtain ⟨hmem, -, hid⟩ := findComment_eq_some.mp hc
  exact remark_eq_some.mpr ⟨c, hmem, Nat.cast_inj.mp hid, rfl⟩

theorem remarkOf_slug {n : ℤ} {c : Comment} (hamem : a ∈ d.articles)
    (hc : findComment a.id n d = some c) : (remarkOf d c).slug = a.slug := by
  obtain ⟨-, hfk, -⟩ := findComment_eq_some.mp hc
  rw [remarkOf, hfk, slugOf_eq hamem]

theorem remark_of_not_find {n : ℕ} (hamem : a ∈ d.articles) (hc : findComment a.id n d = none) :
    ¬ ∃ r ∈ (content d).remark n, r.slug = a.slug := by
  rintro ⟨r, hr, hslug⟩
  obtain ⟨c, hmem, rfl, rfl⟩ := remark_eq_some.mp hr
  obtain ⟨b, hb, hfk⟩ := d.fk_comments_article c hmem
  rw [remarkOf, ← hfk, slugOf_eq hb] at hslug
  obtain rfl := article_eq hb hamem hslug
  rw [findComment_eq_some.mpr ⟨hmem, hfk.symm, rfl⟩] at hc
  cases hc

theorem right_deleteComment {commentId : ℤ} :
    Right d ⟨now, .deleteComment slug commentId username⟩ := by
  cases ha : d.findArticle slug with
  | none =>
      refine right_refused .commentArticleNotFound rfl ?_ ?_
      · simp [CommentService.delete, ha, Except.mapError, rethrowCommentError]
      · simp [World.refusal, World.checks, post_eq, ha]
  | some a =>
      obtain ⟨hamem, hslug⟩ := Tables.findArticle_eq_some.mp ha
      cases hu : d.findUser username with
      | none =>
          refine right_refused .commentUserNotFound rfl ?_ ?_
          · simp [CommentService.delete, ha, hu, Except.mapError, rethrowCommentError]
          · simp [World.refusal, World.checks, account_eq, post_eq, ha, hu]
      | some user =>
          obtain ⟨humem, hname⟩ := Tables.findUser_eq_some.mp hu
          by_cases hvalid : validCommentId commentId
          · obtain ⟨n, rfl⟩ := Int.eq_ofNat_of_zero_le (zero_le_one.trans hvalid.2.1)
            cases hc : findComment a.id n d with
            | none =>
                have hnone := remark_of_not_find hamem hc
                rw [hslug] at hnone
                refine right_refused .commentNotFound rfl ?_ ?_
                · simp [CommentService.delete, ha, hu, hc, Except.mapError, rethrowCommentError,
                    Tx.exec_require_pos_bind hvalid]
                · simp only [World.refusal, World.checks, firstFailure_cons, toContent_world,
                    Int.toNat_natCast, hnone, and_false, if_false]
                  simp [account_eq, post_eq, ha, hu]
            | some c =>
                have hremark := remark_of_find hc
                have hon := (remarkOf_slug hamem hc).trans hslug
                obtain ⟨hcmem, -, hid⟩ := findComment_eq_some.mp hc
                have hauthor : (remarkOf d c).author = username ↔ c.authorId = user.id := by
                  obtain ⟨v, hv, hvid⟩ := d.fk_comments_author c hcmem
                  rw [remarkOf, ← hvid, nameOf_eq hv, ← hname]
                  refine ⟨fun h => ?_, fun h => ?_⟩
                  · rw [user_eq hv humem h]
                  · rw [Keyed.eq_of_key d.pk_users hv humem h]
                by_cases hown : c.authorId = user.id
                · have hexec : (CommentService.delete slug n username).exec d =
                      .ok ((), d.deleteComments (· = c)) := by
                    simp only [CommentService.delete, Tx.exec_mapError, Tx.exec_select_bind, hu, ha,
                      Tx.exec_orThrow_some_bind, Tx.exec_selectForUpdate_bind, hc,
                      Tx.exec_require_pos_bind hvalid, Tx.exec_require_pos_bind hown,
                      Tx.exec_execute_bind, Tx.exec_require_pos_bind (length_filter_own hc hown)]
                    rw [← deleteComments_own hc hown]
                    rfl
                  refine right_ok rfl hexec ?_ (.deleteComment ?_)
                  · simp [World.refusal, World.checks, account_eq, post_eq, ha, hu, hvalid, hremark,
                      hon, hauthor, hown]
                  · rw [Int.toNat_natCast, ← Nat.cast_inj.mp hid]
                    exact content_deleteComment hcmem
                · refine right_refused .commentForbidden rfl ?_ ?_
                  · simp [CommentService.delete, ha, hu, hc, Except.mapError, rethrowCommentError,
                      Tx.exec_require_pos_bind hvalid, Tx.exec_require_neg_bind hown]
                  · simp [World.refusal, World.checks, account_eq, post_eq, ha, hu, hvalid, hremark,
                      hon, hauthor, hown]
          · refine right_refused .commentNotFound rfl ?_ ?_
            · simp [CommentService.delete, ha, hu, Except.mapError, rethrowCommentError,
                Tx.exec_require_neg_bind hvalid]
            · simp [World.refusal, World.checks, account_eq, post_eq, ha, hu, hvalid]

/-! ### Follows -/

theorem right_follow {followerUsername : Str} :
    Right d ⟨now, .follow followerUsername username⟩ := by
  cases hv : d.findUser username with
  | none =>
      refine right_refused .profileNotFound rfl ?_ ?_
      · simp [ProfileService.follow, hv]
      · simp [World.refusal, World.checks, account_eq, hv]
  | some v =>
      obtain ⟨hvmem, hvname⟩ := Tables.findUser_eq_some.mp hv
      cases hu : d.findUser followerUsername with
      | none =>
          have hne : followerUsername ≠ username := by
            rintro rfl
            rw [hu] at hv
            cases hv
          refine right_refused .profileNotFound rfl ?_ ?_
          · simp [ProfileService.follow, hv, hu, Tx.exec_require_pos_bind]
          · simp [World.refusal, World.checks, account_eq, hv, hu, hne]
      | some u =>
          obtain ⟨humem, huname⟩ := Tables.findUser_eq_some.mp hu
          by_cases hself : u.id = v.id
          · have hsame : followerUsername = username := by
              rw [← huname, ← hvname, Keyed.eq_of_key d.pk_users humem hvmem hself]
            refine right_refused .selfFollow rfl ?_ ?_
            · simp [ProfileService.follow, hv, hu, hself, Tx.exec_require_neg_bind]
            · simp [World.refusal, World.checks, account_eq, hv, hsame]
          · have hne : followerUsername ≠ username := by
              rw [← huname, ← hvname]
              exact fun h => hself (congrArg User.id (user_eq humem hvmem h))
            have hsome : ∃ d', d.insertFollow ⟨u.id, v.id⟩ = some d' := by
              rw [Tables.insertFollow]
              split
              · exact ⟨_, rfl⟩
              · rw [dif_pos ⟨⟨u, humem, rfl⟩, ⟨v, hvmem, rfl⟩, hself⟩]
                exact ⟨_, rfl⟩
            obtain ⟨d', hinsert⟩ := hsome
            obtain ⟨hin, ho⟩ := Tables.insertFollow_eq_some hinsert
            have hexec :
                (ProfileService.follow followerUsername username).exec d = .ok (v, d') := by
              have hids : (some u).map (·.id) ≠ some v.id := by simpa using hself
              simp only [ProfileService.follow, Tx.exec_select_bind, hu, hv,
                Tx.exec_orThrow_some_bind, Tx.exec_require_pos_bind hids]
              rw [Tx.exec_attempt_some_bind hinsert]
              rfl
            refine right_ok rfl hexec ?_ ?_
            · simp [World.refusal, World.checks, account_eq, hv, hu, hne]
            · have hfollows : true = true ↔
                  (world d').Follows (some followerUsername) v.username := by
                refine ⟨fun _ => ⟨_, rfl, ?_⟩, fun _ => rfl⟩
                rw [← huname]
                exact (mem_follows (ho.users ▸ humem) (ho.users ▸ hvmem)).mpr hin
              have hprofile := profile_eq (ho.users ▸ hvmem) hfollows
              rw [serializeProfile, ← hprofile, hvname]
              refine .follow ?_
              rw [← huname, ← hvname]
              exact content_insertFollow humem hvmem hinsert

theorem right_unfollow {followerUsername : Str} :
    Right d ⟨now, .unfollow followerUsername username⟩ := by
  cases hv : d.findUser username with
  | none =>
      refine right_refused .profileNotFound rfl ?_ ?_
      · simp [ProfileService.unfollow, hv]
      · simp [World.refusal, World.checks, account_eq, hv]
  | some v =>
      obtain ⟨hvmem, hvname⟩ := Tables.findUser_eq_some.mp hv
      cases hu : d.findUser followerUsername with
      | none =>
          refine right_refused .profileNotFound rfl ?_ ?_
          · simp [ProfileService.unfollow, hv, hu]
          · simp [World.refusal, World.checks, account_eq, hv, hu]
      | some u =>
          obtain ⟨humem, huname⟩ := Tables.findUser_eq_some.mp hu
          have hexec : (ProfileService.unfollow followerUsername username).exec d =
              .ok (v, d.deleteFollow ⟨u.id, v.id⟩) := by
            simp only [ProfileService.unfollow, Tx.exec_select_bind, hu, hv,
              Tx.exec_orThrow_some_bind, Tx.exec_execute_bind]
            rfl
          refine right_ok rfl hexec ?_ ?_
          · simp [World.refusal, World.checks, account_eq, hv, hu]
          · have hcontent := content_deleteFollow humem hvmem
            have hfollows : false = true ↔ (world (d.deleteFollow ⟨u.id, v.id⟩)).Follows
                (some followerUsername) v.username := by
              refine iff_of_false Bool.false_ne_true ?_
              rintro ⟨_, ⟨⟩, hf⟩
              rw [toContent_world, hcontent, ← huname] at hf
              exact absurd rfl hf.2
            have hvmem' : v ∈ (d.deleteFollow ⟨u.id, v.id⟩).users := hvmem
            have hprofile := profile_eq hvmem' hfollows
            rw [serializeProfile, ← hprofile, hvname]
            refine .unfollow ?_
            rw [← huname, ← hvname]
            exact hcontent

/-! ### Reads -/

theorem right_getProfile : Right d ⟨now, .getProfile username⟩ := by
  cases hu : d.findUser username with
  | none =>
      refine right_refused .profileNotFound rfl ?_ ?_
      · rw [exec_reading, ProfilesController.getProfile, hu]
        rfl
      · simp [World.refusal, World.checks, account_eq, hu]
  | some u =>
      obtain ⟨humem, hname⟩ := Tables.findUser_eq_some.mp hu
      have hexec : (reading (ProfilesController.getProfile username)).exec d =
          .ok (serializeProfile u false, d) := by
        rw [exec_reading, ProfilesController.getProfile, hu]
        rfl
      refine right_ok rfl hexec ?_ ?_
      · simp [World.refusal, World.checks, account_eq, hu]
      · have hfollows : false = true ↔ (world d).Follows none u.username :=
          iff_of_false Bool.false_ne_true (by rintro ⟨_, ⟨⟩, _⟩)
        have hprofile := profile_eq humem hfollows
        rw [serializeProfile, ← hprofile, hname]
        exact .getProfile rfl

/-- The viewer of a request that names a user, or no one. -/
theorem viewer_of_name {name : Option Str} (h : ∀ n ∈ name, ((content d).account n).isSome) :
    ∃ viewer : Option User, (∀ v ∈ viewer, v ∈ d.users) ∧ viewerName viewer = name := by
  cases name with
  | none => exact ⟨none, nofun, rfl⟩
  | some n =>
      obtain ⟨v, hv, rfl⟩ := isSome_account.mp (h n rfl)
      exact ⟨some v, by rintro _ ⟨⟩; exact hv, rfl⟩

theorem getBySlugPool_given {viewerUsername : Option Str} (ha : a ∈ d.articles)
    (h : ∀ n ∈ given viewerUsername, ((content d).account n).isSome) :
    getBySlugPool a.slug viewerUsername d =
      .ok ((world d).detail viewerUsername a.slug (postOf d a)) := by
  obtain ⟨u, hu, hid, -⟩ := exists_author ha
  obtain ⟨viewer, hviewer, hname⟩ := viewer_of_name h
  have hof : viewerOf d (viewerName viewer) = viewer := (viewerOf_username hviewer).2
  have hread : getBySlugPool a.slug (viewerName viewer) d = .ok (detailOf d a u viewer) := by
    rw [getBySlugPool_ok ha hu hid, hof]
    rw [hof, viewerName, Option.isSome_map]
    exact id
  rw [← World.detail_given, ← hname, ← detail_eq hviewer ha hu hid, ← hread, hname]
  have hgiven : (given viewerUsername).filter (· ≠ []) = viewerUsername.filter (· ≠ []) :=
    given_given
  simp only [getBySlugPool, hgiven]

theorem right_getArticle {viewerUsername : Option Str} :
    Right d ⟨now, .getArticle slug viewerUsername⟩ := by
  cases ha : d.findArticle slug with
  | none =>
      have hnone : selectBySlug slug d = none := by
        rw [Option.eq_none_iff_forall_ne_some]
        rintro ⟨b, v⟩ h
        obtain ⟨⟨hb, hslug⟩, -⟩ := selectBySlug_eq_some.mp h
        exact Tables.findArticle_eq_none.mp ha b hb hslug
      refine right_refused .articleNotFound rfl ?_ ?_
      · rw [exec_reading, getBySlugPool, hnone]
        rfl
      · simp [World.refusal, World.checks, post_eq, ha]
  | some a =>
      obtain ⟨hamem, rfl⟩ := Tables.findArticle_eq_some.mp ha
      obtain ⟨u, hu, hid, -⟩ := exists_author hamem
      by_cases hviewer : ∀ n ∈ given viewerUsername, ((content d).account n).isSome
      · refine right_ok rfl (exec_reading.trans (congrArg _ (getBySlugPool_given hamem hviewer)))
          ?_ ?_
        · have hchecks : ∀ v ∈ given viewerUsername, ((world d).account v).isSome := hviewer
          simp only [World.refusal, World.checks, firstFailure_cons, if_pos hchecks,
            firstFailure_nil, ite_eq_left_iff]
          exact fun h => absurd (isSome_post.mpr ⟨a, hamem, rfl⟩) h
        · exact .getArticle (post_of_mem hamem) rfl
      · obtain ⟨n, hn, hnone⟩ : ∃ n ∈ given viewerUsername, d.findUser n = none := by
          simpa [account_eq] using hviewer
        refine right_refused .articleViewerNotFound rfl ?_ ?_
        · rw [exec_reading, getBySlugPool, selectBySlug_eq_some.mpr ⟨⟨hamem, rfl⟩, hu, hid⟩]
          rw [given] at hn
          simp only [Option.mem_def.mp hn, Option.bind_some, hnone]
          rfl
        · have hchecks : ¬ ∀ v ∈ given viewerUsername, ((world d).account v).isSome := hviewer
          rw [World.refusal, World.checks, firstFailure_cons, if_pos, firstFailure_cons,
            if_neg hchecks]
          exact isSome_post.mpr ⟨a, hamem, rfl⟩

/-! ### Listings -/

theorem given_viewerName {viewer : Option User} (hviewer : ∀ v ∈ viewer, v ∈ d.users) :
    ∀ n ∈ given (viewerName viewer), ((content d).account n).isSome := by
  intro n hn
  obtain ⟨v, hv, rfl⟩ := Option.map_eq_some_iff.mp (Option.filter_eq_some_iff.mp hn).1
  exact isSome_account.mpr ⟨v, hviewer v hv, rfl⟩

theorem lists_of_result {filters : ListFilters} {filter : World.Filter}
    {viewer follower : Option User} {offset limit : ℤ} {result : ArticleListQueryResult}
    {elements : List ArticleFields}
    (hsame : SameFilter filters filter follower) (hviewer : ∀ v ∈ viewer, v ∈ d.users)
    (hfollower : ∀ v ∈ follower, v ∈ d.users) (hvalid : validPage offset limit)
    (hresult : ArticleListQueryService.list { filters with offset := offset, limit := limit } d =
      .ok result)
    (helements : ElementsAreDetails d (viewerName viewer) result.articles elements) :
    (world d).Lists filter offset limit (viewerName viewer)
      { articles := elements, articlesCount := result.articlesCount } := by
  have hlisting := isListing_orderBy filters d
  generalize Sql.orderBy newestFirst (queryRows filters d) = listing at hlisting
  rw [list_of_isListing hlisting hvalid] at hresult
  cases hresult
  refine ⟨_, listing_of_isListing hsame hfollower hlisting, by rw [List.length_map], ?_⟩
  rw [Sql.page_map, List.map_map]
  rw [ElementsAreDetails, List.forall₂_map_left_iff] at helements
  have hfields : List.Forall₂ (fun x element =>
      (world d).fields (viewerName viewer) x.1.slug (postOf d x.1) = element)
      (Sql.page offset.toNat limit.toNat listing) elements := by
    rw [List.forall₂_iff_zip] at helements ⊢
    refine ⟨helements.1, fun {x element} hx => ?_⟩
    obtain ⟨detail, hdetail, rfl⟩ := helements.2 hx
    have hin := List.mem_of_mem_drop (List.mem_of_mem_take (List.of_mem_zip hx).1)
    obtain ⟨ha, -, -, -⟩ := (hlisting.mem x.1 x.2).mp hin
    have hread := getBySlugPool_given ha (given_viewerName hviewer)
    obtain rfl := Except.ok.inj (hread.symm.trans hdetail)
    rfl
  rw [← List.forall₂_map_left_iff, List.forall₂_eq_eq_eq] at hfields
  exact hfields.symm

theorem load_of_invalid {viewer : Option User} {criteria : ArticleListQueryCriteria} {only : Bool}
    (hviewer : ∀ v ∈ viewer, v ∈ d.users) (honly : only → viewer.isSome)
    (hvalid : ¬ validPage criteria.offset criteria.limit) :
    load criteria (viewerName viewer) only d = .error .validation := by
  have hload : load criteria (viewerName viewer) only d =
      ((ArticleListQueryService.list (if only then
        { criteria with followedByUserId := viewer.map (·.id) } else criteria) d).bind fun result =>
        complete result (viewer.map (·.id)) d).mapError wrapListError := by
    rw [load]
    simp only [viewerName, (viewerOf_username hviewer).1]
    cases only with
    | false => cases viewer <;> rfl
    | true =>
        obtain ⟨v, rfl⟩ := Option.isSome_iff_exists.mp (honly rfl)
        rfl
  rw [hload, ArticleListQueryService.list, if_neg]
  · rfl
  · cases only <;> exact hvalid

/-- Both listings check the viewer, then the page. -/
theorem right_load {call : Call} {criteria : ArticleListQueryCriteria} {name : Option Str}
    (only : Bool) (filter : World.Filter)
    (htx : call.tx now = Call.tx.answer .list .articles (reading (load criteria name only)))
    (hrefusal : (world d).refusal call = firstFailure
      [(∀ v ∈ name, ((content d).account v).isSome, .list .viewerNotFound),
        (validPage criteria.offset criteria.limit, .list .validation)])
    (honly : only → name.isSome)
    (hsame : ∀ viewer, viewerName viewer = name →
      SameFilter (if only then { criteria with followedByUserId := viewer.map (·.id) }
        else criteria).toListFilters filter (if only then viewer else none))
    (hdoes : ∀ list, (world d).Lists filter criteria.offset criteria.limit name list →
      Does now (world d) (world d) call (.articles list)) : Right d ⟨now, call⟩ := by
  rw [firstFailure_cons, firstFailure_cons, firstFailure_nil] at hrefusal
  by_cases hname : ∀ v ∈ name, ((content d).account v).isSome
  · obtain ⟨viewer, hviewer, rfl⟩ := viewer_of_name hname
    rw [if_pos hname] at hrefusal
    have honly : only → viewer.isSome := fun h => by simpa [viewerName] using honly h
    by_cases hvalid : validPage criteria.offset criteria.limit
    · rw [if_pos hvalid] at hrefusal
      obtain ⟨result, elements, hlist, hload, helements⟩ := load_of_list hviewer honly hvalid
      refine right_ok htx (exec_reading.trans (congrArg _ hload)) hrefusal (hdoes _ ?_)
      have hfollower : ∀ v ∈ (if only then viewer else none), v ∈ d.users := by
        cases only with
        | false =>
            intro v hv
            cases hv
        | true => exact hviewer
      refine lists_of_result (hsame viewer rfl) hviewer hfollower hvalid ?_ helements
      rw [← hlist]
      cases only <;> rfl
    · rw [if_neg hvalid] at hrefusal
      refine right_refused .validation htx ?_ hrefusal
      rw [exec_reading, load_of_invalid hviewer honly hvalid]
      rfl
  · rw [if_neg hname] at hrefusal
    refine right_refused .viewerNotFound htx ?_ hrefusal
    obtain ⟨n, rfl, hnone⟩ : ∃ n, name = some n ∧ d.findUser n = none := by
      simpa [account_eq] using hname
    rw [exec_reading, load]
    simp only [Option.bind_some, hnone]
    rfl

theorem right_listArticles {query : ArticleListQueryDto} {viewerUsername : Option Str} :
    Right d ⟨now, .listArticles query viewerUsername⟩ := by
  refine right_load false query.filter rfl rfl nofun (fun viewer _ => ?_)
    fun list hlist => .listArticles hlist rfl
  exact ⟨rfl, rfl, rfl, rfl, rfl⟩

theorem right_feedArticles {query : ArticlePaginationDto} {viewerUsername : Str} :
    Right d ⟨now, .feedArticles query viewerUsername⟩ := by
  refine right_load true (feedFilter viewerUsername) rfl ?_ (fun _ => rfl)
    (fun viewer hviewer => ?_) fun list hlist => .feedArticles hlist rfl
  · simp [World.refusal, World.checks, ArticlePaginationDto.criteria]
  · exact ⟨rfl, rfl, rfl, rfl, hviewer.symm⟩

theorem right_listComments {viewerUsername : Option Str} :
    Right d ⟨now, .listComments slug viewerUsername⟩ := by
  have hspec := @list_spec slug viewerUsername d d
  cases ha : d.findArticle slug with
  | none =>
      rw [ha] at hspec
      refine right_refused .commentArticleNotFound rfl ?_ ?_
      · rw [exec_reading]
        exact congrArg _ hspec
      · simp [World.refusal, World.checks, post_eq, ha]
  | some a =>
      rw [ha] at hspec
      obtain ⟨hamem, rfl⟩ := Tables.findArticle_eq_some.mp ha
      obtain ⟨rows, shown, hlist, hlists⟩ := hspec
      obtain ⟨hthread, rfl⟩ := thread_of_lists hamem hlists
      refine right_ok rfl (exec_reading.trans (congrArg _ hlist)) ?_ (.listComments hthread rfl)
      simp [World.refusal, World.checks, post_eq, ha]

/-! ### Every request -/

/-- **The service refines the world.**  What it answers to a request and what it leaves is what the
world of its tables says. -/
theorem serves_world (d : Tables) (e : Request) :
    (world d).Serves e (serve d e).1 (world (serve d e).2) := by
  obtain ⟨now, call⟩ := e
  cases call with
  | createArticle => exact right_createArticle
  | updateArticle => exact right_updateArticle
  | deleteArticle => exact right_deleteArticle
  | createFavorite => exact right_createFavorite
  | deleteFavorite => exact right_deleteFavorite
  | createComment => exact right_createComment
  | deleteComment => exact right_deleteComment
  | follow => exact right_follow
  | unfollow => exact right_unfollow
  | getArticle => exact right_getArticle
  | listArticles => exact right_listArticles
  | feedArticles => exact right_feedArticles
  | listComments => exact right_listComments
  | getProfile => exact right_getProfile

theorem refines_world : Refines World.Serves serve world := serves_world

/-- **Every history of requests is one of the world.** -/
theorem history_of_requests (d : Tables) (requests : List Request) :
    Explains World.Serves (world d) (serveAll serve d requests).1
      (world (serveAll serve d requests).2) :=
  refines_world.explains

end

end MediumClone.Blog

end
