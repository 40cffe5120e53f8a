import MediumClone.Articles.Writes
import MediumClone.Comments.Service
import MediumClone.Profiles.Follows
import MediumClone.Support.Run

/-!
# Articles — Ownership

Who can change an article.  The operations on articles, favorites, comments and follows, by any
users and in any order, each with the whole effect of its transaction or none.

What a successful operation does to the tables is one of four things (`Effect`): it creates an
article, updates one by its author, deletes one by its author, or leaves articles and tags alone.
So an article keeps its identity while it exists, and its text, tags and existence are in the hands
of its author (`only_author_changes`).
-/

namespace MediumClone.Articles
open Js Sys Schema Comments Profiles

/-! ### Operations -/

inductive Operation where
  | createArticle (call : CreateCall)
  | updateArticle (call : UpdateCall)
  | deleteArticle (slug username : Str)
  | createFavorite (slug username : Str)
  | deleteFavorite (slug username : Str)
  | createComment (call : CommentCall)
  | listComments (slug : Str) (viewerUsername : Option Str)
  | deleteComment (slug : Str) (commentId : ℤ) (username : Str)
  | follow (followerUsername username : Str)
  | unfollow (followerUsername username : Str)

inductive Refusal where
  | article (e : ArticleError)
  | comment (e : CommentError)
  | profile (e : ProfileError)

/-- The list of the comments, all on one state. -/
def commentListing (slug : Str) (viewerUsername : Option Str) :
    CommentTx (List SerializedComment) := do
  let listed ← Tx.select fun db => CommentService.list slug viewerUsername db db
  match listed with
  | .ok comments => pure comments
  | .error error => Tx.throw error

/-- An operation as a transaction, whatever it returns. -/
def Operation.tx (now : Timestamp) : Operation → Tx Tables Row Refusal Unit
  | .createArticle call => done .article (ArticleCreateService.create call now)
  | .updateArticle call => done .article (ArticleUpdateService.update call now)
  | .deleteArticle slug username => done .article (ArticleDeleteService.delete slug username)
  | .createFavorite slug username => done .article (ArticleFavoriteService.create slug username)
  | .deleteFavorite slug username => done .article (ArticleFavoriteService.delete slug username)
  | .createComment call => done .comment (CommentService.create call now)
  | .listComments slug viewerUsername => done .comment (commentListing slug viewerUsername)
  | .deleteComment slug commentId username =>
    done .comment (CommentService.delete slug commentId username)
  | .follow followerUsername username =>
    done .profile (ProfileService.follow followerUsername username)
  | .unfollow followerUsername username =>
    done .profile (ProfileService.unfollow followerUsername username)
where
  done {ε α : Type} (e : ε → Refusal) (x : Tx Tables Row ε α) : Tx Tables Row Refusal Unit :=
    (fun _ => ()) <$> x.mapError e

/-- An operation that starts at `now`. -/
structure Request where
  now : Timestamp
  op : Operation

def Request.Succeeds (e : Request) (d : Tables) : Prop :=
  ∃ d', (e.op.tx e.now).exec d = .ok ((), d')

def perform (d : Tables) (e : Request) : Option Tables := some ((e.op.tx e.now).settle d)

/-! ### Who may do what -/

/-- The call is about `a`, by its author. -/
def ByAuthor (a : Article) (slug username : Str) (d : Tables) : Prop :=
  slug = a.slug ∧ ∃ user, d.findUser username = some user ∧ user.id = a.authorId

/-- A successful update of `a` by its author. -/
def Request.Updates (a : Article) (d : Tables) (e : Request) : Prop :=
  match e.op with
  | .updateArticle call => ByAuthor a call.slug call.username d ∧ e.Succeeds d
  | _ => False

/-- A successful delete of `a` by its author. -/
def Request.Deletes (a : Article) (d : Tables) (e : Request) : Prop :=
  match e.op with
  | .deleteArticle slug username => ByAuthor a slug username d ∧ e.Succeeds d
  | _ => False

/-- Users and articles that the operation names exist, and an update or delete is by the author. -/
def Operation.Allowed (d : Tables) : Operation → Prop
  | .createArticle call => (d.findUser call.username).isSome
  | .updateArticle call => ∃ a ∈ d.articles, ByAuthor a call.slug call.username d
  | .deleteArticle slug username => ∃ a ∈ d.articles, ByAuthor a slug username d
  | .createFavorite slug username => (d.findArticle slug).isSome ∧ (d.findUser username).isSome
  | .deleteFavorite slug username => (d.findArticle slug).isSome ∧ (d.findUser username).isSome
  | .createComment call => (d.findArticle call.slug).isSome ∧ (d.findUser call.username).isSome
  | .listComments slug _ => (d.findArticle slug).isSome
  | .deleteComment slug _ username => (d.findArticle slug).isSome ∧ (d.findUser username).isSome
  | .follow followerUsername username =>
    (d.findUser followerUsername).isSome ∧ (d.findUser username).isSome
  | .unfollow followerUsername username =>
    (d.findUser followerUsername).isSome ∧ (d.findUser username).isSome

/-- The article is gone with its links, favorites and comments, and nothing else is. -/
structure Removed (id : Uuid) (d d' : Tables) : Prop where
  users : d'.users = d.users
  articles : d'.articles = d.articles.filter (·.id ≠ id)
  tags : d'.tags = d.tags
  articleTags : d'.articleTags = d.articleTags.filter (·.articleId ≠ id)
  favorites : d'.favorites = d.favorites.filter (·.articleId ≠ id)
  comments : d'.comments = d.comments.filter (·.articleId ≠ id)
  follows : d'.follows = d.follows

/-- The row and the ordered tags of `a` are as they were. -/
structure Unchanged (a : Article) (d d' : Tables) : Prop where
  row : a ∈ d'.articles
  tags : loadOrderedTags a.id d' = loadOrderedTags a.id d

/-! ### What a successful operation does -/

/-- Articles, tags and their links stay. -/
structure Beside (d d' : Tables) : Prop where
  articles : d'.articles = d.articles
  tags : d'.tags = d.tags
  articleTags : d'.articleTags = d.articleTags

inductive Effect (now : Timestamp) (d d' : Tables) : Operation → Prop where
  | created {call : CreateCall} {author : User} (h : Created call author now d d') :
      Effect now d d' (.createArticle call)
  | updated {call : UpdateCall} {a : Article} (ha : a ∈ d.articles)
      (hown : ByAuthor a call.slug call.username d) (h : Updated call.request now a d d') :
      Effect now d d' (.updateArticle call)
  | deleted {slug username : Str} {a : Article} (ha : a ∈ d.articles)
      (hown : ByAuthor a slug username d) (h : Removed a.id d d') :
      Effect now d d' (.deleteArticle slug username)
  | beside {op : Operation} (h : Beside d d') : Effect now d d' op

section

variable {now : Timestamp} {d d' : Tables} {op : Operation} {a b : Article} {e : Request}

theorem byAuthor_of_found {slug username : Str} {user : User}
    (hu : d.findUser username = some user) (ha : d.findArticle slug = some a)
    (hown : a.authorId = user.id) : a ∈ d.articles ∧ ByAuthor a slug username d := by
  obtain ⟨hmem, hslug⟩ := Tables.findArticle_eq_some.mp ha
  exact ⟨hmem, hslug.symm, user, hu, hown.symm⟩

theorem exec_done {ε α : Type} {f : ε → Refusal} {x : Tx Tables Row ε α} :
    (Operation.tx.done f x).exec d = .ok ((), d') ↔ ∃ r, x.exec d = .ok (r, d') := by
  rw [Operation.tx.done, Tx.exec_map_ok]
  simp only [Tx.exec_mapError_ok, and_true]

theorem exec_commentListing {slug : Str} {viewerUsername : Option Str}
    {r : List SerializedComment}
    (h : (commentListing slug viewerUsername).exec d = .ok (r, d')) :
    (d.findArticle slug).isSome ∧ d' = d := by
  rw [commentListing, Tx.exec_select_bind] at h
  cases ha : d.findArticle slug with
  | none =>
      rw [CommentService.list, ha] at h
      cases h
  | some a =>
      cases hlist : CommentService.list slug viewerUsername d d with
      | ok comments =>
          rw [hlist] at h
          cases h
          exact ⟨rfl, rfl⟩
      | error error =>
          rw [hlist] at h
          cases h

theorem effect_of_exec (h : (op.tx now).exec d = .ok ((), d')) :
    op.Allowed d ∧ Effect now d d' op := by
  cases op with
  | createArticle call =>
      obtain ⟨r, h⟩ := exec_done.mp h
      obtain ⟨author, hauthor, hcreated, -⟩ := Articles.exec_create h
      exact ⟨by simp [Operation.Allowed, hauthor], .created hcreated⟩
  | updateArticle call =>
      obtain ⟨r, h⟩ := exec_done.mp h
      obtain ⟨author, a, hauthor, ha, hown, hupdated, -⟩ := exec_update h
      obtain ⟨hmem, hby⟩ := byAuthor_of_found hauthor ha hown
      exact ⟨⟨a, hmem, hby⟩, .updated hmem hby hupdated⟩
  | deleteArticle slug username =>
      obtain ⟨r, h⟩ := exec_done.mp h
      obtain ⟨user, a, huser, ha, hown, rfl⟩ := Articles.exec_delete h
      obtain ⟨hmem, hby⟩ := byAuthor_of_found huser ha hown
      exact ⟨⟨a, hmem, hby⟩, .deleted hmem hby ⟨rfl, rfl, rfl, rfl, rfl, rfl, rfl⟩⟩
  | createFavorite slug username =>
      obtain ⟨r, h⟩ := exec_done.mp h
      obtain ⟨viewer, a, hviewer, ha, hwrite, -⟩ := exec_favorite h
      obtain ⟨-, ho⟩ := Tables.insertFavorite_eq_some (Tx.exec_attempt.mp hwrite)
      exact ⟨by simp [Operation.Allowed, hviewer, ha],
        .beside ⟨ho.articles, ho.tags, ho.articleTags⟩⟩
  | deleteFavorite slug username =>
      obtain ⟨r, h⟩ := exec_done.mp h
      obtain ⟨viewer, a, hviewer, ha, hwrite, -⟩ := exec_favorite h
      cases hwrite
      exact ⟨by simp [Operation.Allowed, hviewer, ha], .beside ⟨rfl, rfl, rfl⟩⟩
  | createComment call =>
      obtain ⟨r, h⟩ := exec_done.mp h
      obtain ⟨user, a, huser, ha, -, ho, -⟩ := Comments.exec_create h
      exact ⟨by simp [Operation.Allowed, huser, ha], .beside ⟨ho.articles, ho.tags, ho.articleTags⟩⟩
  | listComments slug viewerUsername =>
      obtain ⟨r, h⟩ := exec_done.mp h
      obtain ⟨ha, rfl⟩ := exec_commentListing h
      exact ⟨ha, .beside ⟨rfl, rfl, rfl⟩⟩
  | deleteComment slug commentId username =>
      obtain ⟨r, h⟩ := exec_done.mp h
      obtain ⟨user, a, c, huser, ha, -, -, rfl⟩ := Comments.exec_delete h
      exact ⟨by simp [Operation.Allowed, huser, ha], .beside ⟨rfl, rfl, rfl⟩⟩
  | follow followerUsername username =>
      obtain ⟨r, h⟩ := exec_done.mp h
      obtain ⟨follower, hfollower, hfollowing, -, ho⟩ := exec_follow h
      exact ⟨by simp [Operation.Allowed, hfollower, hfollowing],
        .beside ⟨ho.articles, ho.tags, ho.articleTags⟩⟩
  | unfollow followerUsername username =>
      obtain ⟨r, h⟩ := exec_done.mp h
      obtain ⟨follower, hfollower, hfollowing, rfl⟩ := exec_unfollow h
      exact ⟨by simp [Operation.Allowed, hfollower, hfollowing], .beside ⟨rfl, rfl, rfl⟩⟩

/-! ### What it does to one article -/

theorem Unchanged.refl (ha : a ∈ d.articles) : Unchanged a d d := ⟨ha, rfl⟩

/-- Of two articles that calls name by one slug there is one. -/
theorem ByAuthor.eq {slug username username' : Str} (h : ByAuthor a slug username d)
    (h' : ByAuthor b slug username' d) (ha : a ∈ d.articles) (hb : b ∈ d.articles) : a = b :=
  Keyed.eq_of_key d.uq_articles_slug ha hb (h.1.symm.trans h'.1)

/-- Whose call it is does not depend on the text. -/
theorem ByAuthor.congr {slug username : Str} (h : a.SameIdentity b)
    (hb : ByAuthor b slug username d) : ByAuthor a slug username d := by
  obtain ⟨hslug, user, huser, hauthor⟩ := hb
  exact ⟨hslug.trans h.slug, user, huser, hauthor.trans h.authorId⟩

theorem Created.unchanged {call : CreateCall} {author : User} (h : Created call author now d d')
    (ha : a ∈ d.articles) : Unchanged a d d' where
  row := h.articles ▸ List.mem_append_left _ ha
  tags := loadOrderedTags_of_tags h.tags (h.others a.id (h.fresh a ha))

theorem Updated.unchanged {request : ArticleUpdate} (h : Updated request now b d d')
    (ha : a ∈ d.articles) (hid : a.id ≠ b.id) : Unchanged a d d' where
  row := h.articles ▸ List.mem_map.mpr ⟨a, ha, if_neg hid⟩
  tags := loadOrderedTags_of_tags h.tags (h.others a.id hid)

theorem Updated.stays {request : ArticleUpdate} (h : Updated request now a d d')
    (ha : a ∈ d.articles) : ∃ b ∈ d'.articles, a.SameIdentity b :=
  ⟨request.row now a (loadOrderedTags a.id d),
    h.articles ▸ List.mem_map.mpr ⟨a, ha, if_pos rfl⟩, ⟨rfl, rfl, rfl, rfl⟩⟩

theorem Removed.unchanged (h : Removed b.id d d') (ha : a ∈ d.articles) (hid : a.id ≠ b.id) :
    Unchanged a d d' where
  row := h.articles ▸ List.mem_filter.mpr ⟨ha, decide_eq_true hid⟩
  tags := loadOrderedTags_of_tags (h.tags ▸ List.prefix_rfl)
    (by rw [h.articleTags]; exact Keyed.filter_filter_ne hid)

theorem Beside.unchanged (h : Beside d d') (ha : a ∈ d.articles) : Unchanged a d d' where
  row := h.articles ▸ ha
  tags := loadOrderedTags_of_tags (h.tags ▸ List.prefix_rfl) (by rw [h.articleTags])

/-- An article is as it was, or its author updated or deleted it. -/
theorem article_of_succeeds (hs : (e.op.tx e.now).exec d = .ok ((), d')) (ha : a ∈ d.articles) :
    Unchanged a d d' ∨ (e.Updates a d ∧ ∃ b ∈ d'.articles, a.SameIdentity b) ∨
      (e.Deletes a d ∧ Removed a.id d d') := by
  obtain ⟨now, op⟩ := e
  obtain ⟨-, heffect⟩ := effect_of_exec hs
  cases heffect with
  | created h => exact .inl (h.unchanged ha)
  | @updated call b hb hown h =>
      -- the updated article is `a`, or `a` is another one
      by_cases hid : a.id = b.id
      · obtain rfl := Tables.article_ext ha hb hid
        exact .inr (.inl ⟨⟨hown, d', hs⟩, h.stays ha⟩)
      · exact .inl (h.unchanged ha hid)
  | @deleted slug username b hb hown h =>
      by_cases hid : a.id = b.id
      · obtain rfl := Tables.article_ext ha hb hid
        exact .inr (.inr ⟨⟨hown, d', hs⟩, h⟩)
      · exact .inl (h.unchanged ha hid)
  | beside h => exact .inl (h.unchanged ha)

theorem Request.Deletes.succeeds (h : e.Deletes a d) : e.Succeeds d := by
  obtain ⟨now, op⟩ := e
  cases op with
  | deleteArticle slug username => exact h.2
  | _ => exact h.elim

/-- What a delete by the author removes. -/
theorem removed_of_deletes (hs : (e.op.tx e.now).exec d = .ok ((), d')) (ha : a ∈ d.articles)
    (hdelete : e.Deletes a d) : Removed a.id d d' := by
  obtain ⟨now, op⟩ := e
  cases op with
  | deleteArticle slug username =>
      obtain ⟨r, h⟩ := exec_done.mp hs
      obtain ⟨user, b, huser, hb, hown, rfl⟩ := Articles.exec_delete h
      obtain ⟨hmem, hby⟩ := byAuthor_of_found huser hb hown
      obtain rfl := hby.eq hdelete.1 hmem ha
      exact ⟨rfl, rfl, rfl, rfl, rfl, rfl, rfl⟩
  | _ => exact hdelete.elim

/-! ### Requests in any order -/

/-- A request changes an article only as its author asks, and nothing where it is refused. -/
structure Authorized (d : Tables) (e : Request) (d' : Tables) : Prop where
  slugs : (d'.articles.map (·.slug)).Nodup
  stays : ∀ a ∈ d.articles, (∃ b ∈ d'.articles, a.SameIdentity b) ∨ e.Deletes a d
  content : ∀ a ∈ d.articles, ∀ b ∈ d'.articles, b.id = a.id → a.SameIdentity b ∧
    (Unchanged a d d' ∨ e.Updates a d)
  deletes : ∀ a ∈ d.articles, e.Deletes a d → Removed a.id d d'
  allowed : e.Succeeds d → e.op.Allowed d
  refused : ¬ e.Succeeds d → d' = d

theorem authorized_perform (h : perform d e = some d') : Authorized d e d' := by
  obtain rfl := Option.some.inj h
  have hunchanged : ∀ a ∈ d.articles, ∀ d', Unchanged a d d' → ∀ b ∈ d'.articles, b.id = a.id →
      a.SameIdentity b := by
    intro a _ d' h b hb hid
    obtain rfl := Tables.article_ext hb h.row hid
    exact .refl b
  cases hs : (e.op.tx e.now).exec d with
  | error refusal =>
      have hfails : ¬ e.Succeeds d := fun ⟨d', hd'⟩ => by rw [hs] at hd'; cases hd'
      rw [Tx.settle_error hs]
      exact ⟨d.uq_articles_slug, fun a ha => .inl ⟨a, ha, .refl a⟩,
        fun a ha b hb hid => ⟨hunchanged a ha d (.refl ha) b hb hid, .inl (.refl ha)⟩,
        fun a _ h => absurd h.succeeds hfails, fun h => absurd h hfails, fun _ => rfl⟩
  | ok r =>
      obtain ⟨⟨⟩, d'⟩ := r
      rw [Tx.settle_ok hs]
      refine ⟨d'.uq_articles_slug, fun a ha => ?_, fun a ha b hb hid => ?_,
        fun a ha => removed_of_deletes hs ha, fun _ => (effect_of_exec hs).1,
        fun h => absurd ⟨d', hs⟩ h⟩
      · obtain h | ⟨-, h⟩ | ⟨h, -⟩ := article_of_succeeds hs ha
        · exact .inl ⟨a, h.row, .refl a⟩
        · exact .inl h
        · exact .inr h
      · obtain h | ⟨h, b', hb', hsame⟩ | ⟨-, h⟩ := article_of_succeeds hs ha
        · exact ⟨hunchanged a ha d' h b hb hid, .inl h⟩
        · obtain rfl := Tables.article_ext hb hb' (hid.trans hsame.id.symm)
          exact ⟨hsame, .inr h⟩
        · -- a deleted article is not there
          rw [h.articles] at hb
          exact absurd hid (of_decide_eq_true (List.mem_filter.mp hb).2)

/-! ### Runs -/

theorem Request.Deletes.congr (h : a.SameIdentity b) (hb : e.Deletes b d) : e.Deletes a d := by
  obtain ⟨now, op⟩ := e
  cases op with
  | deleteArticle slug username => exact ⟨hb.1.congr h, hb.2⟩
  | _ => exact hb.elim

variable {es : List Request}

/-- While its author does not delete it, an article is there, with its identity. -/
theorem stays_of_run (hr : run perform d es = some d') (ha : a ∈ d.articles)
    (hkeep : Meets perform (fun d e => ¬ e.Deletes a d) d es) :
    ∃ b ∈ d'.articles, a.SameIdentity b := by
  refine run_invariant (I := fun d => ∃ b ∈ d.articles, a.SameIdentity b) ?_ hkeep
    ⟨a, ha, .refl a⟩ hr
  rintro d e d' ⟨b, hb, hab⟩ hdelete hs
  obtain ⟨c, hc, hbc⟩ | hb' := (authorized_perform hs).stays b hb
  · exact ⟨c, hc, hab.trans hbc⟩
  · exact absurd (hb'.congr hab) hdelete

/-- While its author neither updates nor deletes it, an article is as it was. -/
theorem unchanged_of_run (hr : run perform d es = some d') (ha : a ∈ d.articles)
    (hkeep : Meets perform (fun d e => ¬ e.Deletes a d ∧ ¬ e.Updates a d) d es) :
    Unchanged a d d' := by
  refine run_invariant (I := fun d' => Unchanged a d d') ?_ hkeep (.refl ha) hr
  rintro d₁ e d₂ h ⟨hdelete, hupdate⟩ hs
  have hauthorized := authorized_perform hs
  obtain ⟨b, hb, hab⟩ | hdelete' := hauthorized.stays a h.row
  · obtain ⟨-, hb' | hupdate'⟩ := hauthorized.content a h.row b hb hab.id
    · exact ⟨hb'.row, hb'.tags.trans h.tags⟩
    · exact absurd hupdate' hupdate
  · exact absurd hdelete' hdelete

/-- **Only the author changes an article, and its identity is fixed.**  In every run of requests,
every request is authorized; an article that its author does not delete on the way stands at the end
with its identity; and one that its author does not update either has its row and its ordered tags
unchanged. -/
theorem only_author_changes (hr : run perform d es = some d') :
    Meets perform (fun d e => ∀ d', perform d e = some d' → Authorized d e d') d es ∧
    ∀ a ∈ d.articles,
      (Meets perform (fun d e => ¬ e.Deletes a d) d es → ∃ b ∈ d'.articles, a.SameIdentity b) ∧
      (Meets perform (fun d e => ¬ e.Deletes a d ∧ ¬ e.Updates a d) d es → Unchanged a d d') :=
  ⟨meets_of_invariant (I := fun _ => True) (fun _ _ _ _ _ h => authorized_perform h)
    (fun _ _ _ _ _ _ => trivial) meets_true trivial,
    fun _ ha => ⟨stays_of_run hr ha, unchanged_of_run hr ha⟩⟩

/-- In the sample the author changes the title, and a follower may comment but not delete. -/
def sampleRequests : List Request :=
  [⟨2000, .updateArticle ⟨['s'], ['u'], ⟨some ['T'], none, none, none⟩, fun _ => 0⟩⟩,
    ⟨3000, .createComment ⟨['s'], ['v'], [' ', 'x'], 2⟩⟩,
    ⟨4000, .deleteArticle ['s'] ['v']⟩]

theorem only_author_changes_sample : ∃ d', run perform Tables.sample sampleRequests = some d' ∧
    Meets perform (fun d e => ∀ d', perform d e = some d' → Authorized d e d') Tables.sample
      sampleRequests ∧
    d'.articles = [⟨5, ['s'], ['T'], ['d'], ['b'], 1, 1000, 2000⟩] ∧ d'.comments.length = 2 := by
  have hruns : (run perform Tables.sample sampleRequests).map
      (fun d' => (d'.articles, d'.comments.length)) =
      some ([⟨5, ['s'], ['T'], ['d'], ['b'], 1, 1000, 2000⟩], 2) := rfl
  obtain ⟨d', hr, hread⟩ := Option.map_eq_some_iff.mp hruns
  obtain ⟨harticles, hcomments⟩ := Prod.mk.inj hread
  exact ⟨d', hr, (only_author_changes hr).1, harticles, hcomments⟩

end

end MediumClone.Articles
