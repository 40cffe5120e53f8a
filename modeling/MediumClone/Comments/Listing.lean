import MediumClone.Comments.Store

/-!
# Comments — Listing

What `CommentService.list` answers, and from which states.

The answer is the article's comments, oldest first, each with its author and whether the viewer
follows that author: the one lookup for all authors tells what a lookup for each would
(`list_spec`).

A listing runs beside transactions of any kind.  It finds the article and reads the comments in one
snapshot, and looks up the follows later.  So what it answers is what it would answer from two
committed states, the earlier of which has the article (`listing_snapshot`).
-/

namespace MediumClone.Comments
open Js Sys Schema Articles

/-! ### The answer -/

/-- There is a viewer, who follows the user. -/
def ViewerFollows (viewerUsername : Option Str) (userId : Uuid) (db : Tables) : Prop :=
  ∃ name ∈ viewerUsername, ∃ viewer ∈ db.users, viewer.username = name ∧
    ⟨viewer.id, userId⟩ ∈ db.follows

/-- The comment as it is shown. -/
def ShownAs (viewerUsername : Option Str) (snapshot later : Tables) (c : Comment)
    (r : SerializedComment) : Prop :=
  ∃ author ∈ snapshot.users, author.id = c.authorId ∧ ∃ following : Bool,
    (following = true ↔ ViewerFollows viewerUsername c.authorId later) ∧
    r = serializeComment c author following

/-- The comments of the article, oldest first, each once. -/
structure Lists (viewerUsername : Option Str) (snapshot later : Tables) (a : Article)
    (rows : List Comment) (r : List SerializedComment) : Prop where
  perm : rows.Perm (snapshot.comments.filter (·.articleId = a.id))
  sorted : rows.Pairwise fun c c' =>
    c.createdAt < c'.createdAt ∨ c.createdAt = c'.createdAt ∧ c.id < c'.id
  shown : List.Forall₂ (ShownAs viewerUsername snapshot later) rows r

section

variable {slug viewer : Str} {viewerUsername : Option Str} {snapshot later db : Tables}
  {a : Article} {id : Uuid} {ids : List Uuid} {x : Comment × User}

/-- The one lookup for all authors tells what a lookup for each would. -/
theorem mem_loadFollowedAuthors : id ∈ loadFollowedAuthors viewer ids db ↔
    id ∈ ids ∧ ViewerFollows (some viewer) id db := by
  simp only [loadFollowedAuthors, List.mem_map, List.mem_filter, decide_eq_true_eq]
  constructor
  · rintro ⟨⟨f, u⟩, ⟨hjoin, hname, hin⟩, rfl⟩
    obtain ⟨hf, hu, hid⟩ := Sql.mem_innerJoin.mp hjoin
    have hid := of_decide_eq_true hid
    refine ⟨hin, viewer, rfl, u, hu, hname, ?_⟩
    rw [hid]
    exact hf
  · rintro ⟨hin, _, ⟨⟩, u, hu, hname, hf⟩
    exact ⟨⟨⟨u.id, id⟩, u⟩,
      ⟨Sql.mem_innerJoin.mpr ⟨hf, hu, decide_eq_true rfl⟩, hname, hin⟩, rfl⟩

theorem mem_commentRows : x ∈ commentRows a.id snapshot ↔ x.1 ∈ snapshot.comments ∧
    x.2 ∈ snapshot.users ∧ x.2.id = x.1.authorId ∧ x.1.articleId = a.id := by
  obtain ⟨c, u⟩ := x
  rw [commentRows, Sql.mem_orderBy, List.mem_filter, Sql.mem_innerJoin]
  simp [and_assoc]

/-- Each comment has its one author, so the join gives each comment once. -/
theorem map_fst_commentRows : ((commentRows a.id snapshot).map Prod.fst).Perm
    (snapshot.comments.filter (·.articleId = a.id)) := by
  have hjoin := Sql.map_fst_innerJoin snapshot.pk_users snapshot.fk_comments_author
  have hfilter := List.filter_map (f := Prod.fst) (p := fun c : Comment => c.articleId = a.id)
    (l := Sql.innerJoin snapshot.comments snapshot.users fun c u => u.id = c.authorId)
  rw [hjoin] at hfilter
  rw [hfilter]
  exact Sql.perm_orderBy.map _

theorem sorted_commentRows : ((commentRows a.id snapshot).map Prod.fst).Pairwise fun c c' =>
    c.createdAt < c'.createdAt ∨ c.createdAt = c'.createdAt ∧ c.id < c'.id := by
  have hkeys : ((commentRows a.id snapshot).map Prod.fst).Pairwise fun c c' => c.id ≠ c'.id := by
    have hrows : ((commentRows a.id snapshot).map Prod.fst).Perm _ := map_fst_commentRows
    have hn := hrows.map (·.id)
    exact List.pairwise_map.mp (hn.nodup_iff.mpr (Keyed.filter snapshot.pk_comments))
  have hle : ((commentRows a.id snapshot).map Prod.fst).Pairwise fun c c' =>
      toLex (c.createdAt, c.id) ≤ toLex (c'.createdAt, c'.id) :=
    List.pairwise_map.mpr Sql.sorted_orderBy
  refine (hle.and hkeys).imp ?_
  rintro c c' ⟨hle, hne⟩
  rcases Prod.Lex.le_iff.mp hle with hlt | ⟨heq, hid⟩
  · exact .inl hlt
  · exact .inr ⟨heq, lt_of_le_of_ne hid hne⟩

theorem forall₂_shownAs {f : Comment × User → Bool} (l : List (Comment × User))
    (hl : ∀ x ∈ l, x ∈ commentRows a.id snapshot ∧
      (f x = true ↔ ViewerFollows viewerUsername x.2.id later)) :
    List.Forall₂ (ShownAs viewerUsername snapshot later) (l.map Prod.fst)
      (l.map fun x => serializeComment x.1 x.2 (f x)) := by
  refine List.forall₂_map_left_iff.mpr (List.forall₂_map_right_iff.mpr ?_)
  refine List.forall₂_same.mpr fun x hx => ?_
  obtain ⟨hrow, hflag⟩ := hl x hx
  obtain ⟨-, hu, hid, -⟩ := mem_commentRows.mp hrow
  exact ⟨x.2, hu, hid, f x, hid ▸ hflag, rfl⟩

theorem lists_of_flag {f : Comment × User → Bool}
    (hflag : ∀ x ∈ commentRows a.id snapshot,
      (f x = true ↔ ViewerFollows viewerUsername x.2.id later)) :
    Lists viewerUsername snapshot later a ((commentRows a.id snapshot).map Prod.fst)
      ((commentRows a.id snapshot).map fun x => serializeComment x.1 x.2 (f x)) where
  perm := map_fst_commentRows
  sorted := sorted_commentRows
  shown := forall₂_shownAs _ fun x hx => ⟨hx, hflag x hx⟩

/-- No user has the empty name, so an empty viewer follows no one. -/
theorem not_viewerFollows (h : viewerUsername.filter (· ≠ []) = none) :
    ¬ ViewerFollows viewerUsername id db := by
  rintro ⟨name, hname, u, hu, rfl, -⟩
  have hne := Option.filter_eq_none_iff.mp h u.username hname
  exact hne (decide_eq_true (db.username_ne u hu))

/-- **What a listing answers**, from the snapshot and the later state. -/
theorem list_spec : match snapshot.findArticle slug with
    | none => CommentService.list slug viewerUsername snapshot later =
        .error .commentArticleNotFound
    | some a => ∃ rows r, CommentService.list slug viewerUsername snapshot later = .ok r ∧
        Lists viewerUsername snapshot later a rows r := by
  cases ha : snapshot.findArticle slug with
  | none => simp only [CommentService.list, ha]
  | some a =>
      simp only [CommentService.list, ha]
      cases hviewer : viewerUsername.filter (· ≠ []) with
      | none =>
          refine ⟨_, _, rfl, lists_of_flag fun x _ => ?_⟩
          simp [not_viewerFollows hviewer]
      | some viewer =>
          obtain ⟨rfl, -⟩ := Option.filter_eq_some_iff.mp hviewer
          by_cases hnil : commentRows a.id snapshot = []
          · have hlists : Lists (some viewer) snapshot later a _ _ :=
              lists_of_flag (f := fun _ => false) (by simp [hnil])
            rw [hnil] at hlists
            exact ⟨[], [], by simp [hnil], hlists⟩
          · refine ⟨_, _, if_neg hnil, lists_of_flag fun x hx => ?_⟩
            rw [decide_eq_true_eq, mem_loadFollowedAuthors, List.mem_dedup]
            exact and_iff_right (List.mem_map_of_mem hx)

end

/-! ### Beside transactions -/

/-- The call of a listing. -/
structure ListRequest where
  slug : Str
  viewerUsername : Option Str

/-- Where a listing stands: before its snapshot, with the article in it, with the comments and a
viewer to look up, at its end. -/
inductive Reader where
  | idle
  | found (snapshot : Tables) (article : Article)
  | loaded (comments : List (Comment × User)) (viewer : Str)
  | done (answer : Except CommentError (List SerializedComment))

/-- The next statement of a listing, when `db` is the committed state. -/
def Reader.next (request : ListRequest) (db : Tables) : Reader → Option Reader
  | .idle =>
    match db.findArticle request.slug with
    | none => some (.done (.error .commentArticleNotFound))
    | some article => some (.found db article)
  | .found snapshot article =>
    let comments := commentRows article.id snapshot
    match request.viewerUsername.filter (· ≠ []) with
    | none => some (.done (.ok (comments.map fun x => serializeComment x.1 x.2 false)))
    | some viewer =>
      if comments = [] then some (.done (.ok []))
      else some (.loaded comments viewer)
  | .loaded comments viewer =>
    let followedAuthorIds := loadFollowedAuthors viewer (comments.map (·.2.id)).dedup db
    some (.done (.ok (comments.map fun x =>
      serializeComment x.1 x.2 (x.2.id ∈ followedAuthorIds))))
  | .done _ => none

section

variable {ι κ ε α : Type}

structure ListingState (ι κ ε α : Type) where
  store : Transaction.State ι Timestamp Tables Row ε α
  reader : κ → Reader

inductive ListingEvent (ι κ : Type) where
  | call (e : Transaction.Event ι Timestamp)
  | list (j : κ)

def ListingState.init (d₀ : Tables) (t₀ : Timestamp) : ListingState ι κ ε α where
  store := Transaction.State.init d₀ t₀
  reader _ := .idle

variable [DecidableEq ι] [DecidableEq κ]

def ListingState.step (prog : ι → Timestamp → Tx Tables Row ε α) (request : κ → ListRequest)
    (s : ListingState ι κ ε α) : ListingEvent ι κ → Option (ListingState ι κ ε α)
  | .call e => (Transaction.step prog s.store e).map fun store => { s with store }
  | .list j => ((s.reader j).next (request j) s.store.db).map fun r =>
    { s with reader := Function.update s.reader j r }

/-- `earlier` and `later` are among the states, in this order; they may be one. -/
def InOrder (states : List Tables) (earlier later : Tables) : Prop :=
  ∃ n m : ℕ, n ≤ m ∧ states[n]? = some earlier ∧ states[m]? = some later

/-- What a listing has read so far is of a committed state. -/
def Reader.Sound (request : ListRequest) (states : List Tables) : Reader → Prop
  | .idle => True
  | .found snapshot article => snapshot ∈ states ∧ snapshot.findArticle request.slug = some article
  | .loaded comments viewer => request.viewerUsername.filter (· ≠ []) = some viewer ∧
    ∃ snapshot ∈ states, ∃ article, snapshot.findArticle request.slug = some article ∧
      comments = commentRows article.id snapshot ∧ comments ≠ []
  | .done answer => ∃ snapshot later, InOrder states snapshot later ∧
    answer = CommentService.list request.slug request.viewerUsername snapshot later

variable {states states' : List Tables} {request : ListRequest} {db snapshot later : Tables}

theorem InOrder.mono (hs : states <+: states') (h : InOrder states snapshot later) :
    InOrder states' snapshot later := by
  obtain ⟨n, m, hnm, hn, hm⟩ := h
  obtain ⟨rest, rfl⟩ := hs
  have hkeep : ∀ {k : ℕ} {d : Tables}, states[k]? = some d → (states ++ rest)[k]? = some d :=
    fun hk => (List.getElem?_append_left (List.getElem?_eq_some_iff.mp hk).1).trans hk
  exact ⟨n, m, hnm, hkeep hn, hkeep hm⟩

theorem inOrder_self (h : snapshot ∈ states) : InOrder states snapshot snapshot := by
  obtain ⟨n, hn⟩ := List.mem_iff_getElem?.mp h
  exact ⟨n, n, le_rfl, hn, hn⟩

theorem inOrder_last (h : snapshot ∈ states) (hlast : states.getLast? = some later) :
    InOrder states snapshot later := by
  obtain ⟨n, hn⟩ := List.mem_iff_getElem?.mp h
  have hlt := (List.getElem?_eq_some_iff.mp hn).1
  exact ⟨n, states.length - 1, by omega, hn, by rwa [← List.getLast?_eq_getElem?]⟩

theorem Reader.Sound.mono {r : Reader} (hs : states <+: states') (h : r.Sound request states) :
    r.Sound request states' := by
  cases r with
  | idle => trivial
  | found snapshot article => exact ⟨hs.subset h.1, h.2⟩
  | loaded comments viewer =>
      obtain ⟨hviewer, snapshot, hin, hrows⟩ := h
      exact ⟨hviewer, snapshot, hs.subset hin, hrows⟩
  | done answer =>
      obtain ⟨snapshot, later, horder, hanswer⟩ := h
      exact ⟨snapshot, later, horder.mono hs, hanswer⟩

/-- A statement of a listing reads the committed state, or the snapshot. -/
theorem Reader.Sound.next {r r' : Reader} (h : r.Sound request states)
    (hlast : states.getLast? = some db) (hr : r.next request db = some r') :
    r'.Sound request states := by
  have hdb : db ∈ states := List.mem_of_getLast? hlast
  cases r with
  | idle =>
      simp only [Reader.next] at hr
      split at hr
      · rename_i hnone
        cases hr
        exact ⟨db, db, inOrder_self hdb, by simp only [CommentService.list, hnone]⟩
      · rename_i article hsome
        cases hr
        exact ⟨hdb, hsome⟩
  | found snapshot article =>
      obtain ⟨hin, ha⟩ := h
      simp only [Reader.next] at hr
      split at hr
      · rename_i hviewer
        cases hr
        exact ⟨snapshot, snapshot, inOrder_self hin,
          by simp only [CommentService.list, ha, hviewer]⟩
      · rename_i viewer hviewer
        split at hr
        · rename_i hnil
          cases hr
          refine ⟨snapshot, snapshot, inOrder_self hin, ?_⟩
          simp only [CommentService.list, ha, hviewer, if_pos hnil]
        · rename_i hne
          cases hr
          exact ⟨hviewer, snapshot, hin, article, ha, rfl, hne⟩
  | loaded comments viewer =>
      obtain ⟨hviewer, snapshot, hin, article, ha, rfl, hne⟩ := h
      cases hr
      refine ⟨snapshot, db, inOrder_last hin hlast, ?_⟩
      simp only [CommentService.list, ha, hviewer, if_neg hne]
  | done answer => cases hr

variable {prog : ι → Timestamp → Tx Tables Row ε α} {requests : κ → ListRequest}
  {s s' : ListingState ι κ ε α} {e : ListingEvent ι κ} {es : List (ListingEvent ι κ)}
  {d₀ : Tables} {t₀ : Timestamp}

structure ListingInv (requests : κ → ListRequest) (d₀ : Tables) (s : ListingState ι κ ε α) :
    Prop where
  last : (s.store.committed d₀).getLast? = some s.store.db
  sound : ∀ j, (s.reader j).Sound (requests j) (s.store.committed d₀)

theorem ListingInv.step (h : ListingInv requests d₀ s)
    (hs : ListingState.step prog requests s e = some s') : ListingInv requests d₀ s' := by
  cases e with
  | call e =>
      obtain ⟨store, hstore, rfl⟩ := Option.map_eq_some_iff.mp hs
      exact ⟨Transaction.getLast_committed hstore h.last,
        fun j => (h.sound j).mono (Transaction.committed_prefix hstore)⟩
  | list j =>
      obtain ⟨r, hr, rfl⟩ := Option.map_eq_some_iff.mp hs
      refine ⟨h.last, fun k => ?_⟩
      by_cases hk : k = j
      · subst hk
        change (Function.update s.reader k r k).Sound (requests k) _
        rw [Function.update_self]
        exact (h.sound k).next h.last hr
      · change (Function.update s.reader j r k).Sound (requests k) _
        rw [Function.update_of_ne hk]
        exact h.sound k

theorem listingInv_of_run
    (hr : run (ListingState.step prog requests) (ListingState.init d₀ t₀) es = some s) :
    ListingInv requests d₀ s :=
  have hinit : ListingInv requests d₀ (ListingState.init d₀ t₀ : ListingState ι κ ε α) :=
    ⟨rfl, fun _ => trivial⟩
  run_invariant' (fun _ _ _ h hs => h.step hs) hinit hr

/-- **A listing reads one snapshot.**  From any two states it answers as `Lists` says.  Beside
transactions of any kind, a listing that ends answers from two committed states, the later one for
the follows.  It fails only with article-not-found, when the earlier one has no article of the slug;
else it lists the comments that the article has in the earlier one. -/
theorem listing_snapshot
    (hr : run (ListingState.step prog requests) (ListingState.init d₀ t₀) es = some s) :
    (∀ slug viewerUsername snapshot later, match Tables.findArticle snapshot slug with
      | none => CommentService.list slug viewerUsername snapshot later =
          .error .commentArticleNotFound
      | some a => ∃ rows r, CommentService.list slug viewerUsername snapshot later = .ok r ∧
          Lists viewerUsername snapshot later a rows r) ∧
    ∀ j answer, s.reader j = .done answer →
      ∃ snapshot later, InOrder (s.store.committed d₀) snapshot later ∧
        ((answer = .error .commentArticleNotFound ∧
            ∀ a ∈ snapshot.articles, a.slug ≠ (requests j).slug) ∨
          ∃ a ∈ snapshot.articles, a.slug = (requests j).slug ∧ ∃ rows r, answer = .ok r ∧
            Lists (requests j).viewerUsername snapshot later a rows r) := by
  refine ⟨fun _ _ _ _ => list_spec, fun j answer hj => ?_⟩
  have hsound := (listingInv_of_run hr).sound j
  rw [hj] at hsound
  obtain ⟨snapshot, later, horder, hanswer⟩ := hsound
  have hspec := @list_spec (requests j).slug (requests j).viewerUsername snapshot later
  refine ⟨snapshot, later, horder, ?_⟩
  cases ha : snapshot.findArticle (requests j).slug with
  | none =>
      rw [ha] at hspec
      exact .inl ⟨hanswer.trans hspec, Tables.findArticle_eq_none.mp ha⟩
  | some a =>
      rw [ha] at hspec
      obtain ⟨rows, r, hlist, hlists⟩ := hspec
      obtain ⟨hmem, hslug⟩ := Tables.findArticle_eq_some.mp ha
      exact .inr ⟨a, hmem, hslug, rows, r, hanswer.trans hlist, hlists⟩

/-- In the sample the comment is deleted after the snapshot and before the comments are read. -/
def sampleListing : List (ListingEvent Bool Unit) :=
  .list () :: (Transaction.Event.start true 2000 :: List.replicate 5 (.exec true)).map .call ++
    [.list (), .list ()]

theorem listing_snapshot_sample :
    ∃ (s : ListingState Bool Unit RequestError (Option SerializedComment)) (r : SerializedComment),
    run (ListingState.step (commentProgram sampleComments) fun _ => ⟨['s'], some ['u']⟩)
      (ListingState.init Tables.sample 0) sampleListing = some s ∧
    s.store.db.comments = [] ∧ r.body = ['c'] ∧ r.author.username = ['v'] ∧
    ∃ snapshot later, InOrder (s.store.committed Tables.sample) snapshot later ∧
      ∃ a rows, Lists (some ['u']) snapshot later a rows [r] := by
  have hruns : (run (ListingState.step (commentProgram sampleComments)
      fun _ => ⟨['s'], some ['u']⟩) (ListingState.init Tables.sample 0) sampleListing).map
      (fun s => (s.store.db.comments, s.reader ())) =
      some ([], .done (.ok [serializeComment ⟨1, 5, 2, ['c'], 1000, 1000⟩
        ⟨2, ['v'], some ['b'], none⟩ false])) := rfl
  obtain ⟨s, hs, hread⟩ := Option.map_eq_some_iff.mp hruns
  obtain ⟨hrows, hanswer⟩ := Prod.mk.inj hread
  obtain ⟨snapshot, later, horder, ⟨herror, -⟩ | ⟨a, -, -, rows, r, hok, hlists⟩⟩ :=
    (listing_snapshot hs).2 () _ hanswer
  · cases herror
  · cases hok
    exact ⟨s, _, hs, hrows, rfl, rfl, snapshot, later, horder, a, rows, hlists⟩

end

end MediumClone.Comments
