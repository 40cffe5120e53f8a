import MediumClone.Blog.Http

/-!
# Blog — Integrity

What is in a user's name is the user's doing.  A call that someone else makes leaves the articles,
follows, favorites and comments of a user as they are (`Untouched`), except that the favorites and
comments on an article go with the article.

So over HTTP, whatever anyone sends, nothing changes in the name of a user without a token of that
user (`content_integrity`).  None of these routes writes an account; what does is in
`Auth.Provenance`.
-/

noncomputable section

namespace MediumClone.Blog
open Js Sys Schema Articles Comments Profiles
open scoped Classical

/-! ### What is left alone -/

/-- What is in the user's name is the same, but for what went with the articles `gone`. -/
structure Untouched (username : Str) (gone : Set Str) (w w' : World) : Prop where
  account : w'.account username = w.account username
  post : ∀ slug p, p.author = username → (w'.post slug = some p ↔ w.post slug = some p)
  follow : ∀ other, (username, other) ∈ w'.follows ↔ (username, other) ∈ w.follows
  favorite : ∀ slug, (username, slug) ∈ w'.favorites → (username, slug) ∈ w.favorites
  favorite_stays : ∀ slug, slug ∉ gone → (username, slug) ∈ w.favorites →
    (username, slug) ∈ w'.favorites
  remark : ∀ id r, r.author = username → w'.remark id = some r → w.remark id = some r
  remark_stays : ∀ id r, r.author = username → r.slug ∉ gone → w.remark id = some r →
    w'.remark id = some r

section

variable {username : Str} {gone gone' : Set Str} {w w' w'' : World}

theorem Untouched.refl (w : World) : Untouched username gone w w where
  account := rfl
  post _ _ _ := Iff.rfl
  follow _ := Iff.rfl
  favorite _ := id
  favorite_stays _ _ := id
  remark _ _ _ := id
  remark_stays _ _ _ _ := id

theorem Untouched.trans (h : Untouched username gone w w') (h' : Untouched username gone w' w'') :
    Untouched username gone w w'' where
  account := h'.account.trans h.account
  post slug p hp := (h'.post slug p hp).trans (h.post slug p hp)
  follow other := (h'.follow other).trans (h.follow other)
  favorite slug hf := h.favorite slug (h'.favorite slug hf)
  favorite_stays slug hs hf := h'.favorite_stays slug hs (h.favorite_stays slug hs hf)
  remark id r hr hi := h.remark id r hr (h'.remark id r hr hi)
  remark_stays id r hr hs hi := h'.remark_stays id r hr hs (h.remark_stays id r hr hs hi)

theorem Untouched.mono (h : Untouched username gone w w') (hg : gone ⊆ gone') :
    Untouched username gone' w w' :=
  { h with
    favorite_stays := fun slug hs => h.favorite_stays slug fun hin => hs (hg hin)
    remark_stays := fun id r hr hs => h.remark_stays id r hr fun hin => hs (hg hin) }

/-- No one's account or follows, articles, favorites or comments differ but where it is said. -/
theorem Untouched.of_content {c : Content} (h : w'.toContent = c)
    (account : c.account = w.account)
    (post : ∀ slug p, p.author = username → (c.post slug = some p ↔ w.post slug = some p))
    (follow : ∀ other, (username, other) ∈ c.follows ↔ (username, other) ∈ w.follows)
    (favorite : ∀ slug, (username, slug) ∈ c.favorites ↔ (username, slug) ∈ w.favorites)
    (remark : ∀ id r, r.author = username → (c.remark id = some r ↔ w.remark id = some r)) :
    Untouched username gone w w' := by
  subst h
  exact ⟨congrFun account username, post, follow, fun slug => (favorite slug).mp,
    fun slug _ => (favorite slug).mpr, fun id r hr => (remark id r hr).mp,
    fun id r hr _ => (remark id r hr).mpr⟩

end

/-! ### Calls -/

/-- Who does the call; no one does a read. -/
def Call.actor : Call → Option Str
  | .createArticle call => some call.username
  | .updateArticle call => some call.username
  | .deleteArticle _ username | .createFavorite _ username | .deleteFavorite _ username =>
    some username
  | .createComment call => some call.username
  | .deleteComment _ _ username => some username
  | .follow followerUsername _ | .unfollow followerUsername _ => some followerUsername
  | .getArticle _ _ | .listArticles _ _ | .feedArticles _ _ | .listComments _ _ | .getProfile _ =>
    none

/-- The article that the call deletes. -/
def Call.deletes : Call → Set Str
  | .deleteArticle slug _ => {slug}
  | _ => ∅

section

variable {username : Str} {now : Timestamp} {w w' : World} {call : Call} {answer : Answer}

/-- What is written for one thing and another that do not count does not count. -/
theorem update_eq_some_iff {α β : Type} [DecidableEq α] {f : α → Option β} {k a : α}
    {x : Option β} {b : β} {P : β → Prop} (hold : ∀ b ∈ f k, ¬ P b) (hnew : ∀ b ∈ x, ¬ P b)
    (hb : P b) :
    Function.update f k x a = some b ↔ f a = some b := by
  by_cases ha : a = k
  · subst ha
    rw [Function.update_self]
    exact iff_of_false (fun h => hnew b h hb) fun h => hold b h hb
  · rw [Function.update_of_ne ha]

/-- **A call leaves alone what is in the name of anyone else.** -/
theorem Does.untouched (hpass : w.refusal call = none) (h : Does now w w' call answer)
    (hactor : call.actor ≠ some username) : Untouched username call.deletes w w' := by
  have hchecks := checks_of_not_refused hpass
  cases h with
  | @createArticle call hid h =>
      have hfree : w.post call.slug = none := by
        have := hchecks _ (List.mem_cons_of_mem _ List.mem_cons_self)
        exact this.resolve_left (not_not_intro hid)
      refine .of_content h rfl (fun slug p hp => ?_) (fun _ => Iff.rfl) (fun _ => Iff.rfl)
        fun _ _ _ => Iff.rfl
      refine update_eq_some_iff (P := (Post.author · = username)) ?_ ?_ hp
      · rw [hfree]
        exact nofun
      · rintro _ ⟨⟩ heq
        exact hactor (congrArg some heq)
  | @updateArticle call q hq h =>
      have hauthor : q.author = call.username :=
        hchecks _ (List.mem_cons_of_mem _ (List.mem_cons_of_mem _ List.mem_cons_self)) q hq
      refine .of_content h rfl (fun slug p hp => ?_) (fun _ => Iff.rfl) (fun _ => Iff.rfl)
        fun _ _ _ => Iff.rfl
      refine update_eq_some_iff (P := (Post.author · = username)) ?_ ?_ hp
      · rw [hq]
        rintro _ ⟨⟩ heq
        exact hactor (congrArg some (hauthor.symm.trans heq))
      · rintro _ ⟨⟩ heq
        exact hactor (congrArg some (hauthor.symm.trans heq))
  | @deleteArticle slug username' h =>
      have hauthor : ∀ q ∈ w.post slug, q.author = username' :=
        hchecks _ (List.mem_cons_of_mem _ (List.mem_cons_of_mem _ List.mem_cons_self))
      refine ⟨by rw [h], fun s p hp => ?_, fun _ => by rw [h], fun s => ?_, fun s hs => ?_,
        fun id r hr => ?_, fun id r hr hs => ?_⟩
      · rw [h]
        refine update_eq_some_iff (P := (Post.author · = username)) ?_
          (fun q h => absurd h (Option.not_mem_none q)) hp
        intro q hq heq
        exact hactor (congrArg some ((hauthor q hq).symm.trans heq))
      · rw [h]
        exact And.left
      · rw [h]
        exact fun hf => ⟨hf, hs⟩
      · rw [h]
        exact fun hi => (Option.filter_eq_some_iff.mp hi).1
      · rw [h]
        exact fun hi => Option.filter_eq_some_iff.mpr ⟨hi, decide_eq_true hs⟩
  | createFavorite hp h =>
      refine .of_content h rfl (fun _ _ _ => Iff.rfl) (fun _ => Iff.rfl) (fun slug => ?_)
        fun _ _ _ => Iff.rfl
      exact or_iff_right fun heq => hactor (congrArg some (Prod.mk.inj heq).1.symm)
  | deleteFavorite hp h =>
      refine .of_content h rfl (fun _ _ _ => Iff.rfl) (fun _ => Iff.rfl) (fun slug => ?_)
        fun _ _ _ => Iff.rfl
      exact and_iff_left fun heq => hactor (congrArg some (Prod.mk.inj heq).1.symm)
  | @createComment call hid h =>
      refine .of_content h rfl (fun _ _ _ => Iff.rfl) (fun _ => Iff.rfl) (fun _ => Iff.rfl)
        fun id r hr => ?_
      refine update_eq_some_iff (P := (Remark.author · = username)) ?_ ?_ hr
      · rw [hid]
        exact nofun
      · rintro _ ⟨⟩ heq
        exact hactor (congrArg some heq)
  | @deleteComment slug username' commentId h =>
      have hauthor : ∀ r ∈ w.remark commentId.toNat, r.author = username' :=
        hchecks _ (List.mem_cons_of_mem _ (List.mem_cons_of_mem _
          (List.mem_cons_of_mem _ List.mem_cons_self)))
      refine .of_content h rfl (fun _ _ _ => Iff.rfl) (fun _ => Iff.rfl) (fun _ => Iff.rfl)
        fun id r hr => ?_
      refine update_eq_some_iff (P := (Remark.author · = username)) ?_
        (fun q h => absurd h (Option.not_mem_none q)) hr
      intro r hr heq
      exact hactor (congrArg some ((hauthor r hr).symm.trans heq))
  | follow h =>
      refine .of_content h rfl (fun _ _ _ => Iff.rfl) (fun other => ?_) (fun _ => Iff.rfl)
        fun _ _ _ => Iff.rfl
      exact or_iff_right fun heq => hactor (congrArg some (Prod.mk.inj heq).1.symm)
  | unfollow h =>
      refine .of_content h rfl (fun _ _ _ => Iff.rfl) (fun other => ?_) (fun _ => Iff.rfl)
        fun _ _ _ => Iff.rfl
      exact and_iff_left fun heq => hactor (congrArg some (Prod.mk.inj heq).1.symm)
  | getArticle _ h | listArticles _ h | feedArticles _ h | listComments _ h | getProfile h =>
      rw [h]
      exact .refl w

end

/-! ### Requests -/

section

variable {P : Platform} {drawn : Drawn} {sub : Option Str} {route : Route} {call : Call}
  {username : Str} {r : HttpRequest} {response : Response} {w w' : World} {now : Timestamp}
  {invocation : Invocation} {answer : Answer} {refusal : Refusal}

/-- A call that someone does is of a guarded route, for the user of the token. -/
theorem actor_of_makes (h : route.Makes sub call) :
    ∀ u ∈ call.actor, route.guard = .required ∧ sub.getD [] = u := by
  intro u hu
  cases h with
  | listArticles | feedArticles | getArticle | listComments | getProfile => cases hu
  | createArticle h | updateArticle h | createComment h =>
      cases hu
      exact ⟨rfl, h.symm⟩
  | deleteArticle | createFavorite | deleteFavorite | deleteComment | followProfile
  | unfollowProfile =>
      cases hu
      exact ⟨rfl, rfl⟩

theorem deletes_of_makes (h : route.Makes sub call) :
    call.deletes ⊆ {slug | route = .deleteArticle slug} := by
  cases h with
  | deleteArticle => exact Set.singleton_subset_iff.mpr rfl
  | _ => exact Set.empty_subset _

/-- Who does the call of a request has shown a token. -/
theorem showsToken_of_actor (hfrom : r.From sub) (hmakes : r.route.Makes sub call)
    (hactor : call.actor = some username) : r.ShowsToken username := by
  obtain ⟨hguard, hsub⟩ := actor_of_makes hmakes username hactor
  cases hfrom with
  | user _ htoken =>
      rw [Option.getD_some] at hsub
      exact hsub ▸ htoken
  | anyone h => cases hguard.symm.trans h
  | anonymous h _ => cases hguard.symm.trans h

/-- What ends in an error changes nothing. -/
theorem same_of_refused (h : P.Invokes w now invocation (.error refusal) w') : w' = w := by
  cases h with
  | call h =>
      rw [Platform.Performs] at h
      split at h
      · exact h.2
      · exact h.1
  | noAuthor | noArticle => rfl

/-- What is answered is a call that passed its checks. -/
theorem does_of_accepted (h : P.Invokes w now invocation (.ok answer) w') : ∃ call,
    invocation = .call call ∧ w.refusal call = none ∧ Does now w w' call answer := by
  cases h with
  | @call call _ _ h =>
      rw [Platform.Performs] at h
      split at h
      · cases h.1
      · exact ⟨call, rfl, h.1, h.2⟩

theorem Answers.untouched (h : Answers P w r response w') (hno : ¬ r.ShowsToken username) :
    Untouched username {slug | r.route = .deleteArticle slug} w w' := by
  cases h with
  | unauthorized _ _ hsame | unprocessable _ _ _ hsame =>
      rw [hsame]
      exact .refl w
  | accepted hfrom hcall hinvokes =>
      obtain ⟨call, rfl, hpass, hdoes⟩ := does_of_accepted hinvokes
      have hmakes := makes_of_invocation hcall
      refine (hdoes.untouched hpass ?_).mono (deletes_of_makes hmakes)
      exact fun hactor => hno (showsToken_of_actor hfrom hmakes hactor)
  | refused _ _ hinvokes =>
      rw [same_of_refused hinvokes]
      exact .refl w

end

section

variable {P : Platform} {d : Tables} {requests : List HttpRequest} {username : Str}

/-- **Nothing changes in the name of a user without a token of that user**, whatever the requests
are.  Favorites and comments go only with an article that a request asks to delete. -/
theorem content_integrity (h : ∀ r ∈ requests, ¬ r.ShowsToken username) :
    Untouched username {slug | ∃ r ∈ requests, r.route = .deleteArticle slug} (world d)
      (world (serveAll (respond P) d requests).2) := by
  refine (refines_answers P).explains.relates Untouched.refl Untouched.trans
    fun w r response w' hmem hstep => ?_
  have hr : r ∈ requests := by
    rw [← @map_fst_serveAll _ _ _ (respond P) d requests]
    exact List.mem_map_of_mem hmem
  exact (hstep.untouched (h r hr)).mono fun slug hslug => ⟨r, hr, hslug⟩

/-- The claims of a token of `v`. -/
def sampleClaims : JsValue :=
  Auth.Sessions.TokenClaims.toJs ⟨['w'], 90, 10, ['a'], ['j'], ['v']⟩

/-- In the sample, `v` no longer follows `u`. -/
def sampleUnfollow : HttpRequest where
  now := 2000
  authorization := some "Token jwt".toList
  route := .unfollowProfile ['u']
  drawn := ⟨0, [], fun _ => 0, 0⟩
  verify token := if token = "jwt".toList then some sampleClaims else none
  client _ := some none

theorem sampleUnfollow_showsToken {username : Str} (h : sampleUnfollow.ShowsToken username) :
    username = ['v'] := by
  obtain ⟨-, t, claims, -, -, hverify, -, hsub, -⟩ := h
  obtain ⟨-, hclaims⟩ := Option.ite_none_right_eq_some.mp hverify
  cases hclaims
  exact (JsValue.string.inj hsub).symm

theorem content_integrity_sample :
    (respond samplePlatform Tables.sample sampleUnfollow).1.status = 200 ∧
    Untouched ['u'] {slug | ∃ r ∈ [sampleUnfollow], r.route = .deleteArticle slug}
      (world Tables.sample)
      (world (serveAll (respond samplePlatform) Tables.sample [sampleUnfollow]).2) := by
  refine ⟨by decide +kernel, content_integrity fun r hr hshows => ?_⟩
  obtain rfl := List.mem_singleton.mp hr
  cases sampleUnfollow_showsToken hshows

end

end MediumClone.Blog

end
