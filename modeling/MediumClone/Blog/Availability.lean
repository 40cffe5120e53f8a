import MediumClone.Articles.Success
import MediumClone.Blog.Http

/-!
# Blog — Availability

When a request makes the application fail.  Where the ids that a call draws are free
(`DrawsFresh`), the service refuses it only for a check that fails (`refusal_of_serve`).  So
whatever is stored, a server error has one of three causes: the deny list does not reply, the call
comes to a value that PostgreSQL does not take, or an article is an array (`server_error_iff`).
-/

noncomputable section

namespace MediumClone.Blog
open Js Sys Schema Articles Comments Profiles

/-- What the call draws for its rows is taken by nothing, and there is room for an article. -/
def Call.DrawsFresh (d : Tables) : Call → Prop
  | .createArticle call => (∀ b ∈ d.articles, b.id ≠ call.id) ∧ d.articles.length < maxRows ∧
      FreshTagIds call.newTagId (uniqueArticleTagNames (call.request.tagList.getD [])) d
  | .updateArticle call => ∀ names ∈ call.request.tagList,
      FreshTagIds call.newTagId (uniqueArticleTagNames names) d
  | .createComment call => FreeId call.id d
  | _ => True

section

variable {d d' : Tables} {now : Timestamp} {call : Call} {refusal : Refusal} {username slug : Str}

theorem findUser_of_account (h : ((world d).account username).isSome) :
    ∃ u, d.findUser username = some u := by
  obtain ⟨u, hu, hname⟩ := isSome_account.mp h
  exact ⟨u, Tables.findUser_eq_some.mpr ⟨hu, hname⟩⟩

theorem findArticle_of_post (h : ((world d).post slug).isSome) :
    ∃ a, d.findArticle slug = some a := by
  obtain ⟨a, ha, hslug⟩ := isSome_post.mp h
  exact ⟨a, Tables.findArticle_eq_some.mpr ⟨ha, hslug⟩⟩

theorem freshId_of_free {id : Uuid} (h : ∀ b ∈ d.articles, b.id ≠ id) : (world d).FreshId id := by
  intro slug p hp
  obtain ⟨a, ha, -, rfl⟩ := post_eq_some.mp hp
  exact h a ha

/-- A call that passes its checks succeeds where what it draws is free. -/
theorem succeeds_of_checks (hdraws : call.DrawsFresh d) (hfailure : call.failure.isSome)
    (hchecks : (world d).refusal call = none) : (call.tx now).Succeeds d := by
  have hchecks := checks_of_not_refused hchecks
  cases call with
  | createArticle call =>
      obtain ⟨hid, hroom, hfresh⟩ := hdraws
      simp only [World.checks, List.forall_mem_cons] at hchecks
      obtain ⟨haccount, hslug, -⟩ := hchecks
      obtain ⟨author, hu⟩ := findUser_of_account haccount
      have hnone : d.findArticle call.slug = none := by
        have hpost := hslug.resolve_left (not_not_intro (freshId_of_free hid))
        exact Option.map_eq_none_iff.mp (post_eq ▸ hpost)
      exact (succeeds_create hu hid (Tables.findArticle_eq_none.mp hnone) hroom hfresh).mapError.map
  | updateArticle call =>
      simp only [World.checks, List.forall_mem_cons] at hchecks
      obtain ⟨haccount, hpost, hauthor, -⟩ := hchecks
      obtain ⟨author, hu⟩ := findUser_of_account haccount
      obtain ⟨a, ha⟩ := findArticle_of_post hpost
      obtain ⟨hamem, hslug⟩ := Tables.findArticle_eq_some.mp ha
      have hown : a.authorId = author.id := by
        obtain ⟨hauthormem, hname⟩ := Tables.findUser_eq_some.mp hu
        obtain ⟨u, humem, hid, hposted⟩ := exists_author hamem
        have hsame : nameOf d a.authorId = call.username :=
          hauthor _ (hslug ▸ post_of_mem hamem)
        rw [← user_eq humem hauthormem (hposted.symm.trans (hsame.trans hname.symm)), hid]
      exact (succeeds_update hu ha hown hdraws).mapError.map
  | createComment call =>
      simp only [World.checks, List.forall_mem_cons] at hchecks
      obtain ⟨haccount, hpost, -⟩ := hchecks
      obtain ⟨user, hu⟩ := findUser_of_account haccount
      obtain ⟨a, ha⟩ := findArticle_of_post hpost
      obtain ⟨d₁, h₁⟩ := Option.isSome_iff_exists.mp <| isSome_insertComment
        (c := call.comment a user now) hdraws ⟨a, (Tables.findArticle_eq_some.mp ha).1, rfl⟩
        ⟨user, (Tables.findUser_eq_some.mp hu).1, rfl⟩
      exact Tx.Succeeds.map <| Tx.Succeeds.mapError <| Tx.Succeeds.mapError <|
        Tx.succeeds_select_bind <| Tx.succeeds_orThrow_bind hu <|
          Tx.succeeds_selectForUpdate_bind <| Tx.succeeds_orThrow_bind ha <|
            Tx.succeeds_attempt_bind h₁ Tx.succeeds_pure
  | _ => cases hfailure

/-- A call is refused only for a check that fails, where what it draws is free. -/
theorem refusal_of_serve (hdraws : call.DrawsFresh d)
    (h : serve d ⟨now, call⟩ = (.error refusal, d')) : (world d).refusal call = some refusal := by
  have hserves := serves_world d ⟨now, call⟩
  rw [h] at hserves
  obtain ⟨-, hcheck | ⟨hchecks, hfailure⟩⟩ := hserves
  · exact hcheck
  · have hsome : call.failure.isSome := by
      rw [hfailure]
      rfl
    obtain ⟨x, hx⟩ := @succeeds_of_checks d now call hdraws hsome hchecks
    rw [serve, hx] at h
    cases h

/-- A check that fails is not the server's fault. -/
theorem status_of_check (h : (world d).refusal call = some refusal) :
    refusal.response.status < 500 := by
  have hchecks : ∀ x ∈ ((world d).checks call).map Prod.snd, x.response.status < 500 := by
    cases call <;> simp [World.checks, World.favoriteChecks, Refusal.response, problem]
  exact hchecks refusal (mem_of_firstFailure h)

/-- A call that is rejected for its values is. -/
theorem status_rejection (call : Call) : call.rejection.response.status = 500 := by
  cases call <;> rfl

/-! ### Requests -/

variable {P : Platform} {r : HttpRequest} {sub sub' : Option Str} {invocation : Invocation}
  {answer : Answer}

/-- The invocation comes to a value that PostgreSQL does not take, or asks for an array to be
stored. -/
def Invocation.Fails (P : Platform) (d : Tables) : Invocation → Prop
  | .call call => P.rejects (call.stages (lookups d)) = true
  | .createArray username => ¬ (isText username ∧ (d.findUser username).isNone)

theorem not_fails_of_ok (h : P.invoke d now invocation = (.ok answer, d')) :
    ¬ invocation.Fails P d := by
  cases invocation with
  | call call =>
      intro hfails
      have hrejects : P.rejects (call.stages (lookups d)) = true := hfails
      rw [Platform.invoke, perform_of_rejects hrejects] at h
      cases h
  | createArray username => cases h

/-- Of the invocations that end in an error, those that fail are told of a server error. -/
theorem status_of_error (hdraws : ∀ call, invocation = .call call → call.DrawsFresh d)
    (h : P.invoke d now invocation = (.error refusal, d')) :
    500 ≤ refusal.response.status ↔ invocation.Fails P d := by
  cases invocation with
  | call call =>
      rw [Platform.invoke] at h
      -- a call that is not rejected is served, and then refused for a check
      by_cases hrejects : P.rejects (call.stages (lookups d)) = true
      · rw [perform_of_rejects hrejects] at h
        cases h
        exact iff_of_true (status_rejection call).ge hrejects
      · rw [perform_of_not_rejects hrejects] at h
        have hcheck := refusal_of_serve (hdraws call rfl) h
        exact iff_of_false (status_of_check hcheck).not_ge hrejects
  | createArray username =>
      cases h
      rw [createArray, Invocation.Fails]
      split
      · rename_i hnone
        exact iff_of_false (by decide) (not_not_intro hnone)
      · rename_i hsome
        exact iff_of_true le_rfl hsome

theorem showsToken_unique {username' : Str} (h : r.ShowsToken username)
    (h' : r.ShowsToken username') : username = username' := by
  obtain ⟨header, t, claims, hheader, hwords, hverify, -, hsub, -⟩ := h
  obtain ⟨header', t', claims', hheader', hwords', hverify', -, hsub', -⟩ := h'
  have htoken := Auth.Gate.getToken_eq_some.mpr ⟨header, hheader, hwords⟩
  rw [Auth.Gate.getToken_eq_some.mpr ⟨header', hheader', hwords'⟩] at htoken
  cases htoken
  cases hverify.symm.trans hverify'
  exact JsValue.string.inj (hsub.symm.trans hsub')

/-- A request is from one user, or from no one. -/
theorem from_unique (h : r.From sub) (h' : r.From sub') : sub = sub' := by
  cases h with
  | user hguard htoken =>
      cases h' with
      | user _ htoken' => rw [showsToken_unique htoken htoken']
      | anyone hnone => exact absurd hnone hguard
      | anonymous _ hnone =>
          obtain ⟨header, _, _, hheader, _⟩ := htoken
          cases hheader.symm.trans hnone
  | anyone hnone =>
      cases h' with
      | user hguard _ => exact absurd hnone hguard
      | anyone _ | anonymous _ _ => rfl
  | anonymous _ hnone =>
      cases h' with
      | user _ htoken =>
          obtain ⟨header, _, _, hheader, _⟩ := htoken
          cases hheader.symm.trans hnone
      | anyone _ | anonymous _ _ => rfl

/-- A request from someone has its look-up answered, or has none. -/
theorem not_unanswered_of_from (h : r.From sub) (hguard : r.route.guard ≠ .unguarded) :
    ¬ r.Unanswered := by
  rintro ⟨header, t, claims, hheader, hwords, hverify, hclaims, hnone⟩
  cases h with
  | user _ htoken =>
      obtain ⟨header', t', claims', hheader', hwords', hverify', -, -, hdenied⟩ := htoken
      have htoken := Auth.Gate.getToken_eq_some.mpr ⟨header, hheader, hwords⟩
      rw [Auth.Gate.getToken_eq_some.mpr ⟨header', hheader', hwords'⟩] at htoken
      cases htoken
      cases hverify.symm.trans hverify'
      obtain ⟨id, -, hid⟩ := hclaims.jti
      have hjti : Auth.Gate.jti claims = id := by rw [Auth.Gate.jti, hid]
      rw [hjti, hdenied id hid] at hnone
      cases hnone
  | anyone h => exact hguard h
  | anonymous _ h => cases hheader.symm.trans h

/-- **When a request gets a server error**, where what is drawn is free: when it comes to look up
its token and the deny list does not reply, or when what it asks for fails. -/
theorem server_error_iff (hdraws : ∀ sub call, r.From sub →
      r.route.invocation P r.drawn sub = .ok (.call call) → call.DrawsFresh d) :
    500 ≤ (respond P d r).1.status ↔
      (r.route.guard ≠ .unguarded ∧ r.Unanswered) ∨
        ∃ sub invocation, r.From sub ∧ r.route.invocation P r.drawn sub = .ok invocation ∧
          invocation.Fails P d := by
  have hresponded := responded P d r
  generalize respond P d r = x at hresponded
  cases hresponded with
  | unauthorized hfrom h =>
      -- it is from no one, so only the look-up can have failed
      have hno : ¬ ∃ sub invocation, r.From sub ∧
          r.route.invocation P r.drawn sub = .ok invocation ∧ invocation.Fails P d :=
        fun ⟨sub, _, hsub, _⟩ => hfrom sub hsub
      have hguard : r.route.guard ≠ .unguarded := fun h => hfrom none (.anyone h)
      rcases h with ⟨hunanswered, rfl⟩ | ⟨hanswered, rfl | ⟨rfl, -⟩⟩
      · exact iff_of_true le_rfl (.inl ⟨hguard, hunanswered⟩)
      · exact iff_of_false (by decide : ¬ 500 ≤ 401) fun h => h.elim (fun h => hanswered h.2) hno
      · exact iff_of_false (by decide : ¬ 500 ≤ 401) fun h => h.elim (fun h => hanswered h.2) hno
  | unprocessable hfrom hcall =>
      refine iff_of_false (by decide : ¬ 500 ≤ 422) ?_
      rintro (⟨hguard, hunanswered⟩ | ⟨sub, invocation, hsub, hinvocation, -⟩)
      · exact not_unanswered_of_from hfrom hguard hunanswered
      · rw [from_unique hsub hfrom, hcall] at hinvocation
        cases hinvocation
  | accepted hfrom hcall hinvoke =>
      refine iff_of_false (r.route.status_lt.trans (by decide)).not_ge ?_
      rintro (⟨hguard, hunanswered⟩ | ⟨sub, invocation, hsub, hinvocation, hfails⟩)
      · exact not_unanswered_of_from hfrom hguard hunanswered
      · rw [from_unique hsub hfrom, hcall] at hinvocation
        cases hinvocation
        exact not_fails_of_ok hinvoke hfails
  | @refused sub invocation refusal _ hfrom hcall hinvoke =>
      have hstatus := status_of_error (fun call h => hdraws _ call hfrom (h ▸ hcall)) hinvoke
      refine hstatus.trans ⟨fun hfails => .inr ⟨sub, invocation, hfrom, hcall, hfails⟩, ?_⟩
      rintro (⟨hguard, hunanswered⟩ | ⟨sub', invocation', hsub, hinvocation, hfails⟩)
      · exact absurd hunanswered (not_unanswered_of_from hfrom hguard)
      · rw [from_unique hsub hfrom, hcall] at hinvocation
        cases hinvocation
        exact hfails

end

/-! ### A create, and a slug with a NUL -/

/-- In the sample, `v` writes an article with a tag that there is and a new one. -/
def sampleCreate : HttpRequest where
  now := 2000
  authorization := some "Token jwt".toList
  route := .createArticle <| .object [("article".toList, .object
    [("title".toList, .string ['t']), ("description".toList, .string ['d']),
      ("body".toList, .string ['b']),
      ("tagList".toList, .array [.string ['x'], .string ['y']])])]
  drawn :=
    { articleId := 6
      slugId := ['k']
      newTagId := fun name => if name = ['x'] then 20 else 21
      commentId := 2 }
  verify token :=
    if token = "jwt".toList then
      some (Auth.Sessions.TokenClaims.toJs ⟨['w'], 90, 10, ['a'], ['j'], ['v']⟩)
    else none
  client _ := some none

def sampleCreateCall : CreateCall where
  username := ['v']
  request := ⟨['t'], ['d'], ['b'], some [['x'], ['y']]⟩
  id := 6
  slug := createArticleSlug asciiUnicode ['t'] ['k']
  newTagId := sampleCreate.drawn.newTagId

theorem freshTagIds_sampleCreate :
    FreshTagIds sampleCreate.drawn.newTagId [['x'], ['y']] Tables.sample :=
  ⟨by decide, by decide⟩

/-- Its token is one of `v`. -/
theorem sampleCreate_showsToken : sampleCreate.ShowsToken ['v'] := by
  refine ⟨_, "jwt".toList, _, rfl, ?_, rfl, ?_, rfl, fun _ _ => rfl⟩
  · exact Auth.Gate.twoWords_of_getToken (by decide +kernel)
  · exact Auth.Gate.isTokenClaims_iff.mp (by decide +kernel)

theorem sampleCreate_from : sampleCreate.From (some ['v']) :=
  .user (by decide) sampleCreate_showsToken

theorem sampleCreate_invocation : sampleCreate.route.invocation samplePlatform sampleCreate.drawn
    (some ['v']) = .ok (.call (.createArticle sampleCreateCall)) := rfl

/-- A read of the article with a NUL for its slug. -/
def sampleNul : HttpRequest := { sampleCreate with route := .getArticle [NUL] }

theorem server_error_iff_sample :
    ¬ 500 ≤ (respond samplePlatform Tables.sample sampleCreate).1.status ∧
      500 ≤ (respond samplePlatform Tables.sample sampleNul).1.status := by
  constructor
  · rw [server_error_iff]
    · rintro (⟨-, header, t, claims, -, -, -, -, hnone⟩ | ⟨sub, invocation, hsub, hcall, hfails⟩)
      · cases hnone
      · rw [from_unique hsub sampleCreate_from, sampleCreate_invocation] at hcall
        cases hcall
        have hno : ¬ samplePlatform.rejects ((Call.createArticle sampleCreateCall).stages
            (lookups Tables.sample)) = true := by decide +kernel
        exact hno hfails
    · intro sub call hsub hcall
      rw [from_unique hsub sampleCreate_from, sampleCreate_invocation] at hcall
      cases hcall
      exact ⟨(by decide : ∀ b ∈ Tables.sample.articles, b.id ≠ 6),
        (by decide : Tables.sample.articles.length < maxRows), freshTagIds_sampleCreate⟩
  · rw [server_error_iff]
    · have hfrom : sampleNul.From (some ['v']) := .user (by decide) sampleCreate_showsToken
      exact .inr ⟨_, _, hfrom, rfl, (by decide +kernel : samplePlatform.rejects
        ((Call.getArticle [NUL] (some ['v'])).stages (lookups Tables.sample)) = true)⟩
    · intro sub call _ hcall
      cases hcall
      trivial

end MediumClone.Blog

end
