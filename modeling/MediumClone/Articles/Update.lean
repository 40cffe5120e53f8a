import MediumClone.Articles.Writes

/-!
# Articles — Update

Updates and deletes of one article at once, each a transaction of its own
(`Sys.Transaction`): any number of calls, from any users, their statements interleaved.

Before a call holds the article it has read its user only, and no call writes users.  Once it holds
the article no other call writes at all, so the old values and the old tags that it compares with
the requested ones stay as it read them (`wellLocked_run`).  What the committed calls leave is then
what they make of the article one after another (`updates_serializable`), where an update sets what
it was asked to set (`ArticleCall.act`).

`updated_at` is the start of the transaction that changed the article last.  The order of the starts
need not be that of the commits, since a transaction starts before it waits for the article; so
`updated_at` can move backward.  It never does exactly when changes are committed in the order in
which their transactions started (`forward_iff_inStartOrder`).
-/

namespace MediumClone.Articles
open Js Sys Schema

/-! ### Calls -/

/-- A call on the article. -/
inductive ArticleCall where
  | update (username : Str) (request : ArticleUpdate) (newTagId : Str → Uuid)
  | delete (username : Str)

def ArticleCall.username : ArticleCall → Str
  | .update username _ _ => username
  | .delete username => username

/-- The transaction of a call that starts at `now`; an update returns the article. -/
def ArticleCall.run (slug : Str) : ArticleCall → Timestamp → ArticleTx (Option ArticleDetail)
  | .update username request newTagId, now =>
    some <$> ArticleUpdateService.update ⟨slug, username, request, newTagId⟩ now
  | .delete username, _ => (fun _ => none) <$> ArticleDeleteService.delete slug username

/-- What clients see of the article. -/
structure ArticleView where
  title : Str
  description : Str
  body : Str
  tags : List Str
  deriving DecidableEq

def view (slug : Str) (d : Tables) : Option ArticleView :=
  (d.findArticle slug).map fun a => ⟨a.title, a.description, a.body, loadOrderedTags a.id d⟩

/-- An update sets the fields and tags it is given; a delete leaves nothing. -/
def ArticleCall.act : ArticleCall → Option ArticleView → Option ArticleView
  | .update _ request _, v => v.map fun v =>
    { title := request.title.getD v.title
      description := request.description.getD v.description
      body := request.body.getD v.body
      tags := request.tagNames v.tags }
  | .delete _, _ => none

/-! ### The discipline -/

/-- Users stay, and all that there is stays for a holder of the article, or of none. -/
def SameArticle (slug : Str) (L : Set Row) (d d' : Tables) : Prop :=
  d'.users = d.users ∧ ((∀ a, d.findArticle slug = some a → Row.article a.id ∈ L) → d' = d)

theorem protects_sameArticle (slug : Str) : Protects (SameArticle slug) where
  refl L d := ⟨rfl, fun _ => rfl⟩
  trans h h' := by
    refine ⟨h'.1.trans h.1, fun hL => ?_⟩
    obtain rfl := h.2 hL
    exact h'.2 hL
  anti hL h := ⟨h.1, fun hd => h.2 fun a ha => hL (hd a ha)⟩

section

variable {slug username : Str} {d d' : Tables} {a : Article} {now : Timestamp} {call : UpdateCall}
  {b : Tables}

/-- A write that keeps the users. -/
def KeepsUsers (d d' : Tables) : Prop := d'.users = d.users

theorem writes_getBySlug {F : Tables → Tables → Prop} {v : Option Str} (hF : ∀ d, F d d) :
    (getBySlug slug v).Confined Eq F := by
  refine (Tx.writes_select hF).bind fun found => Tx.writes_orThrow.bind fun x => ?_
  refine Tx.Confined.bind ?_ fun viewer => ?_
  · rcases v with _ | _ | ⟨c, username⟩
    · exact Tx.writes_pure
    · exact Tx.writes_pure
    · exact (Tx.writes_select hF).bind fun _ => Tx.writes_orThrow.bind fun _ => Tx.writes_pure
  · refine (Tx.writes_select hF).bind fun _ => (Tx.writes_select hF).bind fun _ => ?_
    cases viewer with
    | none => exact Tx.writes_pure
    | some viewer =>
        exact (Tx.writes_select hF).bind fun _ => (Tx.writes_select hF).bind fun _ =>
          Tx.writes_pure

theorem keepsUsers_refl (d : Tables) : KeepsUsers d d := rfl

theorem writes_saveArticle {changed : Bool} {entity : Article} :
    (saveArticle changed entity now).Confined Eq KeepsUsers := by
  cases changed with
  | false => exact Tx.writes_pure
  | true => exact Tx.writes_execute keepsUsers_refl

theorem writes_touchUpdatedAt {changed : Bool} {id : Uuid} :
    (touchUpdatedAt changed id now).Confined Eq KeepsUsers := by
  cases changed with
  | true => exact Tx.writes_pure
  | false => exact Tx.writes_execute keepsUsers_refl

theorem writes_ensureTagsExist {newTagId : Str → Uuid} {names : List Str} :
    (ensureTagsExist newTagId names).Confined Eq KeepsUsers := by
  unfold ensureTagsExist
  split
  · exact Tx.writes_pure
  · have hinsert : ∀ d : Tables, KeepsUsers d
        (d.insertTags (names.map fun name => ⟨newTagId name, name⟩)) :=
      fun _ => (Tables.tagsGrow_insertTags _).users
    refine (Tx.writes_execute hinsert).bind fun _ => ?_
    exact (Tx.writes_select keepsUsers_refl).bind fun _ => Tx.writes_require.bind fun _ =>
      Tx.writes_pure

theorem writes_insertArticleTagLinks {id : Uuid} {names : List Str} {tagIds : Map Str Uuid} :
    (insertArticleTagLinks id names tagIds).Confined Eq KeepsUsers := by
  unfold insertArticleTagLinks
  split
  · exact Tx.writes_pure
  · refine Tx.writes_attempt keepsUsers_refl fun d d' h => ?_
    obtain ⟨rows, -, h⟩ := Option.bind_eq_some_iff.mp h
    exact (Tables.insertArticleTags_eq_some h).2.users

theorem writes_updateTags {id : Uuid} {changed : Bool} :
    (updateTags call now id changed).Confined Eq KeepsUsers := by
  unfold updateTags
  split
  · exact Tx.writes_pure
  · refine (Tx.writes_select keepsUsers_refl).bind fun existing => ?_
    change Tx.Confined Eq KeepsUsers (if (!hasSameOrderedTagNames _ _) = true then _ else _)
    split
    · refine writes_touchUpdatedAt.bind fun _ => Tx.Confined.bind ?_ fun _ => Tx.writes_pure
      refine writes_ensureTagsExist.bind fun _ => Tx.Confined.bind (Tx.writes_execute ?_) fun _ =>
        writes_insertArticleTagLinks.bind fun _ => Tx.writes_pure
      exact fun _ => rfl
    · exact Tx.writes_pure

theorem writes_updateLocked : (updateLocked call now a).Confined Eq KeepsUsers :=
  writes_saveArticle.bind fun _ => writes_updateTags.bind fun _ => writes_getBySlug keepsUsers_refl

theorem writes_deleteLocked : (deleteLocked a).Confined Eq KeepsUsers := by
  refine Tx.Confined.bind (Tx.writes_execute ?_) fun _ => Tx.writes_require.bind fun _ =>
    Tx.writes_pure
  exact fun _ => rfl

/-- Whoever has locked the article works on a state that is its own. -/
theorem wellLocked_locked {α : Type} {x : ArticleTx α} {L : Set Row}
    (hx : x.Confined Eq KeepsUsers) (hb : b.findArticle slug = some a) (hL : Row.article a.id ∈ L) :
    WellLocked (SameArticle slug) x L id b := by
  have hown : ∀ d, SameArticle slug L b d → d = b := fun d hd => hd.2 fun a' ha' => by
    obtain rfl := Option.some.inj (hb.symm.trans ha')
    exact hL
  refine WellLocked.of_confined (protects_sameArticle slug) hx ?_ (fun _ _ => rfl)
    (fun _ _ _ h h' => h'.trans h) ?_
  · intro d d' hd hdd'
    obtain rfl := hown d hd
    exact (hown d' hdd').symm
  · intro d d' M hd hM husers
    obtain rfl := hown d hd
    exact ⟨husers, fun hM' => absurd hL (hM _ (hM' a hb))⟩

/-- The statements that both services begin with: the user, the article under its lock, and the
check that they belong together. -/
theorem wellLocked_checked {α : Type} {e₁ e₂ e₃ : ArticleError} {x : Article → ArticleTx α}
    (hx : ∀ a, (x a).Confined Eq KeepsUsers) : WellLocked (SameArticle slug) (do
      let found ← Tx.select (·.findUser username)
      let user ← Tx.orThrow e₁ found
      let found ← Tx.selectForUpdate (·.findArticle slug) fun article => Row.article article.id
      let article ← Tx.orThrow e₂ found
      Tx.require (article.authorId = user.id) e₃
      x article) ∅ id b := by
  refine wellLocked_select (fun d _ d' h => ?_) fun d _ => ?_
  · simp only [id_eq, Tables.findUser, h.1]
  refine wellLocked_orThrow fun user _ => ?_
  refine wellLocked_selectForUpdate (fun d₁ _ hnone => ?_) fun d₁ _ a ha => ?_
  · -- no article: there is nothing that another call could do to it
    refine ⟨fun d' h => ?_, wellLocked_orThrow (by rintro a ⟨⟩)⟩
    obtain rfl := h.2 fun a ha => by
      have hsome := hnone.symm.trans ha
      cases hsome
    exact hnone
  · refine ⟨fun d' h => ?_, ?_⟩
    · obtain rfl := h.2 fun a' ha' => by
        obtain rfl := Option.some.inj (ha.symm.trans ha')
        exact Set.mem_insert _ _
      exact ha
    · refine wellLocked_orThrow fun a' ha' => wellLocked_require fun _ => ?_
      obtain rfl := Option.some.inj ha'
      exact wellLocked_locked (hx a) ha (Set.mem_insert _ _)

theorem wellLocked_run {c : ArticleCall} :
    WellLocked (SameArticle slug) (c.run slug now) ∅ id b := by
  cases c with
  | update username request newTagId =>
      exact (wellLocked_checked fun _ => writes_updateLocked).mapError.map
  | delete username => exact (wellLocked_checked fun _ => writes_deleteLocked).mapError.map

end

/-! ### What a call alone does to the article -/

section

variable {slug : Str} {d d' : Tables} {a : Article} {now : Timestamp} {request : ArticleUpdate}
  {c : ArticleCall} {r : Option ArticleDetail}

theorem Updated.findArticle (h : Updated request now a d d') (ha : d.findArticle slug = some a) :
    d'.findArticle slug = some (request.row now a (loadOrderedTags a.id d)) := by
  obtain ⟨hmem, hslug⟩ := Tables.findArticle_eq_some.mp ha
  rw [Tables.findArticle_eq_some, h.articles]
  exact ⟨List.mem_map.mpr ⟨a, hmem, if_pos rfl⟩, hslug⟩

theorem Updated.view (h : Updated request now a d d') (ha : d.findArticle slug = some a) :
    view slug d' = (ArticleCall.update [] request fun _ => 0).act (view slug d) := by
  rw [Articles.view, h.findArticle ha, Articles.view, ha]
  simp only [Option.map_some, ArticleCall.act]
  exact congrArg some (by rw [← h.ordered]; rfl)

theorem findArticle_deleteArticle (ha : d.findArticle slug = some a) :
    (d.deleteArticle a.id).findArticle slug = none := by
  obtain ⟨hmem, hslug⟩ := Tables.findArticle_eq_some.mp ha
  rw [Tables.findArticle_eq_none]
  intro b hb hs
  obtain ⟨hb, hid⟩ := List.mem_filter.mp hb
  obtain rfl := Keyed.eq_of_key d.uq_articles_slug hb hmem (hs.trans hslug.symm)
  simp at hid

/-- A call that commits found the article, and did to it what it is meant to do. -/
theorem exec_run (h : (c.run slug now).exec d = .ok (r, d')) :
    d'.users = d.users ∧ (d.findArticle slug).isSome ∧ view slug d' = c.act (view slug d) := by
  cases c with
  | update username request newTagId =>
      obtain ⟨detail, h, -⟩ := Tx.exec_map_ok.mp h
      obtain ⟨author, a, -, ha, -, hu, -⟩ := exec_update h
      exact ⟨hu.users, by rw [ha]; rfl, hu.view ha⟩
  | delete username =>
      obtain ⟨u, h, -⟩ := Tx.exec_map_ok.mp h
      obtain ⟨user, a, -, ha, -, rfl⟩ := exec_delete h
      refine ⟨rfl, by rw [ha]; rfl, ?_⟩
      rw [view, findArticle_deleteArticle ha]
      rfl

/-- What a call throws where there is no article. -/
def ArticleCall.notFound : ArticleCall → ArticleError
  | .update _ _ _ => .updateArticleNotFound
  | .delete _ => .deleteArticleNotFound

theorem exec_run_notFound (huser : (d.findUser c.username).isSome)
    (ha : d.findArticle slug = none) : (c.run slug now).exec d = .error c.notFound := by
  obtain ⟨user, huser⟩ := Option.isSome_iff_exists.mp huser
  cases c with
  | update username request newTagId =>
      refine Tx.exec_map_error ?_
      rw [ArticleCall.username] at huser
      simp [ArticleUpdateService.update, huser, ha, Except.mapError, ArticleCall.notFound,
        wrapUpdateError]
  | delete username =>
      refine Tx.exec_map_error ?_
      rw [ArticleCall.username] at huser
      simp [ArticleDeleteService.delete, huser, ha, Except.mapError, ArticleCall.notFound,
        wrapDeleteError]

end

/-! ### Serializability -/

section

variable {ι : Type} {slug : Str} {calls : ι → ArticleCall} {d₀ d : Tables}

/-- The calls of a run, by their start. -/
def program (slug : Str) (calls : ι → ArticleCall) (i : ι) (now : Timestamp) :
    ArticleTx (Option ArticleDetail) :=
  (calls i).run slug now

abbrev RunState (ι : Type) : Type :=
  Transaction.State ι Timestamp Tables Row ArticleError (Option ArticleDetail)

abbrev RunCommit (ι : Type) : Type :=
  Transaction.Commit ι Timestamp Tables (Option ArticleDetail)

abbrev RunLog (ι : Type) : Type := List (RunCommit ι)

/-- The article after the calls of the log, one after another. -/
def replay (calls : ι → ArticleCall) (log : RunLog ι) (v : Option ArticleView) :
    Option ArticleView :=
  log.foldl (fun v c => (calls c.call).act v) v

theorem view_of_replays {log : RunLog ι} (h : Transaction.Replays (program slug calls) d₀ log d) :
    d.users = d₀.users ∧ view slug d = replay calls log (view slug d₀) := by
  induction h with
  | nil => exact ⟨rfl, rfl⟩
  | snoc h hc ih =>
      obtain ⟨husers, -, hview⟩ := exec_run hc
      refine ⟨husers.trans ih.1, ?_⟩
      rw [replay, List.foldl_append, hview, ih.2]
      rfl

theorem replay_none {log : RunLog ι} : replay calls log none = none := by
  induction log with
  | nil => rfl
  | cons c log ih =>
      have hact : (calls c.call).act none = none := by cases calls c.call <;> rfl
      rw [replay, List.foldl_cons, hact]
      exact ih

/-- After a delete there is no article. -/
theorem replay_of_delete {log : RunLog ι} {v : Option ArticleView}
    {c : RunCommit ι} {username : Str}
    (hc : c ∈ log) (hdelete : calls c.call = .delete username) : replay calls log v = none := by
  induction log generalizing v with
  | nil => cases hc
  | cons c' log ih =>
      rw [replay, List.foldl_cons]
      rcases List.mem_cons.mp hc with rfl | hc
      · rw [hdelete]
        exact replay_none
      · exact ih hc

theorem findArticle_of_view (h : view slug d = none) : d.findArticle slug = none := by
  simpa [view] using h

variable [DecidableEq ι] {s s' : RunState ι} {t₀ : Timestamp}
  {es : List (Transaction.Event ι Timestamp)} {e : Transaction.Event ι Timestamp}

theorem inv_of_run
    (hr : run (Transaction.step (program slug calls)) (Transaction.State.init d₀ t₀) es = some s) :
    Transaction.Inv (SameArticle slug) (program slug calls) d₀ s :=
  Transaction.serializable (protects_sameArticle slug) (fun _ _ _ => wellLocked_run) hr

/-- Where there is no article, no call commits. -/
theorem log_of_step (h : Transaction.Inv (SameArticle slug) (program slug calls) d₀ s)
    (ha : s.db.findArticle slug = none)
    (hs : Transaction.step (program slug calls) s e = some s') : s'.log = s.log := by
  obtain ⟨-, hlog⟩ | ⟨i, t, pend, r, -, hi, rfl⟩ := Transaction.step_commits hs
  · exact hlog
  · have hexec := h.exec_ret (protects_sameArticle slug) hi
    obtain ⟨-, hfound, -⟩ := exec_run (c := calls i) hexec
    rw [ha] at hfound
    cases hfound

/-- **Updates of an article are serializable.**  In every run of updates and deletes of the article
with the slug, by any users: the commits are a serial history, each from the full result of the one
before; the article is what the committed calls make of it in that order; a call that fails changes
nothing.  After a committed delete nothing commits any more, and a call by a user is refused with
"not found". -/
theorem updates_serializable
    (hr : run (Transaction.step (program slug calls)) (Transaction.State.init d₀ t₀) es = some s) :
    Transaction.Serialized (program slug calls) d₀ s ∧
    view slug s.db = replay calls s.log (view slug d₀) ∧
    ∀ c ∈ s.log, ∀ username, calls c.call = .delete username →
      (∀ e s', Transaction.step (program slug calls) s e = some s' →
        s'.log = s.log ∧ s'.db = s.db) ∧
      ∀ i t pend error, s.session i = .running t pend (.throw error) →
        (d₀.findUser (calls i).username).isSome → error = (calls i).notFound := by
  have hinv := inv_of_run hr
  have hserial := hinv.serialized (protects_sameArticle slug)
  obtain ⟨husers, hview⟩ := view_of_replays hserial.replays
  refine ⟨hserial, hview, fun c hc username hdelete => ?_⟩
  have hgone : s.db.findArticle slug = none :=
    findArticle_of_view (hview.trans (replay_of_delete hc hdelete))
  refine ⟨fun e s' hs => ?_, fun i t pend error hi huser => ?_⟩
  · have hlog := log_of_step hinv hgone hs
    exact ⟨hlog, hserial.failed e s' hs hlog⟩
  · have huser' : (s.db.findUser (calls i).username).isSome := by
      rwa [Tables.findUser, husers]
    have hrefused := hserial.refused i t pend error hi
    rw [program, exec_run_notFound huser' hgone] at hrefused
    exact (Except.error.inj hrefused).symm

/-- Two updates of the sample article, of its title and of its body, both survive. -/
def sampleCalls : Bool → ArticleCall
  | true => .update ['u'] ⟨some ['T'], none, none, none⟩ fun _ => 0
  | false => .update ['u'] ⟨none, none, some ['B'], none⟩ fun _ => 0

/-- `true` starts first; both read their user before either locks the article. -/
def sampleEvents : List (Transaction.Event Bool Timestamp) :=
  [.start true 2000, .start false 3000, .exec true, .exec false] ++
    List.replicate 9 (.exec true) ++ List.replicate 9 (.exec false)

theorem updates_serializable_sample : ∃ s : RunState Bool,
    run (Transaction.step (program ['s'] sampleCalls)) (Transaction.State.init Tables.sample 1000)
      sampleEvents = some s ∧
    Transaction.Serialized (program ['s'] sampleCalls) Tables.sample s ∧
    view ['s'] s.db = some ⟨['T'], ['d'], ['B'], [['t'], ['x']]⟩ := by
  have hview : (run (Transaction.step (program ['s'] sampleCalls))
      (Transaction.State.init Tables.sample 1000) sampleEvents).map (fun s => view ['s'] s.db) =
      some (some ⟨['T'], ['d'], ['B'], [['t'], ['x']]⟩) := rfl
  obtain ⟨s, hs, hv⟩ := Option.map_eq_some_iff.mp hview
  exact ⟨s, hs, (updates_serializable hs).1, hv⟩

end

end MediumClone.Articles
