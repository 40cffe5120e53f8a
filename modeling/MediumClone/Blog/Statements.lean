import MediumClone.Articles.Slug
import MediumClone.Blog.Refinement
import MediumClone.Validation.Pipe

/-!
# Blog — Statements

What PostgreSQL does not take.  A text value has no NUL, the name of a tag has to fit in the index
of `uq_tags_name`, and a statement has at most `MAX_PARAMETERS` parameters; a statement that breaks
this fails, and with it the call.

`Call.stages` lists, in the order of the services, the values that a call sends and the checks
between them, as far as it comes.  A call is rejected when it reaches a statement that fails
(`Platform.rejects`); it changes nothing then, and ends in `Call.rejection`, which is what its
service makes of a `QueryFailedError`.

Stages read the tables through `Lookups`, which the world has too: `lookups_world`.  So the calls,
with what PostgreSQL refuses, refine the world (`performs_platform`).
-/

noncomputable section

namespace MediumClone.Blog
open Js Sys Schema Articles Comments Profiles

/-! ### Statements -/

/-- What the application runs on. -/
structure Platform where
  unicode : Unicode
  /-- `Number(text)`. -/
  toNumber : Str → JsNumber
  libraries : Validation.Libraries
  /-- Whether the index entry of a tag is small enough. -/
  storesTag : Str → Bool

def NUL : Char := Char.ofNat 0

/-- A value that PostgreSQL takes for a text. -/
def isText (s : Str) : Bool := NUL ∉ s

/-- The bind message counts parameters in sixteen bits. -/
def MAX_PARAMETERS : ℕ := 65535

/-- The values of a request in the statements of one step. -/
structure Statement where
  texts : List Str
  /-- Names of new rows of `tags`. -/
  tagNames : List Str := []
  /-- How many parameters there are, where this has no bound. -/
  parameters : ℕ := 0

def Platform.carriesOut (P : Platform) (s : Statement) : Bool :=
  s.texts.all isText && s.tagNames.all P.storesTag && s.parameters ≤ MAX_PARAMETERS

inductive Stage where
  | statement (s : Statement)
  | check (holds : Bool)

/-- A statement with the values. -/
def values (texts : List Str) : Stage := .statement { texts := texts }

/-- A statement is reached that fails. -/
def Platform.rejects (P : Platform) : List Stage → Bool
  | [] => false
  | .statement s :: stages => !P.carriesOut s || P.rejects stages
  | .check holds :: stages => holds && P.rejects stages

/-! ### Calls -/

/-- What a call finds of an article. -/
@[ext] structure Found where
  title : Str
  description : Str
  body : Str
  tags : List Str
  /-- Whether the user of this name wrote it. -/
  isBy : Str → Bool

@[ext] structure Lookups where
  user : Str → Bool
  article : Str → Option Found
  /-- How many users have commented on the article. -/
  commenters : Str → ℕ

/-- The statements of `persistArticleTags` and `replaceArticleTags`: a parameter for each name, and
then three for each link. -/
def tagWrites (uniqueNames : List Str) : List Stage :=
  if uniqueNames = [] then []
  else
    [.statement
      { texts := uniqueNames
        tagNames := uniqueNames
        parameters := 3 * uniqueNames.length }]

/-- The value of a column that is saved. -/
def changed (value : Option Str) (current : Str) : List Str := (value.filter (· ≠ current)).toList

/-- An update from `applyScalarChanges` on. -/
def updateStages (request : ArticleUpdate) (article : Found) : List Stage :=
  values (changed request.title article.title ++ (changed request.description article.description ++
      changed request.body article.body)) ::
    match request.tagList with
    | none => []
    | some names =>
      if uniqueArticleTagNames names = article.tags then []
      else tagWrites (uniqueArticleTagNames names)

variable (L : Lookups)

/-- The user by name, and then the article by slug. -/
def userAndArticle (username slug : Str) : List Stage :=
  [values [username], .check (L.user username), values [slug], .check (L.article slug).isSome]

/-- The article is the user's own. -/
def isOwn (username slug : Str) : Stage := .check ((L.article slug).all (·.isBy username))

def Call.stages : Call → List Stage
  | .createArticle call =>
    [values [call.username], .check (L.user call.username),
        values [call.request.body, call.request.description, call.slug, call.request.title],
        .check (L.article call.slug).isNone] ++
      tagWrites (uniqueArticleTagNames (call.request.tagList.getD []))
  | .updateArticle call =>
    userAndArticle L call.username call.slug ++ isOwn L call.username call.slug ::
      ((L.article call.slug).map (updateStages call.request)).getD []
  | .deleteArticle slug username => userAndArticle L username slug
  | .createFavorite slug username => userAndArticle L username slug
  | .deleteFavorite slug username => userAndArticle L username slug
  | .createComment call => userAndArticle L call.username call.slug ++ [values [trim call.body]]
  | .deleteComment slug _ username =>
    [values [slug], .check (L.article slug).isSome, values [username]]
  -- both look-ups run at once
  | .follow followerUsername username => [values [followerUsername, username]]
  | .unfollow followerUsername username => [values [followerUsername, username]]
  | .getArticle slug viewerUsername =>
    [values [slug], .check (L.article slug).isSome, values (given viewerUsername).toList]
  | .listArticles query viewerUsername =>
    [values viewerUsername.toList, .check (viewerUsername.all L.user),
      .check (validPage query.offset query.limit),
      values (query.author.toList ++ (query.tag.toList ++ query.favorited.toList))]
  | .feedArticles _ viewerUsername => [values [viewerUsername]]
  | .listComments slug viewerUsername =>
    [values [slug], .check (L.article slug).isSome, .check (L.commenters slug ≠ 0)] ++
      (given viewerUsername).toList.map fun viewer =>
        .statement
          { texts := [viewer]
            parameters := L.commenters slug + 1 }
  | .getProfile username => [values [username]]

/-- What the service of the call makes of a `QueryFailedError`. -/
def Call.rejection : Call → Refusal
  | .createArticle _ => .article .articleCreatePersistence
  | .updateArticle _ => .article .updatePersistence
  | .deleteArticle _ _ => .article .deletePersistence
  | .createFavorite _ _ | .deleteFavorite _ _ | .getArticle _ _ => .article .queryFailed
  | .createComment _ | .deleteComment _ _ _ | .listComments _ _ => .comment .commentPersistence
  | .follow _ _ | .unfollow _ _ | .getProfile _ => .profile .queryFailed
  | .listArticles _ _ | .feedArticles _ _ => .list .persistence

/-! ### The tables -/

def lookups (d : Tables) : Lookups where
  user username := (d.findUser username).isSome
  article slug := (d.findArticle slug).map fun a =>
    { title := a.title
      description := a.description
      body := a.body
      tags := loadOrderedTags a.id d
      isBy := fun username => (d.findUser username).any fun u => a.authorId = u.id }
  commenters slug := ((d.findArticle slug).map fun a =>
    ((commentRows a.id d).map (·.2.id)).dedup.length).getD 0

/-- The answer to a request, and the tables after it. -/
def Platform.perform (P : Platform) (d : Tables) (e : Request) : Except Refusal Answer × Tables :=
  if P.rejects (e.call.stages (lookups d)) then (.error e.call.rejection, d) else serve d e

section

variable {P : Platform} {d : Tables} {e : Request}

theorem perform_of_rejects (h : P.rejects (e.call.stages (lookups d)) = true) :
    P.perform d e = (.error e.call.rejection, d) := if_pos h

theorem perform_of_not_rejects (h : ¬ P.rejects (e.call.stages (lookups d)) = true) :
    P.perform d e = serve d e := if_neg h

end

/-! ### The world -/

open Classical in
def World.lookups (w : World) : Lookups where
  user username := (w.account username).isSome
  article slug := (w.post slug).map fun p =>
    { title := p.title
      description := p.description
      body := p.body
      tags := p.tags
      isBy := fun username => decide (p.author = username) }
  commenters slug := {username | ∃ id r, w.remark id = some r ∧ r.slug = slug ∧
    r.author = username}.ncard

/-- A request is rejected for its values and changes nothing, or is served. -/
def Platform.Performs (P : Platform) (w : World) (e : Request) (result : Except Refusal Answer)
    (w' : World) : Prop :=
  if P.rejects (e.call.stages w.lookups) then result = .error e.call.rejection ∧ w' = w
  else w.Serves e result w'

section

variable {d : Tables} {a : Article} {slug username : Str}

theorem isBy_eq (ha : a ∈ d.articles) :
    nameOf d a.authorId = username ↔ (d.findUser username).any (fun u => a.authorId = u.id) := by
  obtain ⟨u, hu, hid, hname⟩ := exists_author ha
  rw [hname, Option.any_eq_true]
  constructor
  · rintro rfl
    exact ⟨u, Tables.findUser_eq_some.mpr ⟨hu, rfl⟩, decide_eq_true hid.symm⟩
  · rintro ⟨v, hv, hauthor⟩
    obtain ⟨hvmem, rfl⟩ := Tables.findUser_eq_some.mp hv
    have hsame : u.id = v.id := hid.trans (of_decide_eq_true hauthor)
    rw [Keyed.eq_of_key d.pk_users hu hvmem hsame]

/-- The users of the comments on an article, by name. -/
theorem commenters_eq (ha : a ∈ d.articles) :
    {username | ∃ id r, (world d).remark id = some r ∧ r.slug = a.slug ∧ r.author = username} =
      ↑(((commentRows a.id d).map (·.2.id)).toFinset.image (nameOf d)) := by
  ext username
  simp only [Set.mem_ofPred_eq, Finset.coe_image, Set.mem_image, List.coe_toFinset, List.mem_map,
    toContent_world, remark_eq_some]
  constructor
  · rintro ⟨id, r, ⟨c, hc, -, rfl⟩, hslug, rfl⟩
    obtain ⟨b, hb, hbc⟩ := d.fk_comments_article c hc
    obtain ⟨u, hu, hcu⟩ := d.fk_comments_author c hc
    rw [remarkOf, ← hbc, slugOf_eq hb] at hslug
    obtain rfl := article_eq hb ha hslug
    exact ⟨u.id, ⟨(c, u), mem_commentRows.mpr ⟨hc, hu, hcu, hbc.symm⟩, rfl⟩, by rw [remarkOf, hcu]⟩
  · rintro ⟨_, ⟨⟨c, u⟩, hx, rfl⟩, rfl⟩
    obtain ⟨hc, -, hcu, hca⟩ := mem_commentRows.mp hx
    refine ⟨c.id, _, ⟨c, hc, rfl, rfl⟩, ?_, ?_⟩
    · exact (congrArg (slugOf d) hca).trans (slugOf_eq ha)
    · exact congrArg (nameOf d) hcu.symm

theorem ncard_commenters (ha : a ∈ d.articles) :
    {username | ∃ id r, (world d).remark id = some r ∧ r.slug = a.slug ∧
      r.author = username}.ncard = ((commentRows a.id d).map (·.2.id)).dedup.length := by
  rw [commenters_eq ha, Set.ncard_coe_finset, Finset.card_image_of_injOn, List.card_toFinset]
  intro i hi j hj hname
  have huser : ∀ k ∈ (↑((commentRows a.id d).map (·.2.id)).toFinset : Set Uuid),
      ∃ u ∈ d.users, u.id = k := by
    intro k hk
    obtain ⟨x, hx, rfl⟩ := List.mem_map.mp (List.mem_toFinset.mp hk)
    exact ⟨x.2, (mem_commentRows.mp hx).2.1, rfl⟩
  obtain ⟨u, hu, rfl⟩ := huser i hi
  obtain ⟨v, hv, rfl⟩ := huser j hj
  -- no two users have one name
  have hnames : u.username = v.username := by rwa [nameOf_eq hu, nameOf_eq hv] at hname
  rw [user_eq hu hv hnames]

/-- **The world is looked up as the tables are.** -/
theorem lookups_world (d : Tables) : (world d).lookups = lookups d := by
  refine Lookups.ext ?_ ?_ ?_
  · funext username
    exact Option.isSome_map
  · funext slug
    refine (Option.map_map ..).trans (Option.map_congr fun a hfound => ?_)
    refine Found.ext rfl rfl rfl rfl (funext fun username => ?_)
    have ha := (Tables.findArticle_eq_some.mp hfound).1
    exact Bool.eq_iff_iff.mpr (decide_eq_true_iff.trans (isBy_eq ha))
  · funext slug
    cases hfound : d.findArticle slug with
    | some a =>
        obtain ⟨ha, rfl⟩ := Tables.findArticle_eq_some.mp hfound
        exact (ncard_commenters ha).trans (by simp [lookups, hfound])
    | none =>
        -- a remark is of a post, so there is none
        have hnone : {username | ∃ id r, (world d).remark id = some r ∧ r.slug = slug ∧
            r.author = username} = ∅ := by
          refine Set.eq_empty_of_forall_notMem ?_
          rintro _ ⟨id, r, hr, rfl, -⟩
          have hpost := ((world d).remark_known id r hr).2
          rw [toContent_world, post_eq, hfound] at hpost
          cases hpost
        exact (congrArg Set.ncard hnone).trans (by simp [lookups, hfound])

/-- **The calls, with what PostgreSQL refuses, refine the world.** -/
theorem performs_platform (P : Platform) (d : Tables) (e : Request) :
    P.Performs (world d) e (P.perform d e).1 (world (P.perform d e).2) := by
  rw [Platform.Performs, Platform.perform, lookups_world]
  split
  · exact ⟨rfl, rfl⟩
  · exact serves_world d e

end

/-- A platform as far as samples need one: six hundred characters fit in the index. -/
def samplePlatform : Platform where
  unicode := asciiUnicode
  toNumber s := if isDigits s then .finite (number s) else .nan
  libraries :=
    { isEmail := fun s => s.contains '@'
      unreported := fun _ => false
      message := fun property constraint => property ++ ' ' :: constraint }
  storesTag s := s.length ≤ 600

end MediumClone.Blog

end
