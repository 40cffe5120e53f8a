import MediumClone.Blog.Refinement

/-!
# Blog — History

What clients see is what they last set.  In a history of requests with their answers, the texts and
tags of an article, its author, whether a user has it favorited and whether one user follows another
are each as the last accepted request left them that sets them; no other request matters, and none
that is refused (`asLastSet`).

So an answer to a read follows from the answers that were given before it
(`getArticle_shows_last`).
-/

noncomputable section

namespace MediumClone.Blog
open Js Sys Schema Articles Comments Profiles
open scoped Classical

/-- A request with its answer. -/
abbrev Exchange := Request × Except Refusal Answer

/-! ### What an exchange sets -/

/-- What the accepted calls set; a refused one sets nothing. -/
def accepted {β : Type} (set : Call → Option β) : Exchange → Option β
  | (e, .ok _) => set e.call
  | (_, .error _) => none

/-- The user has the article favorited, or not. -/
def setsFavorite (username slug : Str) : Call → Option Prop
  | .createFavorite slug' username' =>
    if slug' = slug ∧ username' = username then some True else none
  | .deleteFavorite slug' username' =>
    if slug' = slug ∧ username' = username then some False else none
  | .deleteArticle slug' _ => if slug' = slug then some False else none
  | _ => none

/-- The follower follows the user, or not. -/
def setsFollow (follower username : Str) : Call → Option Prop
  | .follow follower' username' =>
    if follower' = follower ∧ username' = username then some True else none
  | .unfollow follower' username' =>
    if follower' = follower ∧ username' = username then some False else none
  | _ => none

/-- A part of an article: what it is in one, what a new one has, and what an update gives. -/
structure Part (β : Type) where
  get : Post → β
  created : CreateCall → β
  updated : ArticleUpdate → Option β

/-- There is the part of an article, or none where there is no article. -/
def Part.sets {β : Type} (part : Part β) (slug : Str) : Call → Option (Option β)
  | .createArticle call => if call.slug = slug then some (some (part.created call)) else none
  | .updateArticle call => if call.slug = slug then (part.updated call.request).map some else none
  | .deleteArticle slug' _ => if slug' = slug then some none else none
  | _ => none

/-- The calls treat the part as it says. -/
structure Part.Lawful {β : Type} (part : Part β) : Prop where
  created : ∀ call now, part.get (newPost call now) = part.created call
  updated : ∀ request now p,
    part.get (updatedPost request now p) = (part.updated request).getD (part.get p)

def Part.title : Part Str where
  get := (·.title)
  created call := call.request.title
  updated request := request.title

def Part.description : Part Str where
  get := (·.description)
  created call := call.request.description
  updated request := request.description

def Part.body : Part Str where
  get := (·.body)
  created call := call.request.body
  updated request := request.body

/-- Each name once. -/
def Part.tagList : Part (List Str) where
  get := (·.tags)
  created call := uniqueArticleTagNames (call.request.tagList.getD [])
  updated request := request.tagList.map uniqueArticleTagNames

/-- An update never changes it. -/
def Part.author : Part Str where
  get := (·.author)
  created call := call.username
  updated _ := none

theorem Part.lawful_title : Part.title.Lawful := ⟨fun _ _ => rfl, fun _ _ _ => rfl⟩

theorem Part.lawful_description : Part.description.Lawful := ⟨fun _ _ => rfl, fun _ _ _ => rfl⟩

theorem Part.lawful_body : Part.body.Lawful := ⟨fun _ _ => rfl, fun _ _ _ => rfl⟩

theorem Part.lawful_tagList : Part.tagList.Lawful := ⟨fun _ _ => rfl, fun _ _ _ => rfl⟩

theorem Part.lawful_author : Part.author.Lawful := ⟨fun _ _ => rfl, fun _ _ _ => rfl⟩

/-- As the exchanges of `h` last set it, or else as it was. -/
def lastSet {β : Type} (set : Call → Option β) (h : List Exchange) (before : β) : β :=
  ((h.filterMap (accepted set)).getLast?).getD before

/-! ### One exchange -/

section

variable {w w' : World} {e : Request} {result : Except Refusal Answer} {username slug : Str}

/-- A refused request sets nothing, and an accepted one does what it says. -/
theorem World.Serves.sets {β : Type} (look : World → β) {set : Call → Option β}
    (h : w.Serves e result w')
    (hdoes : ∀ answer, Does e.now w w' e.call answer → look w' = (set e.call).getD (look w)) :
    look w' = (accepted set (e, result)).getD (look w) := by
  cases result with
  | error refusal =>
      obtain ⟨rfl, -⟩ := h
      rfl
  | ok answer => exact hdoes answer h.2

theorem serves_favorite (hs : w.Serves e result w') : ((username, slug) ∈ w'.favorites) =
    (accepted (setsFavorite username slug) (e, result)).getD ((username, slug) ∈ w.favorites) := by
  obtain ⟨now, call⟩ := e
  refine hs.sets (fun w => (username, slug) ∈ w.favorites) fun answer hdoes => ?_
  cases hdoes with
  | createFavorite _ h =>
      rw [h, setsFavorite]
      split
      · rename_i heq
        simp [heq]
      · rename_i hne
        simp only [Set.mem_insert_iff, Prod.mk.injEq, Option.getD_none]
        exact propext (or_iff_right fun heq => hne ⟨heq.2.symm, heq.1.symm⟩)
  | deleteFavorite _ h =>
      rw [h, setsFavorite]
      split
      · rename_i heq
        simp [heq]
      · rename_i hne
        simp only [Set.mem_sdiff, Set.mem_singleton_iff, Prod.mk.injEq, Option.getD_none]
        exact propext (and_iff_left fun heq => hne ⟨heq.2.symm, heq.1.symm⟩)
  | deleteArticle h =>
      rw [h, setsFavorite]
      split
      · rename_i heq
        simp [heq]
      · rename_i hne
        exact propext (and_iff_left (Ne.symm hne))
  | createArticle _ h | updateArticle _ h | createComment _ h | deleteComment h | follow h
  | unfollow h => rw [h]; rfl
  | getArticle _ h | listArticles _ h | feedArticles _ h | listComments _ h | getProfile h =>
      rw [h]; rfl

theorem serves_follow {follower : Str} (hs : w.Serves e result w') :
    ((follower, username) ∈ w'.follows) =
      (accepted (setsFollow follower username) (e, result)).getD
        ((follower, username) ∈ w.follows) := by
  obtain ⟨now, call⟩ := e
  refine hs.sets (fun w => (follower, username) ∈ w.follows) fun answer hdoes => ?_
  cases hdoes with
  | follow h =>
      rw [h, setsFollow]
      split
      · rename_i heq
        simp [heq]
      · rename_i hne
        simp only [Set.mem_insert_iff, Prod.mk.injEq, Option.getD_none]
        exact propext (or_iff_right fun heq => hne ⟨heq.1.symm, heq.2.symm⟩)
  | unfollow h =>
      rw [h, setsFollow]
      split
      · rename_i heq
        simp [heq]
      · rename_i hne
        simp only [Set.mem_sdiff, Set.mem_singleton_iff, Prod.mk.injEq, Option.getD_none]
        exact propext (and_iff_left fun heq => hne ⟨heq.1.symm, heq.2.symm⟩)
  | createArticle _ h | updateArticle _ h | createComment _ h | createFavorite _ h
  | deleteFavorite _ h | deleteArticle h | deleteComment h => rw [h]; rfl
  | getArticle _ h | listArticles _ h | feedArticles _ h | listComments _ h | getProfile h =>
      rw [h]; rfl

theorem map_update {β : Type} {get : Post → β} {post : Str → Option Post} {slug' : Str}
    {p : Option Post} : (Function.update post slug' p slug).map get =
      if slug' = slug then p.map get else (post slug).map get := by
  by_cases h : slug' = slug
  · rw [if_pos h, h, Function.update_self]
  · rw [if_neg h, Function.update_of_ne (Ne.symm h)]

theorem serves_part {β : Type} {part : Part β} (hpart : part.Lawful) (hs : w.Serves e result w') :
    (w'.post slug).map part.get =
      (accepted (part.sets slug) (e, result)).getD ((w.post slug).map part.get) := by
  obtain ⟨now, call⟩ := e
  refine hs.sets (fun w => (w.post slug).map part.get) fun answer hdoes => ?_
  cases hdoes with
  | createArticle _ h =>
      rw [h, map_update, Part.sets, Option.map_some, hpart.created]
      split <;> rfl
  | @updateArticle call p hp h =>
      rw [h, map_update, Part.sets, Option.map_some, hpart.updated]
      split
      · rename_i heq
        subst heq
        rw [hp]
        cases part.updated call.request <;> rfl
      · rfl
  | deleteArticle h =>
      rw [h, map_update, Part.sets]
      split <;> rfl
  | createComment _ h | createFavorite _ h | deleteFavorite _ h | deleteComment h | follow h
  | unfollow h => rw [h]; rfl
  | getArticle _ h | listArticles _ h | feedArticles _ h | listComments _ h | getProfile h =>
      rw [h]; rfl

end

/-! ### Every history -/

/-- After the exchanges of `h`, which begin in `w`, everything is as it was last set. -/
structure AsLastSet (w : World) (h : List Exchange) (w' : World) : Prop where
  favorite : ∀ username slug, ((username, slug) ∈ w'.favorites) =
    lastSet (setsFavorite username slug) h ((username, slug) ∈ w.favorites)
  follow : ∀ follower username, ((follower, username) ∈ w'.follows) =
    lastSet (setsFollow follower username) h ((follower, username) ∈ w.follows)
  part : ∀ {β : Type} {part : Part β}, part.Lawful → ∀ slug, (w'.post slug).map part.get =
    lastSet (part.sets slug) h ((w.post slug).map part.get)

theorem asLastSet {w w' : World} {h : List Exchange} (hh : Explains World.Serves w h w') :
    AsLastSet w h w' where
  favorite username slug :=
    hh.last (fun w => (username, slug) ∈ w.favorites) fun _ _ _ _ => serves_favorite
  follow follower username :=
    hh.last (fun w => (follower, username) ∈ w.follows) fun _ _ _ _ => serves_follow
  part {_ part} hpart slug :=
    hh.last (fun w => (w.post slug).map part.get) fun _ _ _ _ => serves_part hpart

section

variable {d : Tables} {now : Timestamp} {requests : List Request} {slug : Str}
  {viewer : Option Str} {detail : ArticleDetail}

/-- **Readers see what was last set.**  What the service shows of an article, to a user or to
anyone, follows from the answers that were given before. -/
theorem getArticle_shows_last
    (h : (serve (serveAll serve d requests).2 ⟨now, .getArticle slug viewer⟩).1 =
      .ok (.article detail)) :
    let history := (serveAll serve d requests).1
    let shown {β : Type} (part : Part β) : Option β :=
      lastSet (part.sets slug) history (((world d).post slug).map part.get)
    shown .title = some detail.fields.title ∧ shown .description = some detail.fields.description ∧
      shown .body = some detail.body ∧ shown .tagList = some detail.fields.tagList ∧
      shown .author = some detail.fields.author.username ∧
      (detail.fields.favorited = true ↔ ∃ username ∈ viewer,
        lastSet (setsFavorite username slug) history ((username, slug) ∈ (world d).favorites)) ∧
      (detail.fields.author.following = true ↔ ∃ username ∈ viewer,
        lastSet (setsFollow username detail.fields.author.username) history
          ((username, detail.fields.author.username) ∈ (world d).follows)) := by
  intro history shown
  have hlast : AsLastSet (world d) history (world (serveAll serve d requests).2) :=
    asLastSet refines_world.explains
  have hserves := serves_world (serveAll serve d requests).2 ⟨now, .getArticle slug viewer⟩
  rw [h] at hserves
  obtain ⟨-, hdoes⟩ := hserves
  generalize hw : world (serveAll serve d requests).2 = w at hlast hdoes
  generalize world (serve _ _).2 = w' at hdoes
  cases hdoes with
  | @getArticle _ _ p hp hsame =>
      have hpart : ∀ {β : Type} {part : Part β}, part.Lawful → shown part = some (part.get p) := by
        intro β part hpart
        have := hlast.part hpart slug
        rw [hp] at this
        exact this.symm
      refine ⟨hpart Part.lawful_title, hpart Part.lawful_description, hpart Part.lawful_body,
        hpart Part.lawful_tagList, hpart Part.lawful_author, ?_, ?_⟩
      · refine decide_eq_true_iff.trans (exists_congr fun username => and_congr_right fun _ => ?_)
        rw [← hlast.favorite]
      · refine decide_eq_true_iff.trans (exists_congr fun username => and_congr_right fun _ => ?_)
        rw [← hlast.follow]
        rfl

/-- In the sample, a favorite that is refused and one that is not. -/
def sampleRequests : List Request :=
  [⟨2000, .createFavorite ['n'] ['u']⟩, ⟨3000, .createFavorite ['s'] ['u']⟩]

theorem getArticle_shows_last_sample : ∃ detail,
    (serve (serveAll serve Tables.sample sampleRequests).2
      ⟨4000, .getArticle ['s'] (some ['u'])⟩).1 = .ok (.article detail) ∧
    (detail.fields.favorited = true ↔ ∃ username ∈ some ['u'],
      lastSet (setsFavorite username ['s']) (serveAll serve Tables.sample sampleRequests).1
        ((username, ['s']) ∈ (world Tables.sample).favorites)) :=
  ⟨_, rfl,
    (@getArticle_shows_last Tables.sample 4000 sampleRequests ['s'] (some ['u']) _ rfl).2.2.2.2.2.1⟩

end

end MediumClone.Blog

end
