import MediumClone.Blog.Refinement
import MediumClone.Blog.Locking

/-!
# Blog — Concurrent

The calls that lock an article, all at once: favorites set and taken back, comments created and
deleted, articles edited and deleted, by any users, on any articles, their statements interleaved.
What they answer, refusals included, is what the world answers to them one after another, in the
order in which they end (`concurrent_history`).

Not covered is an edit that brings a new tag into the tables, since two such edits may draw an id
for one name.  That the identity column gives no number twice is what a new comment relies on.
-/

noncomputable section

namespace MediumClone.Blog
open Js Sys Schema Articles Comments

/-! ### Calls -/

/-- The call locks its article before it writes. -/
def Call.LocksArticle : Call → Prop
  | .updateArticle _ => True
  | .deleteArticle _ _ => True
  | .createFavorite _ _ => True
  | .deleteFavorite _ _ => True
  | .createComment _ => True
  | .deleteComment _ _ _ => True
  | _ => False

/-- The tags that the call asks for. -/
def Call.newNames : Call → List Str
  | .updateArticle call => call.request.newNames
  | _ => []

/-- The number that the identity column has for the call. -/
def Call.newCommentId : Call → Option ℕ
  | .createComment call => some call.id
  | _ => none

/-- What a call relies on until it ends. -/
structure Call.Relies (call : Call) (d : Tables) : Prop where
  known : ∀ name ∈ call.newNames, name ∈ (content d).tags
  free : ∀ id ∈ call.newCommentId, (content d).remark id = none

/-- Calls that can run at once: each locks its article, asks for tags that there are, and has a
number of its own for a new comment. -/
structure Concurrent {ι : Type} (calls : ι → Call) (d : Tables) : Prop where
  locks : ∀ i, (calls i).LocksArticle
  relies : ∀ i, (calls i).Relies d
  once : ∀ i j, ∀ id ∈ (calls i).newCommentId, id ∈ (calls j).newCommentId → i = j

def program {ι : Type} (calls : ι → Call) (i : ι) (now : Timestamp) :
    Tx Tables Row Refusal Answer :=
  (calls i).tx now

section

variable {call : Call} {now : Timestamp} {d d' b : Tables} {w w' : World} {answer : Answer}
  {error : Refusal}

theorem remark_eq_none {id : ℕ} (h : (content d).remark id = none) : FreeId id d := by
  intro c hc hid
  have hsome := remark_eq_some.mpr ⟨c, hc, hid, rfl⟩
  rw [h] at hsome
  cases hsome

/-! ### The discipline -/

theorem wellLocked_tx (h : call.LocksArticle) :
    WellLockedIn call.Relies SameHeld (call.tx now) ∅ id b := by
  cases call with
  | updateArticle call =>
      exact (wellLocked_checked (fun _ => confined_updateLocked)
        fun d hd name hname => hd.known name hname).mapError.mapError.map
  | deleteArticle slug username =>
      exact (wellLocked_checked (fun _ => confined_deleteLocked)
        fun d hd name hname => hd.known name hname).mapError.mapError.map
  | createFavorite slug username =>
      exact (wellLocked_favorite fun _ _ => confined_createFavorite).toIn.mapError.map
  | deleteFavorite slug username =>
      exact (wellLocked_favorite fun _ _ => confined_deleteFavorite).toIn.mapError.map
  | createComment call =>
      exact (wellLocked_createComment fun d hd => remark_eq_none (hd.free _ rfl)).mapError.map
  | deleteComment slug commentId username => exact wellLocked_deleteComment.toIn.mapError.map
  | _ => exact h.elim

/-! ### What calls keep -/

theorem serves_of_exec_ok (h : (call.tx now).exec d = .ok (answer, d')) :
    (world d).Serves ⟨now, call⟩ (.ok answer) (world d') := by
  have hserves := serves_world d ⟨now, call⟩
  rwa [serve, h] at hserves

theorem serves_of_exec_error (h : (call.tx now).exec d = .error error) :
    (world d).Serves ⟨now, call⟩ (.error error) (world d) := by
  have hserves := serves_world d ⟨now, call⟩
  rwa [serve, h] at hserves

theorem Does.tags (h : Does now w w' call answer) : w.tags ⊆ w'.tags := by
  cases h with
  | createArticle _ h | updateArticle _ h => rw [h]; exact Set.subset_union_left
  | deleteArticle h | createFavorite _ h | deleteFavorite _ h | createComment _ h | deleteComment h
  | follow h | unfollow h => rw [h]
  | getArticle _ h | listArticles _ h | feedArticles _ h | listComments _ h | getProfile h => rw [h]

/-- A comment comes only with its call. -/
theorem Does.remark (h : Does now w w' call answer) {id : ℕ} (hw : w.remark id = none)
    (hid : id ∉ call.newCommentId) : w'.remark id = none := by
  cases h with
  | createComment _ h =>
      rw [h]
      exact (Function.update_of_ne (fun heq => hid (congrArg some heq.symm)) _ _).trans hw
  | deleteComment h =>
      rw [h]
      simp only [Function.update_apply]
      split
      · rfl
      · exact hw
  | deleteArticle h =>
      rw [h]
      simp [hw]
  | createArticle _ h | updateArticle _ h | createFavorite _ h | deleteFavorite _ h | follow h
  | unfollow h => rw [h]; exact hw
  | getArticle _ h | listArticles _ h | feedArticles _ h | listComments _ h | getProfile h =>
      rw [h]; exact hw

end

section

variable {ι : Type} {calls : ι → Call} {d₀ : Tables}

theorem keepsRely_calls (hc : Concurrent calls d₀) :
    Transaction.KeepsRely (fun i => (calls i).Relies) (program calls) := by
  intro i j t answer d d' hji _ hj h
  obtain ⟨-, hdoes⟩ := serves_of_exec_ok h
  refine ⟨fun name hname => hdoes.tags (hj.known name hname), fun id hid => ?_⟩
  exact hdoes.remark (hj.free id hid) fun hi => hji (hc.once j i id hid hi)

variable [DecidableEq ι] {t₀ : Timestamp} {es : List (Transaction.Event ι Timestamp)}
  {s : Transaction.State ι Timestamp Tables Row Refusal Answer}

/-- **Concurrent calls answer as the world.**  In every run of calls that lock their articles, the
answers and refusals, in the order in which the calls end, are a history of the world, from the
world of the first tables to that of the last. -/
theorem concurrent_history (hc : Concurrent calls d₀)
    (hr : run (Transaction.step (program calls)) (Transaction.State.init d₀ t₀) es = some s) :
    Explains World.Serves (world d₀)
      ((Transaction.outcomes (program calls) (Transaction.State.init d₀ t₀) es).map
        fun x => (⟨x.1.2, calls x.1.1⟩, x.2)) (world s.db) :=
  Transaction.explains_outcomes protects_sameHeld (keepsRely_calls hc)
    (fun i _ _ => wellLocked_tx (hc.locks i)) hc.relies (fun _ _ _ _ _ => serves_of_exec_ok)
    (fun _ _ _ _ => serves_of_exec_error) hr

/-- In the sample the author deletes the article, while the other user comments on it. -/
def sampleCalls : Bool → Call
  | true => .deleteArticle ['s'] ['u']
  | false => .createComment ⟨['s'], ['v'], ['x'], 2⟩

/-- The delete starts first, and waits for the comment. -/
def sampleRun : List (Transaction.Event Bool Timestamp) :=
  [.start true 2000, .start false 3000, .exec true] ++
    List.replicate 4 (.exec false) ++ List.replicate 3 (.exec true)

theorem concurrent_sampleCalls : Concurrent sampleCalls Tables.sample where
  locks i := by cases i <;> trivial
  relies i := by
    cases i with
    | true => exact ⟨nofun, nofun⟩
    | false => exact ⟨nofun, by rintro _ ⟨⟩; rfl⟩
  once i j id hi hj := by
    cases i with
    | true => cases hi
    | false =>
        cases j with
        | true => cases hj
        | false => rfl

theorem concurrent_history_sample : ∃ s,
    run (Transaction.step (program sampleCalls)) (Transaction.State.init Tables.sample 0)
      sampleRun = some s ∧
    Explains World.Serves (world Tables.sample)
      ((Transaction.outcomes (program sampleCalls) (Transaction.State.init Tables.sample 0)
        sampleRun).map fun x => (⟨x.1.2, sampleCalls x.1.1⟩, x.2)) (world s.db) ∧
    s.log.map Transaction.Commit.call = [false, true] := by
  have hruns : (run (Transaction.step (program sampleCalls))
      (Transaction.State.init Tables.sample 0) sampleRun).map
        (·.log.map Transaction.Commit.call) = some [false, true] := rfl
  obtain ⟨s, hs, hlog⟩ := Option.map_eq_some_iff.mp hruns
  exact ⟨s, hs, concurrent_history concurrent_sampleCalls hs, hlog⟩

end

end MediumClone.Blog

end
