import MediumClone.Articles.Read

/-!
# Profiles — Follows

`ProfileService` (`src/profiles/profile.service.ts`): who follows whom.  It opens no transaction;
each call reads two users and ends with its only write.
-/

namespace MediumClone.Profiles
open Js Sys Schema

/-- The errors of the service; `queryFailed` is an error of the driver. -/
inductive ProfileError where
  | profileNotFound
  | selfFollow
  | queryFailed
  deriving DecidableEq

abbrev ProfileTx (α : Type) := Tx Tables Row ProfileError α

def ProfileService.follow (followerUsername username : Str) : ProfileTx User := do
  let follower ← Tx.select (·.findUser followerUsername)
  let found ← Tx.select (·.findUser username)
  let following ← Tx.orThrow .profileNotFound found
  Tx.require (follower.map (·.id) ≠ some following.id) .selfFollow
  let follower ← Tx.orThrow .profileNotFound follower
  Tx.attempt (·.insertFollow ⟨follower.id, following.id⟩) fun _ => .queryFailed
  pure following

def ProfileService.unfollow (followerUsername username : Str) : ProfileTx User := do
  let follower ← Tx.select (·.findUser followerUsername)
  let found ← Tx.select (·.findUser username)
  let following ← Tx.orThrow .profileNotFound found
  let follower ← Tx.orThrow .profileNotFound follower
  Tx.execute (·.deleteFollow ⟨follower.id, following.id⟩) fun _ => ()
  pure following

/-! ### What a successful call alone found, changed and returned -/

section

variable {d d' : Tables} {followerUsername username : Str} {r : User}

theorem exec_follow (h : (ProfileService.follow followerUsername username).exec d = .ok (r, d')) :
    ∃ follower, d.findUser followerUsername = some follower ∧ d.findUser username = some r ∧
      ⟨follower.id, r.id⟩ ∈ d'.follows ∧ Tables.FollowsOnly d d' := by
  simp only [ProfileService.follow, Tx.exec_select_bind, Tx.exec_orThrow_bind,
    Tx.exec_require_bind, Tx.exec_attempt_bind] at h
  obtain ⟨following, hfollowing, -, follower, hfollower, d₁, hinsert, h⟩ := h
  cases h
  obtain ⟨hin, honly⟩ := Tables.insertFollow_eq_some hinsert
  exact ⟨follower, hfollower, hfollowing, hin, honly⟩

theorem exec_unfollow
    (h : (ProfileService.unfollow followerUsername username).exec d = .ok (r, d')) :
    ∃ follower, d.findUser followerUsername = some follower ∧ d.findUser username = some r ∧
      d' = d.deleteFollow ⟨follower.id, r.id⟩ := by
  simp only [ProfileService.unfollow, Tx.exec_select_bind, Tx.exec_orThrow_bind,
    Tx.exec_execute_bind] at h
  obtain ⟨following, hfollowing, follower, hfollower, h⟩ := h
  cases h
  exact ⟨follower, hfollower, hfollowing, rfl⟩

end

end MediumClone.Profiles
