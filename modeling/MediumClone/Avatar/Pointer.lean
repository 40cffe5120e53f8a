import MediumClone.Avatar.Handler

/-!
# Avatar — Pointer

A user's image never points at a missing or foreign attachment (`pointer_integrity`), whatever
fails and however uploads overlap.

The file of an upload is its own until its transaction is over, and its attachment is cleaned up
only by a later upload of the same user, which has by then taken over the image.  So the invariant
has three parts.  A call's lists name uploads of its user, other than itself, whose transactions are
over (`CallInv`).  A row is that of an upload whose transaction is over (`RowInv`).  The upload a
user's image points at has its row and its file, and is on no list of a call that has committed
(`Current`).
-/

namespace MediumClone.Avatar
open Sys

variable {υ ι : Type*} {request : ι → Request υ} {s s' : State υ ι} {c : ι}

/-! ### Calls and rows -/

/-- `id` belongs to an earlier upload of the user of `c`. -/
structure Earlier (request : ι → Request υ) (s : State υ ι) (c : ι) (id : AttachmentId ι) :
    Prop where
  owner : (request id.upload).user = (request c).user
  other : id.upload ≠ c
  settled : (s.phase id.upload).Settled

structure CallInv (request : ι → Request υ) (s : State υ ι) (c : ι) (p : Phase ι) : Prop where
  file : ∀ f st, p = .running f st → (request c).upload = some f.buffer
  written : ∀ f st stale, p = .running f st → st.written = some stale →
    s.files ⟨c⟩ = some f.buffer
  stale : ∀ x ∈ p.stale, x.storageKey = ⟨x.id.upload⟩ ∧ Earlier request s c x.id
  removed : ∀ id ∈ p.removed, Earlier request s c id ∧ s.files ⟨id.upload⟩ = none

structure RowInv (request : ι → Request υ) (s : State υ ι) (a : Attachment υ ι) : Prop where
  saved : ∃ f, (request a.id.upload).upload = some f.buffer ∧
    a = attachment request a.id.upload a.id.marker f
  settled : (s.phase a.id.upload).Settled

structure Inv (request : ι → Request υ) (s : State υ ι) : Prop where
  call : ∀ c, CallInv request s c (s.phase c)
  row : ∀ a ∈ s.rows, RowInv request s a

theorem inv_init : Inv request (init υ ι) where
  call _ := ⟨fun _ _ h => (by cases h), fun _ _ _ h => (by cases h),
    fun _ h => absurd h List.not_mem_nil, fun _ h => absurd h List.not_mem_nil⟩
  row _ h := absurd h List.not_mem_nil

/-! ### What a step of another call keeps -/

theorem Frame.settled_mono (hF : Frame s s' c) {d : ι} (h : (s.phase d).Settled) :
    (s'.phase d).Settled := by
  by_cases hd : d = c
  · subst hd; exact hF.settled h
  · rwa [hF.phase d hd]

theorem Earlier.mono {d : ι} {id : AttachmentId ι} (h : Earlier request s d id)
    (hF : Frame s s' c) : Earlier request s' d id :=
  ⟨h.owner, h.other, hF.settled_mono h.settled⟩

/-- The files a step removes belong to uploads whose transactions are over. -/
theorem Inv.file_cases (hi : Inv request s) (hF : Frame s s' c) (d : ι) :
    s'.files ⟨d⟩ = s.files ⟨d⟩ ∨ (d = c ∧ ¬ (s.phase d).Settled) ∨
      (s'.files ⟨d⟩ = none ∧ (s.phase c).Settled ∧ ∃ x ∈ (s.phase c).stale, x.id.upload = d) := by
  rcases hF.files ⟨d⟩ with h | ⟨h, hs⟩ | ⟨h, hs, x, hx, hk⟩
  · exact .inl h
  · obtain rfl : d = c := congrArg StorageKey.upload h
    exact .inr (.inl ⟨rfl, hs⟩)
  · have := ((hi.call c).stale x hx).1
    exact .inr (.inr ⟨h, hs, x, hx, congrArg StorageKey.upload (this.symm.trans hk)⟩)

/-- A file that was gone after the transaction stays gone. -/
theorem Inv.none_of_settled (hi : Inv request s) (hF : Frame s s' c) {d : ι}
    (hd : (s.phase d).Settled) (h : s.files ⟨d⟩ = none) : s'.files ⟨d⟩ = none := by
  rcases hi.file_cases hF d with h' | ⟨-, hs⟩ | ⟨h', -⟩
  · rw [h', h]
  · exact absurd hd hs
  · exact h'

/-- The file of an open transaction is left alone by other calls. -/
theorem Inv.file_of_open (hi : Inv request s) (hF : Frame s s' c) {d : ι} (hdc : d ≠ c)
    (hd : ¬ (s.phase d).Settled) : s'.files ⟨d⟩ = s.files ⟨d⟩ := by
  rcases hi.file_cases hF d with h | ⟨h, -⟩ | ⟨-, -, x, hx, rfl⟩
  · exact h
  · exact absurd h hdc
  · exact absurd ((hi.call c).stale x hx).2.settled hd

theorem Inv.call_of {p : Phase ι} (hi : Inv request s) (hp : s.phase c = p) :
    CallInv request s c p :=
  hp ▸ hi.call c

theorem CallInv.stale_step {d : ι} {p : Phase ι} (hd : CallInv request s d p) (hF : Frame s s' c)
    {x : StaleAttachment ι} (hx : x ∈ p.stale) :
    x.storageKey = ⟨x.id.upload⟩ ∧ Earlier request s' d x.id :=
  ⟨(hd.stale x hx).1, (hd.stale x hx).2.mono hF⟩

/-- What was removed stays removed. -/
theorem CallInv.removed_step {d : ι} {p : Phase ι} (hd : CallInv request s d p)
    (hi : Inv request s) (hF : Frame s s' c) {id : AttachmentId ι} (hid : id ∈ p.removed) :
    Earlier request s' d id ∧ s'.files ⟨id.upload⟩ = none := by
  obtain ⟨he, hf⟩ := hd.removed id hid
  exact ⟨he.mono hF, hi.none_of_settled hF he.settled hf⟩

theorem CallInv.other (hi : Inv request s) (hF : Frame s s' c) {d : ι} (hdc : d ≠ c) :
    CallInv request s' d (s'.phase d) := by
  rw [hF.phase d hdc]
  have hd := hi.call d
  refine ⟨hd.file, ?_, fun _ => hd.stale_step hF, fun _ => hd.removed_step hi hF⟩
  intro f st stale hp hw
  rw [hi.file_of_open hF hdc (by rw [hp]; exact Phase.not_settled_of_written hw)]
  exact hd.written f st stale hp hw

theorem RowInv.mono {a : Attachment υ ι} (h : RowInv request s a) (hF : Frame s s' c) :
    RowInv request s' a :=
  ⟨h.saved, hF.settled_mono h.settled⟩

/-! ### What a step keeps for its own call -/

/-- A phase that keeps no lists and no written file. -/
theorem callInv_plain {p : Phase ι} (hs : p.stale = []) (hr : p.removed = [])
    (hf : ∀ f st, p = .running f st → (request c).upload = some f.buffer ∧ st.written = none) :
    CallInv request s c p where
  file f st h := (hf f st h).1
  written f st stale h hw := by rw [(hf f st h).2] at hw; cases hw
  stale x hx := by rw [hs] at hx; cases hx
  removed id hid := by rw [hr] at hid; cases hid

theorem callInv_threw (e : AvatarError) : CallInv request s c (.threw e) :=
  callInv_plain rfl rfl fun _ _ h => nomatch h

theorem callInv_returned : CallInv request s c .returned :=
  callInv_plain rfl rfl fun _ _ h => nomatch h

theorem cleaning_running {f f' : AvatarFile} {todo : List (StaleAttachment ι)}
    {removed : List (AttachmentId ι)} {st : Stage ι}
    (h : cleaning f todo removed = .running f' st) : f' = f ∧ st.written = none := by
  cases todo <;> cases removed <;> cases h <;> exact ⟨rfl, rfl⟩

theorem callInv_cleaning {f : AvatarFile} {todo : List (StaleAttachment ι)}
    {removed : List (AttachmentId ι)} (hf : (request c).upload = some f.buffer)
    (ht : ∀ x ∈ todo, x.storageKey = ⟨x.id.upload⟩ ∧ Earlier request s c x.id)
    (hr : ∀ id ∈ removed, Earlier request s c id ∧ s.files ⟨id.upload⟩ = none) :
    CallInv request s c (cleaning f todo removed) where
  file f' st h := by rw [(cleaning_running h).1]; exact hf
  written f' st stale h hw := by rw [(cleaning_running h).2] at hw; cases hw
  stale := by rw [cleaning_stale]; exact ht
  removed := by rw [cleaning_removed]; exact hr

variable [DecidableEq υ]

/-- The listed attachments belong to earlier uploads. -/
theorem Inv.earlier_of_listed (hi : Inv request s) (hc : ¬ (s.phase c).Settled)
    {x : StaleAttachment ι} (hx : x ∈ s.staleOf (request c).user) :
    x.storageKey = ⟨x.id.upload⟩ ∧ Earlier request s c x.id := by
  obtain ⟨a, ha, rfl⟩ := List.mem_map.mp hx
  obtain ⟨ha, howner⟩ := List.mem_filter.mp ha
  have hrow := hi.row a ha
  obtain ⟨f, -, heq⟩ := hrow.saved
  refine ⟨by rw [heq]; rfl, ?_, fun h => hc (h ▸ hrow.settled), hrow.settled⟩
  rw [heq] at howner
  exact of_decide_eq_true howner

variable [DecidableEq ι]

omit [DecidableEq υ] in
theorem callInv_of_phase {p : Phase ι} (hp : s'.phase = Function.update s.phase c p)
    (h : CallInv request s' c p) : CallInv request s' c (s'.phase c) := by
  rwa [hp, Function.update_self]

omit [DecidableEq υ] in
theorem settled_of_phase {p : Phase ι} (hp : s'.phase = Function.update s.phase c p)
    (h : p.Settled) : (s'.phase c).Settled := by
  rwa [hp, Function.update_self]

theorem Transition.callInv {e : Event ι} (h : Transition request s e s') (hi : Inv request s) :
    CallInv request s' e.call (s'.phase e.call) := by
  have hF := h.frame
  cases h with
  | accepts hp hf =>
      refine callInv_of_phase rfl (callInv_plain rfl rfl ?_)
      rintro _ _ ⟨⟩
      exact ⟨hf, rfl⟩
  | rejects hp | notFound hp | failsUnlocked hp | failsLocked hp | removesOwn hp | marks hp
  | markerFails hp =>
      exact callInv_of_phase rfl (callInv_threw _)
  | deletes hp | deleteFails hp => exact callInv_of_phase rfl callInv_returned
  | locks hp | writeFails hp | removeOwnFails hp | failsWritten hp =>
      refine callInv_of_phase rfl (callInv_plain rfl rfl ?_)
      rintro _ _ ⟨⟩
      exact ⟨(hi.call _).file _ _ hp, rfl⟩
  | @lists c f stale hp hs =>
      have hn : ¬ (s.phase c).Settled := by rw [hp]; exact id
      refine callInv_of_phase rfl ⟨?_, ?_, fun x hx => ?_, fun _ h => absurd h List.not_mem_nil⟩
      · rintro _ _ ⟨⟩
        exact (hi.call c).file _ _ hp
      · rintro _ _ _ ⟨⟩ ⟨⟩
      · obtain ⟨hk, he⟩ := hi.earlier_of_listed hn (hs.mem_iff.mp hx)
        exact ⟨hk, he.mono hF⟩
  | @writes c f stale hp =>
      have hc := hi.call_of hp
      refine callInv_of_phase rfl ⟨?_, ?_, fun _ => hc.stale_step hF,
        fun _ h => absurd h List.not_mem_nil⟩
      · rintro _ _ ⟨⟩
        exact hc.file _ _ rfl
      · rintro _ _ _ ⟨⟩ ⟨⟩
        exact Function.update_self _ _ _
  | @saves c f st st' stale hp hw hw' =>
      have hc := hi.call_of hp
      refine callInv_of_phase rfl ⟨?_, ?_, fun x hx => ?_, fun id hid => ?_⟩
      · rintro _ _ ⟨⟩
        exact hc.file _ _ rfl
      · rintro _ _ _ ⟨⟩ -
        exact hc.written _ _ _ rfl hw
      · rw [Phase.stale_of_written hw'] at hx
        rw [← Phase.stale_of_written (f := f) hw] at hx
        exact hc.stale_step hF hx
      · rw [Phase.removed_of_written hw'] at hid
        cases hid
  | @commits c f stale hp =>
      have hc := hi.call_of hp
      exact callInv_of_phase rfl (callInv_cleaning (hc.file _ _ rfl)
        (fun _ => hc.stale_step hF) fun _ h => absurd h List.not_mem_nil)
  | @removes c f x todo removed hp =>
      have hc := hi.call_of hp
      refine callInv_of_phase rfl (callInv_cleaning (hc.file _ _ rfl)
        (fun _ hy => hc.stale_step hF (List.mem_cons_of_mem x hy)) ?_)
      intro id hid
      rcases List.mem_append.mp hid with hid | hid
      · exact hc.removed_step hi hF hid
      · obtain rfl := List.mem_singleton.mp hid
        obtain ⟨hk, he⟩ := hc.stale_step hF List.mem_cons_self
        refine ⟨he, ?_⟩
        rw [← hk]
        exact Function.update_self _ _ _
  | @removeFails c f x todo removed gone hp =>
      have hc := hi.call_of hp
      exact callInv_of_phase rfl (callInv_cleaning (hc.file _ _ rfl)
        (fun _ hy => hc.stale_step hF (List.mem_cons_of_mem x hy))
        fun _ => hc.removed_step hi hF)

/-- The rows a step adds are those of its own call, whose transaction is over. -/
theorem Transition.rows {e : Event ι} (h : Transition request s e s') (hi : Inv request s)
    {a : Attachment υ ι} (ha : a ∈ s'.rows) : a ∈ s.rows ∨ RowInv request s' a := by
  cases h with
  | @commits c f stale hp =>
      rcases List.mem_cons.mp ha with rfl | ha
      · exact .inr ⟨⟨f, (hi.call c).file _ _ hp, rfl⟩,
          settled_of_phase rfl (cleaning_settled f stale [])⟩
      · exact .inl ha
  | @marks c f hp =>
      rcases List.mem_cons.mp ha with rfl | ha
      · exact .inr ⟨⟨f, (hi.call c).file _ _ hp, rfl⟩, settled_of_phase rfl trivial⟩
      · exact .inl ha
  | deletes hp => exact .inl (List.mem_filter.mp ha).1
  | _ => exact .inl ha

theorem Inv.step {e : Event ι} (hi : Inv request s) (hs : step request s e = some s') :
    Inv request s' := by
  have h := step_transition hs
  refine ⟨fun d => ?_, fun a ha => ?_⟩
  · by_cases hd : d = e.call
    · subst hd; exact h.callInv hi
    · exact CallInv.other hi h.frame hd
  · rcases h.rows hi ha with ha | ha
    · exact (hi.row a ha).mono h.frame
    · exact ha

/-! ### The pointer -/

/-- A call whose transaction is over will not remove the file or the row of the upload `d`. -/
def Phase.Spares (p : Phase ι) (d : ι) : Prop :=
  p.Settled → (∀ x ∈ p.stale, x.id.upload ≠ d) ∧ ∀ id ∈ p.removed, id.upload ≠ d

def Kept (s : State υ ι) (d : ι) : Prop := ∀ c, (s.phase c).Spares d

/-- The upload a user's image points at. -/
structure Current (request : ι → Request υ) (s : State υ ι) (u : υ) (id : AttachmentId ι) :
    Prop where
  owner : (request id.upload).user = u
  settled : (s.phase id.upload).Settled
  stored : ∃ f, (request id.upload).upload = some f.buffer ∧
    id = (attachment request id.upload false f).id ∧
    attachment request id.upload false f ∈ s.rows ∧ s.files ⟨id.upload⟩ = some f.buffer
  kept : Kept s id.upload

structure PointerInv (request : ι → Request υ) (s : State υ ι) : Prop where
  inv : Inv request s
  pointer : ∀ u id, s.image u = .file id → Current request s u id

omit [DecidableEq υ] [DecidableEq ι] in
theorem pointerInv_init : PointerInv request (init υ ι) :=
  ⟨inv_init, fun _ _ h => nomatch h⟩

omit [DecidableEq υ] [DecidableEq ι] in
theorem spares_closed {p : Phase ι} (hs : p.stale = []) (hr : p.removed = []) (d : ι) :
    p.Spares d :=
  fun _ => ⟨fun x hx => (by rw [hs] at hx; cases hx), fun id hid => (by rw [hr] at hid; cases hid)⟩

omit [DecidableEq υ] [DecidableEq ι] in
theorem spares_cleaning {f : AvatarFile} {todo : List (StaleAttachment ι)}
    {removed : List (AttachmentId ι)} {d : ι} (ht : ∀ x ∈ todo, x.id.upload ≠ d)
    (hr : ∀ id ∈ removed, id.upload ≠ d) : (cleaning f todo removed).Spares d := by
  intro _
  rw [cleaning_stale, cleaning_removed]
  exact ⟨ht, hr⟩

omit [DecidableEq υ] in
/-- Only the lists of the call that takes the step have to be looked at. -/
theorem Kept.of_phase {d : ι} (hk : Kept s d) {p : Phase ι}
    (hphase : s'.phase = Function.update s.phase c p) (hp : p.Spares d) : Kept s' d := by
  intro e
  rw [hphase]
  by_cases hec : e = c
  · subst hec
    rwa [Function.update_self]
  · rw [Function.update_of_ne hec]
    exact hk e

/-- A step that is no commit puts nothing new on the lists of a call whose transaction is over. -/
theorem Transition.kept {e : Event ι} (h : Transition request s e s') {d : ι} (hk : Kept s d)
    (he : ∀ c, e ≠ .committed c) : Kept s' d := by
  cases h with
  | accepts | locks | lists | writes | writeFails | removeOwnFails | failsWritten =>
      exact hk.of_phase rfl fun hs => hs.elim
  | saves hp hw hw' => exact hk.of_phase rfl fun hs => absurd hs (Phase.not_settled_of_written hw')
  | rejects | notFound | failsUnlocked | failsLocked | removesOwn | marks | markerFails
  | deletes | deleteFails =>
      exact hk.of_phase rfl (spares_closed rfl rfl d)
  | @commits c => exact absurd rfl (he c)
  | @removes c f x todo removed hp =>
      have hc := hk c
      rw [hp] at hc
      obtain ⟨ht, hr⟩ := hc trivial
      refine hk.of_phase rfl (spares_cleaning (fun y hy => ht y (List.mem_cons_of_mem x hy))
        fun id hid => ?_)
      rcases List.mem_append.mp hid with hid | hid
      · exact hr id hid
      · obtain rfl := List.mem_singleton.mp hid
        exact ht x List.mem_cons_self
  | @removeFails c f x todo removed gone hp =>
      have hc := hk c
      rw [hp] at hc
      obtain ⟨ht, hr⟩ := hc trivial
      exact hk.of_phase rfl (spares_cleaning (fun y hy => ht y (List.mem_cons_of_mem x hy)) hr)

/-- A step deletes only rows that its call was to clean up. -/
theorem Transition.row_of_kept {e : Event ι} (h : Transition request s e s') {d : ι}
    (hk : Kept s d) {a : Attachment υ ι} (ha : a ∈ s.rows) (had : a.id.upload = d) :
    a ∈ s'.rows := by
  cases h with
  | commits | marks => exact List.mem_cons_of_mem _ ha
  | @deletes c f removed hp =>
      have hc := hk c
      rw [hp] at hc
      refine List.mem_filter.mpr ⟨ha, ?_⟩
      simp only [not_and, decide_eq_true_eq]
      exact fun hid => absurd had ((hc trivial).2 a.id hid)
  | _ => exact ha

omit [DecidableEq υ] [DecidableEq ι] in
/-- The file of a kept upload stays as it is. -/
theorem Inv.file_of_kept (hi : Inv request s) (hF : Frame s s' c) {d : ι} (hk : Kept s d)
    (hd : (s.phase d).Settled) : s'.files ⟨d⟩ = s.files ⟨d⟩ := by
  rcases hi.file_cases hF d with h | ⟨-, hs⟩ | ⟨-, hs, x, hx, hxd⟩
  · exact h
  · exact absurd hd hs
  · exact absurd hxd ((hk c hs).1 x hx)

/-- What a user's image points at stays so, but for a commit that replaces it. -/
theorem Current.step {e : Event ι} {u : υ} {id : AttachmentId ι} (hc : Current request s u id)
    (hi : Inv request s) (h : Transition request s e s') (hk : Kept s' id.upload) :
    Current request s' u id := by
  obtain ⟨f, hf, hid, hrow, hfile⟩ := hc.stored
  refine ⟨hc.owner, h.frame.settled_mono hc.settled, ⟨f, hf, hid, ?_, ?_⟩, hk⟩
  · exact h.row_of_kept hc.kept hrow rfl
  · rw [hi.file_of_kept h.frame hc.kept hc.settled, hfile]

omit [DecidableEq υ] [DecidableEq ι] in
/-- An upload whose transaction is open is on no list. -/
theorem Inv.kept_of_open (hi : Inv request s) {d : ι} (hd : ¬ (s.phase d).Settled) : Kept s d :=
  fun e _ => ⟨fun x hx h => hd (h ▸ ((hi.call e).stale x hx).2.settled),
    fun id hid h => hd (h ▸ ((hi.call e).removed id hid).1.settled)⟩

/-- A commit moves the image of its user, and of no one else. -/
theorem PointerInv.commit {f : AvatarFile} {stale : List (StaleAttachment ι)}
    (hi : PointerInv request s) (hp : s.phase c = .running f (.commit stale))
    (h : Transition request s (.committed c) s')
    (hphase : s'.phase = Function.update s.phase c (cleaning f stale []))
    (hrow : attachment request c false f ∈ s'.rows) (hfiles : s'.files = s.files)
    (himage : s'.image = Function.update s.image (request c).user (.file ⟨c, false⟩)) :
    ∀ u id, s'.image u = .file id → Current request s' u id := by
  have hc := hi.inv.call c
  rw [hp] at hc
  have hopen : ¬ (s.phase c).Settled := by rw [hp]; exact id
  intro u id hid
  rw [himage] at hid
  by_cases hu : u = (request c).user
  · subst hu
    rw [Function.update_self] at hid
    obtain rfl := Image.file.inj hid
    have hfile : s'.files ⟨c⟩ = some f.buffer := by
      rw [hfiles]; exact hc.written _ _ _ rfl rfl
    exact ⟨rfl, settled_of_phase hphase (cleaning_settled f stale []),
      ⟨f, hc.file _ _ rfl, rfl, hrow, hfile⟩,
      (hi.inv.kept_of_open hopen).of_phase hphase
        (spares_cleaning (fun x hx => (hc.stale x hx).2.other) (by simp))⟩
  · rw [Function.update_of_ne hu] at hid
    have hcur := hi.pointer u id hid
    refine hcur.step hi.inv h (hcur.kept.of_phase hphase (spares_cleaning (fun x hx hxd => ?_)
      (by simp)))
    -- what the call lists belongs to its own user
    exact hu (by rw [← hcur.owner, ← hxd]; exact (hc.stale x hx).2.owner)

theorem Transition.image_of_ne {e : Event ι} (h : Transition request s e s')
    (he : ∀ c, e ≠ .committed c) : s'.image = s.image := by
  cases h with
  | @commits c => exact absurd rfl (he c)
  | _ => rfl

theorem PointerInv.step {e : Event ι} (hi : PointerInv request s)
    (hs : step request s e = some s') : PointerInv request s' := by
  have h := step_transition hs
  refine ⟨hi.inv.step hs, ?_⟩
  by_cases he : ∃ c, e = .committed c
  · obtain ⟨c, rfl⟩ := he
    have h' := h
    cases h' with
    | commits hp => exact hi.commit hp h rfl List.mem_cons_self rfl rfl
  · have he : ∀ c, e ≠ .committed c := fun c hc => he ⟨c, hc⟩
    intro u id hid
    rw [h.image_of_ne he] at hid
    have hcur := hi.pointer u id hid
    exact hcur.step hi.inv h (h.kept hcur.kept he)

theorem pointerInv_run {es : List (Event ι)}
    (hr : run (Avatar.step request) (init υ ι) es = some s) : PointerInv request s :=
  run_invariant' (fun _ _ _ hi hs => hi.step hs) pointerInv_init hr

/-- **Pointer integrity.**  When a user's image is the file of an attachment, the attachment's row
exists, is the user's and has the media type detected in the upload, and its file holds the
uploaded bytes, `byteSize` of them. -/
theorem pointer_integrity {es : List (Event ι)}
    (hr : run (Avatar.step request) (init υ ι) es = some s) {u : υ} {id : AttachmentId ι}
    (himage : s.image u = .file id) :
    ∃ a ∈ s.rows, a.id = id ∧ a.ownerId = u ∧
      ∃ buffer, (request id.upload).upload = some buffer ∧
        getAvatarMediaType (some buffer) = some a.mediaType ∧
        s.files a.storageKey = some buffer ∧ a.byteSize = buffer.length := by
  have hcur := (pointerInv_run hr).pointer u id himage
  obtain ⟨f, hf, hid, hrow, hfile⟩ := hcur.stored
  exact ⟨_, hrow, hid.symm, hcur.owner, f.buffer, hf, f.detected, hfile, rfl⟩

/-- One user, one upload: the shortest JPEG. -/
def jpegRequest (_ : Unit) : Request Unit := ⟨(), some [0xff, 0xd8, 0xff]⟩

def uploadJpeg : List (Event Unit) :=
  [.execute (), .userFound (), .staleFound () [], .written (), .saved (), .saved (), .committed ()]

theorem pointer_integrity_jpeg :
    ∃ s, run (Avatar.step jpegRequest) (init Unit Unit) uploadJpeg = some s ∧
      s.image () = .file ⟨(), false⟩ ∧
      ∃ a ∈ s.rows, a.id = ⟨(), false⟩ ∧ a.ownerId = () ∧
        ∃ buffer, (jpegRequest ()).upload = some buffer ∧
          getAvatarMediaType (some buffer) = some a.mediaType ∧
          s.files a.storageKey = some buffer ∧ a.byteSize = buffer.length := by
  refine ⟨_, rfl, rfl, ?_⟩
  exact @pointer_integrity Unit Unit jpegRequest _ _ _ uploadJpeg rfl () ⟨(), false⟩ rfl

end MediumClone.Avatar
