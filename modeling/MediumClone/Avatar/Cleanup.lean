import MediumClone.Avatar.Pointer

/-!
# Avatar — Cleanup

No file is left without a row that a later upload will find, and a later upload that meets no
failure cleans up everything its user left behind (`cleanup_complete`).

Between the write and the end of its call an upload answers for its own file (`Phase.InFlight`).
Everywhere else a file has a row (`FilesInv`): the commit and the marker save one, and a row is
deleted only after its file.  The one way out is a marker that fails to be saved.

The second half follows one upload `d` of a user `u` from a state where no call is in progress, in a
run where no one else acts for `u` and `d` meets no failure (`SoloInv`).  What `d` lists under the
lock are all of the user's rows, and with them all of the user's files; it commits its own row and
file beside them, and removes every one it listed.
-/

namespace MediumClone.Avatar
open Sys

variable {υ ι : Type*} {request : ι → Request υ} {s s' : State υ ι} {c d : ι} {u : υ}

/-! ### Every file has a row -/

/-- The call answers for the file it wrote, or tried to write. -/
def Phase.InFlight : Phase ι → Prop
  | .running _ (.saveAttachment _) | .running _ (.saveUser _) | .running _ (.commit _)
  | .running _ .removeOwn | .running _ .saveMarker => True
  | _ => False

theorem Phase.inFlight_of_written {f : AvatarFile} {st : Stage ι}
    {stale : List (StaleAttachment ι)} (h : st.written = some stale) :
    (Phase.running f st).InFlight := by
  cases st <;> cases h <;> trivial

def FilesInv (s : State υ ι) : Prop :=
  ∀ d, s.files ⟨d⟩ ≠ none → (∃ a ∈ s.rows, a.storageKey = ⟨d⟩) ∨ (s.phase d).InFlight

theorem RowInv.storageKey {a : Attachment υ ι} (h : RowInv request s a) :
    a.storageKey = ⟨a.id.upload⟩ := by
  obtain ⟨f, -, heq⟩ := h.saved
  rw [heq]
  rfl

theorem RowInv.ownerId {a : Attachment υ ι} (h : RowInv request s a) :
    a.ownerId = (request a.id.upload).user := by
  obtain ⟨f, -, heq⟩ := h.saved
  rw [heq]
  rfl

section Files

variable [DecidableEq υ] [DecidableEq ι] {e : Event ι}

omit [DecidableEq υ] in
theorem inFlight_of_phase {p : Phase ι} (hp : s'.phase = Function.update s.phase c p)
    (h : p.InFlight) : (s'.phase c).InFlight := by
  rwa [hp, Function.update_self]

/-- A row outlives its file. -/
theorem Transition.row_of_file (h : Transition request s e s') (hi : Inv request s)
    {a : Attachment υ ι} (ha : a ∈ s.rows) (hf : s.files a.storageKey ≠ none) : a ∈ s'.rows := by
  cases h with
  | commits | marks => exact List.mem_cons_of_mem _ ha
  | @deletes c f removed hp =>
      have hc := hi.call_of hp
      refine List.mem_filter.mpr ⟨ha, ?_⟩
      simp only [not_and, decide_eq_true_eq]
      intro hid
      rw [(hi.row a ha).storageKey] at hf
      exact absurd (hc.removed a.id hid).2 hf
  | _ => exact ha

/-- A call that no longer answers for its file has saved a row, or removed the file, or failed to
save the marker. -/
theorem Transition.answered (h : Transition request s e s')
    (hin : (s.phase e.call).InFlight) :
    (s'.phase e.call).InFlight ∨ (∃ a ∈ s'.rows, a.storageKey = ⟨e.call⟩) ∨
      s'.files ⟨e.call⟩ = none ∨ ∃ c, e = .markerFails c := by
  cases h with
  | accepts hp | rejects hp | locks hp | notFound hp | lists hp | writes hp | failsUnlocked hp
  | failsLocked hp | removes hp | removeFails hp | deletes hp | deleteFails hp =>
      rw [Event.call, hp] at hin
      exact hin.elim
  | writeFails | failsWritten | removeOwnFails =>
      exact .inl (inFlight_of_phase rfl trivial)
  | saves hp hw hw' => exact .inl (inFlight_of_phase rfl (Phase.inFlight_of_written hw'))
  | commits | marks => exact .inr (.inl ⟨_, List.mem_cons_self, rfl⟩)
  | removesOwn => exact .inr (.inr (.inl (Function.update_self _ _ _)))
  | @markerFails c => exact .inr (.inr (.inr ⟨c, rfl⟩))

/-- A file appears by the write of a call, which then answers for it. -/
theorem Transition.inFlight_of_file (h : Transition request s e s') (hi : Inv request s)
    (hn : s.files ⟨d⟩ = none) (hf : s'.files ⟨d⟩ ≠ none) : (s'.phase d).InFlight := by
  rcases hi.file_cases h.frame d with h' | ⟨rfl, hs⟩ | ⟨h', -⟩
  · exact absurd (h'.trans hn) hf
  · cases h with
    | writes | writeFails | removeOwnFails => exact inFlight_of_phase rfl trivial
    | removesOwn => exact absurd (Function.update_self _ _ _) hf
    | removes hp | removeFails hp => exact absurd (by rw [Event.call, hp]; trivial) hs
    | _ => exact absurd hn hf
  · exact absurd h' hf

theorem FilesInv.step (hi : Inv request s) (hf : FilesInv s)
    (hm : ∀ c, e ≠ .markerFails c) (hs : step request s e = some s') : FilesInv s' := by
  have h := step_transition hs
  intro d hd
  by_cases hn : s.files ⟨d⟩ = none
  · exact .inr (h.inFlight_of_file hi hn hd)
  · rcases hf d hn with ⟨a, ha, hk⟩ | hin
    · exact .inl ⟨a, h.row_of_file hi ha (by rwa [hk]), hk⟩
    · by_cases hde : d = e.call
      · subst hde
        rcases h.answered hin with hin | hrow | hnone | ⟨c, rfl⟩
        · exact .inr hin
        · exact .inl hrow
        · exact absurd hnone hd
        · exact absurd rfl (hm c)
      · rw [← h.frame.phase d hde] at hin
        exact .inr hin

end Files

/-! ### One more upload -/

/-- The step is not one of the failures. -/
def Event.succeeds : Event ι → Bool
  | .execute _ | .userFound _ | .staleFound _ _ | .written _ | .saved _ | .committed _
  | .removed _ | .deleted _ | .marked _ => true
  | .userNotFound _ | .writeFails _ _ | .databaseFails _ | .removeFails _ _ | .deleteFails _
  | .markerFails _ => false

/-- What there is of a user: rows, files by the upload that wrote them, and the image. -/
structure View (υ ι : Type*) where
  rows : List (Attachment υ ι)
  files : ι → Option Bytes
  image : Image ι

/-- Every file has a row. -/
def View.Recorded (v : View υ ι) : Prop :=
  ∀ e, v.files e ≠ none → ∃ a ∈ v.rows, a.id.upload = e

/-- Every row is listed, and every file but that of `d`. -/
structure View.Listed (v : View υ ι) (d : ι) (stale : List (StaleAttachment ι)) : Prop where
  rows : ∀ a ∈ v.rows, a.id ∈ stale.map (·.id)
  files : ∀ e, v.files e ≠ none → e = d ∨ e ∈ stale.map (·.id.upload)

/-- Without what is still to be removed, and the rows whose files are, only `d` is left. -/
structure View.Cleaned [DecidableEq ι] (v : View υ ι) (own : Attachment υ ι)
    (content : Bytes) (todo : List (StaleAttachment ι)) (removed : List (AttachmentId ι)) :
    Prop where
  rows : v.rows.filter (fun a => a.id ∉ todo.map (·.id) ∧ a.id ∉ removed) = [own]
  files : ∀ e, v.files e ≠ none → e = own.id.upload ∨ e ∈ todo.map (·.id.upload)
  content : v.files own.id.upload = some content
  image : v.image = .file own.id

section Views

/-- The files of other uploads are as they were. -/
theorem View.Listed.mono {v v' : View υ ι} {stale : List (StaleAttachment ι)}
    (h : v.Listed d stale) (hr : v'.rows = v.rows) (hf : ∀ e, e ≠ d → v'.files e = v.files e) :
    v'.Listed d stale := by
  refine ⟨by rw [hr]; exact h.rows, ?_⟩
  intro e he
  by_cases hed : e = d
  · exact .inl hed
  · exact h.files e (by rwa [hf e hed] at he)

variable [DecidableEq ι]

/-- What is committed beside the listed attachments is all that is not listed. -/
theorem View.Listed.cleaned {v v' : View υ ι} {stale : List (StaleAttachment ι)}
    (h : v.Listed d stale) {own : Attachment υ ι} {content : Bytes} (hown : own.id.upload = d)
    (hstale : ∀ x ∈ stale, x.id.upload ≠ d) (hr : v'.rows = own :: v.rows)
    (hf : v'.files = v.files) (hc : v.files d = some content) (hi : v'.image = .file own.id) :
    v'.Cleaned own content stale [] := by
  subst hown
  refine ⟨?_, fun e he => ?_, by rw [hf]; exact hc, hi⟩
  · have hnot : own.id ∉ stale.map (·.id) := by
      intro hm
      obtain ⟨x, hx, hxo⟩ := List.mem_map.mp hm
      exact hstale x hx (congrArg AttachmentId.upload hxo)
    rw [hr, List.filter_cons_of_pos (by simpa using hnot),
      List.filter_eq_nil_iff.mpr fun a ha => ?_]
    simpa using List.mem_map.mp (h.rows a ha)
  · exact h.files e (by rwa [hf] at he)

/-- One more file is removed. -/
theorem View.Cleaned.remove {v v' : View υ ι} {own : Attachment υ ι} {content : Bytes}
    {x : StaleAttachment ι} {todo : List (StaleAttachment ι)} {removed : List (AttachmentId ι)}
    (h : v.Cleaned own content (x :: todo) removed) (hx : x.id.upload ≠ own.id.upload)
    (hr : v'.rows = v.rows) (hi : v'.image = v.image)
    (hf : ∀ e, v'.files e = if e = x.id.upload then none else v.files e) :
    v'.Cleaned own content todo (removed ++ [x.id]) := by
  refine ⟨?_, fun e he => ?_, ?_, hi.trans h.image⟩
  · rw [hr, ← h.rows]
    refine List.filter_congr ?_
    intro a _
    simp only [List.map_cons, List.mem_cons, List.mem_append, not_or]
    congr 1
    exact propext (by tauto)
  · rw [hf] at he
    split at he
    · exact absurd rfl he
    · rename_i hne
      rcases h.files e he with he | he
      · exact .inl he
      · rcases List.mem_cons.mp he with he | he
        · exact absurd he hne
        · exact .inr he
  · rw [hf, if_neg hx.symm]
    exact h.content

/-- The rows whose files are removed are deleted. -/
theorem View.Cleaned.delete {v v' : View υ ι} {own : Attachment υ ι} {content : Bytes}
    {removed : List (AttachmentId ι)} (h : v.Cleaned own content [] removed)
    (hr : v'.rows = v.rows.filter fun a => a.id ∉ removed) (hf : v'.files = v.files)
    (hi : v'.image = v.image) : v'.Cleaned own content [] [] := by
  refine ⟨?_, by rw [hf]; exact h.files, by rw [hf]; exact h.content, hi.trans h.image⟩
  rw [hr, List.filter_filter, ← h.rows]
  exact List.filter_congr fun a _ => by simp

end Views

section Solo

variable [DecidableEq υ] [DecidableEq ι] {e : Event ι}

def State.view (request : ι → Request υ) (s : State υ ι) (u : υ) : View υ ι where
  rows := s.rows.filter (·.ownerId = u)
  files := fun e => if (request e).user = u then s.files ⟨e⟩ else none
  image := s.image u

/-- What the upload `d` has found, and done, at each of its stages. -/
def Solo (request : ι → Request υ) (d : ι) (v : View υ ι) : Phase ι → Prop
  | .idle | .running _ .findOne | .running _ .findBy => v.Recorded
  | .running _ (.write stale) | .running _ (.saveAttachment stale)
  | .running _ (.saveUser stale) | .running _ (.commit stale) => v.Listed d stale
  | .running f (.removeStale todo removed) =>
    v.Cleaned (attachment request d false f) f.buffer todo removed
  | .running f (.deleteStale removed) =>
    v.Cleaned (attachment request d false f) f.buffer [] removed
  | .returned => ∃ f, (request d).upload = some f.buffer ∧
    v.Cleaned (attachment request d false f) f.buffer [] []
  | .running _ .removeOwn | .running _ .saveMarker | .threw _ => True

structure SoloInv (request : ι → Request υ) (d : ι) (s : State υ ι) : Prop where
  inv : Inv request s
  solo : Solo request d (s.view request (request d).user) (s.phase d)

omit [DecidableEq υ] in
theorem solo_written {v : View υ ι} {f : AvatarFile} {st : Stage ι}
    {stale : List (StaleAttachment ι)} (hw : st.written = some stale) :
    Solo request d v (.running f st) ↔ v.Listed d stale := by
  cases st <;> cases hw <;> rfl

omit [DecidableEq υ] in
theorem solo_cleaning {v : View υ ι} {f : AvatarFile} {todo : List (StaleAttachment ι)}
    {removed : List (AttachmentId ι)} (hf : (request d).upload = some f.buffer)
    (h : v.Cleaned (attachment request d false f) f.buffer todo removed) :
    Solo request d v (cleaning f todo removed) := by
  cases todo with
  | cons x todo => cases removed <;> exact h
  | nil =>
      cases removed with
      | cons id removed => exact h
      | nil => exact ⟨f, hf, h⟩

/-- A call of another user changes nothing of this one's. -/
theorem Transition.view_other (h : Transition request s e s') (hi : Inv request s)
    (hu : (request e.call).user ≠ u) : s'.view request u = s.view request u := by
  have hrows : s'.rows.filter (·.ownerId = u) = s.rows.filter (·.ownerId = u) := by
    cases h with
    | commits | marks => exact List.filter_cons_of_neg fun h => hu (of_decide_eq_true h)
    | @deletes c f removed hp =>
        rw [List.filter_filter]
        refine List.filter_congr ?_
        intro a ha
        by_cases ho : a.ownerId = u
        · have huc : ¬ a.ownerId = (request c).user := fun h => hu (h.symm.trans ho)
          simp [huc]
        · simp [ho]
    | _ => rfl
  have hfiles : ∀ e', (request e').user = u → s'.files ⟨e'⟩ = s.files ⟨e'⟩ := by
    intro e' he'
    rcases hi.file_cases h.frame e' with h | ⟨rfl, -⟩ | ⟨-, -, x, hx, rfl⟩
    · exact h
    · exact absurd he' hu
    · exact absurd (((hi.call _).stale x hx).2.owner.symm.trans he') hu
  have himage : s'.image u = s.image u := by
    cases h with
    | commits => exact Function.update_of_ne (Ne.symm hu) _ _
    | _ => rfl
  simp only [State.view, hrows, himage, View.mk.injEq, true_and, and_true]
  funext e'
  by_cases he' : (request e').user = u
  · rw [if_pos he', if_pos he', hfiles e' he']
  · rw [if_neg he', if_neg he']

omit [DecidableEq ι] in
theorem mem_view_rows {a : Attachment υ ι} :
    a ∈ (s.view request u).rows ↔ a ∈ s.rows ∧ a.ownerId = u := by
  simp [State.view]

omit [DecidableEq ι] in
theorem view_files_ne_none {e : ι} :
    (s.view request u).files e ≠ none ↔ (request e).user = u ∧ s.files ⟨e⟩ ≠ none := by
  by_cases he : (request e).user = u <;> simp [State.view, he]

omit [DecidableEq ι] in
/-- The attachments listed under the lock are all of the user's, and so are their files. -/
theorem listed_of_recorded {stale : List (StaleAttachment ι)}
    (hs : stale.Perm (s.staleOf (request d).user))
    (hr : (s.view request (request d).user).Recorded) :
    (s.view request (request d).user).Listed d stale := by
  have hmem : ∀ a ∈ (s.view request (request d).user).rows,
      ⟨a.id, a.storageKey⟩ ∈ stale := by
    intro a ha
    exact hs.mem_iff.mpr (List.mem_map.mpr ⟨a, ha, rfl⟩)
  refine ⟨fun a ha => List.mem_map.mpr ⟨_, hmem a ha, rfl⟩, fun e' he' => .inr ?_⟩
  obtain ⟨a, ha, rfl⟩ := hr e' he'
  exact List.mem_map.mpr ⟨_, hmem a ha, rfl⟩

omit [DecidableEq υ] in
theorem solo_of_phase {v : View υ ι} {p : Phase ι}
    (hp : s'.phase = Function.update s.phase c p) (h : Solo request c v p) :
    Solo request c v (s'.phase c) := by
  rwa [hp, Function.update_self]

/-- A step of the upload itself, when it is no failure. -/
theorem Transition.solo_own (h : Transition request s e s') (hi : SoloInv request e.call s)
    (hok : e.succeeds = true) :
    Solo request e.call (s'.view request (request e.call).user) (s'.phase e.call) := by
  obtain ⟨hinv, hsolo⟩ := hi
  cases h with
  | notFound | writeFails | failsUnlocked | failsLocked | failsWritten | removeFails
  | removeOwnFails | deleteFails | markerFails => cases hok
  | accepts hp | locks hp =>
      rw [Event.call, hp] at hsolo
      exact solo_of_phase rfl hsolo
  | rejects | removesOwn | marks => exact solo_of_phase rfl trivial
  | lists hp hs =>
      rw [Event.call, hp] at hsolo
      exact solo_of_phase rfl (listed_of_recorded hs hsolo)
  | @writes c f stale hp =>
      rw [Event.call, hp] at hsolo
      refine solo_of_phase rfl (View.Listed.mono hsolo rfl ?_)
      intro e' he'
      have hk : (⟨e'⟩ : StorageKey ι) ≠ ⟨c⟩ := fun h => he' (congrArg StorageKey.upload h)
      simp only [State.view, State.setFile, Function.update_of_ne hk]
      rfl
  | saves hp hw hw' =>
      rw [Event.call, hp, solo_written hw] at hsolo
      exact solo_of_phase rfl ((solo_written hw').mpr hsolo)
  | @commits c f stale hp =>
      have hc := hinv.call_of hp
      rw [Event.call, hp] at hsolo
      refine solo_of_phase rfl (solo_cleaning (hc.file _ _ rfl)
        (View.Listed.cleaned hsolo rfl (fun x hx => (hc.stale x hx).2.other) ?_ rfl ?_ ?_))
      · simp only [State.view, Event.call]
        exact List.filter_cons_of_pos (by simp [attachment])
      · simp only [State.view, if_true]
        exact hc.written _ _ _ rfl rfl
      · exact Function.update_self _ _ _
  | @removes c f x todo removed hp =>
      have hc := hinv.call_of hp
      rw [Event.call, hp] at hsolo
      have hx := hc.stale x List.mem_cons_self
      refine solo_of_phase rfl (solo_cleaning (hc.file _ _ rfl)
        (View.Cleaned.remove hsolo hx.2.other rfl rfl fun e' => ?_))
      by_cases he' : e' = x.id.upload
      · subst he'
        simp [State.view, State.setFile, hx.1]
      · have hk : (⟨e'⟩ : StorageKey ι) ≠ x.storageKey := by
          rw [hx.1]
          exact fun h => he' (congrArg StorageKey.upload h)
        simp only [State.view, State.setFile, Function.update_of_ne hk, if_neg he']
        rfl
  | @deletes c f removed hp =>
      have hc := hinv.call_of hp
      rw [Event.call, hp] at hsolo
      refine solo_of_phase rfl ⟨f, hc.file _ _ rfl, View.Cleaned.delete hsolo ?_ rfl rfl⟩
      simp only [State.view, Event.call, List.filter_filter]
      refine List.filter_congr ?_
      intro a _
      by_cases ho : a.ownerId = (request c).user <;> simp [ho]

/-- A step of a run in which no one else acts for the user and the upload meets no failure. -/
theorem SoloInv.step (hi : SoloInv request d s)
    (he : (request e.call).user = (request d).user → e.call = d ∧ e.succeeds = true)
    (hs : step request s e = some s') : SoloInv request d s' := by
  have h := step_transition hs
  refine ⟨hi.inv.step hs, ?_⟩
  by_cases hu : (request e.call).user = (request d).user
  · obtain ⟨rfl, hok⟩ := he hu
    exact h.solo_own hi hok
  · have hd : d ≠ e.call := fun h => hu (by rw [h])
    rw [h.view_other hi.inv hu, h.frame.phase d hd]
    exact hi.solo

theorem soloInv_run {es : List (Event ι)} (hi : SoloInv request d s)
    (he : ∀ e ∈ es, (request e.call).user = (request d).user → e.call = d ∧ e.succeeds = true)
    (hr : run (step request) s es = some s') : SoloInv request d s' :=
  run_invariant
    (C := fun _ e => (request e.call).user = (request d).user → e.call = d ∧ e.succeeds = true)
    (fun _ _ _ hi he hs => hi.step he hs) (meets_of_forall he) hi hr

theorem inv_files_run {es : List (Event ι)} (hm : ∀ e ∈ es, ∀ c, e ≠ Event.markerFails c)
    (hr : run (step request) (init υ ι) es = some s) : Inv request s ∧ FilesInv s := by
  refine @run_invariant _ _ _ _ _ _ (fun s => Inv request s ∧ FilesInv s) _ ?_
    (meets_of_forall hm) ⟨inv_init, fun _ h => absurd rfl h⟩ hr
  exact fun s e s' hi he hs => ⟨hi.1.step hs, hi.2.step hi.1 he hs⟩

/-- No call is in progress. -/
def Quiescent (s : State υ ι) : Prop := ∀ c, s.phase c = .idle ∨ (s.phase c).Closed

omit [DecidableEq υ] [DecidableEq ι] in
theorem Quiescent.row (hq : Quiescent s) (hf : FilesInv s) {c : ι} (hc : s.files ⟨c⟩ ≠ none) :
    ∃ a ∈ s.rows, a.storageKey = ⟨c⟩ := by
  refine (hf c hc).resolve_right ?_
  intro hin
  have hp := hq c
  cases h : s.phase c with
  | idle | returned | threw => rw [h] at hin; exact hin
  | running f st =>
      rw [h] at hp
      rcases hp with hp | hp <;> cases hp

/-- **No orphaned file, and self-healing.** -/
theorem cleanup_complete {es : List (Event ι)} (hm : ∀ e ∈ es, ∀ c, e ≠ Event.markerFails c)
    (hr : run (step request) (init υ ι) es = some s) (hq : Quiescent s) :
    (∀ k, s.files k ≠ none →
      ∃ a ∈ s.rows, a.storageKey = k ∧ a.ownerId = (request k.upload).user) ∧
    ∀ d es' s', run (step request) s es' = some s' → s.phase d = .idle → s'.phase d = .returned →
      (∀ e ∈ es', (request e.call).user = (request d).user → e.call = d ∧ e.succeeds = true) →
      ∃ a, s'.rows.filter (·.ownerId = (request d).user) = [a] ∧
        s'.image (request d).user = .file a.id ∧
        s'.files a.storageKey = (request d).upload ∧ a.storageKey.upload = d ∧
        ∀ k, (request k.upload).user = (request d).user → s'.files k ≠ none → k = a.storageKey := by
  obtain ⟨hi, hf⟩ := inv_files_run hm hr
  have hrow : ∀ k, s.files k ≠ none →
      ∃ a ∈ s.rows, a.storageKey = k ∧ a.ownerId = (request k.upload).user := by
    intro k hk
    obtain ⟨a, ha, hak⟩ := hq.row hf hk
    refine ⟨a, ha, hak, ?_⟩
    rw [(hi.row a ha).storageKey] at hak
    rw [(hi.row a ha).ownerId, show a.id.upload = k.upload from congrArg StorageKey.upload hak]
  refine ⟨hrow, ?_⟩
  intro d es' s' hr' hidle hret hsolo
  have hrecorded : (s.view request (request d).user).Recorded := by
    intro e he
    obtain ⟨hu, hfile⟩ := view_files_ne_none.mp he
    obtain ⟨a, ha, hak, hao⟩ := hrow ⟨e⟩ hfile
    refine ⟨a, mem_view_rows.mpr ⟨ha, hao.trans hu⟩, ?_⟩
    rw [(hi.row a ha).storageKey] at hak
    exact congrArg StorageKey.upload hak
  have hend := (soloInv_run ⟨hi, by rw [hidle]; exact hrecorded⟩ hsolo hr').solo
  rw [hret] at hend
  obtain ⟨f, hfile, hclean⟩ := hend
  have hcontent := hclean.content
  simp only [State.view, attachment, if_true] at hcontent
  refine ⟨attachment request d false f, ?_, hclean.image, hcontent.trans hfile.symm, rfl,
    fun k hu hk => ?_⟩
  · have hrows := hclean.rows
    simpa [State.view] using hrows
  · rcases hclean.files k.upload (view_files_ne_none.mpr ⟨hu, hk⟩) with h | h
    · exact congrArg StorageKey.mk h
    · cases h

end Solo

/-- Two uploads of one user. -/
def twoUploads : Bool → Request Unit
  | _ => ⟨(), some [0xff, 0xd8, 0xff]⟩

/-- The first write leaves a partial file, which cannot be removed either. -/
def partialWrite : List (Event Bool) :=
  [.execute false, .userFound false, .staleFound false [], .writeFails false (some [0xff]),
    .removeFails false false, .marked false]

/-- The second upload finds the marker of the first. -/
def laterUpload : List (Event Bool) :=
  [.execute true, .userFound true, .staleFound true [⟨⟨false, true⟩, ⟨false⟩⟩], .written true,
    .saved true, .saved true, .committed true, .removed true, .deleted true]

theorem cleanup_complete_partialWrite :
    ∃ s s', run (step twoUploads) (init Unit Bool) partialWrite = some s ∧
      run (step twoUploads) s laterUpload = some s' ∧ s.files ⟨false⟩ = some [0xff] ∧
      ∃ a, s'.rows.filter (·.ownerId = ()) = [a] ∧ s'.image () = .file a.id ∧
        s'.files a.storageKey = some [0xff, 0xd8, 0xff] ∧ a.storageKey.upload = true ∧
        ∀ k : StorageKey Bool, () = () → s'.files k ≠ none → k = a.storageKey := by
  refine ⟨_, _, rfl, rfl, rfl, ?_⟩
  have h := @cleanup_complete Unit Bool twoUploads _ _ _ partialWrite (by simp [partialWrite]) rfl
    (by rintro (_ | _); exacts [.inr trivial, .inl rfl])
  exact h.2 true laterUpload _ rfl rfl rfl (by simp [laterUpload, Event.call, Event.succeeds])

end MediumClone.Avatar
