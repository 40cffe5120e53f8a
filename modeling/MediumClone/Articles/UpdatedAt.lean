import MediumClone.Articles.Update

/-!
# Articles — UpdatedAt

`updated_at` under concurrent updates of one article (`Articles.Update`).

A committed change sets `updated_at` to the start of its transaction.  The start is fixed before the
transaction waits for the article, so a transaction that started earlier may commit later, and then
`updated_at` goes back (`updatedAt_moves_backward`).  It never does exactly when every change is
committed by a transaction that started no earlier than those whose changes are committed before it
(`forward_iff_inStartOrder`).
-/

namespace MediumClone.Articles
open Js Sys Schema

structure UpdateArgs where
  username : Str
  request : ArticleUpdate
  newTagId : Str → Uuid

def UpdateArgs.call (args : UpdateArgs) : ArticleCall :=
  .update args.username args.request args.newTagId

section

variable {ι : Type}

/-- The commit changed a field or the ordered tags. -/
def Changed (slug : Str) (c : RunCommit ι) : Prop := view slug c.after ≠ view slug c.before

/-- A change leaves `updated_at` no smaller than it found it. -/
def Forward (slug : Str) (c : RunCommit ι) : Prop :=
  Changed slug c → ∀ a b, c.before.findArticle slug = some a → c.after.findArticle slug = some b →
    a.updatedAt ≤ b.updatedAt

/-- The update asks for something else than what the article is. -/
def UpdateArgs.Changes (args : UpdateArgs) (slug : Str) (d : Tables) : Prop :=
  ∃ a, d.findArticle slug = some a ∧ args.request.changes a (loadOrderedTags a.id d) = true

/-- No update commits a change after one that started later has committed a change. -/
def InStartOrder (slug : Str) (calls : ι → UpdateArgs) (s : RunState ι) :
    Transaction.Event ι Timestamp → Prop
  | .exec i =>
    match s.session i with
    | .running t _ (.ret _) =>
      (calls i).Changes slug s.db → ∀ c ∈ s.log, Changed slug c → c.time ≤ t
    | _ => True
  | _ => True

/-- The stored `updated_at` is the latest start of a committed change, or from before the run. -/
def LatestStart (slug : Str) (t₀ : Timestamp) (s : RunState ι) : Prop :=
  ∀ a, s.db.findArticle slug = some a →
    (∀ c ∈ s.log, Changed slug c → c.time ≤ a.updatedAt) ∧
    (a.updatedAt ≤ t₀ ∨ ∃ c ∈ s.log, Changed slug c ∧ c.time = a.updatedAt)

variable {slug : Str} {calls : ι → UpdateArgs} {d₀ : Tables} {t₀ : Timestamp}
  {s s' : RunState ι} {e : Transaction.Event ι Timestamp}
  {es : List (Transaction.Event ι Timestamp)} {i : ι} {t : Timestamp} {pend : Tables → Tables}
  {r : Option ArticleDetail}

/-- The updates of a run. -/
def updates (slug : Str) (calls : ι → UpdateArgs) (i : ι) (now : Timestamp) :
    ArticleTx (Option ArticleDetail) :=
  program slug (fun i => (calls i).call) i now

structure ClockInv (slug : Str) (calls : ι → UpdateArgs) (d₀ : Tables) (t₀ : Timestamp)
    (s : RunState ι) : Prop where
  inv : Transaction.Inv (SameArticle slug) (updates slug calls) d₀ s
  clocked : Transaction.Clocked t₀ s
  latest : (∀ c ∈ s.log, Forward slug c) → LatestStart slug t₀ s

theorem ClockInv.init (h₀ : ∀ a, d₀.findArticle slug = some a → a.updatedAt ≤ t₀) :
    ClockInv slug calls d₀ t₀ (Transaction.State.init d₀ t₀) where
  inv := Transaction.Inv.init
  clocked := ⟨le_rfl, fun _ _ _ _ h => nomatch h⟩
  latest _ a ha := ⟨nofun, .inl (h₀ a ha)⟩

theorem LatestStart.congr (h : LatestStart slug t₀ s) (hdb : s'.db = s.db)
    (hlog : s'.log = s.log) : LatestStart slug t₀ s' := by
  rw [LatestStart, hdb, hlog]
  exact h

/-! ### One commit -/

/-- What the commit of an update finds and leaves. -/
theorem committed_update (h : ClockInv slug calls d₀ t₀ s)
    (hi : s.session i = .running t pend (.ret r)) : ∃ a, s.db.findArticle slug = some a ∧
      (pend s.db).findArticle slug =
        some ((calls i).request.row t a (loadOrderedTags a.id s.db)) ∧
      (Changed slug ⟨i, t, r, s.db, pend s.db⟩ ↔ (calls i).Changes slug s.db) := by
  have hexec := h.inv.exec_ret (protects_sameArticle slug) hi
  obtain ⟨detail, hexec, -⟩ := Tx.exec_map_ok.mp hexec
  obtain ⟨author, a, -, ha, -, hu, -⟩ := exec_update hexec
  refine ⟨a, ha, hu.findArticle ha, ?_⟩
  change view slug (pend s.db) ≠ view slug s.db ↔ _
  rw [hu.view ha, view, ha]
  simp only [UpdateArgs.Changes, ArticleUpdate.changes, ha, Option.map_some, ArticleCall.act, ne_eq,
    Option.some.injEq, ArticleView.mk.injEq, exists_eq_left', Bool.or_eq_true, decide_eq_true_eq,
    fields_eq_self_iff]
  tauto

variable [DecidableEq ι]

/-- Given that `updated_at` is the latest start, a commit moves it forward exactly when the update
starts no earlier than the changes committed before it; and then it is the latest start again. -/
theorem forward_commit (h : ClockInv slug calls d₀ t₀ s) (hlatest : LatestStart slug t₀ s)
    (hi : s.session i = .running t pend (.ret r)) :
    (Forward slug ⟨i, t, r, s.db, pend s.db⟩ ↔
      ((calls i).Changes slug s.db → ∀ c ∈ s.log, Changed slug c → c.time ≤ t)) ∧
    (Forward slug ⟨i, t, r, s.db, pend s.db⟩ →
      LatestStart slug t₀ (s.commit i t r (pend s.db))) := by
  obtain ⟨a, ha, hb, hchanged⟩ := committed_update h hi
  obtain ⟨hle, hfrom⟩ := hlatest a ha
  have hstart := h.clocked.started i t pend _ hi
  have hfound : ∀ a', s.db.findArticle slug = some a' → a' = a := fun a' ha' =>
    Option.some.inj (ha'.symm.trans ha)
  by_cases hc : (calls i).Changes slug s.db
  · -- a change: the row gets the start of this transaction
    have hrow : ((calls i).request.row t a (loadOrderedTags a.id s.db)).updatedAt = t := by
      obtain ⟨a', ha', hch⟩ := hc
      obtain rfl := hfound a' ha'
      rw [ArticleUpdate.row, if_pos hch]
    have hforward : Forward slug ⟨i, t, r, s.db, pend s.db⟩ ↔ a.updatedAt ≤ t := by
      constructor
      · intro hf
        have hat := hf (hchanged.mpr hc) a _ ha hb
        rwa [hrow] at hat
      · intro hat _ a' b ha' hb'
        obtain rfl := hfound a' ha'
        obtain rfl := Option.some.inj (hb.symm.trans hb')
        rwa [hrow]
    refine ⟨hforward.trans ⟨fun hat _ c hcl hcc => (hle c hcl hcc).trans hat, fun hall => ?_⟩, ?_⟩
    · -- the latest start is that of some committed change, or there was none
      rcases hfrom with hinit | ⟨c, hcl, hcc, heq⟩
      · exact hinit.trans hstart
      · exact heq ▸ hall hc c hcl hcc
    · intro hf b hb'
      obtain rfl := Option.some.inj (hb.symm.trans hb')
      rw [hrow]
      refine ⟨fun c hcl hcc => ?_, .inr ⟨_, List.mem_append_right _ List.mem_cons_self,
        hchanged.mpr hc, rfl⟩⟩
      rcases List.mem_append.mp hcl with hcl | hcl
      · exact (hle c hcl hcc).trans (hforward.mp hf)
      · cases List.mem_singleton.mp hcl
        exact le_rfl
  · -- nothing changes: the row stays as it is
    have hrow : ((calls i).request.row t a (loadOrderedTags a.id s.db)).updatedAt =
        a.updatedAt := by
      rw [ArticleUpdate.row, if_neg fun hch => hc ⟨a, ha, hch⟩]
    refine ⟨⟨fun _ h => absurd h hc, fun _ h => absurd (hchanged.mp h) hc⟩, fun _ b hb' => ?_⟩
    obtain rfl := Option.some.inj (hb.symm.trans hb')
    rw [hrow]
    constructor
    · intro c hcl hcc
      rcases List.mem_append.mp hcl with hcl | hcl
      · exact hle c hcl hcc
      · cases List.mem_singleton.mp hcl
        exact absurd (hchanged.mp hcc) hc
    · rcases hfrom with hinit | ⟨c, hcl, hcc⟩
      · exact .inl hinit
      · exact .inr ⟨c, List.mem_append_left _ hcl, hcc⟩

/-! ### Runs -/

theorem ClockInv.step (h : ClockInv slug calls d₀ t₀ s)
    (hs : Transaction.step (updates slug calls) s e = some s') : ClockInv slug calls d₀ t₀ s' := by
  have hinv := h.inv.step (protects_sameArticle slug)
    (fun i _ _ => wellLocked_run (c := (calls i).call)) hs
  have hlatest : (∀ c ∈ s'.log, Forward slug c) → LatestStart slug t₀ s' := by
    obtain ⟨hdb, hlog⟩ | ⟨i, t, pend, r, -, hi, rfl⟩ := Transaction.step_commits hs
    · intro hall
      exact (h.latest (hlog ▸ hall)).congr hdb hlog
    · intro hall
      have hbefore := h.latest fun c hc => hall c (List.mem_append_left _ hc)
      exact (forward_commit h hbefore hi).2 (hall _ (List.mem_append_right _ List.mem_cons_self))
  exact ⟨hinv, h.clocked.step hs, hlatest⟩

/-- A step that commits nothing is in order. -/
theorem inStartOrder_of_log (hs : Transaction.step (updates slug calls) s e = some s')
    (hlog : s'.log = s.log) : InStartOrder slug calls s e := by
  cases e with
  | start i t => trivial
  | fails i => trivial
  | exec i =>
      rw [InStartOrder]
      split
      · rename_i t pend r hi
        rw [Transaction.step, hi] at hs
        obtain rfl := Option.some.inj hs
        simp [Transaction.State.commit] at hlog
      · trivial

theorem forward_of_step (h : ClockInv slug calls d₀ t₀ s)
    (hs : Transaction.step (updates slug calls) s e = some s') :
    (∀ c ∈ s'.log, Forward slug c) ↔
      (∀ c ∈ s.log, Forward slug c) ∧ InStartOrder slug calls s e := by
  obtain ⟨-, hlog⟩ | ⟨i, t, pend, r, rfl, hi, rfl⟩ := Transaction.step_commits hs
  · have horder : InStartOrder slug calls s e := inStartOrder_of_log hs hlog
    rw [hlog]
    exact (and_iff_left horder).symm
  · have horder : InStartOrder slug calls s (.exec i) ↔
        ((calls i).Changes slug s.db → ∀ c ∈ s.log, Changed slug c → c.time ≤ t) := by
      simp only [InStartOrder, hi]
    rw [horder]
    change (∀ c ∈ s.log ++ [_], Forward slug c) ↔ _
    rw [List.forall_mem_append, List.forall_mem_singleton]
    exact and_congr_right fun hall => (forward_commit h (h.latest hall) hi).1

/-- **When `updated_at` never moves backward.**  In a run of updates of the article whose clock
starts no earlier than its `updated_at`, every committed change leaves `updated_at` no smaller than
it found it exactly when changes are committed in the order of the starts. -/
theorem forward_iff_inStartOrder
    (h₀ : ∀ a, d₀.findArticle slug = some a → a.updatedAt ≤ t₀)
    (hr : run (Transaction.step (updates slug calls)) (Transaction.State.init d₀ t₀) es = some s) :
    (∀ c ∈ s.log, Forward slug c) ↔
      Meets (Transaction.step (updates slug calls)) (InStartOrder slug calls)
        (Transaction.State.init d₀ t₀) es := by
  rw [iff_meets (fun _ _ _ h hs => ClockInv.step h hs) (fun _ _ _ h hs => forward_of_step h hs)
    (ClockInv.init h₀) hr]
  exact and_iff_right nofun

end

/-! ### Two updates of the sample -/

/-- `true` sets the title, `false` the body. -/
def sampleUpdates : Bool → UpdateArgs
  | true => ⟨['u'], ⟨some ['T'], none, none, none⟩, fun _ => 0⟩
  | false => ⟨['u'], ⟨none, none, some ['B'], none⟩, fun _ => 0⟩

/-- `true` starts at 2000 and reads its user; `false` starts at 3000 and runs to its commit; then
`true` gets the article and commits. -/
def overtaken : List (Transaction.Event Bool Timestamp) :=
  [.start true 2000, .exec true, .start false 3000] ++
    List.replicate 10 (.exec false) ++ List.replicate 9 (.exec true)

/-- The `updated_at` that a commit found and left. -/
def stamps (c : RunCommit Bool) : Option Timestamp × Option Timestamp :=
  ((c.before.findArticle ['s']).map (·.updatedAt), (c.after.findArticle ['s']).map (·.updatedAt))

/-- The article that a commit found and left. -/
def views (c : RunCommit Bool) : Option ArticleView × Option ArticleView :=
  (view ['s'] c.before, view ['s'] c.after)

/-- `updated_at` goes from 1000 to 3000, and back to 2000. -/
theorem updatedAt_moves_backward : ∃ s : RunState Bool,
    run (Transaction.step (updates ['s'] sampleUpdates))
      (Transaction.State.init Tables.sample 1000) overtaken = some s ∧
    s.log.map stamps = [(some 1000, some 3000), (some 3000, some 2000)] ∧
    ∃ c ∈ s.log, ¬ Forward ['s'] c := by
  have hruns : (run (Transaction.step (updates ['s'] sampleUpdates))
      (Transaction.State.init Tables.sample 1000) overtaken).map
        (fun s => s.log.map fun c => (stamps c, views c)) =
      some [((some 1000, some 3000),
          some ⟨['t'], ['d'], ['b'], [['t'], ['x']]⟩, some ⟨['t'], ['d'], ['B'], [['t'], ['x']]⟩),
        ((some 3000, some 2000), some ⟨['t'], ['d'], ['B'], [['t'], ['x']]⟩,
          some ⟨['T'], ['d'], ['B'], [['t'], ['x']]⟩)] := rfl
  obtain ⟨s, hs, hlog⟩ := Option.map_eq_some_iff.mp hruns
  refine ⟨s, hs, by simpa [Function.comp_def] using congrArg (List.map Prod.fst) hlog, ?_⟩
  obtain ⟨c, hc, hread⟩ := List.mem_map.mp (hlog ▸ List.mem_cons_of_mem _ List.mem_cons_self)
  obtain ⟨hstamps, hviews⟩ := Prod.mk.inj hread
  obtain ⟨hfound, hleft⟩ := Prod.mk.inj hstamps
  obtain ⟨hbefore, hafter⟩ := Prod.mk.inj hviews
  obtain ⟨a, ha, hat⟩ := Option.map_eq_some_iff.mp hfound
  obtain ⟨b, hb, hbt⟩ := Option.map_eq_some_iff.mp hleft
  refine ⟨c, hc, fun hforward => ?_⟩
  have hle := hforward (by rw [Changed, hbefore, hafter]; decide) a b ha hb
  rw [hat, hbt] at hle
  exact absurd hle (by decide)

/-- When the first to start commits first, the changes are in order. -/
theorem forward_iff_inStartOrder_sample :
    Meets (Transaction.step (updates ['s'] sampleUpdates)) (InStartOrder ['s'] sampleUpdates)
      (Transaction.State.init Tables.sample 1000) sampleEvents := by
  have hruns : (run (Transaction.step (updates ['s'] sampleUpdates))
      (Transaction.State.init Tables.sample 1000) sampleEvents).map (fun s => s.log.map stamps) =
      some [(some 1000, some 2000), (some 2000, some 3000)] := rfl
  obtain ⟨s, hs, hlog⟩ := Option.map_eq_some_iff.mp hruns
  have hstored : ∀ a, Tables.sample.findArticle ['s'] = some a → a.updatedAt ≤ 1000 := by
    intro a ha
    obtain rfl : _ = a := Option.some.inj ha
    decide
  refine (forward_iff_inStartOrder hstored hs).mp fun c hc _ a b ha hb => ?_
  have hread := List.mem_map_of_mem (f := stamps) hc
  rw [hlog, stamps, ha, hb] at hread
  simp only [Option.map_some, List.mem_cons, Prod.mk.injEq, Option.some.injEq, List.not_mem_nil,
    or_false] at hread
  obtain ⟨hat, hbt⟩ | ⟨hat, hbt⟩ := hread
  · rw [hat, hbt]; decide
  · rw [hat, hbt]; decide

end MediumClone.Articles
