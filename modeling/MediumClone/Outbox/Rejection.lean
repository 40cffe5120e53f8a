import MediumClone.Outbox.Delivery

/-!
# Outbox — Rejection

What a pass that rejects leaves of its batch, whatever other passes and the queue do meanwhile
(`rejection_unlocks_iff`).

From its claim on, a pass stands at one entry of its batch (`Stands`): those before it are
dispatched, it and those behind it are leased by the pass (`Progress`), unless another pass has
claimed them meanwhile (`TakenOver`), which needs their lease to run out.  A failed add releases
the entry it was for and no other, so the entries behind it stay leased.
-/

namespace MediumClone.Outbox
open Js Sys

variable {κ π ρ : Type*}

/-- A pass has claimed the row `id`. -/
def TakenOver (id : κ) (es : List (Event κ π ρ)) : Prop :=
  ∃ q now skipped entries answered,
    .claims q now skipped entries answered ∈ es ∧ id ∈ entries.map (·.id)

/-- What a pass still needs its lease for. -/
def Phase.entries : Phase κ π → List (ClaimedWelcomeMailOutbox κ π)
  | .adding entry rest | .marking entry rest => entry :: rest
  | .releasing entry => [entry]
  | .idle | .claiming _ | .resolved | .failed => []

/-- A pass holds entries it has leased itself. -/
def Owned (s : State κ π ρ) : Prop :=
  ∀ q, ∀ entry ∈ (s.phase q).entries, entry.leaseOwner = q

def State.Leases (s : State κ π ρ) (p : π) (id : κ) : Prop :=
  ∃ r ∈ s.rows, LeasedBy id p r ∧ r.dispatchedAt = none

def State.Dispatched (s : State κ π ρ) (id : κ) : Prop :=
  ∃ r ∈ s.rows, r.id = id ∧ r.dispatchedAt ≠ none

/-- The pass `p` stands at `r`, with `rest` behind it. -/
inductive Stands (p : π) (r : WelcomeMailOutbox κ π) (rest : List (WelcomeMailOutbox κ π)) :
    Phase κ π → Prop where
  | adding : Stands p r rest (.adding (r.claimed p) (rest.map fun r => r.claimed p))
  | marking : Stands p r rest (.marking (r.claimed p) (rest.map fun r => r.claimed p))
  | releasing : Stands p r rest (.releasing (r.claimed p))

/-- Where the pass `p` over `entries` has come to after the events `es`. -/
inductive Progress (p : π) (entries : List (WelcomeMailOutbox κ π)) (es : List (Event κ π ρ))
    (s : State κ π ρ) : Prop where
  | resolved (hp : s.phase p = .resolved)
  | failed (hp : s.phase p = .failed)
  | stands {done r rest} (heq : entries = done ++ r :: rest) (hp : Stands p r rest (s.phase p))
      (hdone : ∀ x ∈ done, TakenOver x.id es ∨ s.Dispatched x.id)
      (hrest : ∀ x ∈ r :: rest, TakenOver x.id es ∨ s.Leases p x.id)

variable {bull : BullMq κ ρ} {s s' : State κ π ρ} {e : Event κ π ρ} {p : π} {id : κ}
  {entries : List (WelcomeMailOutbox κ π)} {es : List (Event κ π ρ)}

theorem TakenOver.mono {es' : List (Event κ π ρ)} (h : TakenOver id es) (hsub : es ⊆ es') :
    TakenOver id es' := by
  obtain ⟨q, now, skipped, entries, answered, hmem, hid⟩ := h
  exact ⟨q, now, skipped, entries, answered, hsub hmem, hid⟩

/-! ### Updates -/

/-- No statement takes `dispatchedAt` back. -/
theorem dispatched_updateWhere {p : WelcomeMailOutbox κ π → Prop} [DecidablePred p]
    {f : WelcomeMailOutbox κ π → WelcomeMailOutbox κ π} {rows : List (WelcomeMailOutbox κ π)}
    (hf : ∀ r, (f r).id = r.id ∧ (r.dispatchedAt ≠ none → (f r).dispatchedAt ≠ none))
    (h : ∃ r ∈ rows, r.id = id ∧ r.dispatchedAt ≠ none) :
    ∃ r ∈ updateWhere p f rows, r.id = id ∧ r.dispatchedAt ≠ none := by
  obtain ⟨r, hr, hid, hd⟩ := h
  by_cases hp : p r
  · exact ⟨f r, mem_updateWhere_of_pos hr hp, (hf r).1.trans hid, (hf r).2 hd⟩
  · exact ⟨r, mem_updateWhere_of_not hr hp, hid, hd⟩

variable [DecidableEq κ] [DecidableEq π]

/-! ### What a step preserves -/

theorem Transition.dispatched (h : Transition bull s e s') (hd : s.Dispatched id) :
    s'.Dispatched id := by
  cases h with
  | registers =>
      obtain ⟨r, hr, hd⟩ := hd
      exact ⟨r, List.mem_append_left _ hr, hd⟩
  | claims => exact dispatched_updateWhere (fun _ => ⟨rfl, fun h => h⟩) hd
  | marks => exact dispatched_updateWhere (fun _ => ⟨rfl, fun _ => Option.some_ne_none _⟩) hd
  | releases => exact dispatched_updateWhere (fun _ => ⟨rfl, fun h => h⟩) hd
  | _ => exact hd

omit [DecidableEq κ] in
theorem owned_set (ho : Owned s) {phase : Phase κ π} (hp : ∀ x ∈ phase.entries, x.leaseOwner = p) :
    Owned (s.set p phase) :=
  (Function.forall_update_iff s.phase fun q phase => ∀ x ∈ phase.entries, x.leaseOwner = q).mpr
    ⟨hp, fun q _ => ho q⟩

omit [DecidableEq κ] [DecidableEq π] in
theorem entries_next {entries : List (ClaimedWelcomeMailOutbox κ π)} {answered : Bool}
    {x : ClaimedWelcomeMailOutbox κ π}
    (hx : x ∈ (if answered then next entries else .failed : Phase κ π).entries) : x ∈ entries := by
  cases answered with
  | false => cases hx
  | true =>
      cases entries with
      | nil => cases hx
      | cons => exact hx

theorem Owned.step (ho : Owned s) (h : Transition bull s e s') : Owned s' := by
  have hof : ∀ {q : π} {phase : Phase κ π}, s.phase q = phase →
      ∀ x ∈ phase.entries, x.leaseOwner = q := by
    rintro q _ rfl
    exact ho q
  cases h with
  | polls | releases | databaseFails | crashes => exact owned_set ho fun _ hx => (by cases hx)
  | claims =>
      refine owned_set ho ?_
      intro x hx
      obtain ⟨r, -, rfl⟩ := List.mem_map.mp (entries_next hx)
      rfl
  | @addResolves q entry rest hp => 
      have hx : ∀ x ∈ (Phase.adding entry rest).entries, x.leaseOwner = q := hof hp
      exact owned_set ho hx
  | addRejects hp =>
      refine owned_set ho ?_
      intro x hx
      rw [List.mem_singleton.mp hx]
      exact hof hp _ List.mem_cons_self
  | marks hp =>
      refine owned_set ho ?_
      intro x hx
      exact hof hp x (List.mem_cons_of_mem _ (entries_next hx))
  | _ => exact ho

/-- The pass that takes the step. -/
def Event.pass : Event κ π ρ → Option π
  | .poll p _ | .claims p _ _ _ _ | .sends p | .addResolves p | .addRejects p | .marks p _ _
  | .releases p _ | .databaseFails p | .crashes p => some p
  | .tick _ | .register .. | .stores _ | .works _ => none

/-- The pass updates the row of its entry. -/
def Updates (p : π) : Event κ π ρ → Prop
  | .marks q _ _ | .releases q _ => q = p
  | _ => False

theorem Transition.phase_of_ne (h : Transition bull s e s') (hp : e.pass ≠ some p) :
    s'.phase p = s.phase p := by
  cases h with
  | ticks | registers | sends | stores | works => rfl
  | _ => exact Function.update_of_ne (fun h => hp (congrArg some h.symm)) ..

/-- A lease stays until the pass updates the row or another pass claims it. -/
theorem Transition.leases (h : Transition bull s e s') (ho : Owned s) (hl : s.Leases p id)
    (hclaim : ¬ TakenOver id [e])
    (hup : Updates p e → ∀ x ∈ (s.phase p).entries.head?, x.id ≠ id) : s'.Leases p id := by
  obtain ⟨r, hr, hlease, hd⟩ := hl
  have hnot : ∀ (q : π) {entry : ClaimedWelcomeMailOutbox κ π}, (q = p → entry.id ≠ id) →
      entry.leaseOwner = q → ¬ LeasedBy entry.id entry.leaseOwner r := by
    rintro q entry hne rfl ⟨hid, howner⟩
    exact hne (Option.some.inj (howner.symm.trans hlease.2)) (hid.symm.trans hlease.1)
  cases h with
  | registers => exact ⟨r, List.mem_append_left _ hr, hlease, hd⟩
  | @claims q _ now skipped entries answered =>
      refine ⟨r, mem_updateWhere_of_not hr ?_, hlease, hd⟩
      intro hmem
      rw [hlease.1] at hmem
      exact hclaim ⟨q, now, skipped, entries, answered, List.mem_singleton_self _, hmem⟩
  | @marks q entry rest now answered hp =>
      refine ⟨r, mem_updateWhere_of_not hr (hnot q ?_ ?_), hlease, hd⟩
      · rintro rfl
        exact hup rfl entry (by rw [hp]; rfl)
      · exact ho q entry (by rw [hp]; exact List.mem_cons_self)
  | @releases q entry now hp =>
      refine ⟨r, mem_updateWhere_of_not hr (hnot q ?_ ?_), hlease, hd⟩
      · rintro rfl
        exact hup rfl entry (by rw [hp]; rfl)
      · exact ho q entry (by rw [hp]; exact List.mem_cons_self)
  | _ => exact ⟨r, hr, hlease, hd⟩

/-- A step that does not update an entry of the pass. -/
theorem Progress.other (h : Progress p entries es s) (ho : Owned s) (ht : Transition bull s e s')
    (hp : s'.phase p = s.phase p ∨ ∃ entry rest, s.phase p = .adding entry rest ∧
      (s'.phase p = .marking entry rest ∨ s'.phase p = .releasing entry))
    (hup : ¬ Updates p e) : Progress p entries (es ++ [e]) s' := by
  have hend : ∀ {phase}, s.phase p = phase → (∀ entry rest, phase ≠ .adding entry rest) →
      s'.phase p = phase := by
    rintro phase rfl hne
    rcases hp with hp | ⟨entry, rest, hp, -⟩
    · exact hp
    · exact absurd hp (hne entry rest)
  cases h with
  | resolved h => exact .resolved (hend h nofun)
  | failed h => exact .failed (hend h nofun)
  | @stands done r rest heq hstands hdone hrest =>
      have hstands' : Stands p r rest (s'.phase p) := by
        rcases hp with hp | ⟨entry, rest, hp, hp' | hp'⟩
        · exact hp ▸ hstands
        · rw [hp] at hstands
          rw [hp']
          cases hstands
          exact .marking
        · rw [hp] at hstands
          rw [hp']
          cases hstands
          exact .releasing
      refine .stands heq hstands' ?_ ?_
      · intro x hx
        exact (hdone x hx).imp (TakenOver.mono · (List.subset_append_left ..)) ht.dispatched
      · intro x hx
        by_cases hclaim : TakenOver x.id [e]
        · exact .inl (hclaim.mono (List.subset_append_right ..))
        · exact (hrest x hx).imp (TakenOver.mono · (List.subset_append_left ..))
            fun hl => ht.leases ho hl hclaim fun hu => absurd hu hup

omit [DecidableEq κ] [DecidableEq π] in
/-- At the head of the loop. -/
theorem progress_next {done rest : List (WelcomeMailOutbox κ π)} (heq : entries = done ++ rest)
    (hp : s.phase p = next (rest.map fun r => r.claimed p))
    (hdone : ∀ x ∈ done, TakenOver x.id es ∨ s.Dispatched x.id)
    (hrest : ∀ x ∈ rest, TakenOver x.id es ∨ s.Leases p x.id) : Progress p entries es s := by
  cases rest with
  | nil => exact .resolved hp
  | cons r rest => exact .stands heq (by rw [hp]; exact .adding) hdone hrest

omit [DecidableEq κ] [DecidableEq π] in
theorem Progress.exists_stands (h : Progress p entries es s) {phase : Phase κ π}
    (hp : s.phase p = phase) (hne : phase ≠ .resolved ∧ phase ≠ .failed) :
    ∃ done r rest, entries = done ++ r :: rest ∧ Stands p r rest phase ∧
      (∀ x ∈ done, TakenOver x.id es ∨ s.Dispatched x.id) ∧
      ∀ x ∈ r :: rest, TakenOver x.id es ∨ s.Leases p x.id := by
  cases h with
  | resolved h => exact absurd (hp.symm.trans h) hne.1
  | failed h => exact absurd (hp.symm.trans h) hne.2
  | stands heq hstands hdone hrest => exact ⟨_, _, _, heq, hp ▸ hstands, hdone, hrest⟩

omit [DecidableEq κ] [DecidableEq π] in
theorem id_ne_of_nodup {done rest : List (WelcomeMailOutbox κ π)} {r x : WelcomeMailOutbox κ π}
    (hn : ((done ++ r :: rest).map (·.id)).Nodup) (hx : x ∈ rest) : x.id ≠ r.id := by
  intro heq
  rw [List.map_append, List.map_cons] at hn
  have hnot := (List.nodup_cons.mp (List.nodup_append.mp hn).2.1).1
  exact hnot (List.mem_map.mpr ⟨x, hx, heq⟩)

/-- The entry the pass marks is dispatched, and what is behind it stays leased. -/
theorem Progress.marks (bull : BullMq κ ρ) {entry : ClaimedWelcomeMailOutbox κ π}
    {rest : List (ClaimedWelcomeMailOutbox κ π)} {now : ℤ} {answered : Bool}
    (h : Progress p entries es s) (hn : (entries.map (·.id)).Nodup) (ho : Owned s)
    (hp : s.phase p = .marking entry rest) (hnow : now ≤ s.clock)
    (hs' : s' = { s.set p (if answered then next rest else .failed) with
      rows := markDispatched entry.id entry.leaseOwner now s.rows }) :
    Progress p entries (es ++ [.marks p now answered]) s' := by
  have ht : Transition bull s (.marks p now answered) s' := hs' ▸ .marks hp hnow
  have hphase : s'.phase p = if answered then next rest else .failed := by
    rw [hs']
    exact Function.update_self ..
  cases answered with
  | false => exact .failed hphase
  | true =>
      obtain ⟨done, r, rest, rfl, hstands, hdone, hrest⟩ := h.exists_stands hp (by simp)
      cases hstands
      have hmono : ∀ {id}, TakenOver id es → TakenOver id (es ++ [.marks p now true]) :=
        fun h => h.mono (List.subset_append_left ..)
      refine progress_next (List.append_cons done r rest) hphase ?_ ?_
      · intro x hx
        rcases List.mem_append.mp hx with hx | hx
        · exact (hdone x hx).imp hmono ht.dispatched
        · rw [List.mem_singleton.mp hx]
          refine (hrest r List.mem_cons_self).imp hmono ?_
          rintro ⟨r₀, hr₀, hl, -⟩
          rw [hs']
          exact ⟨r₀.dispatch now, mem_updateWhere_of_pos hr₀ hl, hl.1, Option.some_ne_none _⟩
      · intro x hx
        refine (hrest x (List.mem_cons_of_mem r hx)).imp hmono ?_
        intro hl
        refine ht.leases ho hl ?_ ?_
        · rintro ⟨q, now', skipped, entries, answered, hmem, -⟩
          cases List.mem_singleton.mp hmem
        · rintro - y hy heq
          rw [hp, Phase.entries, List.head?_cons, Option.mem_some_iff] at hy
          subst hy
          exact id_ne_of_nodup hn hx heq.symm

omit [DecidableEq κ] [DecidableEq π] in
theorem Updates.pass_eq (h : Updates p e) : e.pass = some p := by
  cases e with
  | marks | releases => exact congrArg some h
  | _ => exact h.elim

theorem Progress.step (h : Progress p entries es s) (hn : (entries.map (·.id)).Nodup)
    (ho : Owned s) (ht : Transition bull s e s') : Progress p entries (es ++ [e]) s' := by
  by_cases hp : e.pass = some p
  · have hother := h.other ho ht
    cases ht with
    | ticks | registers | stores | works => cases hp
    | sends => exact hother (.inl rfl) id
    | polls hidle =>
        cases hp
        obtain ⟨_, _, _, _, hstands, _⟩ := h.exists_stands hidle (by simp)
        cases hstands
    | claims hclaiming =>
        cases hp
        obtain ⟨_, _, _, _, hstands, _⟩ := h.exists_stands hclaiming (by simp)
        cases hstands
    | addResolves hadding =>
        cases hp
        exact hother (.inr ⟨_, _, hadding, .inl (Function.update_self ..)⟩) id
    | addRejects hadding =>
        cases hp
        exact hother (.inr ⟨_, _, hadding, .inr (Function.update_self ..)⟩) id
    | marks hmarking hnow =>
        cases hp
        exact h.marks bull hn ho hmarking hnow rfl
    | releases | databaseFails | crashes =>
        cases hp
        exact .failed (Function.update_self ..)
  · exact h.other ho ht (.inl (ht.phase_of_ne hp)) fun hu => hp hu.pass_eq

/-! ### From the claim to the rejection -/

theorem owned_run {clock : ℤ} (hr : run (step bull) (init π bull clock) es = some s) : Owned s :=
  run_invariant' (fun _ _ _ ho hs => ho.step (step_transition hs)) (fun _ _ hx => by cases hx) hr

/-- The batch as it is claimed. -/
theorem progress_claims {now : ℤ} {skipped : List κ}
    (hs : step bull s (.claims p now skipped entries true) = some s') :
    Progress p entries [] s' := by
  cases step_transition hs with
  | claims hp hnow hsel =>
      refine progress_next (List.nil_append _).symm (Function.update_self ..) nofun ?_
      intro r hr
      obtain ⟨hrow, -, hready⟩ := hsel.ready r hr
      exact .inr ⟨_, mem_updateWhere_of_pos hrow (List.mem_map_of_mem hr), ⟨rfl, rfl⟩, hready.1⟩

/-- From its claim on, every pass makes progress through its batch. -/
theorem progress_run {clock now : ℤ} {skipped : List κ} {es₁ es₂ : List (Event κ π ρ)}
    (hr : run (step bull) (init π bull clock) (es₁ ++ .claims p now skipped entries true :: es₂) =
      some s) : (entries.map (·.id)).Nodup ∧ Progress p entries es₂ s := by
  obtain ⟨s₀, hr₁, hr⟩ := run_append.mp hr
  obtain ⟨s₁, hs, hr₂⟩ := run_cons.mp hr
  have hn : (entries.map (·.id)).Nodup := by
    cases step_transition hs with
    | claims _ _ hsel => exact hsel.nodup_ids (inv_run hr₁).ids
  have ho : Owned s₁ := (owned_run hr₁).step (step_transition hs)
  refine ⟨hn, (run_history (I := fun es s => Owned s ∧ Progress p entries es s) ?_
    ⟨ho, progress_claims hs⟩ hr₂).2⟩
  rintro es s e s' ⟨ho, h⟩ hs
  exact ⟨ho.step (step_transition hs), h.step hn ho (step_transition hs)⟩

/-- Every entry of the batch that is not dispatched, and that no pass has claimed since, has no
lease and is ready. -/
def Unlocked (entries : List (WelcomeMailOutbox κ π)) (es : List (Event κ π ρ))
    (s : State κ π ρ) : Prop :=
  ∀ r ∈ s.rows, r.id ∈ entries.map (·.id) → r.dispatchedAt = none → ¬ TakenOver r.id es →
    r.leaseOwner = none ∧ r.leaseExpiresAt = none ∧ ∀ now, s.clock ≤ now → Ready now r

/-- What the release does to a row. -/
theorem row_of_release {rows : List (WelcomeMailOutbox κ π)} {now : ℤ}
    (hids : (rows.map (·.id)).Nodup) {x x' : WelcomeMailOutbox κ π} (hx : x ∈ rows)
    (hx' : x' ∈ release id p now rows) (hid : x.id = x'.id) :
    x' = if LeasedBy id p x then x.unlease now else x := by
  obtain ⟨x₀, hx₀, rfl⟩ := List.mem_map.mp hx'
  have hid₀ : x₀.id = x.id := by
    rw [hid]
    split <;> rfl
  rw [List.inj_on_of_nodup_map hids hx₀ hx hid₀]

/-- **What a failed pass leaves locked.**  A pass that rejects stands at an entry of its batch, and
it leaves the batch unlocked exactly when every entry behind that one has been claimed by another
pass since: when there is none behind it, as long as the leases last. -/
theorem rejection_unlocks_iff {clock now now' : ℤ} {skipped : List κ}
    {es₁ es₂ : List (Event κ π ρ)}
    (hr : run (step bull) (init π bull clock) (es₁ ++ .claims p now skipped entries true :: es₂) =
      some s)
    (hs : step bull s (.releases p now') = some s') :
    ∃ done r rest, entries = done ++ r :: rest ∧ s.phase p = .releasing (r.claimed p) ∧
      (Unlocked entries es₂ s' ↔ ∀ x ∈ rest, TakenOver x.id es₂) := by
  obtain ⟨hn, hprogress⟩ := progress_run hr
  have hids := (inv_run hr).ids
  cases step_transition hs with
  | releases hp hnow =>
      obtain ⟨done, r, rest, rfl, hstands, hdone, hrest⟩ := hprogress.exists_stands hp (by simp)
      cases hstands
      refine ⟨done, r, rest, rfl, hp, ?_, ?_⟩
      · intro hunlocked x hx
        by_contra hnot
        obtain ⟨x', hx', ⟨hid, howner⟩, hd⟩ :=
          (hrest x (List.mem_cons_of_mem r hx)).resolve_left hnot
        -- the release finds the row of `r` only
        have hkept : x' ∈ release r.id p now' s.rows :=
          mem_updateWhere_of_not hx' fun hl => id_ne_of_nodup hn hx (hid.symm.trans hl.1)
        have hmem : x'.id ∈ (done ++ r :: rest).map (·.id) :=
          List.mem_map.mpr ⟨x, by simp [hx], hid.symm⟩
        have hfree := (hunlocked x' hkept hmem hd (hid ▸ hnot)).1
        rw [howner] at hfree
        cases hfree
      · rintro htaken x' (hx' : x' ∈ release r.id p now' s.rows) hmem hd hnot
        obtain ⟨x, hx, hid⟩ := List.mem_map.mp hmem
        rw [← hid] at hnot
        rcases List.mem_append.mp hx with hx | hx
        · obtain ⟨x₀, hx₀, hid₀, hd₀⟩ := (hdone x hx).resolve_left hnot
          refine absurd hd ?_
          rw [row_of_release hids hx₀ hx' (hid₀.trans hid)]
          split <;> exact hd₀
        · rcases List.mem_cons.mp hx with rfl | hx
          · obtain ⟨x₀, hx₀, hl, hd₀⟩ := (hrest x List.mem_cons_self).resolve_left hnot
            rw [row_of_release hids hx₀ hx' (hl.1.trans hid), if_pos hl]
            exact ⟨rfl, rfl, fun t ht => ⟨hd₀, hnow.trans ht, nofun⟩⟩
          · exact absurd (htaken x hx) hnot

/-! ### A batch of two -/

/-- Two mails, and a pass that has polled. -/
def polled : List (Event Bool Bool (List (Job Bool))) :=
  [.register false [] [] 0, .register true [] [] 0, .poll false 0]

/-- The rows of `polled`. -/
def bothRows : List (WelcomeMailOutbox Bool Bool) :=
  [.registered false [] [] 0, .registered true [] [] 0]

/-- The add of the second entry fails. -/
def secondFails : List (Event Bool Bool (List (Job Bool))) :=
  [.sends false, .stores ⟨[], false, []⟩, .addResolves false, .marks false 0 true, .sends false,
    .addRejects false]

/-- The add of the first entry fails. -/
def firstFails : List (Event Bool Bool (List (Job Bool))) :=
  [.sends false, .addRejects false]

/-- The batch is unlocked. -/
theorem rejection_unlocks_iff_secondFails :
    ∃ s s' : State Bool Bool (List (Job Bool)),
      run (step (listQueue Bool)) (init Bool (listQueue Bool) 0)
        (polled ++ .claims false 0 [] bothRows true :: secondFails) = some s ∧
      step (listQueue Bool) s (.releases false 0) = some s' ∧
      ∃ done r rest, bothRows = done ++ r :: rest ∧ s.phase false = .releasing (r.claimed false) ∧
        (Unlocked bothRows secondFails s' ↔ ∀ x ∈ rest, TakenOver x.id secondFails) := by
  refine ⟨_, _, by rfl, by rfl, ?_⟩
  exact @rejection_unlocks_iff _ _ _ (listQueue Bool) _ _ _ _ _ _ 0 0 0 [] polled secondFails
    rfl rfl

/-- The second entry stays leased to the pass, which has failed. -/
theorem not_unlocked_firstFails :
    ∃ s : State Bool Bool (List (Job Bool)),
      run (step (listQueue Bool)) (init Bool (listQueue Bool) 0)
        (polled ++ .claims false 0 [] bothRows true :: firstFails ++ [.releases false 0]) = some s ∧
      (∃ r ∈ s.rows, r.id = true ∧ r.leaseOwner = some false ∧ ¬ Ready s.clock r) ∧
      ¬ Unlocked bothRows firstFails s := by
  let second : WelcomeMailOutbox Bool Bool :=
    (WelcomeMailOutbox.registered true [] [] 0).lease false LEASE_DURATION_MS
  refine ⟨_, by rfl, ⟨second, by decide, rfl, rfl, by decide⟩, ?_⟩
  intro h
  have hnot : ¬ TakenOver true firstFails := by
    rintro ⟨q, now, skipped, entries, answered, hmem, -⟩
    simp [firstFails] at hmem
  cases (h second (by decide) (by decide) rfl hnot).1

end MediumClone.Outbox
