import Mathlib.Data.List.Nodup

/-!
# Support — Serial

Calls `i` act on a state by `act i : α → α`.  `Serial act a₀ done a` says that `a` is what the calls
in `done` make of `a₀` when they run one after another in some order, each once.

An interleaved system is shown serial by maintaining `Serial` as an invariant: a step that
commits the call `i` moves the state as `act i` does (`Serial.commit`), and every other step leaves
state and committed calls alone (`Serial.congr`).
-/

namespace Sys

variable {ι α : Type*} {act : ι → α → α} {a₀ a : α} {done done' : ι → Prop}

/-- `a` is the result of the calls in `done`, from `a₀`, in some order. -/
def Serial (act : ι → α → α) (a₀ : α) (done : ι → Prop) (a : α) : Prop :=
  ∃ order : List ι, order.Nodup ∧ (∀ i, i ∈ order ↔ done i) ∧
    order.foldl (fun a i => act i a) a₀ = a

/-- No call has run. -/
theorem Serial.none (h : ∀ i, ¬ done i) : Serial act a₀ done a₀ :=
  ⟨[], List.nodup_nil, fun i => by simp [h i], rfl⟩

theorem Serial.congr (h : Serial act a₀ done a) (hd : ∀ i, done' i ↔ done i) :
    Serial act a₀ done' a := by
  obtain ⟨order, hn, hm, hf⟩ := h
  exact ⟨order, hn, fun i => (hm i).trans (hd i).symm, hf⟩

/-- One more call commits, after all the others. -/
theorem Serial.commit {i : ι} (h : Serial act a₀ done a) (hi : ¬ done i)
    (hd : ∀ j, done' j ↔ done j ∨ j = i) : Serial act a₀ done' (act i a) := by
  obtain ⟨order, hn, hm, hf⟩ := h
  refine ⟨order ++ [i], ?_, fun j => ?_, ?_⟩
  · exact hn.append (List.nodup_singleton i) (by simpa [hm] using hi)
  · rw [List.mem_append, List.mem_singleton, hm, hd]
  · rw [List.foldl_append, hf]
    rfl

end Sys
