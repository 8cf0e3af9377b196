import Katetris.Lib.Runs

set_option autoImplicit false

/-! # Simulation between two transition functions

Two systems as in `Lib.Runs`, a concrete and an abstract one. A relation between their states is a
simulation (`Simulates`) if every concrete step that meets a condition is answered by finitely many
abstract steps, possibly none, that lead to related states again and in which the same is observed; then
every concrete run of such steps is answered by an abstract one, with the same observations in the same
order. When the abstract state is a function of the concrete one and each concrete step names the
abstract steps it stands for, the abstract run can be computed from the concrete one (`projected`). -/

namespace Katetris.Lib

variable {γ κ σ ι ο : Type} {cstep : γ → κ → γ} {astep : σ → ι → σ}

/-! ## Projections -/

/-- What the steps of a run stand for, one after the other: abstract steps, or observations. -/
def projected (cstep : γ → κ → γ) (answer : γ → κ → List ι) : γ → List κ → List ι
  | _, [] => []
  | c, k :: ks => answer c k ++ projected cstep answer (cstep c k) ks

theorem projected_append (answer : γ → κ → List ι) (c : γ) (ks ks' : List κ) :
    projected cstep answer c (ks ++ ks')
      = projected cstep answer c ks ++ projected cstep answer (exec cstep c ks) ks' := by
  induction ks generalizing c with
  | nil => rfl
  | cons k ks ih => rw [List.cons_append, projected, ih, projected, List.append_assoc, exec_cons]

/-- If each step is answered by the abstract steps it names, so is each run. -/
theorem exec_projected {π : γ → σ} {answer : γ → κ → List ι}
    (hπ : ∀ c k, π (cstep c k) = exec astep (π c) (answer c k)) (c : γ) (ks : List κ) :
    π (exec cstep c ks) = exec astep (π c) (projected cstep answer c ks) := by
  induction ks generalizing c with
  | nil => rfl
  | cons k ks ih => rw [exec_cons, ih, hπ, projected, exec_append]

/-- What is observed in the abstract run a concrete one stands for. -/
theorem projected_projected {π : γ → σ} {answer : γ → κ → List ι}
    (hπ : ∀ c k, π (cstep c k) = exec astep (π c) (answer c k)) {cobs : γ → κ → List ο}
    {aobs : σ → ι → List ο} (hobs : ∀ c k, projected astep aobs (π c) (answer c k) = cobs c k) (c : γ)
    (ks : List κ) :
    projected astep aobs (π c) (projected cstep answer c ks) = projected cstep cobs c ks := by
  induction ks generalizing c with
  | nil => rfl
  | cons k ks ih => rw [projected, projected_append, hobs, ← hπ, ih, projected]

/-- If each step is answered by one abstract step at most, a run visits the abstract states its
    projection visits, and no others. -/
theorem allStates_projected {π : γ → σ} {answer : γ → κ → List ι}
    (hπ : ∀ c k, π (cstep c k) = exec astep (π c) (answer c k))
    (hone : ∀ c k, (answer c k).length ≤ 1) {P : σ → Prop} (c : γ) (ks : List κ) :
    AllStates cstep (fun c => P (π c)) c ks ↔
      AllStates astep P (π c) (projected cstep answer c ks) := by
  induction ks generalizing c with
  | nil => exact Iff.rfl
  | cons k ks ih =>
      have hstep := hπ c k
      have hlen := hone c k
      rw [projected, AllStates, ih, hstep]
      match hans : answer c k with
      | [] =>
          rw [hans] at hstep
          refine ⟨fun h => h.2, fun h => ⟨h.first, h⟩⟩
      | [i] => exact Iff.rfl
      | _ :: _ :: _ =>
          rw [hans] at hlen
          simp at hlen

/-! ## Simulation relations -/

section Simulation

variable {cobs : γ → κ → List ο} {aobs : σ → ι → List ο} {L : γ → κ → Prop} {R : γ → σ → Prop}

/-- At every concrete step that meets `L`, related states stay related when the abstract system answers
    with some steps of its own, in which it observes the same. -/
def Simulates (cstep : γ → κ → γ) (astep : σ → ι → σ) (cobs : γ → κ → List ο) (aobs : σ → ι → List ο)
    (L : γ → κ → Prop) (R : γ → σ → Prop) : Prop :=
  ∀ c a k, R c a → L c k → ∃ is, R (cstep c k) (exec astep a is) ∧ projected astep aobs a is = cobs c k

theorem Simulates.run (hR : Simulates cstep astep cobs aobs L R) {c : γ} {a : σ} (h0 : R c a)
    {ks : List κ} (hL : AllSteps cstep L c ks) :
    ∃ is, R (exec cstep c ks) (exec astep a is)
      ∧ projected astep aobs a is = projected cstep cobs c ks := by
  induction ks generalizing c a with
  | nil => exact ⟨[], h0, rfl⟩
  | cons k ks ih =>
      obtain ⟨is, hstep, hobs⟩ := hR c a k h0 hL.1
      obtain ⟨js, hrest, hobs'⟩ := ih hstep hL.2
      refine ⟨is ++ js, ?_, ?_⟩
      · rw [exec_cons, exec_append]
        exact hrest
      · rw [projected_append, projected, hobs, hobs']

end Simulation

end Katetris.Lib
