import Mathlib.Tactic

set_option autoImplicit false

/-! # Runs of a transition function

A system is a step function `step : σ → ι → σ`, total in its state and its input; whatever the
environment chooses is in the input. A run is a start state and a list of inputs. `AllSteps` says
that every step of a run meets a condition on the state before it and its input, `AllStates` that
every state the run visits, first and last included, meets a predicate. The rules below carry an
invariant along a run once its step lemma is proved. -/

namespace Katetris.Lib

variable {σ ι : Type} (step : σ → ι → σ)

/-- The state a run ends in. -/
def exec (s : σ) (is : List ι) : σ := is.foldl step s

/-- Every step of the run meets `C`, read in the state before the step. -/
def AllSteps (C : σ → ι → Prop) : σ → List ι → Prop
  | _, [] => True
  | s, i :: is => C s i ∧ AllSteps C (step s i) is

/-- Every state the run visits meets `P`. -/
def AllStates (P : σ → Prop) : σ → List ι → Prop
  | s, [] => P s
  | s, i :: is => P s ∧ AllStates P (step s i) is

variable {step}

@[simp] theorem exec_nil (s : σ) : exec step s [] = s := rfl

@[simp] theorem exec_cons (s : σ) (i : ι) (is : List ι) :
    exec step s (i :: is) = exec step (step s i) is := rfl

theorem exec_append (s : σ) (is js : List ι) :
    exec step s (is ++ js) = exec step (exec step s is) js := by
  simp [exec]

theorem AllStates.first {P : σ → Prop} {s : σ} {is : List ι} (h : AllStates step P s is) :
    P s := by
  cases is with
  | nil => exact h
  | cons i is => exact h.1

theorem AllStates.mono {P Q : σ → Prop} (hPQ : ∀ s, P s → Q s) {s : σ} {is : List ι}
    (h : AllStates step P s is) : AllStates step Q s is := by
  induction is generalizing s with
  | nil => exact hPQ s h
  | cons i is ih => exact ⟨hPQ s h.1, ih h.2⟩

theorem AllSteps.mono {C D : σ → ι → Prop} (hCD : ∀ s i, C s i → D s i) {s : σ} {is : List ι}
    (h : AllSteps step C s is) : AllSteps step D s is := by
  induction is generalizing s with
  | nil => trivial
  | cons i is ih => exact ⟨hCD s i h.1, ih h.2⟩

theorem AllSteps.and {C D : σ → ι → Prop} {s : σ} {is : List ι} (hC : AllSteps step C s is)
    (hD : AllSteps step D s is) : AllSteps step (fun s i => C s i ∧ D s i) s is := by
  induction is generalizing s with
  | nil => trivial
  | cons i is ih => exact ⟨⟨hC.1, hD.1⟩, ih hC.2 hD.2⟩

theorem AllSteps.append {C : σ → ι → Prop} {s : σ} {is js : List ι} (his : AllSteps step C s is)
    (hjs : AllSteps step C (exec step s is) js) : AllSteps step C s (is ++ js) := by
  induction is generalizing s with
  | nil => exact hjs
  | cons i is ih => exact ⟨his.1, ih his.2 hjs⟩

theorem AllSteps.of_forall {C : σ → ι → Prop} (h : ∀ s i, C s i) (s : σ) (is : List ι) :
    AllSteps step C s is := by
  induction is generalizing s with
  | nil => trivial
  | cons i is ih => exact ⟨h s i, ih (step s i)⟩

/-- The state a run ends in is one of those it visits. -/
theorem AllStates.last {P : σ → Prop} {s : σ} {is : List ι} (h : AllStates step P s is) :
    P (exec step s is) := by
  induction is generalizing s with
  | nil => exact h
  | cons i is ih => exact ih h.2

/-- What holds in every state holds before and after every step. -/
theorem AllStates.allSteps {P : σ → Prop} {s : σ} {is : List ι} (h : AllStates step P s is) :
    AllSteps step (fun s i => P s ∧ P (step s i)) s is := by
  induction is generalizing s with
  | nil => trivial
  | cons i is ih => exact ⟨⟨h.1, h.2.first⟩, ih h.2⟩

/-- If not every step misses `C`, one of them meets it. -/
theorem exists_of_not_allSteps {C : σ → ι → Prop} {s : σ} {is : List ι}
    (h : ¬AllSteps step (fun s i => ¬C s i) s is) :
    ∃ is₁ i is₂, is = is₁ ++ i :: is₂ ∧ C (exec step s is₁) i := by
  induction is generalizing s with
  | nil => exact absurd trivial h
  | cons i is ih =>
      by_cases hC : C s i
      · exact ⟨[], i, is, rfl, hC⟩
      · obtain ⟨is₁, j, is₂, rfl, hj⟩ := ih fun hrest => h ⟨hC, hrest⟩
        exact ⟨i :: is₁, j, is₂, rfl, hj⟩

theorem AllStates.append {P : σ → Prop} {s : σ} {is js : List ι}
    (h : AllStates step P s (is ++ js)) : AllStates step P (exec step s is) js := by
  induction is generalizing s with
  | nil => exact h
  | cons i is ih => exact ih h.2

/-- The invariant rule: an invariant that holds at the start and that every step meeting `C`
    preserves holds in every state of a run whose steps all meet `C`. -/
theorem AllStates.of_invariant {I : σ → Prop} {C : σ → ι → Prop}
    (hstep : ∀ s i, I s → C s i → I (step s i)) {s : σ} {is : List ι}
    (h0 : I s) (hC : AllSteps step C s is) : AllStates step I s is := by
  induction is generalizing s with
  | nil => exact h0
  | cons i is ih => exact ⟨h0, ih (hstep s i h0 hC.1) hC.2⟩

/-- The invariant rule for a system that preserves its invariant whatever the input. -/
theorem AllStates.of_invariant' {I : σ → Prop} (hstep : ∀ s i, I s → I (step s i)) {s : σ}
    (h0 : I s) (is : List ι) : AllStates step I s is := by
  induction is generalizing s with
  | nil => exact h0
  | cons i is ih => exact ⟨h0, ih (hstep s i h0)⟩

/-- What an invariant gives at each step holds at every step of the run. -/
theorem AllSteps.of_invariant {I : σ → Prop} {C D : σ → ι → Prop}
    (hstep : ∀ s i, I s → C s i → I (step s i)) (hD : ∀ s i, I s → C s i → D s i) {s : σ}
    {is : List ι} (h0 : I s) (hC : AllSteps step C s is) : AllSteps step D s is := by
  induction is generalizing s with
  | nil => trivial
  | cons i is ih => exact ⟨hD s i h0 hC.1, ih (hstep s i h0 hC.1) hC.2⟩

/-- Two conditions that agree wherever an invariant holds agree along every run. -/
theorem allSteps_congr {I : σ → Prop} {C D : σ → ι → Prop} (hI : ∀ s i, I s → I (step s i))
    (hCD : ∀ s i, I s → (C s i ↔ D s i)) {s : σ} (h0 : I s) (is : List ι) :
    AllSteps step C s is ↔ AllSteps step D s is := by
  induction is generalizing s with
  | nil => exact Iff.rfl
  | cons i is ih => exact and_congr (hCD s i h0) (ih (hI s i h0))

/-- Among runs whose steps all meet `L`, a run keeps `P` throughout exactly when all its steps meet
    `C`, provided an invariant `I` holds as long as `P` has, and, under both, a step is into `P`
    exactly when it meets `C`. -/
theorem allStates_iff_allSteps {I P : σ → Prop} {L C : σ → ι → Prop}
    (hI : ∀ s i, I s → P s → L s i → C s i → I (step s i))
    (hP : ∀ s i, I s → P s → L s i → (P (step s i) ↔ C s i)) {s : σ} {is : List ι}
    (hI0 : I s) (hP0 : P s) (hL : AllSteps step L s is) :
    AllStates step P s is ↔ AllSteps step C s is := by
  induction is generalizing s with
  | nil => exact ⟨fun _ => trivial, fun _ => hP0⟩
  | cons i is ih =>
      refine ⟨fun hall => ?_, fun hall => ?_⟩
      · obtain ⟨_, hrest⟩ := hall
        have hC : C s i := (hP s i hI0 hP0 hL.1).mp hrest.first
        exact ⟨hC, (ih (hI s i hI0 hP0 hL.1 hC) hrest.first hL.2).mp hrest⟩
      · obtain ⟨hC, hrest⟩ := hall
        have hP' : P (step s i) := (hP s i hI0 hP0 hL.1).mpr hC
        exact ⟨hP0, (ih (hI s i hI0 hP0 hL.1 hC) hP' hL.2).mpr hrest⟩

variable (step) in
/-- The number of steps of a run that meet `C`. -/
def countSteps (C : σ → ι → Prop) [∀ s i, Decidable (C s i)] : σ → List ι → Nat
  | _, [] => 0
  | s, i :: is => (if C s i then 1 else 0) + countSteps C (step s i) is

theorem countSteps_eq_countP (v : ι → Bool) (s : σ) (is : List ι) :
    countSteps step (fun _ i => v i = true) s is = is.countP v := by
  induction is generalizing s with
  | nil => rfl
  | cons i is ih =>
      rw [countSteps, ih, List.countP_cons]
      split_ifs <;> omega

/-- The ranking rule: if every step meeting `C` lowers the rank `ρ` and no step raises it, a run has no more
    such steps than the rank it started from, less the rank it ends with. -/
theorem countSteps_add_rank_le {I : σ → Prop} {L C : σ → ι → Prop} [∀ s i, Decidable (C s i)]
    {ρ : σ → Nat} (hI : ∀ s i, I s → L s i → I (step s i))
    (hlower : ∀ s i, I s → L s i → C s i → ρ (step s i) < ρ s)
    (hkeep : ∀ s i, I s → L s i → ¬C s i → ρ (step s i) ≤ ρ s) {s : σ} {is : List ι}
    (h0 : I s) (hL : AllSteps step L s is) :
    countSteps step C s is + ρ (exec step s is) ≤ ρ s := by
  induction is generalizing s with
  | nil => simp [countSteps]
  | cons i is ih =>
      have hrest := ih (hI s i h0 hL.1) hL.2
      rw [countSteps, exec_cons]
      split_ifs with hC
      · have hstep := hlower s i h0 hL.1 hC
        omega
      · have hstep := hkeep s i h0 hL.1 hC
        omega

/-- The drain rule: a rank that every step meeting `C` lowers as long as it is not zero, and that no step
    raises, is zero after as many such steps. -/
theorem rank_exec_le {I : σ → Prop} {L C : σ → ι → Prop} [∀ s i, Decidable (C s i)] {ρ : σ → Nat}
    (hI : ∀ s i, I s → L s i → I (step s i))
    (hρ : ∀ s i, I s → L s i → ρ (step s i) ≤ ρ s - if C s i then 1 else 0) {s : σ} {is : List ι}
    (h0 : I s) (hL : AllSteps step L s is) :
    ρ (exec step s is) ≤ ρ s - countSteps step C s is := by
  induction is generalizing s with
  | nil => simp [countSteps]
  | cons i is ih =>
      have hrest := ih (hI s i h0 hL.1) hL.2
      have hstep := hρ s i h0 hL.1
      rw [countSteps, exec_cons]
      omega

/-- The ledger rule: a quantity that grows by `k` at every step meeting `C` and does not change
    otherwise has grown by `k` for each of them at the end of a run, provided the invariant and the
    condition the entries need hold along it. -/
theorem exec_eq_add_countSteps {I : σ → Prop} {L C : σ → ι → Prop} [∀ s i, Decidable (C s i)]
    {Q : σ → Int} {k : Int} (hI : ∀ s i, I s → L s i → I (step s i))
    (hQ : ∀ s i, I s → L s i → Q (step s i) = Q s + if C s i then k else 0) {s : σ} {is : List ι}
    (h0 : I s) (hL : AllSteps step L s is) :
    Q (exec step s is) = Q s + k * countSteps step C s is := by
  induction is generalizing s with
  | nil => simp [countSteps]
  | cons i is ih =>
      rw [exec_cons, ih (hI s i h0 hL.1) hL.2, hQ s i h0 hL.1, countSteps]
      split_ifs
      · push_cast
        ring
      · simp

/-! ## History -/

section History

variable {η : Type} {note : η → σ → ι → η}

variable (step note) in
/-- The system together with a record of its past, to which `note` adds at every step. -/
def watch (w : η × σ) (i : ι) : η × σ := (note w.1 w.2 i, step w.2 i)

/-- The record has no part in what the system does. -/
theorem allStates_watch {P : σ → Prop} (w : η × σ) (is : List ι) :
    AllStates (watch step note) (fun w => P w.2) w is ↔ AllStates step P w.2 is := by
  induction is generalizing w with
  | nil => exact Iff.rfl
  | cons i is ih => exact and_congr_right fun _ => ih (watch step note w i)

theorem allSteps_watch {C : σ → ι → Prop} (w : η × σ) (is : List ι) :
    AllSteps (watch step note) (fun w i => C w.2 i) w is ↔ AllSteps step C w.2 is := by
  induction is generalizing w with
  | nil => exact Iff.rfl
  | cons i is ih => exact and_congr_right fun _ => ih (watch step note w i)

end History

/-! ## Checking a run -/

/-- A condition that can be checked step by step can be checked along a run. -/
instance AllSteps.decidable {C : σ → ι → Prop} [∀ s i, Decidable (C s i)] :
    ∀ (s : σ) (is : List ι), Decidable (AllSteps step C s is)
  | _, [] => isTrue trivial
  | s, i :: is =>
      have := AllSteps.decidable (C := C) (step s i) is
      inferInstanceAs (Decidable (C s i ∧ AllSteps step C (step s i) is))

instance AllStates.decidable {P : σ → Prop} [DecidablePred P] :
    ∀ (s : σ) (is : List ι), Decidable (AllStates step P s is)
  | s, [] => inferInstanceAs (Decidable (P s))
  | s, i :: is =>
      have := AllStates.decidable (P := P) (step s i) is
      inferInstanceAs (Decidable (P s ∧ AllStates step P (step s i) is))

end Katetris.Lib
