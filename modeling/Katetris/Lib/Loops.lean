import Mathlib.Tactic

set_option autoImplicit false

/-! # Counting loops and painting folds

A C `for` over a signed counter visits a list of integers (`intRange`) and threads a state through
it, so its meaning is a `foldl`. Most of the loops below only ever *add* to what a state shows: an
operation that turns on a set of positions and touches no other one *paints* that set (`Paints`).
Painting operations compose, and a fold of them paints the union of what the steps paint. -/

namespace Katetris.Lib

/-! ## Integer ranges -/

/-- The values of a counter running from `lo` while it is below `hi`. -/
def intRange (lo hi : Int) : List Int :=
  (List.range (hi - lo).toNat).map (fun k : Nat => lo + (k : Int))

@[simp] theorem mem_intRange {lo hi i : Int} : i ∈ intRange lo hi ↔ lo ≤ i ∧ i < hi := by
  simp only [intRange, List.mem_map, List.mem_range]
  refine ⟨fun hcount => ?_, fun hmem => ?_⟩
  · obtain ⟨k, hk, rfl⟩ := hcount
    omega
  · obtain ⟨hlo, hhi⟩ := hmem
    exact ⟨(i - lo).toNat, by omega, by omega⟩

/-- Two nested loops over `n` and `m` values are one loop over `n * m`, the inner index fastest. -/
theorem flatMap_range_flatMap {β : Type} (n m : Nat) (f : Nat → Nat → List β) :
    (List.range n).flatMap (fun i => (List.range m).flatMap (fun j => f i j))
      = (List.range (n * m)).flatMap (fun k => f (k / m) (k % m)) := by
  induction n with
  | zero => simp
  | succ n ih =>
      have hlast : (List.range m).flatMap (fun j => f n j)
          = (List.range m).flatMap (fun j => f ((n * m + j) / m) ((n * m + j) % m)) := by
        refine List.flatMap_congr fun j hj => ?_
        have hjm : j < m := List.mem_range.1 hj
        rw [Nat.mul_comm n m, Nat.mul_add_div (by omega), Nat.mul_add_mod, Nat.div_eq_of_lt hjm,
          Nat.mod_eq_of_lt hjm, Nat.add_zero]
      rw [List.range_succ, List.flatMap_append, ih, Nat.succ_mul, List.range_add,
        List.flatMap_append, List.flatMap_map, ← hlast]
      simp

/-! ## Painting -/

variable {σ ι α : Type}

/-- `f` turns on exactly the positions of `S` and leaves every other position as it was, where
    `get s i` says whether position `i` shows in state `s`. -/
def Paints (get : σ → ι → Prop) (f : σ → σ) (S : ι → Prop) : Prop :=
  ∀ s i, get (f s) i ↔ get s i ∨ S i

theorem Paints.congr {get : σ → ι → Prop} {f : σ → σ} {S T : ι → Prop}
    (hf : Paints get f S) (hST : ∀ i, S i ↔ T i) : Paints get f T := by
  intro s i
  rw [hf, hST]

/-- A guarded painting step paints its set when the guard holds. -/
theorem Paints.ite {get : σ → ι → Prop} {f : σ → σ} {S : ι → Prop} (c : Prop) [Decidable c]
    (hf : Paints get f S) :
    Paints get (fun s => if c then f s else s) (fun i => c ∧ S i) := by
  intro s i
  by_cases hc : c
  · simpa [hc] using hf s i
  · simp [hc]

/-- A loop of painting steps paints the union of what its steps paint. -/
theorem Paints.foldl {get : σ → ι → Prop} {f : σ → α → σ} {S : α → ι → Prop}
    (hf : ∀ a, Paints get (fun s => f s a) (S a)) (l : List α) :
    Paints get (fun s => l.foldl f s) (fun i => ∃ a ∈ l, S a i) := by
  induction l with
  | nil =>
      intro s i
      simp
  | cons a rest ih =>
      intro s i
      show get (rest.foldl f (f s a)) i ↔ _
      rw [ih (f s a) i, hf a s i]
      simp only [List.mem_cons, exists_eq_or_imp, or_assoc]

/-- `f` gives the positions of `S` the values `g` has there and leaves every other position as it was. -/
def Fills {β : Type} (get : σ → ι → β) (f : σ → σ) (S : ι → Prop) (g : ι → β) : Prop :=
  ∀ s i, (S i → get (f s) i = g i) ∧ (¬S i → get (f s) i = get s i)

/-- A loop of steps that all fill in parts of one picture fills in the union of the parts. -/
theorem Fills.foldl {β : Type} {get : σ → ι → β} {f : σ → α → σ} {S : α → ι → Prop} {g : ι → β}
    {l : List α} (hf : ∀ a ∈ l, Fills get (fun s => f s a) (S a) g) :
    Fills get (fun s => l.foldl f s) (fun i => ∃ a ∈ l, S a i) g := by
  induction l with
  | nil =>
      intro s i
      simp
  | cons a rest ih =>
      intro s i
      obtain ⟨hin, hout⟩ := hf a List.mem_cons_self s i
      obtain ⟨hin', hout'⟩ := ih (fun b hb => hf b (List.mem_cons_of_mem _ hb)) (f s a) i
      simp only [List.foldl_cons, List.mem_cons, exists_eq_or_imp, not_or]
      refine ⟨fun hsome => ?_, fun hnone => ?_⟩
      · -- a later step may fill the position again, with the same value
        by_cases hlater : ∃ b ∈ rest, S b i
        · exact hin' hlater
        · rw [hout' hlater]
          exact hin (hsome.resolve_right hlater)
      · rw [hout' hnone.2, hout hnone.1]

/-- A projection that no step of a loop changes is not changed by the loop. -/
theorem foldl_frame {β : Type} {f : σ → α → σ} (π : σ → β) (hf : ∀ s a, π (f s a) = π s)
    (l : List α) (s : σ) : π (l.foldl f s) = π s := by
  induction l generalizing s with
  | nil => rfl
  | cons a rest ih => rw [List.foldl_cons, ih, hf]

end Katetris.Lib
