import Mathlib.Tactic

set_option autoImplicit false

/-! # Filling a rectangular window, column index fastest

A display controller keeps a window of columns `xs..xe` and rows `ys..ye` and a cursor inside it.
Each value written goes to the cursor, which moves on to the next column and, past the last one, to
the first column of the next row; past the last row it is back at the first. A list of values no
longer than the window therefore lands in it in row-major order (`fill_get`), and one as long as the
window visits each of its positions once (`visits_whole`). -/

namespace Katetris.Lib

variable {β : Type}

/-- A window with both ends included. -/
structure Window where
  xs : Nat
  xe : Nat
  ys : Nat
  ye : Nat

/-- Memory, indexed by column and row, with a write cursor. -/
structure Canvas (β : Type) where
  ram : Nat → Nat → β
  px : Nat
  py : Nat

/-- Write one value at the cursor and advance it. -/
def Canvas.write (w : Window) (c : Canvas β) (v : β) : Canvas β where
  ram := fun p q => if p = c.px ∧ q = c.py then v else c.ram p q
  px := if c.px < w.xe then c.px + 1 else w.xs
  py := if c.px < w.xe then c.py else if c.py < w.ye then c.py + 1 else w.ys

/-- Columns of the window. -/
def Window.width (w : Window) : Nat := w.xe + 1 - w.xs

/-- Rows of the window. -/
def Window.height (w : Window) : Nat := w.ye + 1 - w.ys

/-- A window that has at least one pixel. -/
structure Window.NonEmpty (w : Window) : Prop where
  x : w.xs ≤ w.xe
  y : w.ys ≤ w.ye

/-- Where the cursor stands before value number `k`, as long as it has not wrapped around. -/
structure Canvas.At (w : Window) (c : Canvas β) (k : Nat) : Prop where
  px : c.px = w.xs + k % w.width
  py : c.py = w.ys + k / w.width

/-- Where value number `k` goes, as long as the cursor has not wrapped around. -/
def Window.place (w : Window) (k : Nat) : Nat × Nat := (w.xs + k % w.width, w.ys + k / w.width)

/-- How the cursor moves on. -/
def Window.next (w : Window) (pq : Nat × Nat) : Nat × Nat :=
  (if pq.1 < w.xe then pq.1 + 1 else w.xs,
    if pq.1 < w.xe then pq.2 else if pq.2 < w.ye then pq.2 + 1 else w.ys)

theorem Window.next_place {w : Window} (hw : w.NonEmpty) {k : Nat}
    (hk : k + 1 < w.width * w.height) : w.next (w.place k) = w.place (k + 1) := by
  have hW : 0 < w.width := by have := hw.x; unfold Window.width; omega
  have hxe : w.xs + w.width = w.xe + 1 := by have := hw.x; unfold Window.width; omega
  have hye : w.ys + w.height = w.ye + 1 := by have := hw.y; unfold Window.height; omega
  have hmod := Nat.mod_lt k hW
  have hdm := Nat.div_add_mod k w.width
  unfold Window.next Window.place
  by_cases hlast : k % w.width + 1 = w.width
  · -- the last column: back to the first one, in the next row
    have hk1 : k + 1 = w.width * (k / w.width + 1) := by rw [Nat.mul_add]; omega
    have hrow : k / w.width + 1 < w.height := by
      rw [hk1] at hk
      exact lt_of_mul_lt_mul_left hk (Nat.zero_le _)
    rw [if_neg (by simp only; omega), if_neg (by simp only; omega), if_pos (by simp only; omega), hk1,
      Nat.mul_mod_right, Nat.mul_div_cancel_left _ hW]
    rfl
  · have hlt : k % w.width + 1 < w.width := by omega
    have hk1 : k + 1 = k % w.width + 1 + w.width * (k / w.width) := by omega
    rw [if_pos (by simp only; omega), if_pos (by simp only; omega)]
    conv_rhs => rw [hk1, Nat.add_mul_mod_self_left, Nat.mod_eq_of_lt hlt, Nat.add_mul_div_left _ _ hW,
      Nat.div_eq_of_lt hlt, Nat.zero_add]
    rfl

theorem Canvas.write_at {w : Window} (hw : w.NonEmpty) {c : Canvas β} {k : Nat} (h : c.At w k)
    (hk : k + 1 < w.width * w.height) (v : β) : (c.write w v).At w (k + 1) := by
  have hcursor : (c.px, c.py) = w.place k := by rw [h.px, h.py, Window.place]
  have hnext : w.next (c.px, c.py) = w.place (k + 1) := by rw [hcursor, Window.next_place hw hk]
  exact ⟨congrArg Prod.fst hnext, congrArg Prod.snd hnext⟩

/-- Position `(p, q)` is inside the window. -/
def Window.Mem (w : Window) (p q : Nat) : Prop := w.xs ≤ p ∧ p ≤ w.xe ∧ w.ys ≤ q ∧ q ≤ w.ye

instance (w : Window) (p q : Nat) : Decidable (w.Mem p q) :=
  inferInstanceAs (Decidable (_ ∧ _ ∧ _ ∧ _))

/-- The number of the value that lands at `(p, q)`. -/
def Window.index (w : Window) (p q : Nat) : Nat := w.width * (q - w.ys) + (p - w.xs)

theorem Window.index_lt {w : Window} {p q : Nat} (h : w.Mem p q) :
    w.index p q < w.width * w.height := by
  obtain ⟨hx, hx', hy, hy'⟩ := h
  have hcol : p - w.xs < w.width := by unfold Window.width; omega
  have hrow : q - w.ys + 1 ≤ w.height := by unfold Window.height; omega
  calc w.index p q < w.width * (q - w.ys) + w.width := Nat.add_lt_add_left hcol _
    _ = w.width * (q - w.ys + 1) := (Nat.mul_succ _ _).symm
    _ ≤ w.width * w.height := Nat.mul_le_mul_left _ hrow

/-- Value number `k` of the window lands where the cursor stands for it. -/
theorem Window.index_eq_iff {w : Window} (hw : w.NonEmpty) {p q k : Nat}
    (hk : k < w.width * w.height) :
    (w.Mem p q ∧ w.index p q = k) ↔ p = w.xs + k % w.width ∧ q = w.ys + k / w.width := by
  have hW : 0 < w.width := by have := hw.x; unfold Window.width; omega
  have hxe : w.xs + w.width = w.xe + 1 := by have := hw.x; unfold Window.width; omega
  have hye : w.ys + w.height = w.ye + 1 := by have := hw.y; unfold Window.height; omega
  have hmod := Nat.mod_lt k hW
  have hdiv : k / w.width < w.height := Nat.div_lt_of_lt_mul hk
  refine ⟨fun hall => ?_, fun hall => ?_⟩
  · obtain ⟨⟨hx, hx', hy, hy'⟩, rfl⟩ := hall
    have hlt : p - w.xs < w.width := by omega
    simp only [Window.index]
    rw [Nat.mul_add_mod, Nat.mod_eq_of_lt hlt, Nat.mul_add_div hW, Nat.div_eq_of_lt hlt]
    omega
  · obtain ⟨rfl, rfl⟩ := hall
    refine ⟨⟨Nat.le_add_right _ _, by omega, Nat.le_add_right _ _, by omega⟩, ?_⟩
    simp only [Window.index, Nat.add_sub_cancel_left]
    exact Nat.div_add_mod k w.width

/-- **A window is filled in row-major order.** Starting at the window's first position, a list of
    values that fits puts value number `index p q` at every position `(p, q)` it reaches and leaves
    every other position as it was. -/
theorem Canvas.fill_get {w : Window} (hw : w.NonEmpty) (vs : List β)
    (hvs : vs.length ≤ w.width * w.height) {c : Canvas β} (hc : c.At w 0) (p q : Nat) :
    (vs.foldl (Canvas.write w) c).ram p q
      = if w.Mem p q ∧ w.index p q < vs.length then vs.getD (w.index p q) (c.ram p q)
        else c.ram p q := by
  have key : ∀ us : List β, us.length ≤ w.width * w.height →
      (us.length < w.width * w.height → (us.foldl (Canvas.write w) c).At w us.length) ∧
      (us.foldl (Canvas.write w) c).ram p q
        = if w.Mem p q ∧ w.index p q < us.length then us.getD (w.index p q) (c.ram p q)
          else c.ram p q := by
    intro us
    -- values arrive at the end of the list, so the induction adds them there
    induction us using List.reverseRecOn with
    | nil => intro _; exact ⟨fun _ => by simpa using hc, by simp⟩
    | append_singleton us v ih =>
        intro hlen
        rw [List.length_append, List.length_singleton] at hlen ⊢
        obtain ⟨hat, hget⟩ := ih (by omega)
        have hat' := hat (by omega)
        simp only [List.foldl_append, List.foldl_cons, List.foldl_nil]
        refine ⟨fun hk => Canvas.write_at hw hat' hk v, ?_⟩
        have hpos := Window.index_eq_iff hw (p := p) (q := q) (k := us.length) (by omega)
        simp only [Canvas.write, hat'.px, hat'.py]
        by_cases hhere : p = w.xs + us.length % w.width ∧ q = w.ys + us.length / w.width
        · obtain ⟨hmem, hidx⟩ := hpos.mpr hhere
          rw [if_pos hhere, if_pos ⟨hmem, by omega⟩, hidx]
          simp
        · rw [if_neg hhere, hget]
          by_cases hin : w.Mem p q ∧ w.index p q < us.length
          · rw [if_pos hin, if_pos ⟨hin.1, by omega⟩]
            simp only [List.getD_eq_getElem?_getD, List.getElem?_append_left hin.2]
          · have hout : ¬(w.Mem p q ∧ w.index p q < us.length + 1) := by
              intro hall
              obtain ⟨hmem, hlt⟩ := hall
              have hne : w.index p q ≠ us.length := fun he => hhere (hpos.mp ⟨hmem, he⟩)
              exact hin ⟨hmem, by omega⟩
            rw [if_neg hin, if_neg hout]
  exact (key vs hvs).2

/-- **A whole window of values**, listed row by row, puts at every position inside it the value
    listed for that position. -/
theorem Canvas.fill_whole {w : Window} (hw : w.NonEmpty) (f : Nat → Nat → β) {c : Canvas β}
    (hc : c.At w 0) (p q : Nat) :
    (((List.range (w.width * w.height)).map fun k =>
        f (w.xs + k % w.width) (w.ys + k / w.width)).foldl (Canvas.write w) c).ram p q
      = if w.Mem p q then f p q else c.ram p q := by
  rw [Canvas.fill_get hw _ (by simp) hc]
  by_cases hmem : w.Mem p q
  · have hlt := Window.index_lt hmem
    obtain ⟨hp, hq⟩ := (Window.index_eq_iff hw hlt).1 ⟨hmem, rfl⟩
    rw [if_pos ⟨hmem, by simpa using hlt⟩, if_pos hmem]
    simp only [List.getD_eq_getElem?_getD, List.getElem?_map, List.getElem?_range hlt,
      Option.map_some, Option.getD_some, ← hp, ← hq]
  · rw [if_neg (fun h => hmem h.1), if_neg hmem]

/-! ## The places visited -/

theorem Window.iterate_next_place {w : Window} (hw : w.NonEmpty) {k : Nat}
    (hk : k < w.width * w.height) : w.next^[k] (w.place 0) = w.place k := by
  induction k with
  | zero => rfl
  | succ k ih => rw [Function.iterate_succ_apply', ih (by omega), Window.next_place hw hk]

theorem Window.mem_iff_place {w : Window} (hw : w.NonEmpty) {pq : Nat × Nat} :
    w.Mem pq.1 pq.2 ↔ ∃ k, k < w.width * w.height ∧ w.place k = pq := by
  refine ⟨fun hmem => ?_, fun hplace => ?_⟩
  · have hlt := Window.index_lt hmem
    obtain ⟨hp, hq⟩ := (Window.index_eq_iff hw hlt).1 ⟨hmem, rfl⟩
    exact ⟨w.index pq.1 pq.2, hlt, Prod.ext hp.symm hq.symm⟩
  · obtain ⟨k, hk, rfl⟩ := hplace
    exact ((Window.index_eq_iff hw hk).2 ⟨rfl, rfl⟩).1

/-- **As many steps as there are positions visit each of them once.** -/
theorem Window.visits_whole {w : Window} (hw : w.NonEmpty) {n : Nat} (hn : n = w.width * w.height) :
    (List.iterate w.next (w.place 0) n).Nodup
      ∧ ∀ pq, pq ∈ List.iterate w.next (w.place 0) n ↔ w.Mem pq.1 pq.2 := by
  have hplaces : List.iterate w.next (w.place 0) n = (List.range n).map w.place := by
    rw [← List.range_map_iterate]
    refine List.map_congr_left fun k hk => ?_
    exact Window.iterate_next_place hw (hn ▸ List.mem_range.1 hk)
  rw [hplaces]
  refine ⟨?_, fun pq => ?_⟩
  · refine List.Nodup.map_on (fun k hk k' hk' heq => ?_) List.nodup_range
    rw [List.mem_range, hn] at hk hk'
    have hidx := ((Window.index_eq_iff hw hk).2 ⟨rfl, rfl⟩).2
    have hidx' := ((Window.index_eq_iff hw hk').2
      ⟨congrArg Prod.fst heq, congrArg Prod.snd heq⟩).2
    exact hidx.symm.trans hidx'
  · rw [Window.mem_iff_place hw, List.mem_map, hn]
    simp only [List.mem_range]

end Katetris.Lib
