import Katetris.Tetris

set_option autoImplicit false

/-! # Cells

What the functions of `tetris.c` do, cell by cell. `block_collides` and `block_add` shift the pattern
rows to the piece's column, `block_draw` adds the column instead; for patterns that fit their 3×3
square and columns 0..28 all three agree on which cells the piece has (`Block.shifted_getLsbD`). -/

namespace Katetris

open Lib

/-! ## Pattern rows -/

/-- Every pattern of the table fits in three columns and the piece's column leaves room for them in
    a 32-bit row. -/
structure Block.Fits (blk : Block) : Prop where
  small : ∀ i, rowAt blk.pattern i < 8
  y_nonneg : 0 ≤ blk.y
  y_le : blk.y ≤ 28

theorem small_of_rows {ptr : Pattern} (h : ∀ i, i < 3 → rowAt ptr i < 8) (i : Nat) :
    rowAt ptr i < 8 := by
  by_cases hi : i < 3
  · exact h i hi
  · rw [rowAt_eq_zero ptr (by omega)]
    decide

/-- What the shift needs: three columns of the pattern, moved to the piece's column, are still in the
    row. -/
structure Block.Shifts (blk : Block) : Prop where
  small : ∀ i, rowAt blk.pattern i < 8
  y_nonneg : 0 ≤ blk.y
  y_le : blk.y ≤ 29

theorem Block.Fits.shifts {blk : Block} (h : blk.Fits) : blk.Shifts :=
  ⟨h.small, h.y_nonneg, le_trans h.y_le (by norm_num)⟩

theorem getLsbD_of_lt_eight {row : BitVec 8} (h : row < 8) {j : Nat} (hj : 3 ≤ j) :
    row.getLsbD j = false := by
  have h8 : row.toNat < 2 ^ 3 := by simpa [BitVec.lt_def] using h
  have hlt : row.toNat < 2 ^ j := lt_of_lt_of_le h8 (Nat.pow_le_pow_right (by norm_num) hj)
  exact Nat.testBit_lt_two_pow hlt

/-- The shifted pattern row has its bits in the columns of the piece's cells. -/
theorem Block.shifted_getLsbD {blk : Block} (h : blk.Shifts) (i c : Nat) :
    (blk.shifted i).getLsbD c = true ↔ ∃ j : Nat, j < 3 ∧ blk.bit i j = true ∧ (c : Int) = blk.y + j := by
  have hy := h.y_nonneg
  have hy' := h.y_le
  simp only [Block.shifted, BitVec.getLsbD_shiftLeft, BitVec.getLsbD_setWidth, Bool.and_eq_true,
    Bool.not_eq_true', decide_eq_true_eq, decide_eq_false_iff_not]
  refine ⟨fun hin => ?_, fun hcell => ?_⟩
  · obtain ⟨⟨hc, hge⟩, -, hbit⟩ := hin
    have hj : c - blk.y.toNat < 3 := by
      by_contra hj
      rw [getLsbD_of_lt_eight (h.small i) (by omega)] at hbit
      exact absurd hbit (by simp)
    exact ⟨c - blk.y.toNat, hj, hbit, by omega⟩
  · obtain ⟨j, hj, hbit, hcj⟩ := hcell
    have hsub : c - blk.y.toNat = j := by omega
    exact ⟨⟨by omega, by omega⟩, by omega, by rw [hsub]; exact hbit⟩

/-! ## Reading and writing the grid -/

theorem rowAt_orAt (grid : Grid) (i : Int) (v : BitVec 32) (r : Nat) (hr : r < 30) :
    rowAt (Grid.orAt grid i v) r = if i = r then rowAt grid r ||| v else rowAt grid r := by
  unfold Grid.orAt
  by_cases hi : 0 ≤ i ∧ i < 30
  · rw [if_pos hi, rowAt_setIfInBounds]
    by_cases hir : i = r
    · rw [if_pos (by omega), if_pos hir, show i.toNat = r by omega]
    · rw [if_neg (by omega), if_neg hir]
  · rw [if_neg hi, if_neg (by omega)]

theorem rowAt_gridClear (i : Nat) : rowAt gridClear i = 0 := by
  unfold rowAt gridClear
  split <;> simp [Vector.get]

theorem Grid.Cell.row_lt {grid : Grid} {r c : Int} (h : Grid.Cell grid r c) : r < 30 := by
  obtain ⟨_, _, hbit⟩ := h
  by_contra hr
  rw [rowAt_eq_zero grid (by omega)] at hbit
  simp at hbit

theorem Grid.read_of_mem (oob : Int → BitVec 32) (grid : Grid) {i : Int} (hi : 0 ≤ i ∧ i < 30) :
    Grid.read oob grid i = rowAt grid i.toNat := by
  rw [Grid.read, if_pos hi]

/-- `block_collides` finds a cell of the piece with a set bit in the word one row below it. -/
theorem blockCollides_iff {oob : Int → BitVec 32} {blk : Block} {grid : Grid} (h : blk.Shifts) :
    blockCollides oob blk grid = true ↔
      ∃ r c, blk.Cell r c ∧ (Grid.read oob grid (r + 1)).getLsbD c.toNat = true := by
  simp only [blockCollides, List.any_eq_true, List.mem_range, bne_iff_ne, ne_eq, Block.cell_iff]
  refine ⟨fun hcell => ?_, fun hcell => ?_⟩
  · obtain ⟨i, hi, hne⟩ := hcell
    obtain ⟨c, hc⟩ : ∃ c, (blk.shifted i &&& Grid.read oob grid (blk.x + i + 1)).getLsbD c = true := by
      by_contra hnone
      push Not at hnone
      exact hne (BitVec.eq_of_getLsbD_eq (fun c _ => by simpa using hnone c))
    rw [BitVec.getLsbD_and, Bool.and_eq_true, Block.shifted_getLsbD h] at hc
    obtain ⟨⟨j, hj, hbit, hcj⟩, hread⟩ := hc
    exact ⟨blk.x + i, blk.y + j, ⟨i, j, hi, hj, hbit, rfl, rfl⟩, by
      rw [show (blk.y + j).toNat = c by omega]; exact hread⟩
  · obtain ⟨r, c, ⟨i, j, hi, hj, hbit, rfl, rfl⟩, hread⟩ := hcell
    refine ⟨i, hi, fun hzero => ?_⟩
    have hy := h.y_nonneg
    have hshift : (blk.shifted i).getLsbD (blk.y + j).toNat = true :=
      (Block.shifted_getLsbD h i _).2 ⟨j, hj, hbit, by omega⟩
    have hbits := congrArg (fun v => v.getLsbD (blk.y + j).toNat) hzero
    simp only [BitVec.getLsbD_and, hshift, hread] at hbits
    simp at hbits

theorem rowAt_blockAdd (blk : Block) (grid : Grid) (r : Nat) (hr : r < 30) (c : Nat) :
    (rowAt (blockAdd blk grid) r).getLsbD c = true ↔
      (rowAt grid r).getLsbD c = true ∨
        ∃ i : Nat, i < 3 ∧ (r : Int) = blk.x + i ∧ (blk.shifted i).getLsbD c = true := by
  have hpaint : Paints (fun (g : Grid) (_ : Unit) => (rowAt g r).getLsbD c = true)
      (fun g => (List.range 3).foldl
        (fun g (k : Nat) => Grid.orAt g (blk.x + k) (blk.shifted k)) g)
      (fun _ => ∃ k ∈ List.range 3, blk.x + (k : Int) = r ∧ (blk.shifted k).getLsbD c = true) := by
    refine Paints.foldl (fun k => ?_) _
    intro g _
    show (rowAt (Grid.orAt g (blk.x + k) (blk.shifted k)) r).getLsbD c = true ↔ _
    rw [rowAt_orAt g _ _ r hr]
    by_cases hk : blk.x + (k : Int) = r
    · simp [hk]
    · simp [hk]
  rw [blockAdd]
  refine (hpaint grid ()).trans (or_congr_right ?_)
  simp only [List.mem_range]
  refine ⟨fun hcell => ?_, fun hcell => ?_⟩
  · obtain ⟨k, hk, hrow, hbit⟩ := hcell
    exact ⟨k, hk, hrow.symm, hbit⟩
  · obtain ⟨k, hk, hrow, hbit⟩ := hcell
    exact ⟨k, hk, hrow.symm, hbit⟩

/-- **`block_add` adds the piece's cells inside the grid**, and nothing else. -/
theorem blockAdd_cell {blk : Block} (h : blk.Fits) (grid : Grid) (r c : Int) :
    Grid.Cell (blockAdd blk grid) r c ↔
      Grid.Cell grid r c ∨ (blk.Cell r c ∧ 0 ≤ r ∧ r < 30) := by
  have hy := h.y_nonneg
  by_cases hr : 0 ≤ r ∧ r < 30
  · by_cases hc : 0 ≤ c
    · simp only [Grid.Cell, hr.1, hc, true_and, Block.cell_iff,
        rowAt_blockAdd blk grid r.toNat (by omega), Block.shifted_getLsbD h.shifts]
      refine or_congr_right ?_
      refine ⟨fun hcell => ?_, fun hin => ?_⟩
      · obtain ⟨i, hi, hrow, j, hj, hbit, hcol⟩ := hcell
        exact ⟨⟨i, j, hi, hj, hbit, by omega, by omega⟩, hr.2⟩
      · obtain ⟨⟨i, j, hi, hj, hbit, hrow, hcol⟩, -⟩ := hin
        exact ⟨i, hi, by omega, j, hj, hbit, by omega⟩
    · have hno : ¬blk.Cell r c := by
        rw [Block.cell_iff]
        intro hcell
        obtain ⟨i, j, hi, hj, hbit, hrow, hcol⟩ := hcell
        omega
      simp [Grid.Cell, hc, hno]
  · have hout : ∀ g : Grid, ¬Grid.Cell g r c := by
      intro g hin
      obtain ⟨hr0, -, hbit⟩ := hin
      rw [rowAt_eq_zero g (by omega)] at hbit
      simp at hbit
    simp only [hout, false_or, false_iff]
    intro hin
    obtain ⟨-, hr0, hr1⟩ := hin
    exact hr ⟨hr0, hr1⟩

/-! ## Drawing -/

/-- A cell is drawn as its square of pixels. -/
theorem mem_suppxAccesses {x y : Int} {p q : Nat} (hp : p < 240) (hq : q < 240) :
    ((p : Int), (q : Int)) ∈ suppxAccesses x y ↔
      ((p / 8 : Nat) : Int) = x ∧ ((q / 8 : Nat) : Int) = y := by
  simp only [suppxAccesses, mem_rectAccesses, gridStep]
  omega

theorem mem_blockAccesses {blk : Block} {p q : Nat} (hp : p < 240) (hq : q < 240) :
    ((p : Int), (q : Int)) ∈ blockAccesses blk ↔ blk.Cell (p / 8 : Nat) (q / 8 : Nat) := by
  simp only [blockAccesses, List.mem_flatMap, List.mem_ite_nil_right, mem_suppxAccesses hp hq,
    Block.cell_iff]
  refine ⟨fun hcell => ?_, fun hcell => ?_⟩
  · obtain ⟨i, hi, j, hj, hbit, hrow, hcol⟩ := hcell
    have hi3 : i < 3 := by simp only [List.mem_cons, List.not_mem_nil, or_false] at hi; omega
    have hj3 : j < 3 := by simp only [List.mem_cons, List.not_mem_nil, or_false] at hj; omega
    exact ⟨i, j, hi3, hj3, hbit, hrow, hcol⟩
  · obtain ⟨i, j, hi3, hj3, hbit, hrow, hcol⟩ := hcell
    have hi : i ∈ [0, 1, 2] := by simp only [List.mem_cons, List.not_mem_nil, or_false]; omega
    have hj : j ∈ [2, 1, 0] := by simp only [List.mem_cons, List.not_mem_nil, or_false]; omega
    exact ⟨i, hi, j, hj, hbit, hrow, hcol⟩

theorem mem_gridAccesses {grid : Grid} {p q : Nat} (hp : p < 240) (hq : q < 240) :
    ((p : Int), (q : Int)) ∈ gridAccesses grid ↔ Grid.Cell grid (p / 8 : Nat) (q / 8 : Nat) := by
  simp only [gridAccesses, List.mem_flatMap, List.mem_ite_nil_right, mem_suppxAccesses hp hq, Grid.Cell,
    List.mem_range, gridRows, gridCols, dispCols, dispRows, gridStep]
  refine ⟨fun hcell => ?_, fun hcell => ?_⟩
  · obtain ⟨i, hi, j, hj, hbit, hrow, hcol⟩ := hcell
    refine ⟨by omega, by omega, ?_⟩
    rwa [show ((p / 8 : Nat) : Int).toNat = i by omega, show ((q / 8 : Nat) : Int).toNat = j by omega]
  · obtain ⟨-, -, hbit⟩ := hcell
    exact ⟨p / 8, by omega, q / 8, by omega, by simpa only [Int.toNat_natCast] using hbit, rfl, rfl⟩

/-- **`block_draw` paints the cells of the piece.** -/
theorem blockDraw_paints (blk : Block) :
    Paints VBuf.Lit (fun vbuf => blockDraw vbuf blk)
      (fun pq => pq.1 < 240 ∧ pq.2 < 240 ∧ blk.Cell (pq.1 / 8 : Nat) (pq.2 / 8 : Nat)) :=
  (setBits_paints (blockAccesses blk)).congr fun _ =>
    and_congr_right fun hp => and_congr_right fun hq => mem_blockAccesses hp hq

/-- **`grid_draw` paints the occupied cells of the grid**; the column past the screen it also visits
    is clipped away. -/
theorem gridDraw_paints (grid : Grid) :
    Paints VBuf.Lit (fun vbuf => gridDraw vbuf grid)
      (fun pq => pq.1 < 240 ∧ pq.2 < 240 ∧ Grid.Cell grid (pq.1 / 8 : Nat) (pq.2 / 8 : Nat)) :=
  (setBits_paints (gridAccesses grid)).congr fun _ =>
    and_congr_right fun hp => and_congr_right fun hq => mem_gridAccesses hp hq

theorem blockDraw_requests (vbuf : VBuf) (blk : Block) :
    (blockDraw vbuf blk).requests = vbuf.requests :=
  setBits_requests _ vbuf

theorem gridDraw_requests (vbuf : VBuf) (grid : Grid) :
    (gridDraw vbuf grid).requests = vbuf.requests :=
  setBits_requests _ vbuf

end Katetris
