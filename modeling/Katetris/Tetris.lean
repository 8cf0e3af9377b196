import Katetris.Display

set_option autoImplicit false

/-! # Pieces and the grid (`tetris.c`)

The functions of `tetris.c` and the clearing loop of `main.c`. A piece is a 3×3 pattern at a row `x`
and a column `y`; the grid is thirty rows of bits. `Block.Cell` and `Grid.Cell` name the cells the
two occupy, in the same coordinates, and the lemmas below say what each function does to cells.

`block_collides` and `block_add` index the grid with `blk->x`, which nothing in them bounds. A read
outside the array yields whatever lies there, so it is a parameter (`oob`); a write outside it is
dropped, since nothing beyond the array is modelled. -/

namespace Katetris

open Lib

/-! ## Rows -/

/-- Row `i` of a table of rows, zero outside it. -/
def rowAt {w n : Nat} (rows : Vector (BitVec w) n) (i : Nat) : BitVec w :=
  if h : i < n then rows.get ⟨i, h⟩ else 0

theorem rowAt_setIfInBounds {w n : Nat} (rows : Vector (BitVec w) n) (i j : Nat) (v : BitVec w) :
    rowAt (rows.setIfInBounds i v) j = if i = j ∧ i < n then v else rowAt rows j := by
  unfold rowAt
  by_cases hj : j < n
  · simp only [dif_pos hj, vector_get_eq, Vector.getElem_setIfInBounds]
    by_cases hij : i = j
    · simp [hij, hj]
    · simp [hij]
  · have : ¬(i = j ∧ i < n) := by omega
    simp [hj, this]

theorem rowAt_eq_zero {w n : Nat} (rows : Vector (BitVec w) n) {i : Nat} (h : n ≤ i) :
    rowAt rows i = 0 := by
  simp [rowAt, Nat.not_lt.mpr h]

/-! ## Pieces -/

/-- Bit `j` of row `i` of the current pattern. -/
def Block.bit (blk : Block) (i j : Nat) : Bool := (rowAt blk.pattern i).getLsbD j

/-- The cells the piece occupies, as (row, column) pairs. -/
def Block.cells (blk : Block) : List (Int × Int) :=
  (List.range 3).flatMap fun (i : Nat) => (List.range 3).filterMap fun (j : Nat) =>
    if blk.bit i j then some (blk.x + i, blk.y + j) else none

/-- The piece has a cell at row `r`, column `c`. -/
def Block.Cell (blk : Block) (r c : Int) : Prop := (r, c) ∈ blk.cells

instance (blk : Block) (r c : Int) : Decidable (blk.Cell r c) :=
  inferInstanceAs (Decidable ((r, c) ∈ blk.cells))

theorem Block.cell_iff {blk : Block} {r c : Int} :
    blk.Cell r c ↔ ∃ i j : Nat, i < 3 ∧ j < 3 ∧ blk.bit i j = true ∧ r = blk.x + i ∧ c = blk.y + j := by
  simp only [Block.Cell, Block.cells, List.mem_flatMap, List.mem_filterMap, List.mem_range]
  refine ⟨fun hcell => ?_, fun hcell => ?_⟩
  · obtain ⟨i, hi, j, hj, h⟩ := hcell
    split at h
    · next hbit =>
        simp only [Option.some.injEq, Prod.mk.injEq] at h
        exact ⟨i, j, hi, hj, hbit, h.1.symm, h.2.symm⟩
    · exact absurd h (by simp)
  · obtain ⟨i, j, hi, hj, hbit, rfl, rfl⟩ := hcell
    exact ⟨i, hi, j, hj, by rw [if_pos hbit]⟩

/-- The piece one row further down, `blk->x++`. -/
def Block.down (blk : Block) : Block := { blk with x := blk.x + 1 }

/-- `(ori + 1) % 4`. -/
def Ori.next : Ori → Ori
  | .north => .east
  | .east => .south
  | .south => .west
  | .west => .north

theorem Ori.code_next (ori : Ori) : ori.next.code = (ori.code + 1) % 4 := by
  cases ori <;> rfl

/-- `block_rotr`. -/
def blockRotr (blk : Block) : Block := { blk with ori := blk.ori.next }

/-- `suppx_draw`, by the calls of `vbuf_set_bit` it makes: one cell as a square of pixels. -/
def suppxAccesses (x y : Int) : List (Int × Int) :=
  rectAccesses (x * gridStep) (y * gridStep) gridStep gridStep

/-- The calls of `vbuf_set_bit` that `block_draw` makes. -/
def blockAccesses (blk : Block) : List (Int × Int) :=
  [0, 1, 2].flatMap fun (i : Nat) => [2, 1, 0].flatMap fun (j : Nat) =>
    if blk.bit i j then suppxAccesses (blk.x + i) (blk.y + j) else []

/-- `block_draw`. -/
def blockDraw (vbuf : VBuf) (blk : Block) : VBuf := setBits (blockAccesses blk) vbuf

/-- `INT_MAX`. -/
abbrev intMax : Int := 2147483647

/-- `INT_MIN`. -/
abbrev intMin : Int := -2147483648

/-- `get_bbox`: the smallest box around the set bits of a pattern. -/
def getBbox (ptr : Pattern) : BBox :=
  let res := (List.range 3).foldl (fun res (i : Nat) => (List.range 3).foldl (fun res (j : Nat) =>
    if (rowAt ptr i).getLsbD j then
      { x := min res.x i, y := min res.y j, sizex := max res.sizex i, sizey := max res.sizey j }
    else res) res) (BBox.mk intMax intMax intMin intMin)
  { res with sizex := res.sizex - (res.x - 1), sizey := res.sizey - (res.y - 1) }

/-- The box `update_block` asks to be redrawn: a strip of seven cell columns around the piece, the
    whole screen high. -/
def updateMask (blk : Block) : BBox where
  x := max 0 0
  y := max ((blk.y - 2) * gridStep) 0
  sizex := dispCols * gridStep
  sizey := (blockHeight + 4) * gridStep

/-- `update_block`. -/
def updateBlock (vbuf : VBuf) (blk : Block) : VBuf := vbuf.push (updateMask blk)

/-! ## The grid -/

/-- The grid has an occupied cell at row `r`, column `c`. -/
def Grid.Cell (grid : Grid) (r c : Int) : Prop :=
  0 ≤ r ∧ 0 ≤ c ∧ (rowAt grid r.toNat).getLsbD c.toNat = true

instance (grid : Grid) (r c : Int) : Decidable (Grid.Cell grid r c) :=
  inferInstanceAs (Decidable (_ ∧ _ ∧ _))

/-- `grid_clear`. -/
def gridClear : Grid := Vector.replicate 30 0

/-- `grid[i]` as a read with an unchecked index. -/
def Grid.read (oob : Int → BitVec 32) (grid : Grid) (i : Int) : BitVec 32 :=
  if 0 ≤ i ∧ i < 30 then rowAt grid i.toNat else oob i

/-- `grid[i] |= v` with an unchecked index. -/
def Grid.orAt (grid : Grid) (i : Int) (v : BitVec 32) : Grid :=
  if 0 ≤ i ∧ i < 30 then grid.setIfInBounds i.toNat (rowAt grid i.toNat ||| v) else grid

/-- `blk->ptrs[blk->ori][i] << blk->y`: row `i` of the pattern, moved to the piece's column. -/
def Block.shifted (blk : Block) (i : Nat) : BitVec 32 :=
  (rowAt blk.pattern i).setWidth 32 <<< blk.y.toNat

/-- `block_collides`. -/
def blockCollides (oob : Int → BitVec 32) (blk : Block) (grid : Grid) : Bool :=
  (List.range 3).any fun (i : Nat) => blk.shifted i &&& Grid.read oob grid (blk.x + i + 1) != 0

/-- `block_add`: the counter `i` of the source is `blk->x + k` here. -/
def blockAdd (blk : Block) (grid : Grid) : Grid :=
  (List.range 3).foldl (fun grid (k : Nat) => Grid.orAt grid (blk.x + k) (blk.shifted k)) grid

/-- The calls of `vbuf_set_bit` that `grid_draw` makes. -/
def gridAccesses (grid : Grid) : List (Int × Int) :=
  (List.range gridRows).flatMap fun (i : Nat) => (List.range gridCols).flatMap fun (j : Nat) =>
    if (rowAt grid i).getLsbD j then suppxAccesses i j else []

/-- `grid_draw`. -/
def gridDraw (vbuf : VBuf) (grid : Grid) : VBuf := setBits (gridAccesses grid) vbuf

/-- `grid_shift`: the loop `for (i = start_idx; i > 0 && grid[i] != 0; i--)`. -/
def gridShift (grid : Grid) : Nat → Grid
  | 0 => grid
  | i + 1 =>
      if rowAt grid (i + 1) = 0 then grid
      else gridShift (grid.setIfInBounds (i + 1) (rowAt grid i)) i

/-- `grid_check`. -/
def gridCheck (grid : Grid) (idx : Nat) : Bool :=
  (List.range (gridCols - 1)).foldl (fun res (i : Nat) => res && (rowAt grid idx).getLsbD i)
    ((rowAt grid idx).getLsbD 0)

/-- The clearing loop of `main`, `for (i = GRID_ROWS-1; i >= 0; i--)`; the argument counts the rows
    still to be visited. -/
def clearLoop : Nat → Grid → Int → Grid × Int
  | 0, grid, score => (grid, score)
  | i + 1, grid, score =>
      if gridCheck grid i then clearLoop i (gridShift grid i) (score + 1)
      else clearLoop i grid score

/-- The clearing loop over all rows. -/
def clearRows (grid : Grid) (score : Int) : Grid × Int := clearLoop gridRows grid score

end Katetris
