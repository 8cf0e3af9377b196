import Katetris.Proofs.Bounds

set_option autoImplicit false

/-! # The guards of the buttons

`buttons_do_action` decides LEFT, RIGHT and DOWN from the bounding box of the pattern. For any pattern
with a cell in it `get_bbox` is tight on all four sides (`getBbox_side`), so each guard is true exactly
when the moved piece is still in the field, wherever the pattern's blank rows and columns are and
whatever the earlier buttons of the same call did (`buttonsDoAction_eq_spec`). -/

namespace Katetris

open Lib

/-! ## The bounding box is tight -/

/-- The sides of a box. -/
inductive Side where
  | top
  | left
  | bottom
  | right

/-- What `get_bbox` has found so far lies beyond `k` on the given side. While it runs, `sizex` and
    `sizey` hold the largest row and column. -/
def BBox.Beyond (box : BBox) : Side × Int → Prop
  | (.top, k) => box.x < k
  | (.left, k) => box.y < k
  | (.bottom, k) => k < box.sizex
  | (.right, k) => k < box.sizey

/-- The cell at row `i`, column `j` lies beyond `k` on the given side. -/
def CellBeyond (i j : Int) : Side × Int → Prop
  | (.top, k) => i < k
  | (.left, k) => j < k
  | (.bottom, k) => k < i
  | (.right, k) => k < j

/-- The body of the two loops of `get_bbox` for a set bit. -/
theorem extend_paints (i j : Int) :
    Paints BBox.Beyond (fun res : BBox =>
      { x := min res.x i, y := min res.y j, sizex := max res.sizex i, sizey := max res.sizey j })
      (CellBeyond i j) := by
  intro box sk
  obtain ⟨side, k⟩ := sk
  cases side
  · exact min_lt_iff
  · exact min_lt_iff
  · exact lt_max_iff
  · exact lt_max_iff

/-- **`get_bbox` is tight**: the box does not lie beyond `k` on a side exactly when no cell of the
    pattern does. The two extreme values `get_bbox` starts from are beyond no `int`. -/
theorem getBbox_side (ptr : Pattern) (side : Side) {k : Int} (hk : -2 ^ 31 ≤ k ∧ k < 2 ^ 31) :
    ¬BBox.Beyond ⟨(getBbox ptr).x, (getBbox ptr).y, (getBbox ptr).x + (getBbox ptr).sizex - 1,
        (getBbox ptr).y + (getBbox ptr).sizey - 1⟩ (side, k) ↔
      ∀ i j : Nat, i < 3 → j < 3 → (rowAt ptr i).getLsbD j = true → ¬CellBeyond i j (side, k) := by
  have hloop := Paints.foldl (fun i : Nat => Paints.foldl (fun j : Nat =>
    Paints.ite ((rowAt ptr i).getLsbD j = true) (extend_paints i j)) (List.range 3)) (List.range 3)
  have hstart : ¬BBox.Beyond ⟨intMax, intMax, intMin, intMin⟩ (side, k) := by
    cases side <;> simp only [BBox.Beyond, intMax, intMin] <;> omega
  have hbox := hloop ⟨intMax, intMax, intMin, intMin⟩ (side, k)
  rw [or_iff_right hstart] at hbox
  -- the last two assignments of `get_bbox` turn the largest indices into sizes
  have hsize : ∀ a b : Int, a + (b - (a - 1)) - 1 = b := by
    intro a b
    ring
  simp only [getBbox, hsize]
  rw [hbox]
  refine ⟨fun hnone i j hi hj hbit hbeyond => ?_, fun hall hsome => ?_⟩
  · exact hnone ⟨i, List.mem_range.2 hi, j, List.mem_range.2 hj, hbit, hbeyond⟩
  · obtain ⟨i, hi, j, hj, hbit, hbeyond⟩ := hsome
    exact hall i j (List.mem_range.1 hi) (List.mem_range.1 hj) hbit hbeyond

/-! ## The field -/

/-- Every cell of the piece is in the field. -/
structure Block.InField (blk : Block) : Prop where
  rows : blk.InRows
  columns : blk.InColumns

/-- The piece one column to the left. -/
def Block.left (blk : Block) : Block := { blk with y := blk.y - 1 }

/-- The piece one column to the right. -/
def Block.right (blk : Block) : Block := { blk with y := blk.y + 1 }

theorem Block.inRows_iff {blk : Block} :
    blk.InRows ↔ ∀ i j : Nat, i < 3 → j < 3 → blk.bit i j = true → 0 ≤ blk.x + i ∧ blk.x + i < 30 := by
  refine ⟨fun h i j hi hj hbit => ?_, fun h cell hmem => ?_⟩
  · exact h (blk.x + i, blk.y + j) (Block.cell_iff.2 ⟨i, j, hi, hj, hbit, rfl, rfl⟩)
  · obtain ⟨i, j, hi, hj, hbit, hr, -⟩ := Block.cell_iff.1 hmem
    rw [hr]
    exact h i j hi hj hbit

theorem Block.inColumns_iff {blk : Block} :
    blk.InColumns ↔ ∀ i j : Nat, i < 3 → j < 3 → blk.bit i j = true → 0 ≤ blk.y + j ∧ blk.y + j < 30 := by
  refine ⟨fun h i j hi hj hbit => ?_, fun h cell hmem => ?_⟩
  · exact h (blk.x + i, blk.y + j) (Block.cell_iff.2 ⟨i, j, hi, hj, hbit, rfl, rfl⟩)
  · obtain ⟨i, j, hi, hj, hbit, -, hc⟩ := Block.cell_iff.1 hmem
    rw [hc]
    exact h i j hi hj hbit

section Guards

variable {blk : Block} (h : blk.InField) (hne : blk.cells ≠ [])

include h hne

/-- A piece with a cell in the field is not far from it. -/
theorem Block.InField.near : (-2 ≤ blk.x ∧ blk.x ≤ 29) ∧ -2 ≤ blk.y ∧ blk.y ≤ 29 := by
  obtain ⟨⟨r, c⟩, hmem⟩ := List.exists_mem_of_ne_nil _ hne
  have hcell : blk.Cell r c := hmem
  obtain ⟨i, j, hi, hj, -, hr, hc⟩ := Block.cell_iff.1 hcell
  have hrow : 0 ≤ r ∧ r < 30 := h.rows (r, c) hmem
  have hcol : 0 ≤ c ∧ c < 30 := h.columns (r, c) hmem
  omega

theorem left_guard_iff : blk.y + (getBbox blk.pattern).y > 0 ↔ blk.left.InColumns := by
  have hnear := h.near hne
  have hside := getBbox_side blk.pattern .left (k := 1 - blk.y) (by omega)
  simp only [BBox.Beyond, CellBeyond] at hside
  rw [show blk.y + (getBbox blk.pattern).y > 0 ↔ ¬(getBbox blk.pattern).y < 1 - blk.y by omega, hside,
    Block.inColumns_iff]
  refine forall₅_congr fun i j hi hj hbit => ?_
  have hold := Block.inColumns_iff.1 h.columns i j hi hj hbit
  simp only [Block.left]
  omega

/-- `GRID_COLS` is one more than the columns of the field, and the guard subtracts one more. -/
theorem right_guard_iff :
    blk.y + (getBbox blk.pattern).y < gridCols - (getBbox blk.pattern).sizey - 1 ↔
      blk.right.InColumns := by
  have hnear := h.near hne
  have hgrid : ((gridCols : Nat) : Int) = 31 := rfl
  have hside := getBbox_side blk.pattern .right (k := 28 - blk.y) (by omega)
  simp only [BBox.Beyond, CellBeyond] at hside
  rw [show blk.y + (getBbox blk.pattern).y < gridCols - (getBbox blk.pattern).sizey - 1 ↔
      ¬28 - blk.y < (getBbox blk.pattern).y + (getBbox blk.pattern).sizey - 1 by omega, hside,
    Block.inColumns_iff]
  refine forall₅_congr fun i j hi hj hbit => ?_
  have hold := Block.inColumns_iff.1 h.columns i j hi hj hbit
  simp only [Block.right]
  omega

theorem down_guard_iff :
    blk.x + (getBbox blk.pattern).x < gridRows - (getBbox blk.pattern).sizex ↔ blk.down.InRows := by
  have hnear := h.near hne
  have hgrid : ((gridRows : Nat) : Int) = 30 := rfl
  have hside := getBbox_side blk.pattern .bottom (k := 28 - blk.x) (by omega)
  simp only [BBox.Beyond, CellBeyond] at hside
  rw [show blk.x + (getBbox blk.pattern).x < gridRows - (getBbox blk.pattern).sizex ↔
      ¬28 - blk.x < (getBbox blk.pattern).x + (getBbox blk.pattern).sizex - 1 by omega, hside,
    Block.inRows_iff]
  refine forall₅_congr fun i j hi hj hbit => ?_
  have hold := Block.inRows_iff.1 h.rows i j hi hj hbit
  simp only [Block.down]
  omega

end Guards

/-! ## What the buttons should do -/

/-- LEFT moves the piece if it stays in the field. -/
def leftMove (pressed : ButtonStates) (blk : Block) : Option Block :=
  if pressed .left = true ∧ blk.left.InColumns then some blk.left else none

/-- RIGHT moves the piece if it stays in the field. -/
def rightMove (pressed : ButtonStates) (blk : Block) : Option Block :=
  if pressed .right = true ∧ blk.right.InColumns then some blk.right else none

/-- DOWN moves the piece if it stays in the field. -/
def downMove (pressed : ButtonStates) (blk : Block) : Option Block :=
  if pressed .down = true ∧ blk.down.InRows then some blk.down else none

/-- The orientation whose code is `n` modulo four. -/
def Ori.ofCode (n : Nat) : Ori :=
  match n % 4 with
  | 0 => .north
  | 1 => .east
  | 2 => .south
  | _ => .west

theorem Ori.code_ofCode (n : Nat) : (Ori.ofCode n).code = n % 4 := by
  have hlt : n % 4 < 4 := Nat.mod_lt n (by norm_num)
  unfold Ori.ofCode
  interval_cases n % 4 <;> rfl

theorem Ori.code_injective : Function.Injective Ori.code := by
  intro ori ori' h
  cases ori <;> cases ori' <;> first | rfl | exact absurd h (by decide)

theorem Ori.next_eq_ofCode (ori : Ori) : ori.next = .ofCode (ori.code + 1) :=
  Ori.code_injective ((Ori.code_next ori).trans (Ori.code_ofCode (ori.code + 1)).symm)

/-- ENTER turns the piece to the orientation whose code is one more, modulo four. -/
def enterMove (pressed : ButtonStates) (blk : Block) : Option Block :=
  if pressed .enter = true then some { blk with ori := .ofCode (blk.ori.code + 1) } else none

/-- The four moves in order, each made from where the one before left the piece, and whether any was
    made. -/
def buttonsSpec (blk : Block) (pressed : ButtonStates) : Block × Bool :=
  let blk1 := (leftMove pressed blk).getD blk
  let blk2 := (rightMove pressed blk1).getD blk1
  let blk3 := (downMove pressed blk2).getD blk2
  ((enterMove pressed blk3).getD blk3,
    (leftMove pressed blk).isSome || (rightMove pressed blk1).isSome || (downMove pressed blk2).isSome
      || (enterMove pressed blk3).isSome)

section Moves

variable {blk : Block} (h : blk.InField) (hne : blk.cells ≠ []) (pressed : ButtonStates) (ret : Bool)

include h hne

theorem pressLeft_eq_move :
    pressLeft (getBbox blk.pattern) pressed (blk, ret)
      = ((leftMove pressed blk).getD blk, ret || (leftMove pressed blk).isSome) := by
  simp only [pressLeft, leftMove, left_guard_iff h hne]
  split_ifs <;> simp [Block.left]

theorem pressRight_eq_move :
    pressRight (getBbox blk.pattern) pressed (blk, ret)
      = ((rightMove pressed blk).getD blk, ret || (rightMove pressed blk).isSome) := by
  simp only [pressRight, rightMove, right_guard_iff h hne]
  split_ifs <;> simp [Block.right]

theorem pressDown_eq_move :
    pressDown (getBbox blk.pattern) pressed (blk, ret)
      = ((downMove pressed blk).getD blk, ret || (downMove pressed blk).isSome) := by
  simp only [pressDown, downMove, down_guard_iff h hne]
  split_ifs <;> simp

end Moves

theorem pressEnter_eq_move (blk : Block) (pressed : ButtonStates) (ret : Bool) :
    pressEnter pressed (blk, ret)
      = ((enterMove pressed blk).getD blk, ret || (enterMove pressed blk).isSome) := by
  simp only [pressEnter, enterMove, blockRotr, Ori.next_eq_ofCode]
  split_ifs <;> simp

/-- What a guarded move keeps: the pattern, the field, and that there is a cell. -/
structure Block.Follows (blk blk' : Block) : Prop where
  pattern : blk'.pattern = blk.pattern
  field : blk'.InField
  nonempty : blk'.cells ≠ []

theorem cells_ne_nil_of_pattern {blk blk' : Block} (h : blk.cells ≠ [])
    (hpattern : blk'.pattern = blk.pattern) : blk'.cells ≠ [] := by
  obtain ⟨⟨r, c⟩, hmem⟩ := List.exists_mem_of_ne_nil _ h
  have hcell : blk.Cell r c := hmem
  obtain ⟨i, j, hi, hj, hbit, -, -⟩ := Block.cell_iff.1 hcell
  have hbit' : blk'.bit i j = true := by
    rw [Block.bit, hpattern]
    exact hbit
  exact List.ne_nil_of_mem
    (Block.cell_iff.2 ⟨i, j, hi, hj, hbit', rfl, rfl⟩ : blk'.Cell (blk'.x + i) (blk'.y + j))

section Follows

variable {blk : Block} (h : blk.InField) (hne : blk.cells ≠ []) (pressed : ButtonStates)

include h hne

/-- A move that is made only if the piece stays in the field. -/
theorem follows_of_guarded {c : Prop} [Decidable c] {blk' : Block} (hpattern : blk'.pattern = blk.pattern)
    (hfield : c → blk'.InField) : blk.Follows ((if c then some blk' else none).getD blk) := by
  split_ifs with hmove
  · exact ⟨hpattern, hfield hmove, cells_ne_nil_of_pattern hne hpattern⟩
  · exact ⟨rfl, h, hne⟩

theorem leftMove_follows : blk.Follows ((leftMove pressed blk).getD blk) := by
  refine follows_of_guarded h hne rfl fun hmove => ⟨?_, hmove.2⟩
  have hold := Block.inRows_iff.1 h.rows
  exact Block.inRows_iff.2 hold

theorem rightMove_follows : blk.Follows ((rightMove pressed blk).getD blk) := by
  refine follows_of_guarded h hne rfl fun hmove => ⟨?_, hmove.2⟩
  have hold := Block.inRows_iff.1 h.rows
  exact Block.inRows_iff.2 hold

theorem downMove_follows : blk.Follows ((downMove pressed blk).getD blk) := by
  refine follows_of_guarded h hne rfl fun hmove => ⟨hmove.2, ?_⟩
  have hold := Block.inColumns_iff.1 h.columns
  exact Block.inColumns_iff.2 hold

end Follows

/-- **The guards are exact for every shape.** For a piece of any pattern that has a cell, with all its
    cells in the field, `buttons_do_action` makes exactly the moves that keep it there, in order, and
    reports whether it made one; without ENTER the piece ends in the field. -/
theorem buttonsDoAction_eq_spec {blk : Block} (h : blk.InField) (hne : blk.cells ≠ [])
    (pressed : ButtonStates) :
    buttonsDoAction blk pressed = buttonsSpec blk pressed
      ∧ (pressed .enter = false → (buttonsDoAction blk pressed).1.InField) := by
  -- the box of the call is that of the pattern the moves before ENTER keep
  obtain ⟨hpat1, hin1, hne1⟩ := leftMove_follows h hne pressed
  obtain ⟨hpat2, hin2, hne2⟩ := rightMove_follows hin1 hne1 pressed
  have hdown := downMove_follows hin2 hne2 pressed
  have heq : buttonsDoAction blk pressed = buttonsSpec blk pressed := by
    have hright := pressRight_eq_move hin1 hne1 pressed (leftMove pressed blk).isSome
    rw [hpat1] at hright
    have hdown := pressDown_eq_move hin2 hne2 pressed
      ((leftMove pressed blk).isSome
        || (rightMove pressed ((leftMove pressed blk).getD blk)).isSome)
    rw [hpat2, hpat1] at hdown
    rw [buttonsDoAction, pressLeft_eq_move h hne pressed false, Bool.false_or, hright, hdown,
      pressEnter_eq_move]
    rfl
  refine ⟨heq, fun henter => ?_⟩
  rw [heq]
  simp only [buttonsSpec, enterMove, henter, Bool.false_eq_true, if_false, Option.getD_none]
  exact hdown.field

/-- A domino with a blank row above it and a blank column to its left, in the top left corner. -/
theorem buttonsDoAction_eq_spec_corner :
    buttonsDoAction ⟨fun _ => #v[0b000, 0b110, 0b000], .north, -1, -1⟩ (.only [.left, .right, .down])
      = buttonsSpec ⟨fun _ => #v[0b000, 0b110, 0b000], .north, -1, -1⟩ (.only [.left, .right, .down])
      ∧ (ButtonStates.only [.left, .right, .down] .enter = false →
        (buttonsDoAction ⟨fun _ => #v[0b000, 0b110, 0b000], .north, -1, -1⟩
          (.only [.left, .right, .down])).1.InField) :=
  buttonsDoAction_eq_spec ⟨by decide, by decide⟩ (by decide) _

end Katetris
