import Mathlib.Tactic

set_option autoImplicit false

/-! # The data model

The types of `types.h`, `tetris.h` and `env.h`, under the source's words. `int` fields are
unbounded `Int`s: the values they take stay far inside 32 bits, and signed overflow is undefined in
C. Bytes, pattern rows and grid rows have fixed widths in the source and are `BitVec`s here. Array
lengths are written out where they index a type: 240 is `DISP_COLS`, 30 both `DISP_ROWS` and
`GRID_ROWS`, 3 `BLOCK_HEIGHT`. -/

namespace Katetris

/-! ## Sizes (`types.h`, `tetris.h`) -/

/-- `DISP_COLS`: the first index of the frame buffer. -/
abbrev dispCols : Nat := 240

/-- `DISP_ROWS`: the bytes of one frame-buffer column, eight pixels each. -/
abbrev dispRows : Nat := 30

/-- `GRID_STEP`: the edge of one cell, in pixels. -/
abbrev gridStep : Nat := 8

/-- `STACKSIZE`: the capacity of the update stack. -/
abbrev stackSize : Nat := 16

/-- `BLOCK_HEIGHT`: the edge of the square a pattern lives in. -/
abbrev blockHeight : Nat := 3

/-- `GRID_ROWS`: `DISP_COLS % GRID_STEP` is zero, so the `#else` branch applies. -/
abbrev gridRows : Nat := dispCols / gridStep

/-- `GRID_COLS`: `DISP_ROWS % GRID_STEP` is 6, so the branch that adds one applies and the value is
    31, one more than the columns on screen. -/
abbrev gridCols : Nat := dispRows * 8 / gridStep + 1

/-! ## Boxes and the update stack -/

/-- `bbox_t`. -/
structure BBox where
  x : Int
  y : Int
  sizex : Int
  sizey : Int
  deriving DecidableEq, Repr

/-- `bbox_stack_t`. The live part of `arr`, the top of the stack first. -/
structure BBoxStack where
  arr : List BBox
  size_le : arr.length ≤ stackSize
  deriving DecidableEq, Repr

/-- `stack->size`. -/
def BBoxStack.size (stack : BBoxStack) : Nat := stack.arr.length

/-- A zero-initialised stack. -/
def BBoxStack.empty : BBoxStack := ⟨[], by simp⟩

/-! ## The frame buffer -/

/-- `vbuf_t` without its mutex: every access below is made by the thread that holds it. -/
structure VBuf where
  buf : Vector (Vector (BitVec 8) 30) 240
  updStack : BBoxStack
  clearFlag : Bool

/-! ## Patterns, pieces and the grid -/

/-- `enum ori_e`, without the table size `ORI_SIZE`. -/
inductive Ori where
  | north
  | east
  | south
  | west
  deriving DecidableEq, Repr

/-- The value of the enumerator. -/
def Ori.code : Ori → Nat
  | .north => 0
  | .east => 1
  | .south => 2
  | .west => 3

/-- `pattern_t`: three rows of `uint8_t`. -/
abbrev Pattern := Vector (BitVec 8) 3

/-- `block_t`. `ptrs` is the table of the four orientations' patterns. -/
structure Block where
  ptrs : Ori → Pattern
  ori : Ori
  x : Int
  y : Int

/-- Two pieces are compared pattern by pattern. -/
instance : DecidableEq Block := fun blk blk' =>
  decidable_of_iff ((∀ ori ∈ [Ori.north, .east, .south, .west], blk.ptrs ori = blk'.ptrs ori)
      ∧ blk.ori = blk'.ori ∧ blk.x = blk'.x ∧ blk.y = blk'.y) <| by
    obtain ⟨ptrs, ori, x, y⟩ := blk
    obtain ⟨ptrs', ori', x', y'⟩ := blk'
    have hptrs : (∀ o ∈ [Ori.north, .east, .south, .west], ptrs o = ptrs' o) ↔ ptrs = ptrs' := by
      refine ⟨fun h => funext fun o => h o (by cases o <;> simp), fun h o _ => by rw [h]⟩
    rw [Block.mk.injEq, hptrs]

/-- The pattern of the current orientation, `blk->ptrs[blk->ori]`. -/
def Block.pattern (blk : Block) : Pattern := blk.ptrs blk.ori

/-- `grid_t`: `GRID_COLS` exceeds 16, so a row is a `uint32_t`. -/
abbrev Grid := Vector (BitVec 32) 30

/-- The pieces' only pattern table, `patterns_gamma`. -/
def patternsGamma : Ori → Pattern
  | .north => #v[0b011, 0b001, 0b001]
  | .east => #v[0b000, 0b111, 0b001]
  | .south => #v[0b001, 0b001, 0b011]
  | .west => #v[0b100, 0b111, 0b000]

/-- `block_gamma`: what is copied into `blk` at every spawn. -/
def blockGamma : Block where
  ptrs := patternsGamma
  ori := .north
  x := 0
  y := 0

/-! ## Build configuration (`env.h`) -/

/-- The build options the game loop reads. -/
structure Config where
  sitl : Bool
  shiftClear : Bool
  deriving DecidableEq, Repr

end Katetris
