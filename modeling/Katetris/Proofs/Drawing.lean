import Katetris.Proofs.Cells

set_option autoImplicit false

/-! # Drawing, pixel by pixel

What `vbuf_draw_rect`, `block_draw` and `grid_draw` do to the buffer, and where they write. Every
drawing routine is a list of calls of `vbuf_set_bit`, which depends on the buffer in nothing, so where it
writes is in that list. Two buffers with the same pixels and the same pending requests are equal
(`VBuf.ext_lit`), so an equation between drawings is one between the sets of pixels they paint: any two
drawings commute, and each can be repeated (`Draws.comm`, `Draws.idem`). -/

namespace Katetris

open Lib

/-! ## A buffer is its pixels -/

theorem VBuf.byte_getLsbD (vbuf : VBuf) {p b k : Nat} (hp : p < 240) (hb : b < 30) (hk : k < 8) :
    ((vbuf.buf.get ⟨p, hp⟩).get ⟨b, hb⟩).getLsbD k = vbuf.pixel p (8 * b + k) := by
  have hon : p < 240 ∧ 8 * b + k < 240 := ⟨hp, by omega⟩
  have hbyte : (8 * b + k) / 8 = b := by omega
  have hbit : (8 * b + k) % 8 = k := by omega
  simp only [VBuf.pixel, dif_pos hon, hbyte, hbit]

theorem VBuf.ext_lit {v w : VBuf} (hreq : v.requests = w.requests) (hlit : ∀ pq, v.Lit pq ↔ w.Lit pq) :
    v = w := by
  have hpixel : ∀ p q, v.pixel p q = w.pixel p q := fun p q => Bool.eq_iff_iff.2 (hlit (p, q))
  have hbuf : v.buf = w.buf := by
    apply Vector.ext
    intro p hp
    apply Vector.ext
    intro b hb
    apply BitVec.eq_of_getLsbD_eq
    intro k hk
    have hv := v.byte_getLsbD hp hb hk
    have hw := w.byte_getLsbD hp hb hk
    simp only [vector_get_eq] at hv hw
    rw [hv, hw, hpixel]
  have hstack : v.updStack = w.updStack := congrArg Prod.fst hreq
  have hflag : v.clearFlag = w.clearFlag := congrArg Prod.snd hreq
  obtain ⟨buf, updStack, clearFlag⟩ := v
  obtain ⟨buf', updStack', clearFlag'⟩ := w
  simp only at hbuf hstack hflag
  rw [hbuf, hstack, hflag]

/-- `f` is a drawing: it lights the pixels of `S`, turns none off and leaves the requests alone. -/
structure Draws (f : VBuf → VBuf) (S : Nat × Nat → Prop) : Prop where
  paints : Paints VBuf.Lit f S
  requests : ∀ vbuf, (f vbuf).requests = vbuf.requests

theorem Draws.comm {f g : VBuf → VBuf} {S T : Nat × Nat → Prop} (hf : Draws f S) (hg : Draws g T)
    (vbuf : VBuf) : f (g vbuf) = g (f vbuf) := by
  apply VBuf.ext_lit
  · rw [hf.requests, hg.requests, hg.requests, hf.requests]
  · intro pq
    rw [hf.paints (g vbuf) pq, hg.paints vbuf pq, hg.paints (f vbuf) pq, hf.paints vbuf pq]
    exact or_right_comm

theorem Draws.idem {f : VBuf → VBuf} {S : Nat × Nat → Prop} (hf : Draws f S) (vbuf : VBuf) :
    f (f vbuf) = f vbuf := by
  apply VBuf.ext_lit
  · exact hf.requests (f vbuf)
  · intro pq
    rw [hf.paints (f vbuf) pq, hf.paints vbuf pq, or_assoc, or_self]

/-! ## Where the routines write -/

/-- `buf[col][row/8]` is a byte of the buffer and `row % 8` one of its bits. -/
def InBuffer (a : Int × Int) : Prop :=
  (0 ≤ a.1 ∧ a.1 < dispCols) ∧ (0 ≤ a.2.tdiv 8 ∧ a.2.tdiv 8 < dispRows)
    ∧ 0 ≤ a.2.tmod 8 ∧ a.2.tmod 8 < 8

theorem rectAccesses_inBuffer {x y : Int} (hx : 0 ≤ x) (hy : 0 ≤ y) (h w : Int) :
    ∀ a ∈ rectAccesses x y h w, InBuffer a := by
  intro a ha
  simp only [rectAccesses, List.mem_flatMap, List.mem_map, mem_intRange] at ha
  obtain ⟨i, hi, j, hj, rfl⟩ := ha
  have hj0 : 0 ≤ j := le_trans hy hj.1
  simp only [InBuffer, Int.tdiv_eq_ediv_of_nonneg hj0, Int.tmod_eq_emod_of_nonneg hj0]
  simp only [dispCols, dispRows] at hi hj ⊢
  omega

theorem suppxAccesses_inBuffer {x y : Int} (hx : 0 ≤ x) (hy : 0 ≤ y) :
    ∀ a ∈ suppxAccesses x y, InBuffer a :=
  rectAccesses_inBuffer (mul_nonneg hx (by simp)) (mul_nonneg hy (by simp)) _ _

theorem mem_ite_suppxAccesses {c : Prop} [Decidable c] {x y : Int} (hx : 0 ≤ x) (hy : 0 ≤ y)
    {a : Int × Int} (ha : a ∈ if c then suppxAccesses x y else []) : InBuffer a := by
  split_ifs at ha
  · exact suppxAccesses_inBuffer hx hy a ha
  · exact absurd ha (by simp)

theorem blockAccesses_inBuffer {blk : Block} (hx : 0 ≤ blk.x) (hy : 0 ≤ blk.y) :
    ∀ a ∈ blockAccesses blk, InBuffer a := by
  intro a ha
  simp only [blockAccesses, List.mem_flatMap] at ha
  obtain ⟨i, -, j, -, ha⟩ := ha
  exact mem_ite_suppxAccesses (by omega) (by omega) ha

theorem gridAccesses_inBuffer (grid : Grid) : ∀ a ∈ gridAccesses grid, InBuffer a := by
  intro a ha
  simp only [gridAccesses, List.mem_flatMap] at ha
  obtain ⟨i, -, j, -, ha⟩ := ha
  exact mem_ite_suppxAccesses (by omega) (by omega) ha

/-! ## Rectangles -/

/-- What `vbuf_draw_rect` does to any buffer: single writes inside the buffer that light the pixels of
    the clipped rectangle and no other, whatever was drawn before, and as often as it is called. -/
structure RectExact (x y h w : Int) : Prop where
  writes : ∀ vbuf, vbufDrawRect vbuf x y h w = setBits (rectAccesses x y h w) vbuf
  inBuffer : ∀ a ∈ rectAccesses x y h w, InBuffer a
  pixels : ∀ (vbuf : VBuf) (i j : Nat), i < 240 → j < 240 →
    ((vbufDrawRect vbuf x y h w).pixel i j = true ↔
      vbuf.pixel i j = true ∨ (x ≤ i ∧ (i : Int) < x + w) ∧ y ≤ j ∧ (j : Int) < y + h)
  commutes : ∀ (vbuf : VBuf) (x' y' h' w' : Int),
    vbufDrawRect (vbufDrawRect vbuf x' y' h' w') x y h w
      = vbufDrawRect (vbufDrawRect vbuf x y h w) x' y' h' w'
  idempotent : ∀ vbuf, vbufDrawRect (vbufDrawRect vbuf x y h w) x y h w = vbufDrawRect vbuf x y h w

theorem vbufDrawRect_draws (x y h w : Int) :
    Draws (fun vbuf => vbufDrawRect vbuf x y h w) (InRect x y h w) where
  paints := vbufDrawRect_paints x y h w
  requests := fun vbuf => vbufDrawRect_requests vbuf x y h w

/-- **Rectangle drawing is exact clipping**, for every corner with non-negative coordinates and every
    size, empty and negative ones included. -/
theorem rectExact {x y : Int} (hx : 0 ≤ x) (hy : 0 ≤ y) (h w : Int) : RectExact x y h w where
  writes := fun _ => rfl
  inBuffer := rectAccesses_inBuffer hx hy h w
  pixels := by
    intro vbuf i j hi hj
    have hpaint := vbufDrawRect_paints x y h w vbuf (i, j)
    simp only [VBuf.Lit, InRect, hi, hj, true_and] at hpaint
    rw [hpaint, and_assoc]
  commutes := fun vbuf x' y' h' w' =>
    (vbufDrawRect_draws x y h w).comm (vbufDrawRect_draws x' y' h' w') vbuf
  idempotent := fun vbuf => (vbufDrawRect_draws x y h w).idem vbuf

/-- A rectangle that starts inside a byte and reaches past both edges. -/
theorem rectExact_corner : RectExact 237 235 9 9 := rectExact (by decide) (by decide) 9 9

/-! ## Piece and grid -/

/-- Drawing a piece and then the grid lights exactly their pixels, writes inside the buffer only, and
    can be done in either order. -/
structure DrawsExactly (vbuf : VBuf) (blk : Block) (grid : Grid) : Prop where
  pixels : ∀ p q : Nat, p < 240 → q < 240 →
    ((gridDraw (blockDraw vbuf blk) grid).pixel p q = true ↔
      vbuf.pixel p q = true ∨ (rowAt grid (p / 8)).getLsbD (q / 8) = true
        ∨ blk.Cell (p / 8 : Nat) (q / 8 : Nat))
  writes : gridDraw (blockDraw vbuf blk) grid
    = setBits (blockAccesses blk ++ gridAccesses grid) vbuf
  inBuffer : ∀ a ∈ blockAccesses blk ++ gridAccesses grid, InBuffer a
  either : blockDraw (gridDraw vbuf grid) blk = gridDraw (blockDraw vbuf blk) grid

theorem Grid.cell_natCast {grid : Grid} {r c : Nat} :
    Grid.Cell grid r c ↔ (rowAt grid r).getLsbD c = true := by
  simp [Grid.Cell]

theorem blockDraw_draws (blk : Block) :
    Draws (fun vbuf => blockDraw vbuf blk)
      (fun pq => pq.1 < 240 ∧ pq.2 < 240 ∧ blk.Cell (pq.1 / 8 : Nat) (pq.2 / 8 : Nat)) where
  paints := blockDraw_paints blk
  requests := fun vbuf => blockDraw_requests vbuf blk

theorem gridDraw_draws (grid : Grid) :
    Draws (fun vbuf => gridDraw vbuf grid)
      (fun pq => pq.1 < 240 ∧ pq.2 < 240 ∧ Grid.Cell grid (pq.1 / 8 : Nat) (pq.2 / 8 : Nat)) where
  paints := gridDraw_paints grid
  requests := fun vbuf => gridDraw_requests vbuf grid

/-- **Drawing is exact to the pixel**, for every buffer, grid, shape and position with non-negative
    coordinates, on the screen or past its edge. -/
theorem drawsExactly (vbuf : VBuf) {blk : Block} (hx : 0 ≤ blk.x) (hy : 0 ≤ blk.y) (grid : Grid) :
    DrawsExactly vbuf blk grid where
  pixels := by
    intro p q hp hq
    have hgrid := gridDraw_paints grid (blockDraw vbuf blk) (p, q)
    have hblock := blockDraw_paints blk vbuf (p, q)
    simp only [VBuf.Lit, hp, hq, true_and, Grid.cell_natCast] at hgrid hblock
    rw [hgrid, hblock, or_assoc]
    exact or_congr_right or_comm
  writes := List.foldl_append.symm
  inBuffer := by
    intro a ha
    rcases List.mem_append.1 ha with ha | ha
    · exact blockAccesses_inBuffer hx hy a ha
    · exact gridAccesses_inBuffer grid a ha
  either := (blockDraw_draws blk).comm (gridDraw_draws grid) vbuf

/-- A full square partly past the bottom edge and the right edge, over a grid with a bit in the column
    that is not on the screen. -/
theorem drawsExactly_corner :
    DrawsExactly (vbufInit ⟨Vector.replicate 240 (Vector.replicate 30 0), .empty, false⟩)
      ⟨fun _ => #v[0b111, 0b111, 0b111], .east, 28, 29⟩ (gridClear.setIfInBounds 29 0x40000000) :=
  drawsExactly _ (by decide) (by decide) _

/-- **Locking a piece does not change the picture.** The grid with the piece added is drawn as the grid
    and the piece are. -/
theorem gridDraw_blockAdd (vbuf : VBuf) {blk : Block} (h : blk.Fits) (hx : 0 ≤ blk.x ∧ blk.x ≤ 27)
    (grid : Grid) : gridDraw vbuf (blockAdd blk grid) = blockDraw (gridDraw vbuf grid) blk := by
  apply VBuf.ext_lit
  · rw [gridDraw_requests, blockDraw_requests, gridDraw_requests]
  · intro pq
    have hrows : ∀ r c : Int, blk.Cell r c → 0 ≤ r ∧ r < 30 := by
      intro r c hcell
      obtain ⟨i, j, hi, -, -, hr, -⟩ := Block.cell_iff.1 hcell
      omega
    have hadd := blockAdd_cell h grid (pq.1 / 8 : Nat) (pq.2 / 8 : Nat)
    rw [and_iff_left_of_imp (hrows _ _)] at hadd
    rw [gridDraw_paints (blockAdd blk grid) vbuf pq, blockDraw_paints blk (gridDraw vbuf grid) pq,
      gridDraw_paints grid vbuf pq, or_assoc]
    refine or_congr_right ?_
    simp only [hadd, and_or_left]

/-- A full square in the last three rows of the field, over a grid with a full bottom row. -/
theorem gridDraw_blockAdd_bottom :
    gridDraw (vbufInit ⟨Vector.replicate 240 (Vector.replicate 30 0), .empty, false⟩)
        (blockAdd ⟨fun _ => #v[0b111, 0b111, 0b111], .south, 27, 28⟩
          (gridClear.setIfInBounds 29 0x3FFFFFFF))
      = blockDraw (gridDraw (vbufInit ⟨Vector.replicate 240 (Vector.replicate 30 0), .empty, false⟩)
          (gridClear.setIfInBounds 29 0x3FFFFFFF)) ⟨fun _ => #v[0b111, 0b111, 0b111], .south, 27, 28⟩ :=
  gridDraw_blockAdd _ ⟨small_of_rows (by decide), by decide, by decide⟩ (by decide) _

end Katetris
