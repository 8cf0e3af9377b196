import Katetris.Tetris

set_option autoImplicit false

/-! # Score digits (`text.c`, `font.h`)

A glyph is five rows of five bits, each bit a square of `GRID_STEP/2` pixels. -/

namespace Katetris

open Lib

/-- `char_t`: five rows of `uint8_t`. -/
abbrev Glyph := Vector (BitVec 8) 5

/-- `CHAR_SIZE`. -/
abbrev charSize : Nat := 5

/-- `font_map`: the digits' codes are the digits themselves. -/
def fontMap : List (BitVec 8 × Glyph) :=
  [(0, #v[0b11111, 0b10001, 0b10001, 0b10001, 0b11111]),
   (1, #v[0b00100, 0b00110, 0b00100, 0b00100, 0b01110]),
   (2, #v[0b00010, 0b00101, 0b00100, 0b00010, 0b00111]),
   (3, #v[0b11110, 0b10000, 0b11110, 0b10000, 0b11110]),
   (4, #v[0b10010, 0b10010, 0b11110, 0b10000, 0b10000]),
   (5, #v[0b11110, 0b00010, 0b11110, 0b10000, 0b11110]),
   (6, #v[0b11110, 0b10000, 0b11110, 0b10010, 0b11110]),
   (7, #v[0b11110, 0b10000, 0b01000, 0b00100, 0b00010]),
   (8, #v[0b11110, 0b10010, 0b11110, 0b10010, 0b11110]),
   (9, #v[0b11110, 0b10010, 0b11110, 0b10000, 0b11110])]

/-- `suppx_text_draw`: `x*GRID_STEP/2` divides the product. -/
def suppxTextDraw (vbuf : VBuf) (x y : Int) : VBuf :=
  vbufDrawRect vbuf ((x * gridStep).tdiv 2) ((y * gridStep).tdiv 2) (gridStep / 2) (gridStep / 2)

/-- `_draw_char`. -/
def drawChar (vbuf : VBuf) (ptr : Glyph) (x y : Int) : VBuf :=
  (List.range 5).foldl (fun vbuf (i : Nat) => (List.range 5).foldl (fun vbuf (j : Nat) =>
    if (rowAt ptr i).getLsbD j then suppxTextDraw vbuf (x + i) (y + j) else vbuf) vbuf) vbuf

/-- `text_draw_char`: a position off the cell raster draws nothing. -/
def textDrawChar (vbuf : VBuf) (c : BitVec 8) (x y : Int) : VBuf :=
  if x.tmod gridStep ≠ 0 ∨ y.tmod gridStep ≠ 0 then vbuf
  else fontMap.foldl (fun vbuf entry =>
    if c = entry.1 then drawChar vbuf entry.2 x y else vbuf) vbuf

/-- The loop `while (v > 0)` of `text_draw_number`. -/
def textDrawDigits (vbuf : VBuf) (v : Nat) (x y : Int) : VBuf :=
  if 0 < v then
    textDrawDigits (textDrawChar vbuf (BitVec.ofNat 8 (v % 10)) x y) (v / 10) x y
  else vbuf
termination_by v
decreasing_by omega

/-- `text_draw_number`: the position is never advanced between digits. -/
def textDrawNumber (vbuf : VBuf) (v : BitVec 8) (x y : Int) : VBuf :=
  if v = 0 then textDrawChar vbuf 0 x y else textDrawDigits vbuf v.toNat x y

/-! ## What drawing text paints -/

/-- The pixels of one glyph drawn at `(x, y)`. -/
def InGlyph (ptr : Glyph) (x y : Int) (pq : Nat × Nat) : Prop :=
  ∃ i ∈ List.range 5, ∃ j ∈ List.range 5, (rowAt ptr i).getLsbD j = true ∧
    InRect (((x + (i : Int)) * gridStep).tdiv 2) (((y + (j : Int)) * gridStep).tdiv 2)
      (gridStep / 2) (gridStep / 2) pq

theorem drawChar_paints (ptr : Glyph) (x y : Int) :
    Paints VBuf.Lit (fun vbuf => drawChar vbuf ptr x y) (InGlyph ptr x y) :=
  Paints.foldl (fun _ => Paints.foldl
    (fun _ => Paints.ite _ (vbufDrawRect_paints _ _ _ _)) _) _

/-- The pixels `text_draw_char` paints. -/
def InChar (c : BitVec 8) (x y : Int) (pq : Nat × Nat) : Prop :=
  ¬(x.tmod gridStep ≠ 0 ∨ y.tmod gridStep ≠ 0) ∧
    ∃ entry ∈ fontMap, c = entry.1 ∧ InGlyph entry.2 x y pq

theorem textDrawChar_paints (c : BitVec 8) (x y : Int) :
    Paints VBuf.Lit (fun vbuf => textDrawChar vbuf c x y) (InChar c x y) := by
  intro vbuf pq
  have hfold := Paints.foldl
    (fun entry : BitVec 8 × Glyph => Paints.ite (c = entry.1) (drawChar_paints entry.2 x y)) fontMap
  show (textDrawChar vbuf c x y).Lit pq ↔ _
  rw [textDrawChar, InChar]
  split_ifs with h
  · exact ⟨Or.inl, fun hor => hor.resolve_right (fun hin => hin.1 h)⟩
  · exact (hfold vbuf pq).trans (or_congr_right ⟨fun hin => ⟨h, hin⟩, fun hin => hin.2⟩)

/-- The pixels the digit loop paints: every decimal digit of `v`, all at the same place. -/
def InDigits (v : Nat) (x y : Int) (pq : Nat × Nat) : Prop :=
  ∃ d ∈ Nat.digits 10 v, InChar (BitVec.ofNat 8 d) x y pq

theorem textDrawDigits_paints (v : Nat) (x y : Int) :
    Paints VBuf.Lit (fun vbuf => textDrawDigits vbuf v x y) (InDigits v x y) := by
  induction v using Nat.strong_induction_on with
  | _ v ih =>
      intro vbuf pq
      show (textDrawDigits vbuf v x y).Lit pq ↔ _
      rw [textDrawDigits, InDigits]
      split_ifs with hv
      · have hrest := ih (v / 10) (by omega) (textDrawChar vbuf (BitVec.ofNat 8 (v % 10)) x y) pq
        rw [hrest, textDrawChar_paints (BitVec.ofNat 8 (v % 10)) x y vbuf pq,
          Nat.digits_def' (by norm_num) hv]
        simp only [List.mem_cons, exists_eq_or_imp, InDigits, or_assoc]
      · have hv0 : v = 0 := by omega
        simp [hv0]

/-- The pixels `text_draw_number` paints. -/
def InNumber (v : BitVec 8) (x y : Int) (pq : Nat × Nat) : Prop :=
  if v = 0 then InChar 0 x y pq else InDigits v.toNat x y pq

theorem textDrawNumber_paints (v : BitVec 8) (x y : Int) :
    Paints VBuf.Lit (fun vbuf => textDrawNumber vbuf v x y) (InNumber v x y) := by
  intro vbuf pq
  show (textDrawNumber vbuf v x y).Lit pq ↔ _
  rw [textDrawNumber, InNumber]
  split_ifs with hv
  · exact textDrawChar_paints 0 x y vbuf pq
  · exact textDrawDigits_paints v.toNat x y vbuf pq

/-! ## What drawing text leaves alone -/

theorem drawChar_requests (vbuf : VBuf) (ptr : Glyph) (x y : Int) :
    (drawChar vbuf ptr x y).requests = vbuf.requests := by
  refine foldl_frame VBuf.requests (fun v i => foldl_frame VBuf.requests (fun v j => ?_) _ v) _ vbuf
  split
  · exact vbufDrawRect_requests v _ _ _ _
  · rfl

theorem textDrawChar_requests (vbuf : VBuf) (c : BitVec 8) (x y : Int) :
    (textDrawChar vbuf c x y).requests = vbuf.requests := by
  unfold textDrawChar
  split
  · rfl
  · refine foldl_frame VBuf.requests (fun v entry => ?_) _ vbuf
    split
    · exact drawChar_requests v entry.2 x y
    · rfl

theorem textDrawNumber_requests (vbuf : VBuf) (v : BitVec 8) (x y : Int) :
    (textDrawNumber vbuf v x y).requests = vbuf.requests := by
  unfold textDrawNumber
  split
  · exact textDrawChar_requests vbuf 0 x y
  · generalize v.toNat = n
    induction n using Nat.strong_induction_on generalizing vbuf with
    | _ n ih =>
        rw [textDrawDigits]
        split_ifs with hn
        · rw [ih (n / 10) (by omega), textDrawChar_requests]
        · rfl

end Katetris
