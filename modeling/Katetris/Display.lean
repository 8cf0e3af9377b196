import Katetris.Types
import Katetris.Lib.Loops

set_option autoImplicit false

/-! # The frame buffer and the update stack (`display.c`)

The functions of `display.c`, and what each of them does to the pixels. Eight pixels share a byte
(`buf[p][q/8]`, bit `q % 8`), so the byte-level operations are read once through `VBuf.pixel`; from
then on a drawing operation is described by the set of pixels it paints. -/

namespace Katetris

open Lib

/-! ## The operations -/

/-- `vbuf_init`: every byte is `0xFF`. The mutex is not modelled. -/
def vbufInit (vbuf : VBuf) : VBuf :=
  { vbuf with buf := Vector.replicate 240 (Vector.replicate 30 0xFF) }

/-- `vbuf_set_bit`. An index outside the array would be undefined; here it writes nothing. -/
def vbufSetBit (vbuf : VBuf) (col row : Int) : VBuf :=
  if h : 0 ≤ col ∧ col < 240 ∧ 0 ≤ row ∧ row < 240 then
    let column := vbuf.buf.get ⟨col.toNat, by omega⟩
    let byte := column.get ⟨(row / 8).toNat, by omega⟩
    { vbuf with
      buf := vbuf.buf.set col.toNat
        (column.set (row / 8).toNat (byte ||| 1#8 <<< (row % 8).toNat) (by omega)) (by omega) }
  else vbuf

/-- `vbuf_clear`: `memset` of every column to zero. -/
def vbufClear (vbuf : VBuf) : VBuf :=
  { vbuf with buf := Vector.replicate 240 (Vector.replicate 30 0x00) }

/-- Calls of `vbuf_set_bit`, one after the other, each by its `col` and `row`. -/
def setBits (accesses : List (Int × Int)) (vbuf : VBuf) : VBuf :=
  accesses.foldl (fun vbuf a => vbufSetBit vbuf a.1 a.2) vbuf

/-- The calls `vbuf_draw_rect` makes. The two loop conditions `i < DISP_COLS && i < x+w` and
    `j < DISP_ROWS*8 && j < y+h` are the ends of the two ranges. -/
def rectAccesses (x y h w : Int) : List (Int × Int) :=
  (intRange x (min dispCols (x + w))).flatMap fun i =>
    (intRange y (min (dispRows * 8) (y + h))).map fun j => (i, j)

/-- `vbuf_draw_rect`. -/
def vbufDrawRect (vbuf : VBuf) (x y h w : Int) : VBuf := setBits (rectAccesses x y h w) vbuf

/-- `vbuf_set_flag`. -/
def vbufSetFlag (vbuf : VBuf) : VBuf := { vbuf with clearFlag := true }

/-- `bbox_stack_push`: the new stack and the returned flag. -/
def bboxStackPush (stack : BBoxStack) (box : BBox) : BBoxStack × Bool :=
  if h : stack.size < stackSize then (⟨box :: stack.arr, h⟩, true) else (stack, false)

/-- `bbox_stack_pop`: the new stack and the popped box, `none` where the source returns `false`. -/
def bboxStackPop (stack : BBoxStack) : BBoxStack × Option BBox :=
  match h : stack.arr with
  | [] => (stack, none)
  | box :: rest =>
      (⟨rest, by
        have := stack.size_le
        rw [h, List.length_cons] at this
        exact Nat.le_of_succ_le this⟩, some box)

/-- `bbox_stack_push(&vbuf->upd_stack, box)` with the result dropped, as every caller does. -/
def VBuf.push (vbuf : VBuf) (box : BBox) : VBuf :=
  { vbuf with updStack := (bboxStackPush vbuf.updStack box).1 }

/-! ## Pixels -/

/-- Pixel `(p, q)` of the buffer: bit `q % 8` of `buf[p][q/8]`. -/
def VBuf.pixel (vbuf : VBuf) (p q : Nat) : Bool :=
  if h : p < 240 ∧ q < 240 then
    ((vbuf.buf.get ⟨p, h.1⟩).get ⟨q / 8, by omega⟩).getLsbD (q % 8)
  else false

/-- The observer the painting lemmas are stated with: pixel `(p, q)` is lit. -/
def VBuf.Lit (vbuf : VBuf) (pq : Nat × Nat) : Prop := vbuf.pixel pq.1 pq.2 = true

theorem VBuf.pixel_of_ge {vbuf : VBuf} {p q : Nat} (h : ¬(p < 240 ∧ q < 240)) :
    vbuf.pixel p q = false := by
  simp [VBuf.pixel, h]

theorem VBuf.Lit.onScreen {vbuf : VBuf} {pq : Nat × Nat} (h : vbuf.Lit pq) :
    pq.1 < 240 ∧ pq.2 < 240 := by
  by_contra hout
  rw [VBuf.Lit, VBuf.pixel_of_ge hout] at h
  exact absurd h (by simp)

@[simp] theorem vbufClear_pixel (vbuf : VBuf) (p q : Nat) : (vbufClear vbuf).pixel p q = false := by
  unfold VBuf.pixel vbufClear
  split
  · simp [Vector.get]
  · rfl

theorem vector_get_eq {α : Type} {n : Nat} (v : Vector α n) (i : Nat) (h : i < n) :
    v.get ⟨i, h⟩ = v[i] := rfl

/-- Setting a bit of one byte turns on one pixel of that byte and no other one. -/
theorem getLsbD_or_one_shiftLeft (byte : BitVec 8) (n k : Nat) (hn : n < 8) (hk : k < 8) :
    (byte ||| 1#8 <<< n).getLsbD k = (byte.getLsbD k || decide (k = n)) := by
  rw [BitVec.getLsbD_or, BitVec.getLsbD_shiftLeft]
  by_cases hkn : k = n
  · subst hkn
    simp [hk]
  · simp only [hk, hkn, BitVec.getLsbD_one]
    by_cases hlt : k < n
    · simp [hlt]
    · have : k - n ≠ 0 := by omega
      simp [this]

/-- `vbuf_set_bit` on the screen lights the pixel it names. -/
theorem vbufSetBit_pixel (vbuf : VBuf) (col row : Int) (p q : Nat) :
    (vbufSetBit vbuf col row).pixel p q
      = (vbuf.pixel p q || decide (p < 240 ∧ q < 240 ∧ (p : Int) = col ∧ (q : Int) = row)) := by
  unfold vbufSetBit
  split
  · rename_i h
    unfold VBuf.pixel
    by_cases hpq : p < 240 ∧ q < 240
    · simp only [dif_pos hpq, vector_get_eq]
      by_cases hp : p = col.toNat
      · subst hp
        rw [Vector.getElem_set_self]
        by_cases hq : q / 8 = (row / 8).toNat
        · simp only [hq, Vector.getElem_set_self]
          rw [getLsbD_or_one_shiftLeft _ _ _ (by omega) (by omega)]
          congr 1
          apply decide_eq_decide.mpr
          omega
        · rw [Vector.getElem_set_ne _ _ (fun he => hq he.symm)]
          have : ¬ (q : Int) = row := by omega
          simp [this]
      · rw [Vector.getElem_set_ne _ _ (fun he => hp he.symm)]
        have : ¬ (p : Int) = col := by omega
        simp [this]
    · simp only [dif_neg hpq]
      have : ¬(p < 240 ∧ q < 240 ∧ (p : Int) = col ∧ (q : Int) = row) := by omega
      simp [this]
  · have : ¬(p < 240 ∧ q < 240 ∧ (p : Int) = col ∧ (q : Int) = row) := by omega
    simp [this]

/-- A drawing routine lights the pixels it calls `vbuf_set_bit` for. -/
theorem setBits_paints (accesses : List (Int × Int)) :
    Paints VBuf.Lit (setBits accesses)
      (fun pq => pq.1 < 240 ∧ pq.2 < 240 ∧ ((pq.1 : Int), (pq.2 : Int)) ∈ accesses) := by
  have hone : ∀ a : Int × Int, Paints VBuf.Lit (fun vbuf => vbufSetBit vbuf a.1 a.2)
      (fun pq => pq.1 < 240 ∧ pq.2 < 240 ∧ (pq.1 : Int) = a.1 ∧ (pq.2 : Int) = a.2) := by
    intro a vbuf pq
    simp only [VBuf.Lit, vbufSetBit_pixel, Bool.or_eq_true, decide_eq_true_eq]
  refine (Paints.foldl hone accesses).congr fun pq => ?_
  refine ⟨fun hsome => ?_, fun hmem => ⟨_, hmem.2.2, hmem.1, hmem.2.1, rfl, rfl⟩⟩
  obtain ⟨⟨col, row⟩, hmem, hp, hq, rfl, rfl⟩ := hsome
  exact ⟨hp, hq, hmem⟩

theorem mem_rectAccesses {x y h w i j : Int} : (i, j) ∈ rectAccesses x y h w ↔
    (x ≤ i ∧ i < 240 ∧ i < x + w) ∧ y ≤ j ∧ j < 240 ∧ j < y + h := by
  simp [rectAccesses, dispCols, dispRows]

/-- The pixels of the rectangle at `(x, y)` of width `w` along the first and height `h` along the
    second index, clipped to the screen. -/
def InRect (x y h w : Int) (pq : Nat × Nat) : Prop :=
  pq.1 < 240 ∧ pq.2 < 240 ∧ x ≤ pq.1 ∧ (pq.1 : Int) < x + w ∧ y ≤ pq.2 ∧ (pq.2 : Int) < y + h

/-- **`vbuf_draw_rect` paints exactly the clipped rectangle.** -/
theorem vbufDrawRect_paints (x y h w : Int) :
    Paints VBuf.Lit (fun vbuf => vbufDrawRect vbuf x y h w) (InRect x y h w) := by
  refine (setBits_paints (rectAccesses x y h w)).congr fun pq => ?_
  simp only [mem_rectAccesses, InRect]
  omega

/-! ## What drawing leaves alone -/

/-- The redraw requests pending in the buffer: the update stack and the flag that overrides it. -/
def VBuf.requests (vbuf : VBuf) : BBoxStack × Bool := (vbuf.updStack, vbuf.clearFlag)

theorem vbufSetBit_requests (vbuf : VBuf) (col row : Int) :
    (vbufSetBit vbuf col row).requests = vbuf.requests := by
  unfold vbufSetBit; split <;> rfl

theorem setBits_requests (accesses : List (Int × Int)) (vbuf : VBuf) :
    (setBits accesses vbuf).requests = vbuf.requests := by
  rw [setBits]
  exact foldl_frame VBuf.requests (fun v a => vbufSetBit_requests v a.1 a.2) accesses vbuf

theorem vbufDrawRect_requests (vbuf : VBuf) (x y h w : Int) :
    (vbufDrawRect vbuf x y h w).requests = vbuf.requests :=
  setBits_requests _ vbuf

/-! ## The update stack -/

/-- What a push leaves on the stack: the box on top if there was room, else nothing new. -/
theorem bboxStackPush_arr (stack : BBoxStack) (box : BBox) :
    (bboxStackPush stack box).1.arr
      = if stack.size < stackSize then box :: stack.arr else stack.arr := by
  unfold bboxStackPush
  split <;> rfl

theorem VBuf.push_arr (vbuf : VBuf) (box : BBox) :
    (vbuf.push box).updStack.arr
      = if vbuf.updStack.size < stackSize then box :: vbuf.updStack.arr
        else vbuf.updStack.arr :=
  bboxStackPush_arr vbuf.updStack box

theorem bboxStackPop_arr (stack : BBoxStack) : (bboxStackPop stack).1.arr = stack.arr.tail := by
  unfold bboxStackPop
  split
  · rename_i h
    rw [h, List.tail_nil]
  · rename_i h
    exact (congrArg List.tail h).symm

end Katetris
