import Katetris.Main

set_option autoImplicit false

/-! # Redrawing the panel

What `update_rect_stm32` and `draw` leave on the panel, pixel by pixel. The bytes on the bus are
followed once: the two address commands open the window of the clipped box (`openWindow_eq`), the
three nested loops visit its pixels row by row (`rectBits_eq`) and send them in blocks of 64 words
(`rectLoop_chunks`), and because the sides of an aligned box are multiples of eight its area is a whole
number of blocks, so all pixels arrive and the transfer buffer is empty again. From `updateRectStm32_spec`
on only pixels and boxes are left. -/

namespace Katetris

open Lib

/-! ## Boxes -/

/-- Pixel `(p, q)` of the screen is in the box. -/
def BBox.Covers (box : BBox) (p q : Nat) : Prop :=
  p < 240 ∧ q < 240 ∧ box.x ≤ p ∧ (p : Int) < box.x + box.sizex
    ∧ box.y ≤ q ∧ (q : Int) < box.y + box.sizey

instance (box : BBox) (p q : Nat) : Decidable (box.Covers p q) :=
  inferInstanceAs (Decidable (_ ∧ _))

/-- A box whose corner is on the screen and whose coordinates are multiples of the cell size. It may
    reach past the screen's edge. -/
structure BBox.Aligned (box : BBox) : Prop where
  x_dvd : (gridStep : Int) ∣ box.x
  y_dvd : (gridStep : Int) ∣ box.y
  sizex_dvd : (gridStep : Int) ∣ box.sizex
  sizey_dvd : (gridStep : Int) ∣ box.sizey
  x_mem : 0 ≤ box.x ∧ box.x < 240
  y_mem : 0 ≤ box.y ∧ box.y < 240
  sizex_pos : 0 < box.sizex
  sizey_pos : 0 < box.sizey

/-! ## The window -/

theorem address_ofInt {a : Int} (h0 : 0 ≤ a) (h : a < 65536) :
    address (BitVec.ofInt 8 (a / 256)) (BitVec.ofInt 8 a) = a.toNat := by
  simp only [address, BitVec.toNat_ofInt, Nat.reducePow]
  omega

theorem receive_caddr (panel : Panel) {a b : Int} (ha : 0 ≤ a ∧ a < 65536) (hb : 0 ≤ b ∧ b < 65536) :
    [BusWrite.cmd 0x2A, .data (addressBytes a b)].foldl Panel.receive panel
      = { panel with
          cmd := 0x2A
          params := addressBytes a b
          high := none
          window := { panel.window with xs := a.toNat, xe := b.toNat } } := by
  rw [← address_ofInt ha.1 ha.2, ← address_ofInt hb.1 hb.2]
  rfl

theorem receive_raddr (panel : Panel) {a b : Int} (ha : 0 ≤ a ∧ a < 65536) (hb : 0 ≤ b ∧ b < 65536) :
    [BusWrite.cmd 0x2B, .data (addressBytes a b)].foldl Panel.receive panel
      = { panel with
          cmd := 0x2B
          params := addressBytes a b
          high := none
          window := { panel.window with ys := a.toNat, ye := b.toNat } } := by
  rw [← address_ofInt ha.1 ha.2, ← address_ofInt hb.1 hb.2]
  rfl

/-- The transfers that open the window. -/
def windowWrites (bbox : BBox) : List BusWrite :=
  [.cmd 0x2A, .data (addressBytes bbox.x (bbox.xEnd - 1))]
    ++ ([.cmd 0x2B, .data (addressBytes bbox.y (bbox.yEnd - 1))] ++ [.cmd 0x2C])

/-- The window a box opens. -/
def BBox.window (bbox : BBox) : Window :=
  ⟨bbox.x.toNat, (bbox.xEnd - 1).toNat, bbox.y.toNat, (bbox.yEnd - 1).toNat⟩

/-- A box with its corner on the screen and something in it, of any size and alignment. -/
structure BBox.Visible (bbox : BBox) : Prop where
  x_mem : 0 ≤ bbox.x ∧ bbox.x < 240
  y_mem : 0 ≤ bbox.y ∧ bbox.y < 240
  sizex_pos : 0 < bbox.sizex
  sizey_pos : 0 < bbox.sizey

theorem BBox.Aligned.visible {bbox : BBox} (h : bbox.Aligned) : bbox.Visible :=
  ⟨h.x_mem, h.y_mem, h.sizex_pos, h.sizey_pos⟩

section Visible

variable {bbox : BBox} (h : bbox.Visible)

include h

theorem BBox.Visible.ends :
    (bbox.x < bbox.xEnd ∧ bbox.xEnd ≤ 240) ∧ bbox.y < bbox.yEnd ∧ bbox.yEnd ≤ 240 := by
  obtain ⟨hx, hy, hsx, hsy⟩ := h
  simp only [BBox.xEnd, BBox.yEnd, dispCols, dispRows]
  omega

theorem BBox.Visible.nonEmpty : bbox.window.NonEmpty := by
  have hends := h.ends
  have hx := h.x_mem
  have hy := h.y_mem
  constructor <;> simp only [BBox.window] <;> omega

theorem BBox.Visible.width : bbox.window.width = (bbox.xEnd - bbox.x).toNat := by
  have hends := h.ends
  have hx := h.x_mem
  simp only [Window.width, BBox.window]
  omega

theorem BBox.Visible.height : bbox.window.height = (bbox.yEnd - bbox.y).toNat := by
  have hends := h.ends
  have hy := h.y_mem
  simp only [Window.height, BBox.window]
  omega

theorem BBox.Visible.mem_window {p q : Nat} :
    bbox.window.Mem p q ↔ (bbox.x ≤ p ∧ (p : Int) < bbox.xEnd) ∧ bbox.y ≤ q ∧ (q : Int) < bbox.yEnd := by
  have hends := h.ends
  have hx := h.x_mem
  have hy := h.y_mem
  simp only [Window.Mem, BBox.window]
  omega

/-- The cursor is at the start of the window. -/
theorem BBox.Visible.openWindow (panel : Panel) :
    (windowWrites bbox).foldl Panel.receive panel
      = ⟨⟨panel.canvas.ram, bbox.window.xs, bbox.window.ys⟩, bbox.window, 0x2C, [], none⟩ := by
  have hends := h.ends
  have hx := h.x_mem
  have hy := h.y_mem
  rw [windowWrites, List.foldl_append, List.foldl_append, receive_caddr _ (by omega) (by omega),
    receive_raddr _ (by omega) (by omega)]
  rfl

end Visible

/-! ## Words on the bus -/

/-- The two bytes of one word. -/
def writeWord (panel : Panel) (v : BitVec 16) : Panel := panel.bytes (wordBytes v)

/-- Words as the block they are sent as. -/
def wordsWrite (words : List (BitVec 16)) : BusWrite := .data (words.flatMap wordBytes)

theorem receive_wordsWrite (panel : Panel) (words : List (BitVec 16)) :
    panel.receive (wordsWrite words) = words.foldl writeWord panel := by
  rw [wordsWrite, Panel.receive, Panel.bytes, List.foldl_flatMap]
  rfl

theorem foldl_receive_wordsWrite (panel : Panel) (chunks : List (List (BitVec 16))) :
    (chunks.map wordsWrite).foldl Panel.receive panel = chunks.flatten.foldl writeWord panel := by
  rw [List.foldl_map, List.foldl_flatten]
  simp only [receive_wordsWrite]

/-- After `0x2C` a word is written at the cursor, the low byte first. -/
theorem writeWord_eq {panel : Panel} (hcmd : panel.cmd = 0x2C) (hhigh : panel.high = none)
    (v : BitVec 16) :
    writeWord panel v
      = { panel with
          canvas := panel.canvas.write panel.window (v.extractLsb' 0 8 ++ v.extractLsb' 8 8) } := by
  obtain ⟨canvas, window, cmd, params, high⟩ := panel
  simp only at hcmd hhigh
  subst hcmd hhigh
  rfl

/-- Both bytes of a pixel word are the same, so their order on the bus does not matter. -/
theorem writeWord_pixelWord {panel : Panel} (hcmd : panel.cmd = 0x2C) (hhigh : panel.high = none)
    (lit : Bool) :
    writeWord panel (pixelWord lit)
      = { panel with canvas := panel.canvas.write panel.window (pixelWord lit) } := by
  rw [writeWord_eq hcmd hhigh]
  cases lit <;> rfl

theorem foldl_writeWord (bits : List Bool) {panel : Panel} (hcmd : panel.cmd = 0x2C)
    (hhigh : panel.high = none) :
    (bits.map pixelWord).foldl writeWord panel
      = { panel with
          canvas := (bits.map pixelWord).foldl (Canvas.write panel.window) panel.canvas } := by
  induction bits generalizing panel with
  | nil => rfl
  | cons lit bits ih =>
      rw [List.map_cons, List.foldl_cons, List.foldl_cons, writeWord_pixelWord hcmd hhigh,
        ih (by exact hcmd) (by exact hhigh)]

/-! ## The loops -/

/-- The pixels of a box in the order in which the loops of `update_rect_stm32` visit them. -/
def rectBits (vbuf : VBuf) (x xEnd yStartBytes yEndBytes : Int) : List Bool :=
  (intRange yStartBytes yEndBytes).flatMap fun y => (intRange 0 8).flatMap fun rem =>
    (intRange x xEnd).map fun x => vbuf.bitAt x y rem

/-- The visiting order is row-major, the first screen coordinate fastest. -/
theorem rectBits_eq (vbuf : VBuf) {x y : Int} (hx : 0 ≤ x) (hy : 0 ≤ y) (width rows : Nat) :
    rectBits vbuf x (x + width) y (y + rows)
      = (List.range (rows * 8 * width)).map fun k =>
          vbuf.pixel (x.toNat + k % width) (y.toNat * 8 + k / width) := by
  have hcols : ((x + width) - x).toNat = width := by omega
  have hrows : ((y + rows) - y).toNat = rows := by omega
  have hbit : ∀ i r j : Nat, r < 8 →
      vbuf.bitAt (x + j) (y + i) (0 + r) = vbuf.pixel (x.toNat + j) (y.toNat * 8 + (i * 8 + r)) := by
    intro i r j hr
    rw [VBuf.bitAt]
    congr 1 <;> omega
  calc rectBits vbuf x (x + width) y (y + rows)
      = (List.range rows).flatMap fun i => (List.range 8).flatMap fun r =>
          (List.range width).flatMap fun j =>
            [vbuf.pixel (x.toNat + j) (y.toNat * 8 + (i * 8 + r))] := by
        simp only [rectBits, intRange, hcols, hrows, List.flatMap_map, List.map_map]
        refine List.flatMap_congr fun i _ => List.flatMap_congr fun r hr => ?_
        rw [List.map_eq_flatMap]
        refine List.flatMap_congr fun j _ => ?_
        have hr8 : r < 8 := by simpa using hr
        simp only [Function.comp_apply, hbit i r j hr8]
    _ = (List.range (rows * 8)).flatMap fun k => (List.range width).flatMap fun j =>
          [vbuf.pixel (x.toNat + j) (y.toNat * 8 + (k / 8 * 8 + k % 8))] :=
        flatMap_range_flatMap rows 8 fun i r => (List.range width).flatMap fun j =>
          [vbuf.pixel (x.toNat + j) (y.toNat * 8 + (i * 8 + r))]
    _ = (List.range (rows * 8 * width)).map fun k =>
          vbuf.pixel (x.toNat + k % width) (y.toNat * 8 + k / width) := by
        rw [flatMap_range_flatMap (rows * 8) width fun k j =>
          [vbuf.pixel (x.toNat + j) (y.toNat * 8 + (k / 8 * 8 + k % 8))], List.map_eq_flatMap]
        refine List.flatMap_congr fun k _ => ?_
        rw [Nat.div_add_mod']

/-- Three nested loops whose body does with every pixel what `put` does with its bit. -/
theorem foldl_rectBits {σ τ : Type} (vbuf : VBuf) {put : τ → Bool → τ} {body : σ → Int → Int → Int → σ}
    (g : σ → τ) (hbody : ∀ s x y rem, put (g s) (vbuf.bitAt x y rem) = g (body s x y rem))
    (x xEnd yStartBytes yEndBytes : Int) (s : σ) :
    (rectBits vbuf x xEnd yStartBytes yEndBytes).foldl put (g s)
      = g ((intRange yStartBytes yEndBytes).foldl (fun s y => (intRange 0 8).foldl (fun s rem =>
          (intRange x xEnd).foldl (fun s x => body s x y rem) s) s) s) := by
  simp only [rectBits, List.foldl_map, List.foldl_flatMap]
  -- one level at a time: a loop commutes with `g` if its body does
  refine List.foldl_hom g fun s y => ?_
  refine List.foldl_hom g fun s rem => ?_
  refine List.foldl_hom g fun s x => ?_
  exact hbody s x y rem

theorem length_rectBits (vbuf : VBuf) (x xEnd yStartBytes yEndBytes : Int) :
    (rectBits vbuf x xEnd yStartBytes yEndBytes).length
      = (xEnd - x).toNat * 8 * (yEndBytes - yStartBytes).toNat := by
  have hbits : (8 - 0 : Int).toNat = 8 := rfl
  simp only [rectBits, intRange, List.length_flatMap, List.length_map, List.length_range,
    List.map_const', List.sum_replicate, smul_eq_mul, hbits]
  ring

/-- The words the loops put into the buffer. -/
def BBox.words (vbuf : VBuf) (bbox : BBox) : List (BitVec 16) :=
  (rectBits vbuf bbox.x bbox.xEnd (bbox.y.tdiv 8) (bbox.yEnd.tdiv 8)).map pixelWord

/-- The pixels the loops visit: all columns of the window, in whole bytes of eight rows. -/
def BBox.visited (bbox : BBox) : Nat :=
  (bbox.xEnd - bbox.x).toNat * 8 * (bbox.yEnd.tdiv 8 - bbox.y.tdiv 8).toNat

theorem BBox.length_words (vbuf : VBuf) (bbox : BBox) : (bbox.words vbuf).length = bbox.visited := by
  rw [BBox.words, List.length_map, length_rectBits, BBox.visited]

/-- The log as the pair the chunk lemmas speak about. -/
def BusLog.pair (log : BusLog) : List BusWrite × TempBuf := (log.writes, log.buf)

/-- A block is logged. -/
def logBlock (writes : List BusWrite) (words : List (BitVec 16)) : List BusWrite :=
  writes ++ [wordsWrite words]

theorem pushPixel_pair (vbuf : VBuf) (log : BusLog) (x y rem : Int) :
    (pushPixel vbuf log x y rem).pair
      = ChunkBuf.put logBlock log.pair (pixelWord (vbuf.bitAt x y rem)) := by
  unfold pushPixel
  exact apply_ite BusLog.pair _ _ _

theorem rectLoop_pair (vbuf : VBuf) (bbox : BBox) (log : BusLog) :
    (rectLoop vbuf bbox log).pair = (bbox.words vbuf).foldl (ChunkBuf.put logBlock) log.pair := by
  rw [BBox.words, List.foldl_map]
  exact (foldl_rectBits vbuf BusLog.pair (fun log x y rem => (pushPixel_pair vbuf log x y rem).symm)
    bbox.x bbox.xEnd (bbox.y.tdiv 8) (bbox.yEnd.tdiv 8) log).symm

theorem foldl_logBlock (writes : List BusWrite) (chunks : List (List (BitVec 16))) :
    chunks.foldl logBlock writes = writes ++ chunks.map wordsWrite := by
  rw [List.map_eq_flatMap]
  exact List.foldl_append_eq_append

/-- The loops send a block for every 64 pixels and keep the rest. -/
theorem rectLoop_chunks (vbuf : VBuf) (bbox : BBox) {buf : TempBuf} (hbuf : buf.size = 0) :
    ∃ (chunks : List (List (BitVec 16))) (rest : List (BitVec 16)),
      bbox.words vbuf = chunks.flatten ++ rest ∧ (∀ c ∈ chunks, c.length = 64) ∧
      chunks.length = bbox.visited / 64 ∧
      (rectLoop vbuf bbox ⟨windowWrites bbox, buf⟩).writes
        = windowWrites bbox ++ chunks.map wordsWrite ∧
      (rectLoop vbuf bbox ⟨windowWrites bbox, buf⟩).buf.size = bbox.visited % 64 := by
  have hloop := rectLoop_pair vbuf bbox ⟨windowWrites bbox, buf⟩
  obtain ⟨chunks, rest, hsplit, hlen, hcount, hsent, hsize⟩ := ChunkBuf.putAll_chunks logBlock
    (by norm_num : 0 < 64) (bbox.words vbuf) hbuf (windowWrites bbox)
  rw [BBox.length_words] at hcount hsize
  refine ⟨chunks, rest, hsplit, hlen, hcount, ?_, ?_⟩
  · rw [← foldl_logBlock, ← hsent]
    exact congrArg Prod.fst hloop
  · rw [← hsize]
    exact congrArg (fun r => r.2.size) hloop

theorem rectLog_eq (vbuf : VBuf) (bbox : BBox) (buf : TempBuf) :
    rectLog vbuf bbox buf
      = let log := rectLoop vbuf bbox ⟨windowWrites bbox, buf⟩
        dispWriteCmdb (if log.buf.size ≠ 0 then sendBuf log else log) 0x00 :=
  rfl

/-! ## One rectangle -/

/-- **Pixels that come to whole blocks** are all sent, in order, and leave the buffer empty. -/
theorem rectLog_of_dvd (vbuf : VBuf) {bbox : BBox} (hdvd : 64 ∣ bbox.visited) {buf : TempBuf}
    (hbuf : buf.size = 0) :
    (rectLog vbuf bbox buf).buf.size = 0 ∧ ∀ panel : Panel,
      (rectLog vbuf bbox buf).writes.foldl Panel.receive panel
        = ((bbox.words vbuf).foldl writeWord ((windowWrites bbox).foldl Panel.receive panel)).command
            0x00 := by
  obtain ⟨chunks, rest, hsplit, hlen, hcount, hwrites, hsize⟩ := rectLoop_chunks vbuf bbox hbuf
  rw [← BBox.length_words vbuf] at hcount hdvd
  have hwhole : bbox.words vbuf = chunks.flatten := eq_flatten_of_dvd hsplit hlen hcount hdvd
  rw [← BBox.length_words vbuf, Nat.mod_eq_zero_of_dvd hdvd] at hsize
  have hlog : rectLog vbuf bbox buf
      = dispWriteCmdb (rectLoop vbuf bbox ⟨windowWrites bbox, buf⟩) 0x00 := by
    rw [rectLog_eq]
    simp only [hsize, ne_eq, not_true, if_false]
  rw [hlog]
  refine ⟨hsize, fun panel => ?_⟩
  rw [dispWriteCmdb, hwrites, List.foldl_append, List.foldl_append, foldl_receive_wordsWrite, hwhole]
  rfl

/-- The clipped box, counted in cells. -/
theorem BBox.Aligned.cells {bbox : BBox} (h : bbox.Aligned) :
    ∃ (y : Int) (cols rows : Nat), 0 ≤ y ∧ bbox.y = y * 8 ∧ bbox.xEnd = bbox.x + (cols * 8 : Nat)
      ∧ bbox.yEnd = y * 8 + (rows * 8 : Nat) ∧ bbox.y.tdiv 8 = y ∧ bbox.yEnd.tdiv 8 = y + rows := by
  obtain ⟨hxd, ⟨y, hyBytes⟩, hsxd, hsyd, hx, hy, hsx, hsy⟩ := h
  simp only [gridStep, Nat.cast_ofNat] at hxd hyBytes hsxd hsyd
  have hxEnd : bbox.xEnd = min (bbox.x + bbox.sizex) 240 := rfl
  have hyEnd : bbox.yEnd = min (bbox.y + bbox.sizey) 240 := rfl
  refine ⟨y, ((bbox.xEnd - bbox.x) / 8).toNat, ((bbox.yEnd - bbox.y) / 8).toNat, by omega, by omega,
    by omega, by omega, ?_, ?_⟩
  · rw [Int.tdiv_eq_ediv_of_nonneg hy.1]
    omega
  · rw [Int.tdiv_eq_ediv_of_nonneg (by omega)]
    omega

/-- **`update_rect_stm32` on an aligned box** sends exactly the pixels of the box and leaves the
    transfer buffer empty. -/
theorem updateRectStm32_spec (vbuf : VBuf) {bbox : BBox} (hbox : bbox.Aligned) (disp : Stm32Display)
    (hbuf : disp.buf.size = 0) :
    (updateRectStm32 vbuf bbox disp).buf.size = 0 ∧
      ∀ p q, (updateRectStm32 vbuf bbox disp).panel.pixel p q
        = if bbox.Covers p q then pixelWord (vbuf.pixel p q) else disp.panel.pixel p q := by
  have hvisible := hbox.visible
  obtain ⟨y, cols, rows, hy, hy8, hxEnd, hyEnd, hystart, hyend⟩ := hbox.cells
  have hwidth : bbox.window.width = cols * 8 := by
    rw [hvisible.width]
    omega
  have hheight : bbox.window.height = rows * 8 := by
    rw [hvisible.height]
    omega
  have hdvd : 64 ∣ bbox.visited := by
    refine ⟨rows * cols, ?_⟩
    rw [BBox.visited, hystart, hyend, hxEnd]
    have hcols : (bbox.x + (cols * 8 : Nat) - bbox.x).toNat = cols * 8 := by omega
    have hrows : (y + (rows : Int) - y).toNat = rows := by omega
    rw [hcols, hrows]
    ring
  obtain ⟨hsize, hpanel⟩ := rectLog_of_dvd vbuf hdvd hbuf
  refine ⟨hsize, fun p q => ?_⟩
  -- the words are the pixels of the window, row by row
  have hwords : bbox.words vbuf = (List.range (bbox.window.width * bbox.window.height)).map fun k =>
      pixelWord (vbuf.pixel (bbox.window.xs + k % bbox.window.width)
        (bbox.window.ys + k / bbox.window.width)) := by
    have hbits := rectBits_eq vbuf hvisible.x_mem.1 hy (cols * 8) rows
    have hys : bbox.window.ys = y.toNat * 8 := by
      show bbox.y.toNat = y.toNat * 8
      omega
    rw [BBox.words, hystart, hyend, hxEnd, hbits, List.map_map, hwidth, hheight,
      Nat.mul_comm (rows * 8), hys]
    rfl
  have hmem : bbox.window.Mem p q ↔ bbox.Covers p q := by
    rw [hvisible.mem_window, BBox.xEnd, BBox.yEnd, BBox.Covers]
    simp only [dispCols, dispRows]
    omega
  rw [updateRectStm32, hpanel, hvisible.openWindow, BBox.words, foldl_writeWord _ rfl rfl, ← BBox.words,
    hwords]
  simp only [← hmem]
  exact Canvas.fill_whole hvisible.nonEmpty (fun p q => pixelWord (vbuf.pixel p q)) ⟨by simp, by simp⟩ p q

/-! ## A whole redraw -/

theorem drawLoop_nil (cfg : Config) {vbuf : VBuf} (screen : Screen) (h : vbuf.updStack.arr = []) :
    drawLoop cfg vbuf screen = (vbuf, screen) := by
  rw [drawLoop]
  split
  · rfl
  · rename_i hcons
    rw [h] at hcons
    exact absurd hcons (by simp)

theorem drawLoop_cons (cfg : Config) {vbuf : VBuf} (screen : Screen) {bbox : BBox} {rest : List BBox}
    (h : vbuf.updStack.arr = bbox :: rest) :
    drawLoop cfg vbuf screen
      = drawLoop cfg { vbuf with updStack := (bboxStackPop vbuf.updStack).1 }
          (displayUpdateRect cfg { vbuf with updStack := (bboxStackPop vbuf.updStack).1 } bbox
            screen) := by
  rw [drawLoop]
  split
  · rename_i hnil
    rw [h] at hnil
    exact absurd hnil (by simp)
  · rename_i hcons
    rw [h] at hcons
    obtain ⟨rfl, -⟩ := List.cons.inj hcons
    rfl

/-- `draw` reads the frame buffer and does not write it, in either build. -/
theorem draw_buf (cfg : Config) (vbuf : VBuf) (screen : Screen) :
    (draw cfg vbuf screen).1.buf = vbuf.buf := by
  have hloop : (drawLoop cfg vbuf screen).1.buf = vbuf.buf := by
    induction vbuf, screen using drawLoop.induct cfg with
    | case1 vbuf screen hnil =>
        rw [drawLoop_nil cfg screen hnil]
    | case2 vbuf screen bbox rest hcons vbuf' ih =>
        rw [drawLoop_cons cfg screen hcons]
        exact ih
  unfold draw
  split
  · rfl
  · exact hloop

/-- `draw` without the flag: the boxes on the stack, and nothing else, are brought up to date. -/
structure PartialRedraw (vbuf : VBuf) (screen : Screen) (r : VBuf × Screen) : Prop where
  frame : r.1.buf = vbuf.buf
  flag : r.1.clearFlag = vbuf.clearFlag
  stack : r.1.updStack.arr = []
  transfer : r.2.stm32.buf.size = 0
  inside : ∀ p q, (∃ box ∈ vbuf.updStack.arr, box.Covers p q) →
    r.2.stm32.panel.pixel p q = if vbuf.pixel p q then 0xFFFF else 0x0000
  outside : ∀ p q, (¬∃ box ∈ vbuf.updStack.arr, box.Covers p q) →
    r.2.stm32.panel.pixel p q = screen.stm32.panel.pixel p q

/-- `draw` with the flag: the whole screen is brought up to date, the stack is left for later. -/
structure FullRedraw (vbuf : VBuf) (r : VBuf × Screen) : Prop where
  frame : r.1.buf = vbuf.buf
  flag : r.1.clearFlag = false
  stack : r.1.updStack = vbuf.updStack
  transfer : r.2.stm32.buf.size = 0
  panel : ∀ p q, p < 240 → q < 240 →
    r.2.stm32.panel.pixel p q = if vbuf.pixel p q then 0xFFFF else 0x0000

theorem drawLoop_partialRedraw {cfg : Config} (hcfg : cfg.sitl = false) (vbuf : VBuf) (screen : Screen)
    (hboxes : ∀ box ∈ vbuf.updStack.arr, box.Aligned) (hbuf : screen.stm32.buf.size = 0) :
    PartialRedraw vbuf screen (drawLoop cfg vbuf screen) := by
  induction vbuf, screen using drawLoop.induct cfg with
  | case1 vbuf screen hnil =>
      rw [drawLoop_nil cfg screen hnil]
      exact ⟨rfl, rfl, hnil, hbuf, fun p q hin => by simp [hnil] at hin, fun p q _ => rfl⟩
  | case2 vbuf screen bbox rest hcons vbuf' ih =>
      have hstack : vbuf'.updStack.arr = rest := by
        show (bboxStackPop vbuf.updStack).1.arr = rest
        rw [bboxStackPop_arr, hcons, List.tail_cons]
      have hrect : displayUpdateRect cfg vbuf' bbox screen
          = { screen with stm32 := updateRectStm32 vbuf' bbox screen.stm32 } := by
        simp [displayUpdateRect, hcfg]
      obtain ⟨hsize, hpixel⟩ := updateRectStm32_spec vbuf' (hboxes bbox (by simp [hcons]))
        screen.stm32 hbuf
      obtain ⟨hframe, hflag, hempty, htransfer, hinside, houtside⟩ :=
        ih (fun box hbox => hboxes box (by rw [hcons]; rw [hstack] at hbox; exact .tail _ hbox))
          (by rw [hrect]; exact hsize)
      rw [drawLoop_cons cfg screen hcons]
      rw [hstack] at hinside houtside
      refine ⟨hframe, hflag, hempty, htransfer, fun p q hin => ?_, fun p q hout => ?_⟩
      · -- a later box that covers the pixel sends it again
        by_cases hlater : ∃ box ∈ rest, box.Covers p q
        · exact hinside p q hlater
        · have hthis : bbox.Covers p q := by
            obtain ⟨box, hbox, hcovers⟩ := hin
            rw [hcons, List.mem_cons] at hbox
            rcases hbox with rfl | hbox
            · exact hcovers
            · exact absurd ⟨box, hbox, hcovers⟩ hlater
          rw [houtside p q hlater, hrect]
          simp only [hpixel, if_pos hthis]
          rfl
      · have hlater : ¬∃ box ∈ rest, box.Covers p q := by
          intro hsome
          obtain ⟨box, hbox, hcovers⟩ := hsome
          exact hout ⟨box, by rw [hcons]; exact .tail _ hbox, hcovers⟩
        have hthis : ¬bbox.Covers p q := fun hcovers => hout ⟨bbox, by simp [hcons], hcovers⟩
        rw [houtside p q hlater, hrect]
        simp only [hpixel, if_neg hthis]

theorem draw_partialRedraw {cfg : Config} (hcfg : cfg.sitl = false) {vbuf : VBuf} {screen : Screen}
    (hboxes : ∀ box ∈ vbuf.updStack.arr, box.Aligned) (hbuf : screen.stm32.buf.size = 0)
    (hflag : vbuf.clearFlag = false) : PartialRedraw vbuf screen (draw cfg vbuf screen) := by
  rw [draw, if_neg (by simp [hflag])]
  exact drawLoop_partialRedraw hcfg vbuf screen hboxes hbuf

theorem fullScreen_aligned : (BBox.mk 0 0 dispCols (dispRows * 8)).Aligned := by
  constructor <;> simp

theorem draw_fullRedraw {cfg : Config} (hcfg : cfg.sitl = false) {vbuf : VBuf} {screen : Screen}
    (hbuf : screen.stm32.buf.size = 0) (hflag : vbuf.clearFlag = true) :
    FullRedraw vbuf (draw cfg vbuf screen) := by
  obtain ⟨hsize, hpixel⟩ := updateRectStm32_spec vbuf fullScreen_aligned screen.stm32 hbuf
  have hdraw : draw cfg vbuf screen
      = ({ vbuf with clearFlag := false },
        { screen with stm32 := displayUpdateStm32 vbuf screen.stm32 }) := by
    simp [draw, hflag, displayUpdate, hcfg]
  rw [hdraw]
  refine ⟨rfl, rfl, rfl, hsize, fun p q hp hq => ?_⟩
  have hcovers : (BBox.mk 0 0 dispCols (dispRows * 8)).Covers p q := by
    simp only [BBox.Covers, dispCols, dispRows]
    omega
  exact (hpixel p q).trans (if_pos hcovers)

/-- **Partial redraw refines full redraw.** With aligned boxes on the stack and an empty transfer
    buffer, `draw` brings the union of the boxes up to date and touches nothing else, or, if the flag
    is set, brings the whole panel up to date and touches only the flag. -/
theorem draw_refines (cfg : Config) (hcfg : cfg.sitl = false) (vbuf : VBuf) (screen : Screen)
    (hboxes : ∀ box ∈ vbuf.updStack.arr, box.Aligned) (hbuf : screen.stm32.buf.size = 0) :
    (vbuf.clearFlag = false → PartialRedraw vbuf screen (draw cfg vbuf screen))
      ∧ (vbuf.clearFlag = true → FullRedraw vbuf (draw cfg vbuf screen)) :=
  ⟨draw_partialRedraw hcfg hboxes hbuf, draw_fullRedraw hcfg hbuf⟩

/-- A dark buffer with a request for two overlapping boxes, one of them past the screen's edge. -/
def twoBoxes : VBuf :=
  ⟨Vector.replicate 240 (Vector.replicate 30 0), ⟨[⟨0, 0, 40, 120⟩, ⟨16, 8, 1920, 56⟩], by decide⟩, false⟩

/-- A panel that shows the same grey everywhere. -/
def greyScreen : Screen where
  stm32 := ⟨⟨⟨fun _ _ => 0x8410, 0, 0⟩, ⟨0, 239, 0, 239⟩, 0, [], none⟩, ⟨Vector.replicate 64 0, 0⟩⟩
  window := fun _ _ => false

theorem draw_refines_twoBoxes :
    PartialRedraw twoBoxes greyScreen (draw ⟨false, true⟩ twoBoxes greyScreen)
      ∧ FullRedraw (vbufSetFlag twoBoxes) (draw ⟨false, true⟩ (vbufSetFlag twoBoxes) greyScreen) := by
  have hboxes : ∀ box ∈ twoBoxes.updStack.arr, box.Aligned := by
    intro box hbox
    simp only [twoBoxes, List.mem_cons, List.not_mem_nil, or_false] at hbox
    rcases hbox with rfl | rfl <;> constructor <;> simp
  exact ⟨(draw_refines ⟨false, true⟩ rfl twoBoxes greyScreen hboxes rfl).1 rfl,
    (draw_refines ⟨false, true⟩ rfl (vbufSetFlag twoBoxes) greyScreen hboxes rfl).2 rfl⟩

end Katetris
