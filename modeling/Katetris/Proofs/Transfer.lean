import Katetris.Proofs.Redraw

set_option autoImplicit false

/-! # What a redraw sends over the bus

`update_rect_stm32` seen from the bus: the commands and data blocks of `rectLog`, in order. The window is
opened in pixels, the loops run over whole bytes of eight rows, and every block has 64 words, the last one
too, however few of them are new. So the words that follow `RAMWR` are as many as the window has pixels
only for some boxes; which ones is `sendsWindow_iff`. -/

namespace Katetris

open Lib

/-! ## The blocks -/

/-- **All blocks have 64 words**, the last one too: what is left over goes out in a block of its own. -/
theorem rectLog_writes (vbuf : VBuf) (bbox : BBox) {buf : TempBuf} (hbuf : buf.size = 0) :
    ∃ chunks : List (List (BitVec 16)), (∀ c ∈ chunks, c.length = 64) ∧
      chunks.length = (bbox.visited + 63) / 64 ∧
      (rectLog vbuf bbox buf).writes = windowWrites bbox ++ (chunks.map wordsWrite ++ [.cmd 0x00]) := by
  obtain ⟨chunks, -, -, hlen, hcount, hwrites, hsize⟩ := rectLoop_chunks vbuf bbox hbuf
  rw [rectLog_eq]
  by_cases hrest : bbox.visited % 64 = 0
  · refine ⟨chunks, hlen, by omega, ?_⟩
    simp only [dispWriteCmdb, hsize, hrest, ne_eq, not_true, if_false, hwrites, List.append_assoc]
  · refine ⟨chunks ++ [(rectLoop vbuf bbox ⟨windowWrites bbox, buf⟩).buf.buf.toList], ?_, ?_, ?_⟩
    · intro c hc
      rcases List.mem_append.1 hc with hc | hc
      · exact hlen c hc
      · rw [List.mem_singleton.1 hc, Vector.length_toList]
    · rw [List.length_append, List.length_singleton]
      omega
    · simp only [dispWriteCmdb, dispWriteData, sendBuf, hsize, hrest, ne_eq, not_false_eq_true, if_true,
        hwrites, List.append_assoc, List.map_append, List.map_cons, List.map_nil]
      rfl

/-! ## Words after `RAMWR` -/

/-- The data bytes sent under command `0x2C`; the first argument is the command in force. -/
def ramwrBytes : BitVec 8 → List BusWrite → Nat
  | _, [] => 0
  | _, .cmd b :: rest => ramwrBytes b rest
  | cmd, .data bs :: rest => (if cmd = 0x2C then bs.length else 0) + ramwrBytes cmd rest

/-- The 16-bit words sent after `RAMWR`. -/
def ramwrWords (writes : List BusWrite) : Nat := ramwrBytes 0x00 writes / 2

theorem length_flatMap_wordBytes (words : List (BitVec 16)) :
    (words.flatMap wordBytes).length = 2 * words.length := by
  induction words with
  | nil => rfl
  | cons v words ih =>
      rw [List.flatMap_cons, List.length_append, ih, List.length_cons]
      simp only [wordBytes, List.length_cons, List.length_nil]
      omega

theorem ramwrBytes_blocks {chunks : List (List (BitVec 16))} (h : ∀ c ∈ chunks, c.length = 64) :
    ramwrBytes 0x2C (chunks.map wordsWrite ++ [.cmd 0x00]) = 128 * chunks.length := by
  induction chunks with
  | nil => rfl
  | cons c chunks ih =>
      have hlen := h c (by simp)
      rw [List.map_cons, List.cons_append, wordsWrite, ramwrBytes, if_pos rfl, length_flatMap_wordBytes,
        hlen, ih (fun c hc => h c (by simp [hc])), List.length_cons]
      omega

/-- The words a transfer sends: those of the pixels it visits, rounded up to whole blocks. -/
theorem ramwrWords_rectLog (vbuf : VBuf) (bbox : BBox) {buf : TempBuf} (hbuf : buf.size = 0) :
    ramwrWords (rectLog vbuf bbox buf).writes = 64 * ((bbox.visited + 63) / 64) := by
  obtain ⟨chunks, hlen, hcount, hwrites⟩ := rectLog_writes vbuf bbox hbuf
  have hopen : ∀ rest, ramwrBytes 0x00 (windowWrites bbox ++ rest) = ramwrBytes 0x2C rest := by
    intro rest
    simp [windowWrites, ramwrBytes]
  rw [ramwrWords, hwrites, hopen, ramwrBytes_blocks hlen, hcount]
  omega

/-! ## Where the words land -/

/-- The cursor positions at which data bytes complete a word. -/
def Panel.landed (panel : Panel) : List (BitVec 8) → List (Nat × Nat)
  | [] => []
  | b :: bs =>
      if panel.cmd = 0x2C ∧ panel.high.isSome then
        (panel.canvas.px, panel.canvas.py) :: (panel.byte b).landed bs
      else (panel.byte b).landed bs

/-- The positions the panel writes while it receives the writes, in order. -/
def Panel.landings (panel : Panel) : List BusWrite → List (Nat × Nat)
  | [] => []
  | .cmd b :: rest => (panel.receive (.cmd b)).landings rest
  | .data bs :: rest => panel.landed bs ++ (panel.receive (.data bs)).landings rest

/-- The panel is between two words of a pixel stream, with this window and its cursor at `pq`. -/
structure Panel.Streams (panel : Panel) (w : Window) (pq : Nat × Nat) : Prop where
  cmd : panel.cmd = 0x2C
  high : panel.high = none
  window : panel.window = w
  cursor : (panel.canvas.px, panel.canvas.py) = pq

theorem Panel.Streams.word {panel : Panel} {w : Window} {pq : Nat × Nat} (h : panel.Streams w pq)
    (v : BitVec 16) : (writeWord panel v).Streams w (w.next pq) ∧ panel.landed (wordBytes v) = [pq] := by
  refine ⟨?_, ?_⟩
  · rw [writeWord_eq h.cmd h.high, ← h.cursor, ← h.window]
    exact ⟨h.cmd, h.high, rfl, rfl⟩
  · -- the first byte is kept, the second one completes the word
    obtain ⟨canvas, window, cmd, params, high⟩ := panel
    obtain ⟨hcmd, hhigh, hwindow, hcursor⟩ := h
    simp only at hcmd hhigh hwindow hcursor
    subst hcmd hhigh hwindow hcursor
    rfl

theorem Panel.landed_append (panel : Panel) (bs bs' : List (BitVec 8)) :
    panel.landed (bs ++ bs') = panel.landed bs ++ (panel.bytes bs).landed bs' := by
  induction bs generalizing panel with
  | nil => rfl
  | cons b bs ih =>
      rw [List.cons_append, Panel.landed, Panel.landed, ih]
      split_ifs <;> rfl

/-- **Every word of a stream lands at the cursor**, which then moves on. -/
theorem Panel.Streams.words {panel : Panel} {w : Window} {pq : Nat × Nat} (h : panel.Streams w pq)
    (words : List (BitVec 16)) :
    (panel.bytes (words.flatMap wordBytes)).Streams w (w.next^[words.length] pq)
      ∧ panel.landed (words.flatMap wordBytes) = List.iterate w.next pq words.length := by
  induction words generalizing panel pq with
  | nil => exact ⟨h, rfl⟩
  | cons v words ih =>
      obtain ⟨hstream, hland⟩ := h.word v
      obtain ⟨hstream', hland'⟩ := ih hstream
      have hsplit : panel.bytes ((v :: words).flatMap wordBytes)
          = (writeWord panel v).bytes (words.flatMap wordBytes) := by
        rw [List.flatMap_cons, Panel.bytes, List.foldl_append]
        rfl
      rw [hsplit, List.flatMap_cons, Panel.landed_append, hland]
      refine ⟨hstream', ?_⟩
      rw [List.length_cons, List.iterate, ← hland']
      rfl

theorem Panel.Streams.blocks {panel : Panel} {w : Window} {pq : Nat × Nat} (h : panel.Streams w pq)
    (chunks : List (List (BitVec 16))) :
    panel.landings (chunks.map wordsWrite ++ [.cmd 0x00])
        = List.iterate w.next pq chunks.flatten.length
      ∧ ((chunks.map wordsWrite ++ [BusWrite.cmd 0x00]).foldl Panel.receive panel).window = w := by
  induction chunks generalizing panel pq with
  | nil => exact ⟨rfl, h.window⟩
  | cons c chunks ih =>
      obtain ⟨hstream, hland⟩ := h.words c
      obtain ⟨hlandings, hwindow⟩ := ih hstream
      refine ⟨?_, hwindow⟩
      rw [List.map_cons, List.cons_append, wordsWrite, Panel.landings, hland, List.flatten_cons,
        List.length_append, List.iterate_add, ← hlandings]
      rfl

theorem BBox.Visible.streams {bbox : BBox} (h : bbox.Visible) (panel : Panel) :
    ((windowWrites bbox).foldl Panel.receive panel).Streams bbox.window (bbox.window.place 0) := by
  rw [h.openWindow]
  refine ⟨rfl, rfl, rfl, ?_⟩
  simp only [Window.place, Nat.zero_mod, Nat.zero_div, Nat.add_zero]

theorem Panel.byte_cmd (panel : Panel) (b : BitVec 8) : (panel.byte b).cmd = panel.cmd := by
  unfold Panel.byte
  split_ifs
  · split <;> rfl
  · split <;> rfl
  · split <;> rfl
  · rfl

/-- Only `RAMWR` writes pixels. -/
theorem Panel.landed_of_cmd_ne {panel : Panel} (h : panel.cmd ≠ 0x2C) (bs : List (BitVec 8)) :
    panel.landed bs = [] := by
  induction bs generalizing panel with
  | nil => rfl
  | cons b bs ih => rw [Panel.landed, if_neg (fun hcmd => h hcmd.1), ih (by rwa [Panel.byte_cmd])]

theorem landings_windowWrites (panel : Panel) (bbox : BBox) (rest : List BusWrite) :
    panel.landings (windowWrites bbox ++ rest)
      = ((windowWrites bbox).foldl Panel.receive panel).landings rest := by
  have hcaddr : ∀ panel : Panel, (panel.command 0x2A).cmd ≠ 0x2C := by
    intro panel
    simp [Panel.command]
  have hraddr : ∀ panel : Panel, (panel.command 0x2B).cmd ≠ 0x2C := by
    intro panel
    simp [Panel.command]
  simp only [windowWrites, List.cons_append, List.nil_append, Panel.landings, Panel.receive]
  rw [Panel.landed_of_cmd_ne (hcaddr _), Panel.landed_of_cmd_ne (hraddr _), List.nil_append,
    List.nil_append]
  rfl

/-! ## Boxes that are sent exactly -/

/-- The words sent after `RAMWR` are as many as the pixels of the window that was opened, so each of
    them is written once: the cursor neither comes back to a written pixel nor stops short. -/
structure SendsWindow (vbuf : VBuf) (bbox : BBox) (disp : Stm32Display) : Prop where
  words : (ramwrWords (rectLog vbuf bbox disp.buf).writes : Int)
    = (bbox.xEnd - bbox.x) * (bbox.yEnd - bbox.y)
  window : ramwrWords (rectLog vbuf bbox disp.buf).writes
    = (updateRectStm32 vbuf bbox disp).panel.window.width
      * (updateRectStm32 vbuf bbox disp).panel.window.height
  once : (disp.panel.landings (rectLog vbuf bbox disp.buf).writes).Nodup
  whole : ∀ p q : Nat, (p, q) ∈ disp.panel.landings (rectLog vbuf bbox disp.buf).writes ↔
    (bbox.x ≤ p ∧ (p : Int) < bbox.xEnd) ∧ bbox.y ≤ q ∧ (q : Int) < bbox.yEnd

/-- A product that is a multiple of 64 has a factor that is a multiple of 8, unless the other factor
    makes up for the remainder. -/
theorem eight_dvd_of_small_remainder {w h : Nat} (hdvd : 64 ∣ w * h) (hw : 0 < w)
    (hsmall : w * (h % 8) < 64) : 8 ∣ h := by
  obtain ⟨d, g, hd, hg, hprod⟩ := exists_dvd_and_dvd_of_dvd_mul hdvd
  have hpow : g ∣ 2 ^ 6 := ⟨d, by rw [Nat.mul_comm]; exact hprod⟩
  obtain ⟨k, -, rfl⟩ := (Nat.dvd_prime_pow Nat.prime_two).1 hpow
  rcases le_total 3 k with hk | hk
  · exact (pow_dvd_pow 2 hk).trans hg
  · have hmod : 2 ^ k ∣ h % 8 := (Nat.dvd_mod_iff (pow_dvd_pow 2 hk)).2 hg
    by_contra hnot
    have hle : 2 ^ k ≤ h % 8 := Nat.le_of_dvd (by omega) hmod
    have hbig := Nat.mul_le_mul (Nat.le_of_dvd hw hd) hle
    omega

/-- Whole bytes of rows `y0..y1`, `w` pixels wide, rounded up to whole blocks, come to the pixels of
    these rows exactly when the rows are whole bytes and the pixels whole blocks. Rounding up never
    makes up for the rows that are left out. -/
theorem blocks_eq_area_iff {w y0 y1 : Nat} (hw : 0 < w) (hy : y0 < y1) :
    64 * ((w * 8 * (y1 / 8 - y0 / 8) + 63) / 64) = w * (y1 - y0) ↔
      8 ∣ y1 - y0 ∧ 64 ∣ w * (y1 - y0) := by
  have hbytes : 8 * (y1 / 8 - y0 / 8) + y1 % 8 = y1 - y0 + y0 % 8 := by omega
  set h := y1 - y0
  set b := y1 / 8 - y0 / 8
  have hassoc : w * 8 * b = w * (8 * b) := Nat.mul_assoc w 8 b
  refine ⟨fun heq => ?_, fun hdvd => ?_⟩
  · have hdvd : 64 ∣ w * h := ⟨_, heq.symm⟩
    have hb : 8 * b ≤ h := Nat.le_of_mul_le_mul_left (by omega) hw
    have hrest : w * h = w * (8 * b) + w * (h % 8) := by
      rw [← Nat.mul_add]
      congr 1
      omega
    exact ⟨eight_dvd_of_small_remainder hdvd hw (by omega), hdvd⟩
  · obtain ⟨h8, h64⟩ := hdvd
    have hb : 8 * b = h := by omega
    rw [hassoc, hb]
    omega

/-- The count alone, for a visible box. -/
theorem ramwrWords_eq_iff (vbuf : VBuf) {bbox : BBox} (h : bbox.Visible) {buf : TempBuf}
    (hbuf : buf.size = 0) :
    (ramwrWords (rectLog vbuf bbox buf).writes : Int) = (bbox.xEnd - bbox.x) * (bbox.yEnd - bbox.y) ↔
      (8 : Int) ∣ bbox.yEnd - bbox.y ∧ (64 : Int) ∣ (bbox.xEnd - bbox.x) * (bbox.yEnd - bbox.y) := by
  have hends := h.ends
  have hy := h.y_mem
  obtain ⟨w, hw⟩ := Int.eq_ofNat_of_zero_le (show 0 ≤ bbox.xEnd - bbox.x by omega)
  obtain ⟨y0, hy0⟩ := Int.eq_ofNat_of_zero_le (show 0 ≤ bbox.y by omega)
  obtain ⟨y1, hy1⟩ := Int.eq_ofNat_of_zero_le (show 0 ≤ bbox.yEnd by omega)
  have hheight : bbox.yEnd - bbox.y = ((y1 - y0 : Nat) : Int) := by omega
  have hbytes : (bbox.yEnd.tdiv 8 - bbox.y.tdiv 8).toNat = y1 / 8 - y0 / 8 := by
    rw [Int.tdiv_eq_ediv_of_nonneg (by omega), Int.tdiv_eq_ediv_of_nonneg (by omega)]
    omega
  rw [ramwrWords_rectLog vbuf bbox hbuf, BBox.visited, hbytes, hw, hheight, Int.toNat_natCast]
  exact_mod_cast blocks_eq_area_iff (show 0 < w by omega) (show y0 < y1 by omega)

/-- With the right number of words the cursor visits every pixel of the window once. -/
theorem sendsWindow_of_words {vbuf : VBuf} {bbox : BBox} (h : bbox.Visible) {disp : Stm32Display}
    (hbuf : disp.buf.size = 0)
    (hwords : (ramwrWords (rectLog vbuf bbox disp.buf).writes : Int)
      = (bbox.xEnd - bbox.x) * (bbox.yEnd - bbox.y)) : SendsWindow vbuf bbox disp := by
  obtain ⟨chunks, hlen, hcount, hwrites⟩ := rectLog_writes vbuf bbox hbuf
  have hsent : ramwrWords (rectLog vbuf bbox disp.buf).writes = chunks.flatten.length := by
    rw [ramwrWords_rectLog vbuf bbox hbuf, length_flatten_of_chunks hlen, hcount]
  obtain ⟨hlandings, hwindow⟩ := (h.streams disp.panel).blocks chunks
  have hland : disp.panel.landings (rectLog vbuf bbox disp.buf).writes
      = List.iterate bbox.window.next (bbox.window.place 0) chunks.flatten.length := by
    rw [hwrites, landings_windowWrites, hlandings]
  have hpanel : (updateRectStm32 vbuf bbox disp).panel.window = bbox.window := by
    rw [updateRectStm32, hwrites, List.foldl_append]
    exact hwindow
  have harea : chunks.flatten.length = bbox.window.width * bbox.window.height := by
    have hends := h.ends
    rw [h.width, h.height, ← hsent]
    zify
    rw [hwords, Int.toNat_of_nonneg (by omega), Int.toNat_of_nonneg (by omega)]
  obtain ⟨hnodup, hmem⟩ := Window.visits_whole h.nonEmpty harea
  refine ⟨hwords, ?_, ?_, fun p q => ?_⟩
  · rw [hpanel, hsent, harea]
  · rw [hland]
    exact hnodup
  · rw [hland, hmem, h.mem_window]

/-- **A transfer sends exactly its window for these boxes.** For every buffer and every box with its
    corner on the screen, the words sent after `RAMWR` are the pixels of the window, each once, if and
    only if the clipped box is a multiple of eight rows high and its pixels are a multiple of 64. -/
theorem sendsWindow_iff (vbuf : VBuf) {bbox : BBox} (h : bbox.Visible) (disp : Stm32Display)
    (hbuf : disp.buf.size = 0) :
    SendsWindow vbuf bbox disp ↔
      (8 : Int) ∣ bbox.yEnd - bbox.y ∧ (64 : Int) ∣ (bbox.xEnd - bbox.x) * (bbox.yEnd - bbox.y) := by
  rw [← ramwrWords_eq_iff vbuf h hbuf]
  exact ⟨fun hsends => hsends.words, sendsWindow_of_words h hbuf⟩

/-- Sixteen columns of eight rows, neither of them on the cell raster. -/
theorem sendsWindow_iff_offRaster :
    SendsWindow (vbufClear twoBoxes) ⟨4, 3, 16, 8⟩ greyScreen.stm32 :=
  (sendsWindow_iff _ ⟨by decide, by decide, by decide, by decide⟩ greyScreen.stm32 rfl).2
    (by decide)

/-- One column of eight pixels takes a block of 64 words. -/
theorem oneColumn_wraps : ¬SendsWindow (vbufClear twoBoxes) ⟨0, 0, 1, 8⟩ greyScreen.stm32 := by
  intro hsends
  have hwords := hsends.words
  rw [ramwrWords_rectLog (vbufClear twoBoxes) ⟨0, 0, 1, 8⟩ rfl] at hwords
  exact absurd hwords (by decide)

/-- **The boxes of the game are sent exactly**: a box on the cell raster is, clipped or not. -/
theorem BBox.Aligned.sendsWindow {bbox : BBox} (h : bbox.Aligned) (vbuf : VBuf) {disp : Stm32Display}
    (hbuf : disp.buf.size = 0) : SendsWindow vbuf bbox disp := by
  have hvisible := h.visible
  obtain ⟨hx, hy, hsx, hsy, -, -, -, -⟩ := h
  simp only [gridStep, Nat.cast_ofNat] at hx hy hsx hsy
  have hwidth : (8 : Int) ∣ bbox.xEnd - bbox.x := by
    simp only [BBox.xEnd, dispCols]
    omega
  have hheight : (8 : Int) ∣ bbox.yEnd - bbox.y := by
    simp only [BBox.yEnd, dispRows]
    omega
  refine sendsWindow_of_words hvisible hbuf ((ramwrWords_eq_iff vbuf hvisible hbuf).2 ⟨hheight, ?_⟩)
  exact mul_dvd_mul hwidth hheight

end Katetris
