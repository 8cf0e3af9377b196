import Katetris.Lib.Window
import Katetris.Lib.ChunkBuf
import Katetris.Display

set_option autoImplicit false

/-! # The ST7789 panel and its driver (`impl_stm32.c`)

The panel is outside the repository. What the driver relies on is modelled at the level of the bytes
on the bus: commands `0x2A` and `0x2B` take four bytes each and set the column and row range of the
window, `0x2C` puts the write cursor at the window's start, and the data bytes that follow are
pixels of two bytes, column index fastest, wrapping to the start of the window on overrun. Every
other command is ignored.

The driver never reads from the panel, so `update_rect_stm32` is the list of what it sends (`rectLog`), and
the panel shows what these writes make of it. It collects pixels in a static buffer of 64 words and sends
the whole buffer each time it fills up, and once more at the end if anything is left in it. -/

namespace Katetris

open Lib

/-! ## The panel -/

structure Panel where
  canvas : Canvas (BitVec 16)
  window : Window
  cmd : BitVec 8
  params : List (BitVec 8)
  high : Option (BitVec 8)

/-- Pixel `(p, q)` as it shows on the panel. -/
def Panel.pixel (panel : Panel) (p q : Nat) : BitVec 16 := panel.canvas.ram p q

/-- A command byte: it ends the command before it. -/
def Panel.command (panel : Panel) (b : BitVec 8) : Panel :=
  { panel with
    cmd := b
    params := []
    high := none
    canvas := if b = 0x2C then ⟨panel.canvas.ram, panel.window.xs, panel.window.ys⟩
      else panel.canvas }

/-- A 16-bit address sent high byte first. -/
def address (hi lo : BitVec 8) : Nat := hi.toNat * 256 + lo.toNat

/-- A data byte, read by the command in force. -/
def Panel.byte (panel : Panel) (b : BitVec 8) : Panel :=
  if panel.cmd = 0x2A then
    match panel.params ++ [b] with
    | [s1, s0, e1, e0] =>
        { panel with
          window := { panel.window with xs := address s1 s0, xe := address e1 e0 }
          params := [s1, s0, e1, e0] }
    | params => { panel with params := params }
  else if panel.cmd = 0x2B then
    match panel.params ++ [b] with
    | [s1, s0, e1, e0] =>
        { panel with
          window := { panel.window with ys := address s1 s0, ye := address e1 e0 }
          params := [s1, s0, e1, e0] }
    | params => { panel with params := params }
  else if panel.cmd = 0x2C then
    match panel.high with
    | none => { panel with high := some b }
    | some hi => { panel with high := none, canvas := panel.canvas.write panel.window (hi ++ b) }
  else panel

/-- One transfer on the bus. -/
inductive BusWrite where
  /-- with the data line low: a command -/
  | cmd (b : BitVec 8)
  /-- with the data line high -/
  | data (bs : List (BitVec 8))
  deriving DecidableEq, Repr

/-- Data bytes, one after the other. -/
def Panel.bytes (panel : Panel) (bs : List (BitVec 8)) : Panel := bs.foldl Panel.byte panel

/-- What the panel makes of a transfer. -/
def Panel.receive (panel : Panel) : BusWrite → Panel
  | .cmd b => panel.command b
  | .data bs => panel.bytes bs

/-! ## The transfer buffer -/

/-- `BUFSIZE`. -/
abbrev bufSize : Nat := 64

/-- `temp_buf_t`. -/
abbrev TempBuf := ChunkBuf (BitVec 16) 64

/-- `buf_push`. -/
def bufPush (buf : TempBuf) (v : BitVec 16) : TempBuf := buf.push v

/-- `buf_clear`. -/
def bufClear (buf : TempBuf) : TempBuf := buf.clear

/-- The bytes of one word as they lie in memory: the processor is little-endian. -/
def wordBytes (v : BitVec 16) : List (BitVec 8) := [v.extractLsb' 0 8, v.extractLsb' 8 8]

/-! ## Bus transfers -/

/-- The transfers the driver has made so far, and its static transfer buffer. -/
structure BusLog where
  writes : List BusWrite
  buf : TempBuf

/-- `disp_write_cmdb`. -/
def dispWriteCmdb (log : BusLog) (b : BitVec 8) : BusLog :=
  { log with writes := log.writes ++ [.cmd b] }

/-- `disp_write_data`. -/
def dispWriteData (log : BusLog) (bs : List (BitVec 8)) : BusLog :=
  { log with writes := log.writes ++ [.data bs] }

/-- The four bytes `disp_caddr_set` and `disp_raddr_set` send; an `int` stored in a `uint8_t` keeps
    its low eight bits. -/
def addressBytes (start stop : Int) : List (BitVec 8) :=
  [BitVec.ofInt 8 (start / 256), BitVec.ofInt 8 start,
   BitVec.ofInt 8 (stop / 256), BitVec.ofInt 8 stop]

/-- `disp_caddr_set`. -/
def dispCaddrSet (log : BusLog) (start stop : Int) : BusLog :=
  dispWriteData (dispWriteCmdb log 0x2A) (addressBytes start stop)

/-- `disp_raddr_set`. -/
def dispRaddrSet (log : BusLog) (start stop : Int) : BusLog :=
  dispWriteData (dispWriteCmdb log 0x2B) (addressBytes start stop)

/-- `disp_write_data((uint8_t*)buf.buf, BUFSIZE*2); buf_clear(&buf);`: always all 64 words, whatever
    `size` is. -/
def sendBuf (log : BusLog) : BusLog :=
  { dispWriteData log (log.buf.buf.toList.flatMap wordBytes) with buf := bufClear log.buf }

/-! ## Updating a rectangle -/

/-- The word a pixel is sent as. -/
def pixelWord (lit : Bool) : BitVec 16 := if lit then 0xFFFF else 0x0000

/-- `(vbuf->buf[x][y] >> rem) & 0x01`. -/
def VBuf.bitAt (vbuf : VBuf) (x y rem : Int) : Bool :=
  vbuf.pixel x.toNat (y.toNat * 8 + rem.toNat)

/-- The innermost loop body: one pixel into the buffer, and the buffer out if that filled it. -/
def pushPixel (vbuf : VBuf) (log : BusLog) (x y rem : Int) : BusLog :=
  let log := { log with buf := bufPush log.buf (pixelWord (vbuf.bitAt x y rem)) }
  if log.buf.size = bufSize then sendBuf log else log

/-- `MIN(bbox->x + bbox->sizex, DISP_COLS)`. -/
def BBox.xEnd (bbox : BBox) : Int := min (bbox.x + bbox.sizex) dispCols

/-- `MIN(bbox->y + bbox->sizey, DISP_ROWS*8)`. -/
def BBox.yEnd (bbox : BBox) : Int := min (bbox.y + bbox.sizey) (dispRows * 8)

/-- The three loops of `update_rect_stm32`, from `y_start_bytes` up to `y_end_bytes`. -/
def rectLoop (vbuf : VBuf) (bbox : BBox) (log : BusLog) : BusLog :=
  (intRange (bbox.y.tdiv 8) (bbox.yEnd.tdiv 8)).foldl (fun log y =>
    (intRange 0 8).foldl (fun log rem =>
      (intRange bbox.x bbox.xEnd).foldl (fun log x => pushPixel vbuf log x y rem) log) log) log

/-- `update_rect_stm32`, as what it sends. -/
def rectLog (vbuf : VBuf) (bbox : BBox) (buf : TempBuf) : BusLog :=
  let log := dispCaddrSet ⟨[], buf⟩ bbox.x (bbox.xEnd - 1)
  let log := dispRaddrSet log bbox.y (bbox.yEnd - 1)
  let log := dispWriteCmdb log 0x2C
  let log := rectLoop vbuf bbox log
  let log := if log.buf.size ≠ 0 then sendBuf log else log
  dispWriteCmdb log 0x00

/-- The panel and the static transfer buffer of `update_rect_stm32`. -/
structure Stm32Display where
  panel : Panel
  buf : TempBuf

/-- `update_rect_stm32`, as what becomes of the panel and the buffer. -/
def updateRectStm32 (vbuf : VBuf) (bbox : BBox) (disp : Stm32Display) : Stm32Display where
  panel := (rectLog vbuf bbox disp.buf).writes.foldl Panel.receive disp.panel
  buf := (rectLog vbuf bbox disp.buf).buf

/-- `display_update_stm32`. -/
def displayUpdateStm32 (vbuf : VBuf) (disp : Stm32Display) : Stm32Display :=
  updateRectStm32 vbuf ⟨0, 0, dispCols, dispRows * 8⟩ disp

end Katetris
