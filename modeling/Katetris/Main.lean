import Katetris.Buttons
import Katetris.Text
import Katetris.Panel
import Katetris.Lib.Runs

set_option autoImplicit false

/-! # The game loop (`main.c`)

`main` as a machine that takes one step per stretch of code between two points where something can
be observed: a call of `hw->loop`, a test, a lock, a sleep. What the environment decides is the
step's input (`Env`): the buttons held down, the clock reading, and the words that lie outside the
grid array. The video thread of the STM32 build runs `draw` while the main thread sleeps; that is a
step of its own (`Label.video`), possible in the two sleeps and nowhere else. -/

namespace Katetris

open Lib

/-! ## The window of the SITL build (`impl_sitl.c`) -/

/-- `ZOOM`. -/
abbrev zoom : Nat := 3

/-- The window's pixels, across and down; true is white. -/
abbrev Render := Nat → Nat → Bool

/-- `SDL_RenderClear` in black. -/
def renderClear (_r : Render) : Render := fun _ _ => false

/-- `SDL_RenderFillRect`. -/
def renderFillRect (r : Render) (x y w h : Nat) (color : Bool) : Render := fun X Y =>
  if x ≤ X ∧ X < x + w ∧ y ≤ Y ∧ Y < y + h then color else r X Y

/-- `draw_pixel`. -/
def drawPixel (r : Render) (x y : Nat) (color : Bool) : Render :=
  renderFillRect r (x * zoom) (y * zoom) zoom zoom color

/-- `update_rect_sitl` without the overlay: it repaints the whole window, the box is not read. -/
def updateRectSitl (vbuf : VBuf) (_bbox : BBox) (window : Render) : Render :=
  (List.range dispCols).foldl (fun r x => (List.range dispRows).foldl (fun r y =>
    (List.range 8).foldl (fun r k => drawPixel r (k + 8 * y) x (vbuf.bitAt x y k)) r) r)
    (renderClear window)

/-! ## Drawing to the display -/

/-- What shows of the game: the panel of the STM32 build and the window of the SITL build. -/
structure Screen where
  stm32 : Stm32Display
  window : Render

/-- `hw->display_update_rect`. -/
def displayUpdateRect (cfg : Config) (vbuf : VBuf) (bbox : BBox) (screen : Screen) : Screen :=
  if cfg.sitl then { screen with window := updateRectSitl vbuf bbox screen.window }
  else { screen with stm32 := updateRectStm32 vbuf bbox screen.stm32 }

/-- `hw->display_update`. -/
def displayUpdate (cfg : Config) (vbuf : VBuf) (screen : Screen) : Screen :=
  if cfg.sitl then
    { screen with window := updateRectSitl vbuf ⟨0, 0, dispCols, dispRows * 8⟩ screen.window }
  else { screen with stm32 := displayUpdateStm32 vbuf screen.stm32 }

/-- The loop `while (vbuf->upd_stack.size)` of `draw`. -/
def drawLoop (cfg : Config) (vbuf : VBuf) (screen : Screen) : VBuf × Screen :=
  match _h : vbuf.updStack.arr with
  | [] => (vbuf, screen)
  | bbox :: _ =>
      let vbuf' := { vbuf with updStack := (bboxStackPop vbuf.updStack).1 }
      drawLoop cfg vbuf' (displayUpdateRect cfg vbuf' bbox screen)
termination_by vbuf.updStack.size
decreasing_by
  unfold BBoxStack.size bboxStackPop
  split
  · rename_i hnil
    rw [hnil] at _h
    exact absurd _h (by simp)
  · rename_i hcons
    simp [hcons]

/-- `draw`. -/
def draw (cfg : Config) (vbuf : VBuf) (screen : Screen) : VBuf × Screen :=
  if vbuf.clearFlag then ({ vbuf with clearFlag := false }, displayUpdate cfg vbuf screen)
  else drawLoop cfg vbuf screen

/-! ## The machine -/

/-- Where the main thread stands. -/
inductive Pc where
  /-- about to call `hw->loop` -/
  | loop
  /-- asleep in the 150 ms delay of `loop_stm32` -/
  | loopDelay
  /-- at the floor test -/
  | floorTest
  /-- the buffer is clear, the gravity step comes next -/
  | gravity
  /-- about to call `block_collides` -/
  | collides
  /-- about to call `block_add` (the label `collision`) -/
  | lock
  /-- the piece is respawned, the clearing loop comes next -/
  | clearRows
  /-- about to draw piece, grid and score -/
  | paint
  /-- about to call `draw` (SITL build) -/
  | present
  /-- asleep in the 10 ms delay -/
  | delay
  deriving DecidableEq, Repr

/-- The variables of `main`, the frame buffer and the display. -/
structure Main where
  pc : Pc
  vbuf : VBuf
  grid : Grid
  blk : Block
  bbox : BBox
  score : Int
  tLast : BitVec 32
  screen : Screen

/-- What the environment chooses for one step. -/
structure Env where
  buttons : ButtonStates
  millis : BitVec 32
  oob : Int → BitVec 32

/-- A step of the main thread, or one run of `draw` by the video thread. -/
inductive Label where
  | main (env : Env)
  | video

/-- `t_now - t_last >= 1000`. -/
def gravityFires (s : Main) (env : Env) : Prop := 1000 ≤ (env.millis - s.tLast).toNat

instance (s : Main) (env : Env) : Decidable (gravityFires s env) :=
  inferInstanceAs (Decidable (_ ≤ _))

/-- The floor test, `blk.x+bbox.x == GRID_ROWS-bbox.sizex`. -/
def atFloor (s : Main) : Prop := s.blk.x + s.bbox.x = gridRows - s.bbox.sizex

instance (s : Main) : Decidable (atFloor s) := inferInstanceAs (Decidable (_ = _))

/-- The box pushed for the score; `SCORE_SIZEX` and `SCORE_SIZEY` are `GRID_STEP*CHAR_SIZE` and three
    times that. -/
def scoreBox : BBox := ⟨0, 0, gridStep * charSize, gridStep * charSize * 3⟩

/-- The three drawing passes. The score is narrowed to `uint8_t` at the call. -/
def paintFrame (vbuf : VBuf) (blk : Block) (grid : Grid) (score : Int) : VBuf :=
  textDrawNumber (gridDraw (blockDraw vbuf blk) grid) (BitVec.ofInt 8 score) 0 0

/-- `hw->loop`: read the buttons, move the piece and request a redraw of its strip. The SITL loop
    calls `buttons_do_action` only when a key event arrived; with no button pressed the call changes
    nothing. -/
def hwLoop (cfg : Config) (s : Main) (buttons : ButtonStates) : Main :=
  let r := buttonsDoAction s.blk buttons
  if r.2 then
    { s with
      blk := r.1
      vbuf := updateBlock s.vbuf r.1
      pc := if cfg.sitl then .floorTest else .loopDelay }
  else { s with blk := r.1, pc := .floorTest }

/-- One step of the main thread. -/
def mainStep (cfg : Config) (s : Main) (env : Env) : Main :=
  match s.pc with
  | .loop => hwLoop cfg s env.buttons
  | .loopDelay => { s with pc := .floorTest }
  | .floorTest =>
      if atFloor s then { s with pc := .lock }
      else { s with vbuf := vbufClear s.vbuf, pc := .gravity }
  | .gravity =>
      if gravityFires s env then
        { s with
          tLast := env.millis
          blk := s.blk.down
          vbuf := updateBlock s.vbuf s.blk.down
          pc := .collides }
      else { s with pc := .collides }
  | .collides =>
      if blockCollides env.oob s.blk s.grid then { s with pc := .lock } else { s with pc := .paint }
  | .lock =>
      { s with
        grid := blockAdd s.blk s.grid
        blk := blockGamma
        bbox := getBbox blockGamma.pattern
        pc := .clearRows }
  | .clearRows =>
      let r := clearRows s.grid s.score
      { s with
        grid := r.1
        score := r.2
        vbuf := if cfg.shiftClear then vbufSetFlag s.vbuf else s.vbuf
        pc := .paint }
  | .paint =>
      { s with
        vbuf := (paintFrame s.vbuf s.blk s.grid s.score).push scoreBox
        pc := if cfg.sitl then .present else .delay }
  | .present =>
      let r := draw cfg s.vbuf s.screen
      { s with vbuf := r.1, screen := r.2, pc := .delay }
  | .delay => { s with pc := .loop }

/-- `draw` under the mutex, by the video thread. Only the STM32 build calls it there, and only while
    the main thread sleeps. -/
def videoStep (cfg : Config) (s : Main) : Main :=
  if cfg.sitl = false ∧ (s.pc = .loopDelay ∨ s.pc = .delay) then
    let r := draw cfg s.vbuf s.screen
    { s with vbuf := r.1, screen := r.2 }
  else s

/-- One step of the system. -/
def step (cfg : Config) (s : Main) : Label → Main
  | .main env => mainStep cfg s env
  | .video => videoStep cfg s

/-- The state in which `while (1)` is entered: the clock reading and the display contents are
    whatever they are. -/
def start (t0 : BitVec 32) (screen : Screen) : Main where
  pc := .loop
  vbuf := vbufSetFlag (vbufClear (vbufInit ⟨Vector.replicate 240 (Vector.replicate 30 0), .empty, false⟩))
  grid := gridClear
  blk := blockGamma
  bbox := getBbox blockGamma.pattern
  score := 0
  tLast := t0
  screen := screen

end Katetris
