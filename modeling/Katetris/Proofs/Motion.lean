import Katetris.Proofs.Cells
import Katetris.Main

set_option autoImplicit false

/-! # What a step does, and how the piece moves

`step_cases` says once what a step of the machine can do, guards included; every invariant below and
in the modules after this one is a case analysis over it. `Motion` is what holds of the piece in
every state of every run: it is a gamma piece, its row is never negative and its column stays in
0..28, and the box `main` keeps is that of the spawn orientation. -/

namespace Katetris

open Lib

/-! ## The transitions -/

/-- **Everything a step can do.** To prove `motive` of the state after a step it is enough to prove
    it for each transition, with the guard under which it is taken. -/
theorem step_cases {motive : Main → Prop} (cfg : Config) (s : Main) (l : Label)
    (moved : ∀ env, l = .main env → s.pc = .loop → (buttonsDoAction s.blk env.buttons).2 = true →
      motive { s with
        blk := (buttonsDoAction s.blk env.buttons).1
        vbuf := updateBlock s.vbuf (buttonsDoAction s.blk env.buttons).1
        pc := if cfg.sitl then .floorTest else .loopDelay })
    (idle : ∀ env, l = .main env → s.pc = .loop → (buttonsDoAction s.blk env.buttons).2 = false →
      motive { s with blk := (buttonsDoAction s.blk env.buttons).1, pc := .floorTest })
    (wake : ∀ env, l = .main env → s.pc = .loopDelay → motive { s with pc := .floorTest })
    (floorHit : ∀ env, l = .main env → s.pc = .floorTest → atFloor s →
      motive { s with pc := .lock })
    (floorMiss : ∀ env, l = .main env → s.pc = .floorTest → ¬atFloor s →
      motive { s with vbuf := vbufClear s.vbuf, pc := .gravity })
    (fall : ∀ env, l = .main env → s.pc = .gravity → gravityFires s env →
      motive { s with
        tLast := env.millis
        blk := s.blk.down
        vbuf := updateBlock s.vbuf s.blk.down
        pc := .collides })
    (stay : ∀ env, l = .main env → s.pc = .gravity → ¬gravityFires s env →
      motive { s with pc := .collides })
    (hit : ∀ env, l = .main env → s.pc = .collides → blockCollides env.oob s.blk s.grid = true →
      motive { s with pc := .lock })
    (miss : ∀ env, l = .main env → s.pc = .collides → blockCollides env.oob s.blk s.grid = false →
      motive { s with pc := .paint })
    (lock : ∀ env, l = .main env → s.pc = .lock →
      motive { s with
        grid := blockAdd s.blk s.grid
        blk := blockGamma
        bbox := getBbox blockGamma.pattern
        pc := .clearRows })
    (clear : ∀ env, l = .main env → s.pc = .clearRows →
      motive { s with
        grid := (clearRows s.grid s.score).1
        score := (clearRows s.grid s.score).2
        vbuf := if cfg.shiftClear then vbufSetFlag s.vbuf else s.vbuf
        pc := .paint })
    (paint : ∀ env, l = .main env → s.pc = .paint →
      motive { s with
        vbuf := (paintFrame s.vbuf s.blk s.grid s.score).push scoreBox
        pc := if cfg.sitl then .present else .delay })
    (present : ∀ env, l = .main env → s.pc = .present →
      motive { s with
        vbuf := (draw cfg s.vbuf s.screen).1, screen := (draw cfg s.vbuf s.screen).2, pc := .delay })
    (again : ∀ env, l = .main env → s.pc = .delay → motive { s with pc := .loop })
    (video : l = .video → cfg.sitl = false → s.pc = .loopDelay ∨ s.pc = .delay →
      motive { s with
        vbuf := (draw cfg s.vbuf s.screen).1, screen := (draw cfg s.vbuf s.screen).2 })
    (quiet : l = .video → motive s) :
    motive (step cfg s l) := by
  cases l with
  | video =>
      show motive (videoStep cfg s)
      unfold videoStep
      split_ifs with h
      · exact video rfl h.1 h.2
      · exact quiet rfl
  | main env =>
      show motive (mainStep cfg s env)
      unfold mainStep
      cases hpc : s.pc with
      | loop =>
          show motive (hwLoop cfg s env.buttons)
          unfold hwLoop
          cases hret : (buttonsDoAction s.blk env.buttons).2 with
          | true => simpa [hret] using moved env rfl hpc hret
          | false => simpa [hret] using idle env rfl hpc hret
      | loopDelay => exact wake env rfl hpc
      | floorTest =>
          simp only
          split_ifs with h
          · exact floorHit env rfl hpc h
          · exact floorMiss env rfl hpc h
      | gravity =>
          simp only
          split_ifs with h
          · exact fall env rfl hpc h
          · exact stay env rfl hpc h
      | collides =>
          cases hcol : blockCollides env.oob s.blk s.grid with
          | true => simpa [hcol] using hit env rfl hpc hcol
          | false => simpa [hcol] using miss env rfl hpc hcol
      | lock => exact lock env rfl hpc
      | clearRows => exact clear env rfl hpc
      | paint => exact paint env rfl hpc
      | present => exact present env rfl hpc
      | delay => exact again env rfl hpc

/-- The two program points where the builds differ are not any of the others. -/
theorem afterMove_ne (cfg : Config) {pc : Pc} (h : pc ≠ .floorTest ∧ pc ≠ .loopDelay) :
    (if cfg.sitl then Pc.floorTest else .loopDelay) ≠ pc := by
  split
  · exact h.1.symm
  · exact h.2.symm

theorem afterPaint_ne (cfg : Config) {pc : Pc} (h : pc ≠ .present ∧ pc ≠ .delay) :
    (if cfg.sitl then Pc.present else .delay) ≠ pc := by
  split
  · exact h.1.symm
  · exact h.2.symm

/-! ## The buttons -/

section Buttons

variable (blk : Block) (pressed : ButtonStates)

theorem pressLeft_y (bbox : BBox) (s : Block × Bool) :
    (pressLeft bbox pressed s).1.y
      = if pressed .left = true ∧ 0 < s.1.y + bbox.y then s.1.y - 1 else s.1.y := by
  unfold pressLeft
  split_ifs <;> rfl

theorem pressRight_y (bbox : BBox) (s : Block × Bool) :
    (pressRight bbox pressed s).1.y
      = if pressed .right = true ∧ s.1.y + bbox.y < gridCols - bbox.sizey - 1
        then s.1.y + 1 else s.1.y := by
  unfold pressRight
  split_ifs <;> rfl

theorem pressDown_y (bbox : BBox) (s : Block × Bool) : (pressDown bbox pressed s).1.y = s.1.y := by
  unfold pressDown
  split_ifs <;> rfl

theorem pressEnter_y (s : Block × Bool) : (pressEnter pressed s).1.y = s.1.y := by
  unfold pressEnter
  split_ifs <;> rfl

theorem buttonsDoAction_ptrs : (buttonsDoAction blk pressed).1.ptrs = blk.ptrs := by
  simp only [buttonsDoAction, pressEnter, pressDown, pressRight, pressLeft, blockRotr, Block.down]
  split_ifs <;> rfl

theorem buttonsDoAction_ori :
    (buttonsDoAction blk pressed).1.ori
      = if pressed .enter = true then blk.ori.next else blk.ori := by
  simp only [buttonsDoAction, pressEnter, pressDown, pressRight, pressLeft, blockRotr, Block.down]
  split_ifs <;> rfl

theorem buttonsDoAction_x :
    (buttonsDoAction blk pressed).1.x
      = if pressed .down = true ∧ blk.x + (getBbox blk.pattern).x
            < gridRows - (getBbox blk.pattern).sizex
        then blk.x + 1 else blk.x := by
  simp only [buttonsDoAction, pressEnter, pressDown, pressRight, pressLeft, blockRotr, Block.down]
  split_ifs <;> rfl

theorem buttonsDoAction_y :
    (buttonsDoAction blk pressed).1.y
      = (pressRight (getBbox blk.pattern) pressed
          (pressLeft (getBbox blk.pattern) pressed (blk, false))).1.y := by
  rw [buttonsDoAction, pressEnter_y, pressDown_y]

/-- A call that returns `false` has moved nothing. -/
theorem buttonsDoAction_idle (h : (buttonsDoAction blk pressed).2 = false) :
    (buttonsDoAction blk pressed).1 = blk := by
  revert h
  simp only [buttonsDoAction, pressEnter, pressDown, pressRight, pressLeft]
  split_ifs <;> simp

end Buttons

/-! ## The gamma piece -/

/-- The bounding box of each orientation. -/
def gammaBox : Ori → BBox
  | .north => ⟨0, 0, 3, 2⟩
  | .east => ⟨1, 0, 2, 3⟩
  | .south => ⟨0, 0, 3, 2⟩
  | .west => ⟨0, 0, 2, 3⟩

/-- The cells of each orientation, relative to the piece's position. -/
def gammaOffsets : Ori → List (Nat × Nat)
  | .north => [(0, 0), (0, 1), (1, 0), (2, 0)]
  | .east => [(1, 0), (1, 1), (1, 2), (2, 0)]
  | .south => [(0, 0), (1, 0), (2, 0), (2, 1)]
  | .west => [(0, 2), (1, 0), (1, 1), (1, 2)]

theorem gammaOffsets_lt (o : Ori) : ∀ d ∈ gammaOffsets o, d.1 < 3 ∧ d.2 < 3 := by
  cases o <;> decide

theorem getBbox_gamma (o : Ori) : getBbox (patternsGamma o) = gammaBox o := by
  cases o <;> decide

section Gamma

variable {blk : Block} (h : blk.ptrs = patternsGamma)

include h

theorem getBbox_pattern_gamma : getBbox blk.pattern = gammaBox blk.ori := by
  rw [Block.pattern, h, getBbox_gamma]

theorem Block.cells_gamma :
    blk.cells = (gammaOffsets blk.ori).map fun o => (blk.x + o.1, blk.y + o.2) := by
  obtain ⟨ptrs, ori, x, y⟩ := blk
  subst h
  cases ori <;> simp [Block.cells, Block.bit, Block.pattern, rowAt, patternsGamma, gammaOffsets,
    List.range_succ, Vector.get]

theorem Block.cell_gamma {r c : Int} :
    blk.Cell r c ↔ ∃ o ∈ gammaOffsets blk.ori, r = blk.x + o.1 ∧ c = blk.y + o.2 := by
  rw [Block.Cell, Block.cells_gamma h, List.mem_map]
  refine ⟨fun hcell => ?_, fun hcell => ?_⟩
  · obtain ⟨o, ho, heq⟩ := hcell
    simp only [Prod.mk.injEq] at heq
    exact ⟨o, ho, heq.1.symm, heq.2.symm⟩
  · obtain ⟨o, ho, rfl, rfl⟩ := hcell
    exact ⟨o, ho, rfl⟩

theorem Block.fits_gamma (hy : 0 ≤ blk.y) (hy' : blk.y ≤ 28) : blk.Fits where
  small := by
    rw [Block.pattern, h]
    exact small_of_rows (by cases blk.ori <;> decide)
  y_nonneg := hy
  y_le := hy'

/-- The column the buttons leave the piece in: LEFT and RIGHT, each under its guard. -/
theorem buttonsDoAction_y_gamma (pressed : ButtonStates) :
    (buttonsDoAction blk pressed).1.y
      = let left := if pressed .left = true ∧ 0 < blk.y then blk.y - 1 else blk.y
        if pressed .right = true ∧ left < 30 - (gammaBox blk.ori).sizey then left + 1 else left := by
  have hy : (gammaBox blk.ori).y = 0 := by cases blk.ori <;> rfl
  have hcols : ((gridCols : Nat) : Int) = 31 := rfl
  rw [buttonsDoAction_y, getBbox_pattern_gamma h, pressRight_y, pressLeft_y, hy, hcols]
  simp only [add_zero, show (31 : Int) - (gammaBox blk.ori).sizey - 1 = 30 - (gammaBox blk.ori).sizey
    by omega]

/-- The row the buttons leave the piece in: the guard of DOWN lets a West piece one row lower. -/
theorem buttonsDoAction_x_gamma (pressed : ButtonStates) :
    (buttonsDoAction blk pressed).1.x
      = if pressed .down = true ∧ blk.x < (if blk.ori = .west then 28 else 27)
        then blk.x + 1 else blk.x := by
  have hrows : ((gridRows : Nat) : Int) = 30 := rfl
  have hguard : blk.x + (gammaBox blk.ori).x < 30 - (gammaBox blk.ori).sizex ↔
      blk.x < (if blk.ori = .west then 28 else 27) := by
    cases blk.ori <;> simp only [gammaBox, reduceCtorEq, if_true, if_false] <;> omega
  rw [buttonsDoAction_x, getBbox_pattern_gamma h, hrows]
  simp only [hguard]

theorem buttonsDoAction_y_bounds (pressed : ButtonStates) (hy : 0 ≤ blk.y ∧ blk.y ≤ 28) :
    0 ≤ (buttonsDoAction blk pressed).1.y ∧ (buttonsDoAction blk pressed).1.y ≤ 28 := by
  have hsize : 2 ≤ (gammaBox blk.ori).sizey := by cases blk.ori <;> decide
  rw [buttonsDoAction_y_gamma h]
  simp only
  split_ifs <;> omega

theorem buttonsDoAction_x_bounds (pressed : ButtonStates) :
    blk.x ≤ (buttonsDoAction blk pressed).1.x
      ∧ (buttonsDoAction blk pressed).1.x ≤ max blk.x 28 := by
  rw [buttonsDoAction_x_gamma h]
  split_ifs <;> omega

end Gamma

/-! ## What holds of the piece in every state -/

/-- The piece is a gamma piece in a non-negative row and in columns 0..28, and the box of the floor
    test is that of the orientation pieces spawn in. -/
structure Motion (s : Main) : Prop where
  gamma : s.blk.ptrs = patternsGamma
  x_nonneg : 0 ≤ s.blk.x
  y_bounds : 0 ≤ s.blk.y ∧ s.blk.y ≤ 28
  spawnBox : s.bbox = gammaBox .north

theorem Motion.fits {s : Main} (h : Motion s) : s.blk.Fits :=
  Block.fits_gamma h.gamma h.y_bounds.1 h.y_bounds.2

/-- The floor test compares the row with 27, whatever the orientation. -/
theorem Motion.atFloor_iff {s : Main} (h : Motion s) : atFloor s ↔ s.blk.x = 27 := by
  have hrows : ((gridRows : Nat) : Int) = 30 := rfl
  rw [atFloor, h.spawnBox, hrows]
  simp only [gammaBox]
  omega

theorem blockGamma_y_bounds : 0 ≤ blockGamma.y ∧ blockGamma.y ≤ 28 := by decide

theorem motion_start (t0 : BitVec 32) (screen : Screen) : Motion (start t0 screen) where
  gamma := rfl
  x_nonneg := le_refl _
  y_bounds := blockGamma_y_bounds
  spawnBox := getBbox_gamma .north

/-- `Motion` only reads the piece and the box. -/
theorem Motion.congr {s s' : Main} (h : Motion s) (hblk : s'.blk = s.blk) (hbox : s'.bbox = s.bbox) :
    Motion s' where
  gamma := by rw [hblk]; exact h.gamma
  x_nonneg := by rw [hblk]; exact h.x_nonneg
  y_bounds := by rw [hblk]; exact h.y_bounds
  spawnBox := by rw [hbox]; exact h.spawnBox

theorem Motion.step (cfg : Config) (s : Main) (l : Label) (h : Motion s) :
    Motion (step cfg s l) := by
  have hbuttons : ∀ (env : Env) (v : VBuf) (pc : Pc),
      Motion { s with blk := (buttonsDoAction s.blk env.buttons).1, vbuf := v, pc := pc } := by
    intro env v pc
    refine ⟨?_, ?_, ?_, h.spawnBox⟩
    · rw [← h.gamma]
      exact buttonsDoAction_ptrs s.blk env.buttons
    · exact le_trans h.x_nonneg (buttonsDoAction_x_bounds h.gamma env.buttons).1
    · exact buttonsDoAction_y_bounds h.gamma env.buttons h.y_bounds
  apply step_cases cfg s l
  case moved =>
      intro env _ _ _
      exact hbuttons env _ _
  case idle =>
      intro env _ _ _
      exact hbuttons env _ _
  case fall =>
      intro env _ _ _
      have hx := h.x_nonneg
      refine ⟨h.gamma, ?_, h.y_bounds, h.spawnBox⟩
      simp only [Block.down]
      omega
  case lock =>
      intro env _ _
      exact ⟨rfl, le_refl _, blockGamma_y_bounds, getBbox_gamma .north⟩
  all_goals
    intros
    exact h.congr rfl rfl

/-- **`Motion` holds in every state of every run.** -/
theorem allStates_motion (cfg : Config) (t0 : BitVec 32) (screen : Screen) (ls : List Label) :
    AllStates (step cfg) Motion (start t0 screen) ls :=
  AllStates.of_invariant' (Motion.step cfg) (motion_start t0 screen) ls

/-! ## Inputs and runs by name -/

/-- A step of the main thread that reads button `b` as pressed. -/
def Label.Presses (b : Button) : Label → Prop
  | .main env => env.buttons b = true
  | .video => False

instance (b : Button) : (l : Label) → Decidable (l.Presses b)
  | .main env => inferInstanceAs (Decidable (env.buttons b = true))
  | .video => inferInstanceAs (Decidable False)

/-- A step of the main thread at whose clock reading the gravity step fires. -/
def Label.Fires (s : Main) : Label → Prop
  | .main env => gravityFires s env
  | .video => False

instance (s : Main) : (l : Label) → Decidable (l.Fires s)
  | .main env => inferInstanceAs (Decidable (gravityFires s env))
  | .video => inferInstanceAs (Decidable False)

/-- The step is a lock. -/
def Locks (s : Main) : Label → Prop
  | .main _ => s.pc = .lock
  | .video => False

instance (s : Main) : (l : Label) → Decidable (Locks s l)
  | .main _ => inferInstanceAs (Decidable (_ = _))
  | .video => inferInstanceAs (Decidable False)

/-- The game and the picture in the buffer are the same. -/
structure SameGame (s s' : Main) : Prop where
  blk : s'.blk = s.blk
  grid : s'.grid = s.grid
  bbox : s'.bbox = s.bbox
  score : s'.score = s.score
  tLast : s'.tLast = s.tLast
  frame : ∀ p q, s'.vbuf.pixel p q = s.vbuf.pixel p q

theorem SameGame.symm {s s' : Main} (h : SameGame s s') : SameGame s' s :=
  ⟨h.blk.symm, h.grid.symm, h.bbox.symm, h.score.symm, h.tLast.symm, fun p q => (h.frame p q).symm⟩

/-- The SITL build, with `SHIFT_CLEAR` on. -/
def sitlConfig : Config := ⟨true, true⟩

/-- The STM32 build, with `SHIFT_CLEAR` on. -/
def stm32Config : Config := ⟨false, true⟩

/-- A dark display with nothing under way on the bus. -/
def Screen.blank : Screen where
  stm32 := ⟨⟨⟨fun _ _ => 0, 0, 0⟩, ⟨0, 239, 0, 239⟩, 0, [], none⟩, ⟨Vector.replicate 64 0, 0⟩⟩
  window := fun _ _ => false

/-- Seven steps of the main thread under the same buttons and clock reading: one iteration of the
    SITL build that does not end in `block_collides` returning true. -/
def turn (pressed : List Button) (millis : BitVec 32) : List Label :=
  List.replicate 7 (.main ⟨ButtonStates.only pressed, millis, fun _ => 0⟩)

/-- `n` iterations without a button, one second apart from second `t` on. -/
def drops (t n : Nat) : List Label :=
  (List.range n).flatMap fun k => turn [] (BitVec.ofNat 32 (1000 * (t + k + 1)))

end Katetris
