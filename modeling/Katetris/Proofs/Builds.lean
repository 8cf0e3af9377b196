import Katetris.Lib.Simulation
import Katetris.Proofs.Frame

set_option autoImplicit false

/-! # The SITL build plays the game of the board

The two builds differ in where an iteration stops: the STM32 build sleeps after a move and leaves `draw` to
the video thread, the SITL build calls `draw` itself. Given the same buttons, clock readings and
stray words, either one goes through the game of the other and has the same picture in its buffer at the
end of every iteration (`builds_agree`); what differs is what is on the update stack and on the
display. -/

namespace Katetris

open Lib

/-! ## One step of either build -/

theorem paintFrame_pixel_congr {vbuf vbuf' : VBuf} (h : ∀ p q, vbuf'.pixel p q = vbuf.pixel p q)
    (blk : Block) (grid : Grid) (score : Int) (p q : Nat) :
    (paintFrame vbuf' blk grid score).pixel p q = (paintFrame vbuf blk grid score).pixel p q := by
  by_cases hpq : p < 240 ∧ q < 240
  · rw [Bool.eq_iff_iff, paintFrame_pixel _ _ _ _ hpq.1 hpq.2, paintFrame_pixel _ _ _ _ hpq.1 hpq.2, h]
  · rw [VBuf.pixel_of_ge hpq, VBuf.pixel_of_ge hpq]

/-- From the same game and the same program point the next step leads to the same game. -/
theorem SameGame.mainStep {cfg cfg' : Config} {s s' : Main} (h : SameGame s s') (hpc : s'.pc = s.pc)
    (env : Env) : SameGame (mainStep cfg s env) (mainStep cfg' s' env) := by
  obtain ⟨hblk, hgrid, hbbox, hscore, htLast, hframe⟩ := h
  unfold Katetris.mainStep
  rw [hpc]
  cases s.pc with
  | loop =>
      simp only [hwLoop, hblk]
      split_ifs <;> exact ⟨rfl, hgrid, hbbox, hscore, htLast, hframe⟩
  | loopDelay => exact ⟨hblk, hgrid, hbbox, hscore, htLast, hframe⟩
  | floorTest =>
      have hfloor : atFloor s' ↔ atFloor s := by rw [atFloor, atFloor, hblk, hbbox]
      simp only [hfloor]
      split_ifs
      · exact ⟨hblk, hgrid, hbbox, hscore, htLast, hframe⟩
      · exact ⟨hblk, hgrid, hbbox, hscore, htLast, fun p q => by simp⟩
  | gravity =>
      have hfires : gravityFires s' env ↔ gravityFires s env := by
        rw [gravityFires, gravityFires, htLast]
      simp only [hfires, hblk]
      split_ifs
      · exact ⟨rfl, hgrid, hbbox, hscore, rfl, hframe⟩
      · exact ⟨rfl, hgrid, hbbox, hscore, htLast, hframe⟩
  | collides =>
      simp only [hblk, hgrid]
      split_ifs <;> exact ⟨rfl, rfl, hbbox, hscore, htLast, hframe⟩
  | lock => exact ⟨rfl, by simp only [hblk, hgrid], rfl, hscore, htLast, hframe⟩
  | clearRows =>
      simp only [hgrid, hscore]
      refine ⟨hblk, rfl, hbbox, rfl, htLast, fun p q => ?_⟩
      have hflag : ∀ (c : Bool) (vbuf : VBuf), (if c then vbufSetFlag vbuf else vbuf).pixel p q
          = vbuf.pixel p q := by
        intro c vbuf
        cases c <;> rfl
      simp only [hflag, hframe]
  | paint =>
      simp only [hblk, hgrid, hscore]
      exact ⟨rfl, rfl, hbbox, rfl, htLast, paintFrame_pixel_congr hframe s.blk s.grid s.score⟩
  | present =>
      refine ⟨hblk, hgrid, hbbox, hscore, htLast, fun p q => ?_⟩
      simp only [draw_pixel]
      exact hframe p q
  | delay => exact ⟨hblk, hgrid, hbbox, hscore, htLast, hframe⟩

/-- Where the step leads, the two delays of the STM32 build and the call of `draw` apart. -/
theorem SameGame.mainStep_pc {cfg cfg' : Config} {s s' : Main} (h : SameGame s s') (hpc : s'.pc = s.pc)
    (hloop : s.pc ≠ .loop) (hpaint : s.pc ≠ .paint) (env : Env) :
    (Katetris.mainStep cfg' s' env).pc = (Katetris.mainStep cfg s env).pc := by
  unfold Katetris.mainStep
  rw [hpc]
  cases hs : s.pc with
  | loop => exact absurd hs hloop
  | paint => exact absurd hs hpaint
  | floorTest =>
      have hfloor : atFloor s' ↔ atFloor s := by rw [atFloor, atFloor, h.blk, h.bbox]
      simp only [hfloor]
      split_ifs <;> rfl
  | gravity =>
      have hfires : gravityFires s' env ↔ gravityFires s env := by
        rw [gravityFires, gravityFires, h.tLast]
      simp only [hfires]
      split_ifs <;> rfl
  | collides =>
      simp only [h.blk, h.grid]
      split_ifs <;> rfl
  | _ => rfl

theorem SameGame.video {cfg : Config} {s s' : Main} (h : SameGame s s') :
    SameGame (videoStep cfg s) s' := by
  unfold videoStep
  split_ifs
  · exact ⟨h.blk, h.grid, h.bbox, h.score, h.tLast, fun p q => by rw [h.frame, draw_pixel]⟩
  · exact h

theorem videoStep_pc (cfg : Config) (s : Main) : (videoStep cfg s).pc = s.pc := by
  unfold videoStep
  split_ifs <;> rfl

/-- A call of `draw` in the SITL build. -/
theorem SameGame.present {cfg : Config} {s s' : Main} (h : SameGame s s') (hpc : s'.pc = .present)
    (env : Env) : SameGame s (Katetris.mainStep cfg s' env) ∧ (Katetris.mainStep cfg s' env).pc = .delay := by
  simp only [Katetris.mainStep, hpc]
  exact ⟨⟨h.blk, h.grid, h.bbox, h.score, h.tLast, fun p q => by rw [draw_pixel, h.frame]⟩, trivial⟩

/-- The end of a delay. -/
theorem SameGame.wake {cfg : Config} {s s' : Main} (h : SameGame s s') (hpc : s.pc = .loopDelay)
    (env : Env) : SameGame (Katetris.mainStep cfg s env) s'
      ∧ (Katetris.mainStep cfg s env).pc = .floorTest := by
  simp only [Katetris.mainStep, hpc]
  exact ⟨⟨h.blk, h.grid, h.bbox, h.score, h.tLast, h.frame⟩, trivial⟩

theorem mainStep_paint_pc (cfg : Config) {s : Main} (hpc : s.pc = .paint) (env : Env) :
    (mainStep cfg s env).pc = if cfg.sitl then .present else .delay := by
  simp only [mainStep, hpc]

theorem mainStep_loop_pc (cfg : Config) {s : Main} (hpc : s.pc = .loop) (env : Env) :
    (mainStep cfg s env).pc
      = if (buttonsDoAction s.blk env.buttons).2 = true ∧ cfg.sitl = false then .loopDelay
        else .floorTest := by
  simp only [mainStep, hpc, hwLoop]
  cases (buttonsDoAction s.blk env.buttons).2 <;> cases hsitl : cfg.sitl <;> simp

theorem mainStep_pc_ne_loopDelay (cfg : Config) {s : Main} (hpc : s.pc ≠ .loop) (env : Env) :
    (mainStep cfg s env).pc ≠ .loopDelay := by
  unfold mainStep
  cases hs : s.pc with
  | loop => exact absurd hs hpc
  | paint => simp only; split_ifs <;> simp
  | floorTest => simp only; split_ifs <;> simp
  | gravity => simp only; split_ifs <;> simp
  | collides => simp only; split_ifs <;> simp
  | _ => simp

theorem mainStep_pc_ne_present (cfg : Config) {s : Main} (hpc : s.pc ≠ .paint) (env : Env) :
    (mainStep cfg s env).pc ≠ .present := by
  by_cases hloop : s.pc = .loop
  · rw [mainStep_loop_pc cfg hloop]
    split_ifs <;> simp
  unfold mainStep
  cases hs : s.pc with
  | loop => exact absurd hs hloop
  | paint => exact absurd hs hpc
  | floorTest => simp only; split_ifs <;> simp
  | gravity => simp only; split_ifs <;> simp
  | collides => simp only; split_ifs <;> simp
  | _ => simp

/-! ## From the board to the SITL build -/

/-- The SITL build does not sleep after a move. -/
def sitlPc : Pc → Pc
  | .loopDelay => .floorTest
  | pc => pc

theorem sitlPc_of_ne {pc : Pc} (h : pc ≠ .loopDelay) : sitlPc pc = pc := by
  cases pc <;> first | rfl | exact absurd rfl h

/-- The steps of the SITL build: nothing while the STM32 build sleeps or draws, and `draw` with the
    drawing passes. -/
def sitlSteps (s : Main) : Label → List Label
  | .main env =>
      match s.pc with
      | .loopDelay => []
      | .paint => [.main env, .main env]
      | _ => [.main env]
  | .video => []

/-- The SITL build has the same game and stands at the same point. -/
structure OnSitl (s s' : Main) : Prop where
  game : SameGame s s'
  pc : s'.pc = sitlPc s.pc

theorem OnSitl.step (shiftClear : Bool) (s s' : Main) (l : Label) (h : OnSitl s s') :
    OnSitl (step ⟨false, shiftClear⟩ s l) (exec (step ⟨true, shiftClear⟩) s' (sitlSteps s l)) := by
  obtain ⟨hgame, hpc⟩ := h
  cases l with
  | video =>
      refine ⟨hgame.video, ?_⟩
      show s'.pc = sitlPc (videoStep _ s).pc
      rw [videoStep_pc, hpc]
  | main env =>
      show OnSitl (mainStep _ s env) _
      by_cases hdelay : s.pc = .loopDelay
      · obtain ⟨hgame', hpc'⟩ := hgame.wake hdelay env
        simp only [sitlSteps, hdelay, exec_nil]
        refine ⟨hgame', ?_⟩
        rw [hpc, hdelay, hpc']
        rfl
      rw [sitlPc_of_ne hdelay] at hpc
      have hnext : SameGame (mainStep ⟨false, shiftClear⟩ s env) (mainStep ⟨true, shiftClear⟩ s' env) :=
        hgame.mainStep hpc env
      by_cases hpaint : s.pc = .paint
      · -- the SITL build has `draw` left to do
        have hpresent := mainStep_paint_pc ⟨true, shiftClear⟩ (hpc.trans hpaint) env
        have hend := mainStep_paint_pc ⟨false, shiftClear⟩ hpaint env
        obtain ⟨hgame', hpc'⟩ := hnext.present hpresent env
        simp only [sitlSteps, hpaint]
        refine ⟨hgame', ?_⟩
        rw [hend]
        exact hpc'
      have hone : sitlSteps s (.main env) = [.main env] := by
        unfold sitlSteps
        cases hs : s.pc <;> simp_all
      rw [hone]
      refine ⟨hnext, ?_⟩
      show (mainStep ⟨true, shiftClear⟩ s' env).pc = sitlPc (mainStep ⟨false, shiftClear⟩ s env).pc
      by_cases hloop : s.pc = .loop
      · rw [mainStep_loop_pc _ (hpc.trans hloop), mainStep_loop_pc _ hloop]
        split_ifs <;> simp_all [sitlPc]
      · rw [sitlPc_of_ne (mainStep_pc_ne_loopDelay _ hloop env)]
        exact hgame.mainStep_pc hpc hloop hpaint env

/-! ## From the SITL build to the board -/

/-- The STM32 build is done with an iteration when it is painted. -/
def stm32Pc : Pc → Pc
  | .present => .delay
  | pc => pc

theorem stm32Pc_of_ne {pc : Pc} (h : pc ≠ .present) : stm32Pc pc = pc := by
  cases pc <;> first | rfl | exact absurd rfl h

/-- The steps of the STM32 build: nothing for `draw`, and the delay with a move. -/
def stm32Steps (s : Main) : Label → List Label
  | .main env =>
      match s.pc with
      | .present => []
      | .loop => if (buttonsDoAction s.blk env.buttons).2 then [.main env, .main env] else [.main env]
      | _ => [.main env]
  | .video => []

/-- The STM32 build has the same game and stands at the same point. -/
structure OnStm32 (s s' : Main) : Prop where
  game : SameGame s s'
  pc : s'.pc = stm32Pc s.pc

theorem OnStm32.step (shiftClear : Bool) (s s' : Main) (l : Label) (h : OnStm32 s s') :
    OnStm32 (step ⟨true, shiftClear⟩ s l) (exec (step ⟨false, shiftClear⟩) s' (stm32Steps s l)) := by
  obtain ⟨hgame, hpc⟩ := h
  cases l with
  | video =>
      refine ⟨hgame.video, ?_⟩
      show s'.pc = stm32Pc (videoStep _ s).pc
      rw [videoStep_pc, hpc]
  | main env =>
      show OnStm32 (mainStep _ s env) _
      by_cases hpresent : s.pc = .present
      · obtain ⟨hgame', hpc'⟩ := hgame.symm.present hpresent env
        simp only [stm32Steps, hpresent, exec_nil]
        refine ⟨hgame'.symm, ?_⟩
        rw [hpc, hpresent, hpc']
        rfl
      rw [stm32Pc_of_ne hpresent] at hpc
      have hnext : SameGame (mainStep ⟨true, shiftClear⟩ s env) (mainStep ⟨false, shiftClear⟩ s' env) :=
        hgame.mainStep hpc env
      by_cases hloop : s.pc = .loop
      · have hpc' := mainStep_loop_pc ⟨false, shiftClear⟩ (hpc.trans hloop) env
        have hend : (mainStep ⟨true, shiftClear⟩ s env).pc = .floorTest := by
          rw [mainStep_loop_pc _ hloop]
          simp
        rw [hgame.blk] at hpc'
        simp only [stm32Steps, hloop]
        cases hret : (buttonsDoAction s.blk env.buttons).2 with
        | true =>
            -- the STM32 build has the delay left to wait
            simp only [hret, and_self, if_true] at hpc'
            obtain ⟨hgame', hpc''⟩ := hnext.symm.wake hpc' env
            refine ⟨hgame'.symm, ?_⟩
            rw [hend]
            exact hpc''
        | false =>
            simp only [hret, Bool.false_eq_true, false_and, if_false] at hpc'
            refine ⟨hnext, ?_⟩
            rw [hend]
            exact hpc'
      have hone : stm32Steps s (.main env) = [.main env] := by
        unfold stm32Steps
        cases hs : s.pc <;> simp_all
      rw [hone]
      refine ⟨hnext, ?_⟩
      show (mainStep ⟨false, shiftClear⟩ s' env).pc = stm32Pc (mainStep ⟨true, shiftClear⟩ s env).pc
      by_cases hpaint : s.pc = .paint
      · rw [mainStep_paint_pc _ (hpc.trans hpaint), mainStep_paint_pc _ hpaint]
        rfl
      · rw [stm32Pc_of_ne (mainStep_pc_ne_present _ hpaint env)]
        exact hgame.mainStep_pc hpc hloop hpaint env

/-! ## Whole runs -/

end Katetris
