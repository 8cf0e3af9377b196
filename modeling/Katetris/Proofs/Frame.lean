import Katetris.Proofs.Bounds
import Katetris.Proofs.Redraw

set_option autoImplicit false

/-! # The frame buffer at the end of an iteration

An iteration clears the buffer and paints piece, grid and score over it, so the frame it ends with is
the picture of the game (`Shows`) and nothing else. The one way around the clear is the `goto` of the
floor test: on that path the previous frame stays in the buffer, and the new one is exact only if all
of it belongs to the new picture as well. It does when the piece is locked where it was last painted
and completes no row (`frameExact_of_not_gotoAfterChange`). -/

namespace Katetris

open Lib

/-! ## The picture of a game state -/

/-- A buffer with no pixel lit. -/
def VBuf.blank : VBuf := ⟨Vector.replicate 240 (Vector.replicate 30 0), .empty, false⟩

/-- Pixel `(p, q)` belongs to the picture: the cell it is in is occupied or part of the piece, or the
    pixel is lit in the image of the score on a blank buffer. -/
def Shows (blk : Block) (grid : Grid) (score : Int) (p q : Nat) : Prop :=
  Grid.Cell grid (p / 8 : Nat) (q / 8 : Nat) ∨ blk.Cell (p / 8 : Nat) (q / 8 : Nat)
    ∨ (textDrawNumber VBuf.blank (BitVec.ofInt 8 score) 0 0).pixel p q = true

instance (blk : Block) (grid : Grid) (score : Int) (p q : Nat) : Decidable (Shows blk grid score p q) :=
  inferInstanceAs (Decidable (_ ∨ _ ∨ _))

/-- The lit pixels are exactly those of the picture. -/
def FrameShows (vbuf : VBuf) (blk : Block) (grid : Grid) (score : Int) : Prop :=
  ∀ p q, p < 240 → q < 240 → (vbuf.pixel p q = true ↔ Shows blk grid score p q)

/-- The lit pixels are all in the picture. -/
def LitWithin (vbuf : VBuf) (blk : Block) (grid : Grid) (score : Int) : Prop :=
  ∀ p, p < 240 → ∀ q, q < 240 → vbuf.pixel p q = true → Shows blk grid score p q

instance (vbuf : VBuf) (blk : Block) (grid : Grid) (score : Int) :
    Decidable (LitWithin vbuf blk grid score) :=
  have _hcolumn : ∀ p, Decidable (∀ q, q < 240 → vbuf.pixel p q = true → Shows blk grid score p q) :=
    fun p => Nat.decidableBallLT 240 fun q _ => vbuf.pixel p q = true → Shows blk grid score p q
  Nat.decidableBallLT 240 fun p _ => ∀ q, q < 240 → vbuf.pixel p q = true → Shows blk grid score p q

theorem VBuf.blank_pixel (p q : Nat) : VBuf.blank.pixel p q = false :=
  vbufClear_pixel VBuf.blank p q

theorem scoreImage_pixel (score : Int) (p q : Nat) :
    (textDrawNumber VBuf.blank (BitVec.ofInt 8 score) 0 0).pixel p q = true ↔
      InNumber (BitVec.ofInt 8 score) 0 0 (p, q) := by
  have hpaint := textDrawNumber_paints (BitVec.ofInt 8 score) 0 0 VBuf.blank (p, q)
  simpa only [VBuf.Lit, VBuf.blank_pixel, Bool.false_eq_true, false_or] using hpaint

/-- **The three drawing passes add exactly the picture.** -/
theorem paintFrame_pixel (vbuf : VBuf) (blk : Block) (grid : Grid) (score : Int) {p q : Nat}
    (hp : p < 240) (hq : q < 240) :
    (paintFrame vbuf blk grid score).pixel p q = true ↔
      vbuf.pixel p q = true ∨ Shows blk grid score p q := by
  have hnumber := textDrawNumber_paints (BitVec.ofInt 8 score) 0 0
    (gridDraw (blockDraw vbuf blk) grid) (p, q)
  have hgrid := gridDraw_paints grid (blockDraw vbuf blk) (p, q)
  have hblock := blockDraw_paints blk vbuf (p, q)
  simp only [VBuf.Lit, hp, hq, true_and] at hnumber hgrid hblock
  rw [paintFrame, hnumber, hgrid, hblock, Shows, scoreImage_pixel]
  refine ⟨fun hor => ?_, fun hor => ?_⟩
  · rcases hor with ((hlit | hcell) | hcell) | himage
    · exact Or.inl hlit
    · exact Or.inr (Or.inr (Or.inl hcell))
    · exact Or.inr (Or.inl hcell)
    · exact Or.inr (Or.inr (Or.inr himage))
  · rcases hor with hlit | hcell | hcell | himage
    · exact Or.inl (Or.inl (Or.inl hlit))
    · exact Or.inl (Or.inr hcell)
    · exact Or.inl (Or.inl (Or.inr hcell))
    · exact Or.inr himage

theorem frameShows_paintFrame {vbuf : VBuf} {blk : Block} {grid : Grid} {score : Int}
    (h : LitWithin vbuf blk grid score) : FrameShows (paintFrame vbuf blk grid score) blk grid score := by
  intro p q hp hq
  rw [paintFrame_pixel vbuf blk grid score hp hq]
  exact ⟨fun hor => hor.elim (h p hp q hq) id, Or.inr⟩

theorem FrameShows.congr {vbuf vbuf' : VBuf} {blk : Block} {grid : Grid} {score : Int}
    (h : FrameShows vbuf blk grid score) (hpix : ∀ p q, vbuf'.pixel p q = vbuf.pixel p q) :
    FrameShows vbuf' blk grid score := by
  intro p q hp hq
  rw [hpix, h p q hp hq]

theorem draw_pixel (cfg : Config) (vbuf : VBuf) (screen : Screen) (p q : Nat) :
    (draw cfg vbuf screen).1.pixel p q = vbuf.pixel p q := by
  unfold VBuf.pixel
  rw [draw_buf]

/-! ## The frame along a run -/

/-- The floor test is about to take the `goto` while a pixel is lit that the coming picture, with the
    piece locked, the full rows cleared and a new piece spawned, does not have. -/
def LocksOverStale (s : Main) : Label → Prop
  | .main _ => s.pc = .floorTest ∧ atFloor s ∧
      ¬LitWithin s.vbuf blockGamma (clearRows (blockAdd s.blk s.grid) s.score).1
        (clearRows (blockAdd s.blk s.grid) s.score).2
  | .video => False

instance (s : Main) : (l : Label) → Decidable (LocksOverStale s l)
  | .main _ => inferInstanceAs (Decidable (_ ∧ _ ∧ _))
  | .video => inferInstanceAs (Decidable False)

/-- What the buffer holds where the main thread stands. -/
def FrameSoFar (s : Main) : Prop :=
  match s.pc with
  | .gravity | .collides => ∀ p q, s.vbuf.pixel p q = false
  | .lock =>
      LitWithin s.vbuf blockGamma (clearRows (blockAdd s.blk s.grid) s.score).1
        (clearRows (blockAdd s.blk s.grid) s.score).2
  | .clearRows => LitWithin s.vbuf s.blk (clearRows s.grid s.score).1 (clearRows s.grid s.score).2
  | .paint => LitWithin s.vbuf s.blk s.grid s.score
  | .present | .delay => FrameShows s.vbuf s.blk s.grid s.score
  | .loop | .loopDelay | .floorTest => True

theorem litWithin_of_dark {vbuf : VBuf} (h : ∀ p q, vbuf.pixel p q = false) (blk : Block) (grid : Grid)
    (score : Int) : LitWithin vbuf blk grid score := by
  intro p _ q _ hlit
  rw [h p q] at hlit
  exact absurd hlit (by simp)

theorem FrameSoFar.step (cfg : Config) (s : Main) (l : Label) (h : FrameSoFar s)
    (hl : ¬LocksOverStale s l) : FrameSoFar (step cfg s l) := by
  apply step_cases (motive := FrameSoFar) cfg s l
  case moved =>
      intro env _ _ _
      cases hsitl : cfg.sitl <;> simp [FrameSoFar]
  case floorHit =>
      intro env hlabel hpc hfloor
      subst hlabel
      by_contra hstale
      exact hl ⟨hpc, hfloor, hstale⟩
  case floorMiss =>
      intro env _ _ _ p q
      exact vbufClear_pixel s.vbuf p q
  case fall =>
      intro env _ hpc _
      simp only [FrameSoFar, hpc] at h
      exact h
  case stay =>
      intro env _ hpc _
      simpa only [FrameSoFar, hpc] using h
  case hit =>
      intro env _ hpc _
      simp only [FrameSoFar, hpc] at h
      exact litWithin_of_dark h _ _ _
  case miss =>
      intro env _ hpc _
      simp only [FrameSoFar, hpc] at h
      exact litWithin_of_dark h _ _ _
  case lock =>
      intro env _ hpc
      simpa only [FrameSoFar, hpc] using h
  case clear =>
      intro env _ hpc
      simp only [FrameSoFar, hpc] at h
      cases hflag : cfg.shiftClear <;> exact h
  case paint =>
      intro env _ hpc
      simp only [FrameSoFar, hpc] at h
      cases hsitl : cfg.sitl <;> exact frameShows_paintFrame h
  case present =>
      intro env _ hpc
      simp only [FrameSoFar, hpc] at h
      exact h.congr (draw_pixel cfg s.vbuf s.screen)
  case video =>
      intro _ _ hor
      rcases hor with hpc | hpc
      · simp [FrameSoFar, hpc]
      · simp only [FrameSoFar, hpc] at h ⊢
        exact h.congr (draw_pixel cfg s.vbuf s.screen)
  case quiet => exact fun _ => h
  all_goals
    intros
    trivial

theorem frameSoFar_start (t0 : BitVec 32) (screen : Screen) : FrameSoFar (start t0 screen) := trivial

/-- At the final delay the buffer is the picture of the game. -/
def FrameExact (s : Main) : Prop := s.pc = .delay → FrameShows s.vbuf s.blk s.grid s.score

/-! ## What was painted last -/

/-- The piece as the drawing passes last painted it. -/
def lastPainted (painted : Option Block) (s : Main) : Label → Option Block
  | .main _ => if s.pc = .paint then some s.blk else painted
  | .video => painted

theorem lastPainted_of_ne (painted : Option Block) {s : Main} (h : s.pc ≠ .paint) (l : Label) :
    lastPainted painted s l = painted := by
  cases l with
  | main env => exact if_neg h
  | video => rfl

/-- Together the piece and the grid fill one of the thirty rows. -/
def CompletesRow (blk : Block) (grid : Grid) : Prop :=
  ∃ r : Nat, r < 30 ∧ ∀ c : Nat, c < 30 → Grid.Cell grid r c ∨ blk.Cell r c

instance (blk : Block) (grid : Grid) : Decidable (CompletesRow blk grid) :=
  inferInstanceAs (Decidable (∃ r, r < 30 ∧ _))

/-- The floor test is about to take the `goto` with a piece that was moved or turned after it was
    painted, or that completes a row. -/
def GotoAfterChange (w : Option Block × Main) : Label → Prop
  | .main _ => w.2.pc = .floorTest ∧ atFloor w.2
      ∧ (w.1 ≠ some w.2.blk ∨ CompletesRow w.2.blk w.2.grid)
  | .video => False

instance (w : Option Block × Main) : (l : Label) → Decidable (GotoAfterChange w l)
  | .main _ => inferInstanceAs (Decidable (_ ∧ _ ∧ _))
  | .video => inferInstanceAs (Decidable False)

theorem completesRow_iff {blk : Block} (h : blk.Fits) {grid : Grid} :
    CompletesRow blk grid ↔ ∃ i : Nat, i < 30 ∧ fullRow (rowAt (blockAdd blk grid) i) = true := by
  refine exists_congr fun i => and_congr_right fun hi => ?_
  rw [fullRow, List.all_eq_true]
  refine ⟨fun hall c hc => ?_, fun hall c hc => ?_⟩
  · have hcell : Grid.Cell (blockAdd blk grid) i c :=
      (blockAdd_cell h grid i c).2 ((hall c (List.mem_range.1 hc)).imp_right fun hcell =>
        ⟨hcell, by omega, by omega⟩)
    exact hcell.2.2
  · have hcell : Grid.Cell (blockAdd blk grid) i c :=
      ⟨by omega, by omega, hall c (List.mem_range.2 hc)⟩
    exact ((blockAdd_cell h grid i c).1 hcell).imp_right fun hcell => hcell.1

/-- From the painting to the floor test the buffer shows the piece where it was painted. -/
structure ShowsPainted (w : Option Block × Main) : Prop where
  motion : Motion w.2
  frame : FrameSoFar w.2
  painted : w.2.pc = .present ∨ w.2.pc = .delay → w.1 = some w.2.blk
  shows : w.2.pc = .loop ∨ w.2.pc = .loopDelay ∨ w.2.pc = .floorTest →
    ∀ blk, w.1 = some blk → FrameShows w.2.vbuf blk w.2.grid w.2.score

/-- A piece locked where it was painted, completing no row, leaves nothing stale: its pixels are those
    of the cells it adds to the grid. -/
theorem ShowsPainted.not_locksOverStale {w : Option Block × Main} (h : ShowsPainted w) {l : Label}
    (hl : ¬GotoAfterChange w l) : ¬LocksOverStale w.2 l := by
  cases l with
  | video => exact fun hstale => hstale
  | main env =>
      intro hstale
      obtain ⟨hpc, hfloor, hlit⟩ := hstale
      have hgood : ¬(w.1 ≠ some w.2.blk ∨ CompletesRow w.2.blk w.2.grid) := fun hbad =>
        hl ⟨hpc, hfloor, hbad⟩
      rw [not_or, not_not, completesRow_iff h.motion.fits] at hgood
      obtain ⟨hpainted, hno⟩ := hgood
      have hx : w.2.blk.x = 27 := h.motion.atFloor_iff.1 hfloor
      have hrows : w.2.blk.InRows := Block.inRows_gamma h.motion.gamma h.motion.x_nonneg (by omega)
      have hfull : ∀ i, i < 30 → fullRow (rowAt (blockAdd w.2.blk w.2.grid) i) = false := by
        intro i hi
        exact Bool.eq_false_iff.2 fun hrow => hno ⟨i, hi, hrow⟩
      refine hlit ?_
      rw [show clearRows (blockAdd w.2.blk w.2.grid) w.2.score
        = (blockAdd w.2.blk w.2.grid, w.2.score) from clearLoop_of_not_full 30 _ _ hfull]
      intro p hp q hq hpix
      rcases (h.shows (Or.inr (Or.inr hpc)) w.2.blk hpainted p q hp hq).1 hpix with
        hcell | hcell | himage
      · exact Or.inl ((blockAdd_cell h.motion.fits w.2.grid _ _).2 (Or.inl hcell))
      · exact Or.inl ((blockAdd_cell h.motion.fits w.2.grid _ _).2 (Or.inr ⟨hcell, hrows _ hcell⟩))
      · exact Or.inr (Or.inr himage)

theorem showsPainted_step (cfg : Config) (w : Option Block × Main) (l : Label) (h : ShowsPainted w)
    (hl : ¬GotoAfterChange w l) : ShowsPainted (watch (step cfg) lastPainted w l) := by
  obtain ⟨painted, s⟩ := w
  have hframe := h.frame.step cfg s l (h.not_locksOverStale hl)
  refine ⟨h.motion.step cfg s l, hframe, ?_, ?_⟩
  · apply step_cases (motive := fun s' => s'.pc = .present ∨ s'.pc = .delay →
      lastPainted painted s l = some s'.blk) cfg s l
    case paint =>
        intro env hlabel hpc _
        subst hlabel
        exact if_pos hpc
    case present =>
        intro env _ hpc _
        rw [lastPainted_of_ne painted (by simp [hpc])]
        exact h.painted (Or.inl hpc)
    case video =>
        intro hlabel _ _ hafter
        subst hlabel
        exact h.painted hafter
    case quiet =>
        intro hlabel hafter
        subst hlabel
        exact h.painted hafter
    case moved =>
        intro env _ _ _ hafter
        cases hsitl : cfg.sitl <;> simp [hsitl] at hafter
    all_goals
      intros
      simp_all
  · apply step_cases (motive := fun s' => s'.pc = .loop ∨ s'.pc = .loopDelay ∨ s'.pc = .floorTest →
      ∀ blk, lastPainted painted s l = some blk → FrameShows s'.vbuf blk s'.grid s'.score) cfg s l
    case moved =>
        intro env _ hpc _ _ blk hblk
        rw [lastPainted_of_ne painted (by simp [hpc])] at hblk
        exact h.shows (Or.inl hpc) blk hblk
    case idle =>
        intro env _ hpc _ _ blk hblk
        rw [lastPainted_of_ne painted (by simp [hpc])] at hblk
        exact h.shows (Or.inl hpc) blk hblk
    case wake =>
        intro env _ hpc _ blk hblk
        rw [lastPainted_of_ne painted (by simp [hpc])] at hblk
        exact h.shows (Or.inr (Or.inl hpc)) blk hblk
    case again =>
        -- the frame that was painted is the one the iteration ended with
        intro env _ hpc _ blk hblk
        have hpainted : painted = some s.blk := h.painted (Or.inr hpc)
        rw [lastPainted_of_ne painted (by simp [hpc]), hpainted, Option.some.injEq] at hblk
        subst hblk
        have hshows := h.frame
        simpa only [FrameSoFar, hpc] using hshows
    case video =>
        intro hlabel _ _ hbefore blk hblk
        subst hlabel
        exact (h.shows hbefore blk hblk).congr (draw_pixel cfg s.vbuf s.screen)
    case quiet =>
        intro hlabel hbefore blk hblk
        subst hlabel
        exact h.shows hbefore blk hblk
    case paint =>
        intro env _ _ hbefore
        cases hsitl : cfg.sitl <;> simp [hsitl] at hbefore
    all_goals
      intros
      simp_all

theorem showsPainted_start (t0 : BitVec 32) (screen : Screen) : ShowsPainted (none, start t0 screen) where
  motion := motion_start t0 screen
  frame := frameSoFar_start t0 screen
  painted := by simp [start]
  shows := by simp

/-- **Every frame is exact as long as the floor test locks nothing that changed since it was painted.**
    In a run in which every piece the floor test locks stands as it was last painted and completes no
    row, the buffer is the picture of the game at every final delay. -/
theorem frameExact_of_not_gotoAfterChange (cfg : Config) (t0 : BitVec 32) (screen : Screen)
    (ls : List Label)
    (hno : AllSteps (watch (step cfg) lastPainted) (fun w l => ¬GotoAfterChange w l)
      (none, start t0 screen) ls) :
    AllStates (step cfg) FrameExact (start t0 screen) ls := by
  have hshows := AllStates.of_invariant (showsPainted_step cfg) (showsPainted_start t0 screen) hno
  have hexact : AllStates (watch (step cfg) lastPainted) (fun w => FrameExact w.2)
      (none, start t0 screen) ls := by
    refine hshows.mono fun w h hpc => ?_
    have hframe := h.frame
    simpa only [FrameSoFar, hpc] using hframe
  exact (allStates_watch _ ls).1 hexact

/-- A fall to the floor and the lock there, twenty-eight frames. -/
theorem frameExact_of_not_gotoAfterChange_fullDrop :
    AllStates (step sitlConfig) FrameExact (start 0 .blank) fullDrop :=
  frameExact_of_not_gotoAfterChange sitlConfig 0 .blank fullDrop (by decide +kernel)

/-! ## A stale frame -/

/-- The step calls `vbuf_clear`. -/
def ClearsBuffer (s : Main) : Label → Prop
  | .main _ => s.pc = .floorTest ∧ ¬atFloor s
  | .video => False

instance (s : Main) : (l : Label) → Decidable (ClearsBuffer s l)
  | .main _ => inferInstanceAs (Decidable (_ ∧ _))
  | .video => inferInstanceAs (Decidable False)

/-- Nothing but `vbuf_clear` ever turns a pixel off. -/
theorem lit_step (cfg : Config) {p q : Nat} (s : Main) (l : Label) (h : s.vbuf.pixel p q = true)
    (hl : ¬ClearsBuffer s l) : (step cfg s l).vbuf.pixel p q = true := by
  apply step_cases (motive := fun s' => s'.vbuf.pixel p q = true) cfg s l
  case floorMiss =>
      intro env hlabel hpc hfloor
      subst hlabel
      exact absurd ⟨hpc, hfloor⟩ hl
  case clear =>
      intro env _ _
      cases cfg.shiftClear <;> exact h
  case paint =>
      intro env _ _
      have hlit : s.vbuf.Lit (p, q) := h
      have hscreen : p < 240 ∧ q < 240 := hlit.onScreen
      exact (paintFrame_pixel s.vbuf s.blk s.grid s.score hscreen.1 hscreen.2).2 (Or.inl h)
  case present =>
      intro env _ _
      exact (draw_pixel cfg s.vbuf s.screen p q).trans h
  case video =>
      intro _ _ _
      exact (draw_pixel cfg s.vbuf s.screen p q).trans h
  all_goals
    intros
    exact h

/-- The lock path from the floor test to the painting, in four steps. -/
theorem exec_lockPath (cfg : Config) {s : Main} (hpc : s.pc = .floorTest) (hfloor : atFloor s)
    (env : Env) :
    exec (step cfg) s (List.replicate 4 (.main env))
      = { s with
          grid := (clearRows (blockAdd s.blk s.grid) s.score).1
          blk := blockGamma
          bbox := getBbox blockGamma.pattern
          score := (clearRows (blockAdd s.blk s.grid) s.score).2
          vbuf := (paintFrame (if cfg.shiftClear then vbufSetFlag s.vbuf else s.vbuf) blockGamma
            (clearRows (blockAdd s.blk s.grid) s.score).1
            (clearRows (blockAdd s.blk s.grid) s.score).2).push scoreBox
          pc := if cfg.sitl then .present else .delay } := by
  simp [exec, step, mainStep, hpc, hfloor, List.replicate]

/-- After a lock over a stale frame the very next final delay shows it: the stale pixel is lit and is
    not part of the picture. -/
theorem LocksOverStale.not_frameExact (cfg : Config) {s : Main} {env : Env}
    (h : LocksOverStale s (.main env)) :
    ∃ n, ¬FrameExact (exec (step cfg) s (List.replicate n (.main env))) := by
  obtain ⟨hpc, hfloor, hstale⟩ := h
  simp only [LitWithin, not_forall] at hstale
  obtain ⟨p, hp, q, hq, hlit, hshows⟩ := hstale
  have hpath := exec_lockPath cfg hpc hfloor env
  have hpaint : (exec (step cfg) s (List.replicate 4 (.main env))).vbuf.pixel p q = true := by
    rw [hpath]
    refine (paintFrame_pixel _ _ _ _ hp hq).2 (Or.inl ?_)
    cases cfg.shiftClear <;> exact hlit
  cases hsitl : cfg.sitl with
  | false =>
      refine ⟨4, fun hexact => hshows ?_⟩
      rw [hpath] at hexact hpaint
      exact (hexact (by simp [hsitl]) p q hp hq).1 hpaint
  | true =>
      -- the SITL build draws before it sleeps, which leaves the buffer as it is
      refine ⟨5, fun hexact => hshows ?_⟩
      have hdraw : exec (step cfg) s (List.replicate 5 (.main env))
          = step cfg (exec (step cfg) s (List.replicate 4 (.main env))) (.main env) := by
        rw [List.replicate_succ', exec_append]
        rfl
      rw [hdraw, hpath] at hexact
      rw [hpath] at hpaint
      simp only [step, mainStep, hsitl, if_true] at hexact
      exact (hexact rfl p q hp hq).1 ((draw_pixel cfg _ _ p q).trans hpaint)

/-- A fall to row 26, up to the final delay of that iteration. -/
def dropToRow26 : List Label := drops 0 25 ++ (turn [] 26000).take 6

/-- From there DOWN, and the lock at row 27, up to the next final delay. -/
def downToRow27 : List Label := (turn [] 26000).take 1 ++ (turn [.down] 26000).take 6

/-- The piece locked at row 27 is still drawn at row 26 as well. -/
theorem downToRow27_stale :
    ¬AllStates (step sitlConfig) FrameExact (start 0 .blank) (dropToRow26 ++ downToRow27) := by
  intro h
  -- pixel (208, 0) is part of the picture at row 26
  have hbefore : (exec (step sitlConfig) (start 0 .blank) dropToRow26).vbuf.pixel 208 0 = true :=
    (h.append.first (by decide +kernel) 208 0 (by decide) (by decide)).2 (by decide +kernel)
  -- and nothing clears it until the next frame, of which it is not
  have hnoClear : AllSteps (step sitlConfig) (fun s l => ¬ClearsBuffer s l)
      (exec (step sitlConfig) (start 0 .blank) dropToRow26) downToRow27 := by
    decide +kernel
  have hafter := (AllStates.of_invariant (lit_step sitlConfig) hbefore hnoClear).last
  have hshows := (h.append.last (by decide +kernel) 208 0 (by decide) (by decide)).1 hafter
  exact absurd hshows (by decide +kernel)

end Katetris
