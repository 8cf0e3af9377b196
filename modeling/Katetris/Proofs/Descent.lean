import Katetris.Proofs.Bounds

set_option autoImplicit false

/-! # Descent within one iteration

A piece can go down twice in one iteration, by DOWN and by gravity, and `block_collides` is called once,
after both. If the call at the end of the iteration before was false, one row down is free; the second
row has not been looked at. So without another button the piece stays on free cells, except when DOWN
and gravity both take it down past a floor test that misses and the cells two rows down are occupied
(`descendsFree_iff`). Nothing here depends on the shape of the piece. -/

namespace Katetris

open Lib

/-! ## Overlap -/

/-- Some cell of the piece is an occupied cell of the grid. -/
def Overlaps (blk : Block) (grid : Grid) : Prop := ∃ cell ∈ blk.cells, Grid.Cell grid cell.1 cell.2

instance (blk : Block) (grid : Grid) : Decidable (Overlaps blk grid) :=
  inferInstanceAs (Decidable (∃ cell ∈ blk.cells, _))

theorem Block.cells_down (blk : Block) :
    blk.down.cells = blk.cells.map fun cell => (cell.1 + 1, cell.2) := by
  simp only [Block.cells, List.map_flatMap, List.map_filterMap]
  refine List.flatMap_congr fun i _ => List.filterMap_congr fun j _ => ?_
  have hbit : blk.down.bit i j = blk.bit i j := rfl
  rw [hbit]
  split_ifs
  · simp only [Block.down, Option.map_some]
    rw [add_right_comm]
  · rfl

theorem Block.cell_down {blk : Block} {r c : Int} : blk.down.Cell r c ↔ blk.Cell (r - 1) c := by
  rw [Block.Cell, Block.Cell, Block.cells_down, List.mem_map]
  refine ⟨fun hdown => ?_, fun hcell => ⟨(r - 1, c), hcell, by rw [sub_add_cancel]⟩⟩
  obtain ⟨⟨r', c'⟩, hcell, heq⟩ := hdown
  obtain ⟨rfl, rfl⟩ := Prod.mk.inj heq
  rwa [add_sub_cancel_right]

/-- `block_collides` sees every occupied cell one row below the piece. -/
theorem blockCollides_of_overlaps {blk : Block} {grid : Grid} (oob : Int → BitVec 32) (h : blk.Shifts)
    (hover : Overlaps blk.down grid) : blockCollides oob blk grid = true := by
  obtain ⟨⟨r, c⟩, hcell, hocc⟩ := hover
  refine (blockCollides_iff h).2 ⟨r - 1, c, Block.cell_down.1 hcell, ?_⟩
  rw [sub_add_cancel, Grid.read_of_mem oob grid ⟨hocc.1, hocc.row_lt⟩]
  exact hocc.2.2

/-- With the row below in the grid it sees nothing else. -/
theorem blockCollides_iff_overlaps {blk : Block} {grid : Grid} (oob : Int → BitVec 32) (h : blk.Shifts)
    (hrows : blk.down.InRows) : blockCollides oob blk grid = true ↔ Overlaps blk.down grid := by
  refine ⟨fun hhit => ?_, blockCollides_of_overlaps oob h⟩
  obtain ⟨r, c, hcell, hbit⟩ := (blockCollides_iff h).1 hhit
  have hdown : blk.down.Cell (r + 1) c := Block.cell_down.2 (by rwa [add_sub_cancel_right])
  have hrow : 0 ≤ r + 1 ∧ r + 1 < 30 := hrows (r + 1, c) hdown
  have hcol : 0 ≤ c := by
    obtain ⟨i, j, -, -, -, -, hc⟩ := Block.cell_iff.1 hcell
    have hy := h.y_nonneg
    omega
  rw [Grid.read_of_mem oob grid hrow] at hbit
  exact ⟨(r + 1, c), hdown, hrow.1, hcol, hbit⟩

/-! ## One iteration -/

/-- Only DOWN may be pressed. -/
def OnlyDown (pressed : ButtonStates) : Prop := ∀ b, b ≠ .down → pressed b = false

/-- The step belongs to the descent of an iteration: the main thread has not got to `block_collides`
    or to the lock yet. An iteration reads the buttons once and the clock once, so one `env` holds all
    it reads. -/
def InDescent (env : Env) (s : Main) (l : Label) : Prop :=
  (s.pc = .loop ∨ s.pc = .loopDelay ∨ s.pc = .floorTest ∨ s.pc = .gravity)
    ∧ (l = .main env ∨ l = .video)

/-- At every point of the descent that starts in `s`, the last one included, the piece is on no
    occupied cell. -/
def DescendsFree (cfg : Config) (env : Env) (s : Main) : Prop :=
  ∀ ls, AllSteps (step cfg) (InDescent env) s ls →
    ¬Overlaps (exec (step cfg) s ls).blk (exec (step cfg) s ls).grid

/-- The guard of DOWN lets the piece move. -/
def DownFits (blk : Block) : Prop :=
  blk.x + (getBbox blk.pattern).x < gridRows - (getBbox blk.pattern).sizex

instance (blk : Block) : Decidable (DownFits blk) := inferInstanceAs (Decidable (_ < _))

/-- DOWN moves the piece, the floor test misses it, gravity takes it down again, and the cells it then
    has are occupied. -/
def Tunnels (env : Env) (s : Main) : Prop :=
  env.buttons .down = true ∧ DownFits s.blk ∧ ¬atFloor { s with blk := s.blk.down }
    ∧ gravityFires s env ∧ Overlaps s.blk.down.down s.grid

instance (env : Env) (s : Main) : Decidable (Tunnels env s) :=
  inferInstanceAs (Decidable (_ ∧ _ ∧ _ ∧ _ ∧ _))

/-! ## Where the buttons leave the piece -/

/-- The guard of LEFT lets the piece move. -/
def LeftFits (blk : Block) : Prop := blk.y + (getBbox blk.pattern).y > 0

/-- The guard of RIGHT lets the piece move. -/
def RightFits (blk : Block) : Prop :=
  blk.y + (getBbox blk.pattern).y < gridCols - (getBbox blk.pattern).sizey - 1

instance (blk : Block) : Decidable (LeftFits blk) := inferInstanceAs (Decidable (_ < _))

instance (blk : Block) : Decidable (RightFits blk) := inferInstanceAs (Decidable (_ < _))

/-- The piece `dx` rows lower and `dy` columns to the right, turned or not. -/
def Block.moved (blk : Block) (dx dy : Int) (turned : Bool) : Block where
  ptrs := blk.ptrs
  ori := if turned then blk.ori.next else blk.ori
  x := blk.x + dx
  y := blk.y + dy

/-- The columns LEFT and RIGHT take the piece, each under its guard, LEFT first. -/
def sideways (pressed : ButtonStates) (blk : Block) : Int :=
  let left : Int := if pressed .left = true ∧ LeftFits blk then -1 else 0
  left + if pressed .right = true ∧ RightFits (blk.moved 0 left false) then 1 else 0

/-- The rows DOWN takes it, under its guard. -/
def downwards (pressed : ButtonStates) (blk : Block) : Int :=
  if pressed .down = true ∧ DownFits blk then 1 else 0

/-- LEFT, RIGHT or ENTER change the columns of the piece or its orientation. -/
def MovesAside (pressed : ButtonStates) (blk : Block) : Prop :=
  sideways pressed blk ≠ 0 ∨ pressed .enter = true

instance (pressed : ButtonStates) (blk : Block) : Decidable (MovesAside pressed blk) :=
  inferInstanceAs (Decidable (_ ∨ _))

/-- **Where the four buttons leave the piece.** -/
theorem buttonsDoAction_eq_moved (blk : Block) (pressed : ButtonStates) :
    (buttonsDoAction blk pressed).1
      = blk.moved (downwards pressed blk) (sideways pressed blk) (pressed .enter) := by
  have hx : (buttonsDoAction blk pressed).1.x = blk.x + downwards pressed blk := by
    rw [buttonsDoAction_x, downwards]
    by_cases hdown : pressed .down = true ∧ DownFits blk
    · rw [if_pos hdown]
      exact if_pos hdown
    · rw [if_neg hdown, add_zero]
      exact if_neg hdown
  have hleft : (pressLeft (getBbox blk.pattern) pressed (blk, false)).1.y
      = blk.y + if pressed .left = true ∧ LeftFits blk then -1 else 0 := by
    rw [pressLeft_y]
    by_cases hpress : pressed .left = true ∧ LeftFits blk
    · rw [if_pos hpress]
      exact if_pos hpress
    · rw [if_neg hpress, add_zero]
      exact if_neg hpress
  have hy : (buttonsDoAction blk pressed).1.y = blk.y + sideways pressed blk := by
    rw [buttonsDoAction_y, pressRight_y, hleft, sideways, ← add_assoc]
    generalize (if pressed .left = true ∧ LeftFits blk then (-1 : Int) else 0) = left
    by_cases hpress : pressed .right = true ∧ RightFits (blk.moved 0 left false)
    · rw [if_pos hpress]
      exact if_pos hpress
    · rw [if_neg hpress, add_zero]
      exact if_neg hpress
  calc (buttonsDoAction blk pressed).1
      = ⟨(buttonsDoAction blk pressed).1.ptrs, (buttonsDoAction blk pressed).1.ori,
          (buttonsDoAction blk pressed).1.x, (buttonsDoAction blk pressed).1.y⟩ := rfl
    _ = _ := by rw [buttonsDoAction_ptrs, buttonsDoAction_ori, hx, hy, Block.moved]

/-- Without a move to the side or a turn there is at most a step down. -/
theorem buttonsDoAction_of_not_movesAside {blk : Block} {pressed : ButtonStates}
    (h : ¬MovesAside pressed blk) :
    (buttonsDoAction blk pressed).1
      = if pressed .down = true ∧ DownFits blk then blk.down else blk := by
  rw [MovesAside, not_or, not_not, Bool.not_eq_true] at h
  rw [buttonsDoAction_eq_moved, h.1, h.2, downwards]
  split_ifs <;> simp [Block.moved, Block.down]

/-! ## The descent of an iteration -/

theorem buttonsDoAction_onlyDown {pressed : ButtonStates} (h : OnlyDown pressed) (blk : Block) :
    buttonsDoAction blk pressed
      = if pressed .down = true ∧ DownFits blk then (blk.down, true) else (blk, false) := by
  have hleft := h .left (by simp)
  have hright := h .right (by simp)
  have henter := h .enter (by simp)
  simp only [buttonsDoAction, pressLeft, pressRight, pressDown, pressEnter, hleft, hright, henter,
    DownFits, Bool.false_eq_true, false_and, if_false]
  rfl

/-- Where the descent has got to: `blk` is where the buttons left the piece, `s` the state the
    iteration started in. -/
structure Descent (env : Env) (s : Main) (blk : Block) (s' : Main) : Prop where
  grid : s'.grid = s.grid
  bbox : s'.bbox = s.bbox
  clock : s'.pc ≠ .collides → s'.tLast = s.tLast
  piece : match s'.pc with
    | .loop => s'.blk = s.blk
    | .loopDelay | .floorTest | .lock => s'.blk = blk
    | .gravity => s'.blk = blk ∧ ¬atFloor { s with blk := blk }
    | .collides =>
        s'.blk = blk ∨ s'.blk = blk.down ∧ ¬atFloor { s with blk := blk } ∧ gravityFires s env
    | _ => False

theorem Descent.step (cfg : Config) {env : Env} {s : Main} (s' : Main) (l : Label)
    (h : Descent env s (buttonsDoAction s.blk env.buttons).1 s') (hl : InDescent env s' l) :
    Descent env s (buttonsDoAction s.blk env.buttons).1 (step cfg s' l) := by
  obtain ⟨hgrid, hbbox, hclock, hpiece⟩ := h
  obtain ⟨hwhere, hlabel⟩ := hl
  have henv : ∀ env', l = .main env' → env' = env := by
    intro env' hmain
    rcases hlabel with heq | heq
    · exact Label.main.inj (hmain.symm.trans heq)
    · rw [heq] at hmain
      exact absurd hmain (by simp)
  have hlast : s'.tLast = s.tLast :=
    hclock (by rcases hwhere with hpc | hpc | hpc | hpc <;> simp [hpc])
  apply step_cases (motive := Descent env s (buttonsDoAction s.blk env.buttons).1) cfg s' l
  case moved =>
      intro env' hmain hpc _
      obtain rfl := henv env' hmain
      simp only [hpc] at hpiece
      refine ⟨hgrid, hbbox, fun _ => hlast, ?_⟩
      cases cfg.sitl <;> simp [hpiece]
  case idle =>
      intro env' hmain hpc _
      obtain rfl := henv env' hmain
      simp only [hpc] at hpiece
      exact ⟨hgrid, hbbox, fun _ => hlast, by simp [hpiece]⟩
  case wake =>
      intro env' _ hpc
      simp only [hpc] at hpiece
      exact ⟨hgrid, hbbox, fun _ => hlast, hpiece⟩
  case floorHit =>
      intro env' _ hpc _
      simp only [hpc] at hpiece
      exact ⟨hgrid, hbbox, fun _ => hlast, hpiece⟩
  case floorMiss =>
      intro env' _ hpc hfloor
      simp only [hpc] at hpiece
      rw [atFloor, hpiece, hbbox] at hfloor
      exact ⟨hgrid, hbbox, fun _ => hlast, hpiece, hfloor⟩
  case fall =>
      intro env' hmain hpc hfires
      obtain rfl := henv env' hmain
      simp only [hpc] at hpiece
      rw [gravityFires, hlast] at hfires
      refine ⟨hgrid, hbbox, fun hne => absurd rfl hne, Or.inr ⟨?_, hpiece.2, hfires⟩⟩
      rw [hpiece.1]
  case stay =>
      intro env' _ hpc _
      simp only [hpc] at hpiece
      exact ⟨hgrid, hbbox, fun hne => absurd rfl hne, Or.inl hpiece.1⟩
  case video =>
      intro _ _ _
      exact ⟨hgrid, hbbox, fun _ => hlast, hpiece⟩
  case quiet => exact fun _ => ⟨hgrid, hbbox, fun _ => hlast, hpiece⟩
  all_goals
    intro env' _ hpc
    intros
    simp [hpc] at hwhere

/-- The piece is where the iteration found it, where the buttons left it, or one row below that. -/
theorem Descent.blk_cases {env : Env} {s : Main} {blk : Block} {s' : Main}
    (h : Descent env s blk s') :
    s'.blk = s.blk ∨ s'.blk = blk
      ∨ s'.blk = blk.down ∧ ¬atFloor { s with blk := blk } ∧ gravityFires s env := by
  have hpiece := h.piece
  cases hpc : s'.pc <;> simp only [hpc] at hpiece
  case loop => exact Or.inl hpiece
  case gravity => exact Or.inr (Or.inl hpiece.1)
  case collides => exact Or.inr hpiece
  all_goals exact Or.inr (Or.inl hpiece)

/-- A piece with a cell in the field can be shifted to its column. -/
theorem Block.InColumns.shifts {blk : Block} (h : blk.InColumns) (hsmall : ∀ i, rowAt blk.pattern i < 8)
    (hy : 0 ≤ blk.y) {r c : Int} (hcell : blk.Cell r c) : blk.Shifts := by
  obtain ⟨i, j, -, -, -, -, hc⟩ := Block.cell_iff.1 hcell
  have hcol : 0 ≤ c ∧ c < 30 := h (r, c) hcell
  exact ⟨hsmall, hy, by omega⟩

/-- A call of `block_collides` that is false has seen the row below to be free. -/
theorem Block.InColumns.not_overlaps_down {blk : Block} (h : blk.InColumns)
    (hsmall : ∀ i, rowAt blk.pattern i < 8) (hy : 0 ≤ blk.y) {oob : Int → BitVec 32} {grid : Grid}
    (hno : blockCollides oob blk grid = false) : ¬Overlaps blk.down grid := by
  intro hover
  have hshifts : blk.Shifts := by
    obtain ⟨⟨r, c⟩, hcell, -⟩ := hover
    exact h.shifts hsmall hy (Block.cell_down.1 hcell)
  rw [blockCollides_of_overlaps oob hshifts hover] at hno
  exact absurd hno (by simp)

/-- The run that takes both steps down. -/
theorem exec_tunnels (cfg : Config) {env : Env} {s : Main} (hpc : s.pc = .loop)
    (hdown : OnlyDown env.buttons) (h : Tunnels env s) :
    ∃ ls, AllSteps (step cfg) (InDescent env) s ls
      ∧ (exec (step cfg) s ls).blk = s.blk.down.down ∧ (exec (step cfg) s ls).grid = s.grid := by
  obtain ⟨hpress, hfits, hfloor, hfires, -⟩ := h
  have hbuttons : buttonsDoAction s.blk env.buttons = (s.blk.down, true) := by
    rw [buttonsDoAction_onlyDown hdown, if_pos ⟨hpress, hfits⟩]
  -- neither test reads the buffer or the program counter
  have hfloor' : ∀ vbuf pc, ¬atFloor { s with blk := s.blk.down, vbuf := vbuf, pc := pc } :=
    fun _ _ => hfloor
  have hfires' : ∀ blk vbuf pc, gravityFires { s with blk := blk, vbuf := vbuf, pc := pc } env :=
    fun _ _ _ => hfires
  refine ⟨List.replicate (if cfg.sitl then 3 else 4) (.main env), ?_⟩
  cases hsitl : cfg.sitl <;>
    simp [List.replicate, AllSteps, InDescent, step, mainStep, hwLoop, hpc, hbuttons, hsitl, hfloor',
      hfires']

/-- **One iteration tunnels only in this way.** Let the piece be in the field and on free cells, with
    `block_collides` false, at the start of an iteration in which no button but DOWN is pressed. It
    stays on free cells up to the collision test or the lock of that iteration exactly when it is not
    taken down twice onto occupied cells. -/
theorem descendsFree_iff (cfg : Config) (env : Env) (s : Main) (hpc : s.pc = .loop)
    (hsmall : ∀ i, rowAt s.blk.pattern i < 8) (hy : 0 ≤ s.blk.y) (hcols : s.blk.InColumns)
    (hfree : ¬Overlaps s.blk s.grid) (oob : Int → BitVec 32)
    (hno : blockCollides oob s.blk s.grid = false) (hdown : OnlyDown env.buttons) :
    DescendsFree cfg env s ↔ ¬Tunnels env s := by
  refine ⟨fun hdescends htunnels => ?_, fun hnot ls hls hover => ?_⟩
  · obtain ⟨ls, hls, hblk, hgrid⟩ := exec_tunnels cfg hpc hdown htunnels
    refine hdescends ls hls ?_
    rw [hblk, hgrid]
    exact htunnels.2.2.2.2
  · have hstart : Descent env s (buttonsDoAction s.blk env.buttons).1 s :=
      ⟨rfl, rfl, fun _ => rfl, by simp [hpc]⟩
    have hlast := (AllStates.of_invariant (Descent.step cfg) hstart hls).last
    have hdownFree := hcols.not_overlaps_down hsmall hy hno
    have hmoved : ¬Overlaps (buttonsDoAction s.blk env.buttons).1 s.grid := by
      rw [buttonsDoAction_onlyDown hdown]
      split_ifs
      · exact hdownFree
      · exact hfree
    rw [hlast.grid] at hover
    rcases hlast.blk_cases with hblk | hblk | ⟨hblk, hfloor, hfires⟩
    · exact hfree (by rwa [hblk] at hover)
    · exact hmoved (by rwa [hblk] at hover)
    · -- gravity took the piece down: once is seen by `block_collides`, twice is not
      rw [hblk] at hover
      rw [buttonsDoAction_onlyDown hdown] at hover hfloor
      split_ifs at hover hfloor with hpress
      · exact hnot ⟨hpress.1, hpress.2, hfloor, hfires, hover⟩
      · exact hdownFree hover

/-- A piece four rows above one that is locked on the floor. -/
def aboveFirst : Main :=
  { start 0 .blank with
    blk := ⟨patternsGamma, .north, 23, 0⟩
    grid := blockAdd ⟨patternsGamma, .north, 27, 0⟩ gridClear }

/-- DOWN held at a clock reading. -/
def downAt (millis : BitVec 32) : Env := ⟨ButtonStates.only [.down], millis, fun _ => 0⟩

theorem onlyDown_downAt (millis : BitVec 32) : OnlyDown (downAt millis).buttons := by
  intro b hb
  cases b <;> simp_all [downAt, ButtonStates.only]

/-- With DOWN alone the piece comes down one row, onto free cells. -/
theorem descendsFree_iff_aboveFirst : DescendsFree sitlConfig (downAt 0) aboveFirst :=
  (descendsFree_iff sitlConfig (downAt 0) aboveFirst rfl
    (@Block.fits_gamma aboveFirst.blk rfl (by decide) (by decide)).small (by decide) (by decide)
    (by decide +kernel) (fun _ => 0) (by decide +kernel) (onlyDown_downAt 0)).2 (by decide +kernel)

/-- With DOWN and gravity in one iteration it comes down two rows, and its lowest cell is on the top
    one of the locked piece. -/
theorem aboveFirst_tunnels :
    (aboveFirst.blk.InRows ∧ aboveFirst.blk.InColumns ∧ ¬Overlaps aboveFirst.blk aboveFirst.grid
      ∧ blockCollides (fun _ => 0) aboveFirst.blk aboveFirst.grid = false)
      ∧ ¬DescendsFree sitlConfig (downAt 1000) aboveFirst := by
  refine ⟨by decide +kernel, fun hdescends => ?_⟩
  have htunnels : Tunnels (downAt 1000) aboveFirst := by decide +kernel
  obtain ⟨ls, hls, hblk, hgrid⟩ := exec_tunnels sitlConfig rfl (onlyDown_downAt 1000) htunnels
  refine hdescends ls hls ?_
  rw [hblk, hgrid]
  exact htunnels.2.2.2.2

end Katetris
