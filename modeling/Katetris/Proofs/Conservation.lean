import Katetris.Proofs.Locking

set_option autoImplicit false

/-! # Where the cells go

A lock puts the four cells of a piece on the grid, a point is scored when the thirty cells of a full row
are taken off it, and nothing else adds or removes a cell. So at any time the cells on the grid and
thirty for each point make four for each piece locked (`cells_conserved`). That needs a lock to find its
cells free and on the screen, and a shift to find an empty row to shift towards: without one `grid_shift`
runs up to row 0, which it copies and does not clear. The order in which full rows lie, and rows left
hanging above an empty one, do not matter here, although they do to exact clearing. -/

namespace Katetris

open Lib

/-! ## Counting the cells of a grid -/

/-- The visible cells of a row. -/
def rowCells (row : BitVec 32) : Nat := ((Finset.range 30).filter fun c => row.getLsbD c = true).card

theorem rowCells_zero : rowCells 0 = 0 := by
  simp [rowCells]

theorem rowCells_of_fullRow {row : BitVec 32} (h : fullRow row = true) : rowCells row = 30 := by
  have hall : ∀ c ∈ Finset.range 30, row.getLsbD c = true := by
    intro c hc
    rw [fullRow, List.all_eq_true] at h
    exact h c (by simpa using hc)
  rw [rowCells, Finset.filter_true_of_mem hall, Finset.card_range]

theorem sum_rowsDown (w : BitVec 32 → Nat) (grid : Grid) (n : Nat) :
    ((rowsDown grid n).map w).sum = ∑ i ∈ Finset.range n, w (rowAt grid i) := by
  induction n with
  | zero => rfl
  | succ n ih => rw [rowsDown, List.map_cons, List.sum_cons, ih, Finset.sum_range_succ, Nat.add_comm]

/-- Row by row, the occupied cells of a grid that has none off the screen. -/
theorem card_occupied {grid : Grid} (h : Grid.InColumns grid) :
    (Grid.occupied grid).card = ((rowsDown grid 30).map rowCells).sum := by
  have himage : Grid.occupied grid
      = ((Finset.range 30 ×ˢ Finset.range 30).filter fun rc => (rowAt grid rc.1).getLsbD rc.2 = true).image
          fun rc : Nat × Nat => ((rc.1 : Int), (rc.2 : Int)) := by
    ext rc
    obtain ⟨r, c⟩ := rc
    simp only [Grid.mem_occupied, Grid.Cell, Finset.mem_image, Finset.mem_filter, Finset.mem_product,
      Finset.mem_range, Prod.mk.injEq, Prod.exists]
    refine ⟨fun hcell => ?_, fun hrc => ?_⟩
    · obtain ⟨hr, hc, hbit⟩ := hcell
      have hr30 : r.toNat < 30 := by
        by_contra hge
        rw [rowAt_eq_zero grid (by omega)] at hbit
        simp at hbit
      exact ⟨r.toNat, c.toNat, ⟨⟨hr30, h _ _ hbit⟩, hbit⟩, by omega, by omega⟩
    · obtain ⟨r', c', ⟨-, hbit⟩, rfl, rfl⟩ := hrc
      exact ⟨by omega, by omega, hbit⟩
  have hinj : Function.Injective fun rc : Nat × Nat => ((rc.1 : Int), (rc.2 : Int)) := by
    intro rc rc' heq
    simp only [Prod.mk.injEq, Nat.cast_inj] at heq
    exact Prod.ext heq.1 heq.2
  rw [himage, Finset.card_image_of_injective _ hinj, sum_rowsDown, Finset.card_filter,
    Finset.sum_product]
  refine Finset.sum_congr rfl fun i _ => ?_
  rw [rowCells, Finset.card_filter]

/-! ## Clearing -/

/-- There is an empty row above every full one. -/
def RoofedRows (grid : Grid) : Prop :=
  ∀ i, i < 30 → fullRow (rowAt grid i) = true → ∃ j, j < i ∧ rowAt grid j = 0

instance (grid : Grid) : Decidable (RoofedRows grid) :=
  Nat.decidableBallLT 30 fun i _ => fullRow (rowAt grid i) = true → ∃ j, j < i ∧ rowAt grid j = 0

theorem roofed_rowsDown (grid : Grid) (n : Nat) :
    Roofed 0 fullRow (rowsDown grid n) ↔
      ∀ i, i < n → fullRow (rowAt grid i) = true → ∃ j, j < i ∧ rowAt grid j = 0 := by
  induction n with
  | zero => simp [rowsDown, Roofed]
  | succ n ih =>
      rw [rowsDown, Roofed, mem_rowsDown, ih]
      refine ⟨fun h i hi hfull => ?_, fun h => ⟨h n (by omega), fun i hi => h i (by omega)⟩⟩
      by_cases hin : i = n
      · rw [hin] at hfull ⊢
        exact h.1 hfull
      · exact h.2 i (by omega) hfull

theorem clearRows_inColumns {grid : Grid} (h : Grid.InColumns grid) (score : Int) :
    Grid.InColumns (clearRows grid score).1 := by
  intro r c hbit
  have hrows : ∀ j, ∀ c : Nat, (rowAt (clearRows grid score).1 j).getLsbD c = true → c < 30 :=
    forall_rowAt_clearLoop (P := fun row => ∀ c : Nat, row.getLsbD c = true → c < 30) gridRows grid score
      (fun j c hbit => h j c hbit)
  exact hrows r c hbit

/-- The cells on the grid, and thirty for each point. -/
def cellLedger (grid : Grid) (score : Int) : Int := (Grid.occupied grid).card + 30 * score

/-- **Clearing moves cells from the grid to the score.** -/
theorem cellLedger_clearRows {grid : Grid} (h : Grid.InColumns grid) (hroof : RoofedRows grid)
    (score : Int) :
    cellLedger (clearRows grid score).1 (clearRows grid score).2 = cellLedger grid score := by
  obtain ⟨hrows, hscore⟩ := rowsDown_clearLoop 30 (le_refl _) grid score
  have hsum := sum_sweep rowCells_zero (fun _ hfull => rowCells_of_fullRow hfull)
    ((roofed_rowsDown grid 30).2 hroof)
  rw [← hrows] at hsum
  have hafter := card_occupied (clearRows_inColumns h score)
  have hbefore := card_occupied h
  have hpoints : (clearRows grid score).2 = score + sweepCount 0 fullRow (rowsDown grid 30) := hscore
  have hsame : (rowsDown (clearRows grid score).1 30) = rowsDown (clearLoop 30 grid score).1 30 := rfl
  rw [hsame] at hafter
  rw [cellLedger, cellLedger, hafter, hbefore, hpoints, ← hsum]
  push_cast
  ring

/-! ## Along a run -/

/-- A lock finds the cells of the piece free and on the screen. -/
def LocksFree (s : Main) : Label → Prop
  | .main _ => s.pc = .lock → FitsFree s.blk s.grid ∧ s.blk.InColumns
  | .video => True

/-- The clearing loop finds an empty row above every full one. -/
def ClearsUnderRoof (s : Main) : Label → Prop
  | .main _ => s.pc = .clearRows → RoofedRows s.grid
  | .video => True

instance (s : Main) : (l : Label) → Decidable (LocksFree s l)
  | .main _ => inferInstanceAs (Decidable (_ → _ ∧ _))
  | .video => inferInstanceAs (Decidable True)

instance (s : Main) : (l : Label) → Decidable (ClearsUnderRoof s l)
  | .main _ => inferInstanceAs (Decidable (_ → _))
  | .video => inferInstanceAs (Decidable True)

structure CellsVisible (s : Main) : Prop where
  motion : Motion s
  grid : Grid.InColumns s.grid

theorem CellsVisible.step (cfg : Config) (s : Main) (l : Label) (h : CellsVisible s)
    (hl : LocksFree s l ∧ ClearsUnderRoof s l) : CellsVisible (step cfg s l) := by
  refine ⟨h.motion.step cfg s l, ?_⟩
  apply step_cases (motive := fun s' => Grid.InColumns s'.grid) cfg s l
  case lock =>
      intro env hlabel hpc
      subst hlabel
      exact blockAdd_inColumns h.motion.fits (hl.1 hpc).2 h.grid
  case clear =>
      intro env _ _
      exact clearRows_inColumns h.grid s.score
  all_goals
    intros
    exact h.grid

/-- What one step does to the ledger. -/
theorem cellLedger_step (cfg : Config) (s : Main) (l : Label) (h : CellsVisible s)
    (hl : LocksFree s l ∧ ClearsUnderRoof s l) :
    cellLedger (step cfg s l).grid (step cfg s l).score
      = cellLedger s.grid s.score + if Locks s l then 4 else 0 := by
  apply step_cases (motive := fun s' => cellLedger s'.grid s'.score
    = cellLedger s.grid s.score + if Locks s l then 4 else 0) cfg s l
  case lock =>
      intro env hlabel hpc
      subst hlabel
      have hcard := card_occupied_blockAdd h.motion.gamma h.motion.fits (hl.1 hpc).1
      have hlock : Locks s (.main env) := hpc
      rw [if_pos hlock]
      simp only [cellLedger, hcard]
      push_cast
      ring
  case clear =>
      intro env hlabel hpc
      subst hlabel
      have hno : ¬Locks s (.main env) := by simp [Locks, hpc]
      rw [if_neg hno, add_zero]
      exact cellLedger_clearRows h.grid (hl.2 hpc) s.score
  case quiet =>
      intro hlabel
      subst hlabel
      exact (add_zero _).symm
  case video =>
      intro hlabel _ _
      subst hlabel
      exact (add_zero _).symm
  all_goals
    intro env hlabel hpc
    intros
    subst hlabel
    have hno : ¬Locks s (.main env) := by simp [Locks, hpc]
    rw [if_neg hno, add_zero]

theorem occupied_gridClear : Grid.occupied gridClear = ∅ := by
  rw [Finset.eq_empty_iff_forall_notMem]
  intro rc hrc
  obtain ⟨-, -, hbit⟩ := Grid.mem_occupied.1 hrc
  rw [rowAt_gridClear] at hbit
  simp at hbit

/-- **Cells are conserved.** In every run whose locks find their cells free and on the screen and whose
    clearing loops find an empty row above every full one, the cells on the grid and thirty for each
    point are four for each piece locked. -/
theorem cells_conserved (cfg : Config) (t0 : BitVec 32) (screen : Screen) (ls : List Label)
    (hlocks : AllSteps (step cfg) LocksFree (start t0 screen) ls)
    (hclears : AllSteps (step cfg) ClearsUnderRoof (start t0 screen) ls) :
    ((Grid.occupied (exec (step cfg) (start t0 screen) ls).grid).card : Int)
        + 30 * (exec (step cfg) (start t0 screen) ls).score
      = 4 * countSteps (step cfg) Locks (start t0 screen) ls := by
  have hstart : CellsVisible (start t0 screen) := by
    refine ⟨motion_start t0 screen, fun r c hbit => ?_⟩
    rw [show (start t0 screen).grid = gridClear from rfl, rowAt_gridClear] at hbit
    simp at hbit
  have hledger := exec_eq_add_countSteps (C := Locks) (Q := fun s => cellLedger s.grid s.score) (k := 4)
    (CellsVisible.step cfg) (cellLedger_step cfg) hstart (hlocks.and hclears)
  have hzero : cellLedger (start t0 screen).grid (start t0 screen).score = 0 := by
    rw [show (start t0 screen).grid = gridClear from rfl, cellLedger, occupied_gridClear]
    rfl
  rw [hzero, zero_add] at hledger
  exact hledger

/-- A West piece taken down to the floor with column `y` on its left: three turns on the way, and to the
    right before it gets near the floor. -/
def westPiece (y : Nat) : List Label :=
  (List.range (y - 18)).flatMap (fun _ => turn [.right] 0)
    ++ (List.range 27).flatMap fun k =>
      turn (.down :: ((if k < 3 then [.enter] else []) ++ (if k < min y 18 then [.right] else []))) 0

/-- Five of them side by side, from column `y` on. -/
def fivePieces (y : Nat) : List Label := (List.range 5).flatMap fun k => westPiece (y + 3 * k)

/-- One row cleared with the tenth piece, ten cells left of forty. -/
theorem cells_conserved_tenPieces :
    (exec (step sitlConfig) (start 0 .blank) (fivePieces 0 ++ fivePieces 15)).score = 1 ∧
      ((Grid.occupied (exec (step sitlConfig) (start 0 .blank)
          (fivePieces 0 ++ fivePieces 15)).grid).card : Int) + 30 * 1
        = 4 * countSteps (step sitlConfig) Locks (start 0 .blank) (fivePieces 0 ++ fivePieces 15) := by
  have hscore : (exec (step sitlConfig) (start 0 .blank) (fivePieces 0 ++ fivePieces 15)).score = 1 := by
    decide +kernel
  have hfive : AllSteps (step sitlConfig) (fun s l => LocksFree s l ∧ ClearsUnderRoof s l)
      (start 0 .blank) (fivePieces 0) := by
    decide +kernel
  have hten : AllSteps (step sitlConfig) (fun s l => LocksFree s l ∧ ClearsUnderRoof s l)
      (exec (step sitlConfig) (start 0 .blank) (fivePieces 0)) (fivePieces 15) := by
    decide +kernel
  have hcells := cells_conserved sitlConfig 0 .blank (fivePieces 0 ++ fivePieces 15)
    ((hfive.append hten).mono fun _ _ h => h.1) ((hfive.append hten).mono fun _ _ h => h.2)
  rw [hscore] at hcells
  exact ⟨hscore, hcells⟩

end Katetris
