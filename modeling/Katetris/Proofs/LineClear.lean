import Katetris.Lib.Sweep
import Katetris.Tetris

set_option autoImplicit false

/-! # Line clearing

After a lock, `main` walks the rows from the bottom to the top and calls `grid_shift` wherever
`grid_check` finds a full row. Read bottom row first, that is the column walk of `Lib/Sweep.lean`
(`rowsDown_clearLoop`), whose exact domain is known: it removes the full rows and nothing else iff
there is none, or row 0 is empty, no two full rows are adjacent, and above a full row an occupied
row with an empty one below it is itself full (`lineClearExact_iff`). The walk goes wrong outside
that domain because the row that moves into index `i` is not checked again, because `grid_shift`
stops at the first empty row, and because it never writes row 0. One call of `grid_shift` has an exact
domain of its own (`gridShift_eq_plainShift_iff`). -/

namespace Katetris

open Lib

/-! ## Full rows -/

/-- All thirty visible columns are set. -/
def fullRow (row : BitVec 32) : Bool := (List.range 30).all fun c => row.getLsbD c

theorem foldl_and_eq_all (p : Nat → Bool) (l : List Nat) (b : Bool) :
    l.foldl (fun res i => res && p i) b = (b && l.all p) := by
  induction l generalizing b with
  | nil => simp
  | cons i rest ih => rw [List.foldl_cons, ih, List.all_cons, Bool.and_assoc]

/-- `grid_check` looks at exactly the visible columns. -/
theorem gridCheck_eq (grid : Grid) (i : Nat) : gridCheck grid i = fullRow (rowAt grid i) := by
  show (List.range 30).foldl (fun res i' => res && (rowAt grid i).getLsbD i')
    ((rowAt grid i).getLsbD 0) = _
  rw [foldl_and_eq_all, fullRow]
  cases hall : (List.range 30).all (fun c => (rowAt grid i).getLsbD c) with
  | false => simp
  | true =>
      have := List.all_eq_true.1 hall 0 (by simp)
      simpa using this

theorem fullRow_zero : fullRow 0 = false := by decide

theorem ne_zero_of_fullRow {row : BitVec 32} (h : fullRow row = true) : row ≠ 0 := by
  intro hlabel
  subst hlabel
  rw [fullRow_zero] at h
  exact absurd h (by simp)

/-! ## The rows as a column, bottom first -/

/-- The rows below index `n`, from `n - 1` down to 0. -/
def rowsDown (grid : Grid) : Nat → List (BitVec 32)
  | 0 => []
  | n + 1 => rowAt grid n :: rowsDown grid n

theorem rowsDown_congr {grid grid' : Grid} {n : Nat}
    (h : ∀ i, i < n → rowAt grid i = rowAt grid' i) : rowsDown grid n = rowsDown grid' n := by
  induction n with
  | zero => rfl
  | succ n ih => rw [rowsDown, rowsDown, h n (by omega), ih (fun i hi => h i (by omega))]

theorem mem_rowsDown {grid : Grid} {n : Nat} {row : BitVec 32} :
    row ∈ rowsDown grid n ↔ ∃ i, i < n ∧ rowAt grid i = row := by
  induction n with
  | zero => simp [rowsDown]
  | succ n ih =>
      rw [rowsDown, List.mem_cons, ih]
      refine ⟨fun hor => ?_, fun hrow => ?_⟩
      · rcases hor with rfl | ⟨i, hi, rfl⟩
        · exact ⟨n, by omega, rfl⟩
        · exact ⟨i, by omega, rfl⟩
      · obtain ⟨i, hi, rfl⟩ := hrow
        by_cases hin : i = n
        · exact Or.inl (by rw [hin])
        · exact Or.inr ⟨i, by omega, rfl⟩

/-- Row by row, the whole grid read bottom first is its array reversed. -/
theorem rowsDown_eq_reverse (grid : Grid) : rowsDown grid 30 = grid.toList.reverse := by
  have hcol : ∀ n, n ≤ 30 → rowsDown grid n = (grid.toList.take n).reverse := by
    intro n
    induction n with
    | zero => intro _; simp [rowsDown]
    | succ n ih =>
        intro hn
        have hlen : n < grid.toList.length := by simpa using hn
        have hrow : rowAt grid n = grid.toList[n] := by
          simp [rowAt, show n < 30 from hn, vector_get_eq]
        rw [rowsDown, ih (by omega), hrow, List.take_succ_eq_append_getElem hlen,
          List.reverse_append]
        rfl
  have hlen : grid.toList.length = 30 := by simp
  rw [hcol 30 (le_refl _), List.take_of_length_le (by omega)]

/-! ## `grid_shift` and the clearing loop as column walks -/

/-- Rows below the start index (larger indices) are untouched. -/
theorem rowAt_gridShift_of_gt (grid : Grid) (i j : Nat) (hij : i < j) :
    rowAt (gridShift grid i) j = rowAt grid j := by
  induction i generalizing grid with
  | zero => rfl
  | succ i ih =>
      rw [gridShift]
      split
      · rfl
      · rw [ih _ (by omega), rowAt_setIfInBounds, if_neg (by omega)]

/-- **`grid_shift` is the early-exit shift of the column from its start index on.** -/
theorem rowsDown_gridShift (grid : Grid) (i : Nat) (hi : i < 30) :
    rowsDown (gridShift grid i) (i + 1) = shiftDown 0 (rowsDown grid (i + 1)) := by
  induction i generalizing grid with
  | zero => rfl
  | succ i ih =>
      rw [gridShift]
      by_cases hrow : rowAt grid (i + 1) = 0
      · rw [if_pos hrow]
        simp only [rowsDown, shiftDown, hrow, if_true]
      · rw [if_neg hrow]
        set grid' : Grid := grid.setIfInBounds (i + 1) (rowAt grid i) with hgrid'
        have hbelow : rowsDown grid' (i + 1) = rowsDown grid (i + 1) := by
          apply rowsDown_congr
          intro j hj
          rw [hgrid', rowAt_setIfInBounds, if_neg (by omega)]
        have hhead : rowAt grid' (i + 1) = rowAt grid i := by
          rw [hgrid', rowAt_setIfInBounds, if_pos ⟨rfl, hi⟩]
        calc rowsDown (gridShift grid' i) (i + 1 + 1)
            = rowAt (gridShift grid' i) (i + 1) :: rowsDown (gridShift grid' i) (i + 1) := rfl
          _ = rowAt grid i :: shiftDown 0 (rowsDown grid (i + 1)) := by
              rw [rowAt_gridShift_of_gt grid' i (i + 1) (by omega), hhead, ih grid' (by omega),
                hbelow]
          _ = shiftDown 0 (rowsDown grid (i + 1 + 1)) := by
              simp only [rowsDown, shiftDown, if_neg hrow]

theorem rowAt_clearLoop_of_ge (n : Nat) (grid : Grid) (score : Int) (j : Nat) (hj : n ≤ j) :
    rowAt (clearLoop n grid score).1 j = rowAt grid j := by
  induction n generalizing grid score with
  | zero => rfl
  | succ n ih =>
      rw [clearLoop]
      split
      · rw [ih _ _ (by omega), rowAt_gridShift_of_gt grid n j (by omega)]
      · exact ih _ _ (by omega)

/-- **The clearing loop is the column walk**, in what it leaves and in what it counts. -/
theorem rowsDown_clearLoop (n : Nat) (hn : n ≤ 30) (grid : Grid) (score : Int) :
    rowsDown (clearLoop n grid score).1 n = sweep 0 fullRow (rowsDown grid n) ∧
      (clearLoop n grid score).2 = score + sweepCount 0 fullRow (rowsDown grid n) := by
  induction n generalizing grid score with
  | zero => simp [clearLoop, rowsDown, sweep, sweepCount]
  | succ n ih =>
      rw [clearLoop, gridCheck_eq]
      split_ifs with hfull
      · -- a full row: the rows above it move down before the walk goes on
        obtain ⟨ihrows, ihscore⟩ := ih (by omega) (gridShift grid n) (score + 1)
        have hshift := rowsDown_gridShift grid n (by omega)
        rw [rowsDown, rowAt_clearLoop_of_ge n _ _ n (le_refl _), ihrows, ihscore]
        cases n with
        | zero =>
            simp [rowsDown, gridShift, sweep, sweepCount, hfull]
        | succ n =>
            have hcol : rowAt (gridShift grid (n + 1)) (n + 1)
                :: rowsDown (gridShift grid (n + 1)) (n + 1)
                = rowAt grid n :: shiftDown 0 (rowsDown grid (n + 1)) := by
              rw [← rowsDown, hshift]
              simp only [rowsDown, shiftDown, if_neg (ne_zero_of_fullRow hfull)]
            rw [List.cons.injEq] at hcol
            rw [hcol.1, hcol.2]
            simp only [rowsDown, sweep, sweepCount, hfull, if_true]
            exact ⟨trivial, by push_cast; ring⟩
      · obtain ⟨ihrows, ihscore⟩ := ih (by omega) grid score
        rw [Bool.not_eq_true] at hfull
        rw [rowsDown, rowAt_clearLoop_of_ge n _ _ n (le_refl _), ihrows, ihscore, rowsDown,
          sweep_cons_of_not_full hfull, sweepCount_cons_of_not_full hfull]
        exact ⟨rfl, rfl⟩

/-! ## Every row left is a row of the grid -/

theorem forall_rowAt_gridShift {P : BitVec 32 → Prop} (grid : Grid) (h : ∀ j, P (rowAt grid j))
    (n : Nat) : ∀ j, P (rowAt (gridShift grid n) j) := by
  induction n generalizing grid with
  | zero => exact h
  | succ n ih =>
      rw [gridShift]
      split_ifs with hrow
      · exact h
      · apply ih
        intro j
        rw [rowAt_setIfInBounds]
        split_ifs
        · exact h n
        · exact h j

/-- What holds of every row of the grid holds of every row that clearing leaves. -/
theorem forall_rowAt_clearLoop {P : BitVec 32 → Prop} (n : Nat) (grid : Grid) (score : Int)
    (h : ∀ j, P (rowAt grid j)) : ∀ j, P (rowAt (clearLoop n grid score).1 j) := by
  induction n generalizing grid score with
  | zero => exact h
  | succ n ih =>
      rw [clearLoop]
      split_ifs
      · exact ih _ _ (forall_rowAt_gridShift grid h n)
      · exact ih _ _ h

theorem clearLoop_of_not_full (n : Nat) (grid : Grid) (score : Int)
    (h : ∀ i, i < n → fullRow (rowAt grid i) = false) : clearLoop n grid score = (grid, score) := by
  induction n with
  | zero => rfl
  | succ n ih =>
      rw [clearLoop, gridCheck_eq, h n (by omega), if_neg (by simp)]
      exact ih (fun i hi => h i (by omega))

/-! ## The exact domain, row by row -/

theorem endsEmpty_rowsDown (grid : Grid) (n : Nat) :
    EndsEmpty 0 (rowsDown grid (n + 1)) ↔ rowAt grid 0 = 0 := by
  have hlast : (rowsDown grid (n + 1)).getLast? = some (rowAt grid 0) := by
    induction n with
    | zero => rfl
    | succ n ih => rw [rowsDown, rowsDown, List.getLast?_cons_cons]; exact ih
  simp [EndsEmpty, hlast]

theorem noAdjacent_rowsDown (grid : Grid) (n : Nat) :
    NoAdjacent fullRow (rowsDown grid n) ↔
      ∀ i, i + 1 < n → ¬(fullRow (rowAt grid i) = true ∧ fullRow (rowAt grid (i + 1)) = true) := by
  induction n with
  | zero => simp [rowsDown, NoAdjacent]
  | succ n ih =>
      cases n with
      | zero => simp [rowsDown, NoAdjacent]
      | succ n =>
          have hcons : NoAdjacent fullRow (rowsDown grid (n + 1 + 1)) ↔
              ¬(fullRow (rowAt grid (n + 1)) = true ∧ fullRow (rowAt grid n) = true) ∧
                NoAdjacent fullRow (rowsDown grid (n + 1)) := by
            simp only [rowsDown, NoAdjacent, List.isChain_cons_cons]
          rw [hcons, ih]
          refine ⟨fun hboth i hi => ?_, fun h => ?_⟩
          · obtain ⟨hlast, hrest⟩ := hboth
            by_cases hin : i = n
            · rw [hin]
              exact fun h => hlast ⟨h.2, h.1⟩
            · exact hrest i (by omega)
          · exact ⟨fun hlast => h n (by omega) ⟨hlast.2, hlast.1⟩, fun i hi => h i (by omega)⟩

theorem settled_rowsDown (full : BitVec 32 → Bool) (grid : Grid) (n : Nat) :
    Settled 0 full (rowsDown grid n) ↔
      ∀ a b, a < b → b < n → rowAt grid b = 0 →
        rowAt grid a = 0 ∨ full (rowAt grid a) = true := by
  induction n with
  | zero => simp [rowsDown, Settled]
  | succ n ih =>
      rw [rowsDown, Settled]
      split_ifs with hrow
      · constructor
        · intro h a b hab hb _
          exact h _ (mem_rowsDown.2 ⟨a, by omega, rfl⟩)
        · intro h row hmem
          obtain ⟨a, ha, rfl⟩ := mem_rowsDown.1 hmem
          exact h a n ha (by omega) hrow
      · rw [ih]
        refine ⟨fun h a b hab hb hzero => ?_, fun h a b hab hb hzero => ?_⟩
        · by_cases hbn : b = n
          · rw [hbn] at hzero
            exact absurd hzero hrow
          · exact h a b hab (by omega) hzero
        · exact h a b hab (by omega) hzero

theorem settledAbove_rowsDown (grid : Grid) (n : Nat) :
    SettledAbove 0 fullRow (rowsDown grid n) ↔
      ∀ a b c, a < b → b < c → c < n → fullRow (rowAt grid c) = true → rowAt grid b = 0 →
        rowAt grid a = 0 ∨ fullRow (rowAt grid a) = true := by
  induction n with
  | zero => simp [rowsDown, SettledAbove]
  | succ n ih =>
      rw [rowsDown, SettledAbove]
      split_ifs with hfull
      · rw [settled_rowsDown]
        refine ⟨fun h a b c hab hbc hc _ hzero => ?_, fun h a b hab hb hzero => ?_⟩
        · exact h a b hab (by omega) hzero
        · exact h a b n hab hb (by omega) hfull hzero
      · rw [ih]
        refine ⟨fun h a b c hab hbc hc hcfull hzero => ?_, fun h a b c hab hbc hc hcfull hzero => ?_⟩
        · by_cases hcn : c = n
          · rw [hcn] at hcfull
            exact absurd hcfull hfull
          · exact h a b c hab hbc (by omega) hcfull hzero
        · exact h a b c hab hbc (by omega) hcfull hzero

/-! ## The exact domain of `grid_shift` -/

/-- What a shift at row `s` should do: row `s` is gone, the rows above it are one lower, and row 0 is
    empty. -/
def plainShift (grid : Grid) (s : Nat) : Grid :=
  Vector.ofFn fun i =>
    if i.val = 0 then 0 else if i.val ≤ s then rowAt grid (i.val - 1) else rowAt grid i.val

theorem rowAt_plainShift (grid : Grid) (s : Nat) {i : Nat} (hi : i < 30) :
    rowAt (plainShift grid s) i
      = if i = 0 then 0 else if i ≤ s then rowAt grid (i - 1) else rowAt grid i := by
  conv_lhs => rw [rowAt, dif_pos hi, plainShift, vector_get_eq, Vector.getElem_ofFn]

/-- Down from its start index, the plain shift drops the first row and adds an empty one at the end. -/
theorem rowsDown_plainShift (grid : Grid) {s : Nat} (hs : s < 30) :
    rowsDown (plainShift grid s) (s + 1) = (rowsDown grid (s + 1)).tail ++ [0] := by
  have hcol : ∀ n, n ≤ s → rowsDown (plainShift grid s) (n + 1) = rowsDown grid n ++ [0] := by
    intro n
    induction n with
    | zero =>
        intro _
        simp [rowsDown, rowAt_plainShift grid s (show 0 < 30 by norm_num)]
    | succ n ih =>
        intro hn
        have hrow : rowAt (plainShift grid s) (n + 1) = rowAt grid n := by
          rw [rowAt_plainShift grid s (by omega), if_neg (by omega), if_pos hn, Nat.add_sub_cancel]
        rw [rowsDown, ih (by omega), hrow, rowsDown, List.cons_append]
  exact hcol s (le_refl _)

theorem rowsDown_inj {grid grid' : Grid} {n : Nat} :
    rowsDown grid n = rowsDown grid' n ↔ ∀ i, i < n → rowAt grid i = rowAt grid' i := by
  refine ⟨fun h => ?_, rowsDown_congr⟩
  induction n with
  | zero =>
      intro i hi
      omega
  | succ n ih =>
      simp only [rowsDown, List.cons.injEq] at h
      intro i hi
      by_cases hin : i = n
      · rw [hin]
        exact h.1
      · exact ih h.2 i (by omega)

theorem grid_ext {grid grid' : Grid} (h : ∀ i, i < 30 → rowAt grid i = rowAt grid' i) :
    grid = grid' := by
  apply Vector.ext
  intro i hi
  have hrow := h i hi
  rwa [rowAt, rowAt, dif_pos hi, dif_pos hi, vector_get_eq, vector_get_eq] at hrow

/-- **`grid_shift` is the plain shift exactly on these grids**: row 0 is empty and no occupied row from
    the start index up lies above an empty one. Rows below the start index are left alone always. -/
theorem gridShift_eq_plainShift_iff (grid : Grid) {s : Nat} (hs : s < 30) :
    (gridShift grid s = plainShift grid s ↔
      rowAt grid 0 = 0 ∧ ∀ a b, a < b → b ≤ s → rowAt grid b = 0 → rowAt grid a = 0)
      ∧ ∀ r, s < r → rowAt (gridShift grid s) r = rowAt grid r := by
  refine ⟨?_, fun r hr => rowAt_gridShift_of_gt grid s r hr⟩
  have hcolumn : gridShift grid s = plainShift grid s ↔
      rowsDown (gridShift grid s) (s + 1) = rowsDown (plainShift grid s) (s + 1) := by
    rw [rowsDown_inj]
    refine ⟨fun heq i _ => by rw [heq], fun hrows => grid_ext fun i hi => ?_⟩
    by_cases his : i < s + 1
    · exact hrows i his
    · rw [rowAt_gridShift_of_gt grid s i (by omega), rowAt_plainShift grid s hi, if_neg (by omega),
        if_neg (by omega)]
  have hne : rowsDown grid (s + 1) ≠ [] := by simp [rowsDown]
  rw [hcolumn, rowsDown_gridShift grid s hs, rowsDown_plainShift grid hs,
    shiftDown_eq_tail_iff _ hne, endsEmpty_rowsDown, settled_rowsDown]
  simp only [Nat.lt_succ_iff, Bool.false_eq_true, or_false]

/-- A pile of two rows, the lower one full. -/
def pileOfTwo : Grid := (gridClear.set 28 0x7).set 29 0x3FFFFFFF

theorem gridShift_eq_plainShift_iff_pile : gridShift pileOfTwo 29 = plainShift pileOfTwo 29 := by
  have hrows : ∀ b, b ≤ 29 → ∀ a, a < b → rowAt pileOfTwo b = 0 → rowAt pileOfTwo a = 0 := by
    decide +kernel
  exact ((gridShift_eq_plainShift_iff pileOfTwo (by norm_num)).1).2
    ⟨by decide +kernel, fun a b hab hb => hrows b hb a hab⟩

/-! ## Exact clearing -/

/-- What line clearing should do: the rows that were not full, in their order, at the bottom, empty
    rows above them, no full row left, and one point for each full row. -/
structure LineClearExact (grid : Grid) (score : Int) : Prop where
  rows : (clearRows grid score).1.toList
    = List.replicate (grid.toList.countP fullRow) 0
      ++ grid.toList.filter (fun row => !fullRow row)
  noFull : ∀ row ∈ (clearRows grid score).1.toList, fullRow row = false
  points : (clearRows grid score).2 = score + grid.toList.countP fullRow

/-- The grids on which it does. -/
def ClearsExactly (grid : Grid) : Prop :=
  (∀ i, i < 30 → fullRow (rowAt grid i) = false) ∨
    (rowAt grid 0 = 0 ∧
      (∀ i, i + 1 < 30 →
        ¬(fullRow (rowAt grid i) = true ∧ fullRow (rowAt grid (i + 1)) = true)) ∧
      ∀ a b c, a < b → b < c → c < 30 → fullRow (rowAt grid c) = true → rowAt grid b = 0 →
        rowAt grid a = 0 ∨ fullRow (rowAt grid a) = true)

theorem clearsExactly_iff (grid : Grid) :
    ClearsExactly grid ↔
      (∀ row ∈ rowsDown grid 30, fullRow row = false) ∨
        (EndsEmpty 0 (rowsDown grid 30) ∧ NoAdjacent fullRow (rowsDown grid 30) ∧
          SettledAbove 0 fullRow (rowsDown grid 30)) := by
  rw [endsEmpty_rowsDown, noAdjacent_rowsDown, settledAbove_rowsDown, ClearsExactly]
  refine or_congr_left ⟨?_, ?_⟩
  · intro h row hrow
    obtain ⟨i, hi, rfl⟩ := mem_rowsDown.1 hrow
    exact h i hi
  · intro h i hi
    exact h _ (mem_rowsDown.2 ⟨i, hi, rfl⟩)

/-- The packed column, read top row first. -/
theorem packed_rowsDown_reverse (grid : Grid) :
    (packed 0 fullRow (rowsDown grid 30)).reverse
      = List.replicate (grid.toList.countP fullRow) 0
        ++ grid.toList.filter (fun row => !fullRow row) := by
  rw [rowsDown_eq_reverse, packed, List.reverse_append, List.reverse_replicate, List.filter_reverse,
    List.reverse_reverse, List.countP_reverse]

/-- **Line clearing is exact precisely on these grids.** -/
theorem lineClearExact_iff (grid : Grid) (score : Int) :
    LineClearExact grid score ↔ ClearsExactly grid := by
  obtain ⟨hsweep, hcount⟩ := rowsDown_clearLoop 30 (le_refl _) grid score
  have hcount' : (clearRows grid score).2
      = score + sweepCount 0 fullRow (rowsDown grid 30) := hcount
  have hrows : (clearRows grid score).1.toList = (sweep 0 fullRow (rowsDown grid 30)).reverse := by
    rw [← hsweep, rowsDown_eq_reverse, List.reverse_reverse]
    rfl
  have htotal : (rowsDown grid 30).countP (fun row => fullRow row) = grid.toList.countP fullRow := by
    rw [rowsDown_eq_reverse, List.countP_reverse]
  rw [clearsExactly_iff, ← sweep_eq_packed_iff fullRow_zero]
  refine ⟨fun h => ?_, fun heq => ?_⟩
  · have hrev := h.rows
    rw [hrows, ← packed_rowsDown_reverse] at hrev
    exact List.reverse_injective hrev
  · refine ⟨?_, ?_, ?_⟩
    · rw [hrows, heq, packed_rowsDown_reverse]
    · intro row hrow
      rw [hrows, heq, List.mem_reverse] at hrow
      exact not_full_of_mem_packed fullRow_zero hrow
    · rw [hcount', ← htotal]
      rcases (sweep_eq_packed_iff fullRow_zero _).1 heq with hnone | ⟨hend, hadj, _⟩
      · rw [sweepCount_eq_zero_of_not_full hnone,
          List.countP_eq_zero.2 (fun row hrow => by simp [hnone row hrow])]
      · rw [sweepCount_eq_countP fullRow_zero hend hadj]

/-- A grid whose two bottom rows are full and whose other rows are empty. -/
def twoFullRows : Grid := (gridClear.set 28 0x3FFFFFFF).set 29 0x3FFFFFFF

/-- Two adjacent full rows: the upper one moves into row 29 unchecked and stays, for one point. -/
theorem twoFullRows_not_cleared : ¬LineClearExact twoFullRows 0 := by
  intro h
  have hpoints : (clearRows twoFullRows 0).2 = 0 + twoFullRows.toList.countP fullRow := h.points
  exact absurd hpoints (by decide +kernel)

end Katetris
