import Katetris.Proofs.Motion
import Katetris.Proofs.Redraw

set_option autoImplicit false

/-! # Redraw requests

Three places of an iteration ask for a part of the screen to be redrawn: `hw->loop` after a move and
the gravity step push the strip around the piece, and every frame pushes the box of the score. A strip
is computed from the position after the move alone; `updateMask_stripFor` says that it covers the piece
before and after whatever the move was.

The stack of the requests has 16 entries, and `draw` does not empty it at the end of an iteration that
locked a piece. Counting requests over such streaks says when a push fails
(`pushSucceeds_iff_streaksFit`). -/

namespace Katetris

open Lib

/-! ## Requests -/

/-- Pixel `(p, q)` is in a box on the update stack. -/
def VBuf.Covered (vbuf : VBuf) (p q : Nat) : Prop := ∃ box ∈ vbuf.updStack.arr, box.Covers p q

instance (vbuf : VBuf) (p q : Nat) : Decidable (vbuf.Covered p q) :=
  inferInstanceAs (Decidable (∃ box ∈ vbuf.updStack.arr, _))

/-- A push to this stack is not lost: there is room, or the box is there already. -/
def VBuf.Accepts (vbuf : VBuf) (box : BBox) : Prop :=
  vbuf.updStack.size < stackSize ∨ box ∈ vbuf.updStack.arr

instance (vbuf : VBuf) (box : BBox) : Decidable (vbuf.Accepts box) :=
  inferInstanceAs (Decidable (_ ∨ _))

theorem VBuf.mem_push {vbuf : VBuf} {box box' : BBox} (h : box' ∈ (vbuf.push box).updStack.arr) :
    box' = box ∨ box' ∈ vbuf.updStack.arr := by
  rw [VBuf.push_arr] at h
  split_ifs at h
  · exact List.mem_cons.1 h
  · exact Or.inr h

theorem VBuf.mem_push_of_mem {vbuf : VBuf} {box box' : BBox} (h : box' ∈ vbuf.updStack.arr) :
    box' ∈ (vbuf.push box).updStack.arr := by
  rw [VBuf.push_arr]
  split_ifs
  · exact List.mem_cons_of_mem _ h
  · exact h

theorem VBuf.Accepts.mem_push {vbuf : VBuf} {box : BBox} (h : vbuf.Accepts box) :
    box ∈ (vbuf.push box).updStack.arr := by
  rcases h with hroom | hmem
  · rw [VBuf.push_arr, if_pos hroom]
    exact List.mem_cons_self
  · exact VBuf.mem_push_of_mem hmem

theorem VBuf.size_push_le (vbuf : VBuf) (box : BBox) :
    (vbuf.push box).updStack.size ≤ vbuf.updStack.size + 1 := by
  unfold BBoxStack.size
  rw [VBuf.push_arr]
  split_ifs
  · exact le_of_eq (List.length_cons)
  · exact Nat.le_succ _

theorem VBuf.Covered.push {vbuf : VBuf} {p q : Nat} (h : vbuf.Covered p q) (box : BBox) :
    (vbuf.push box).Covered p q := by
  obtain ⟨box', hmem, hcovers⟩ := h
  exact ⟨box', VBuf.mem_push_of_mem hmem, hcovers⟩

/-! ## The strip of a move -/

theorem updateMask_aligned {blk : Block} (hy : 0 ≤ blk.y ∧ blk.y ≤ 28) : (updateMask blk).Aligned := by
  constructor <;> simp only [updateMask, gridStep, dispCols, blockHeight, Nat.cast_ofNat] <;> omega

theorem scoreBox_aligned : scoreBox.Aligned := by
  constructor <;> simp [scoreBox, charSize]

theorem updateMask_covers {blk : Block} {p q : Nat} (hp : p < 240) (hq : q < 240)
    (hlo : blk.y - 2 ≤ (q / 8 : Nat)) (hhi : ((q / 8 : Nat) : Int) ≤ blk.y + 4) :
    (updateMask blk).Covers p q := by
  simp only [BBox.Covers, updateMask, gridStep, dispCols, blockHeight, Nat.cast_ofNat]
  omega

theorem Block.Cell.column {blk : Block} (h : blk.ptrs = patternsGamma) {r c : Int}
    (hcell : blk.Cell r c) : blk.y ≤ c ∧ c ≤ blk.y + 2 := by
  obtain ⟨o, ho, -, hc⟩ := (Block.cell_gamma h).1 hcell
  have hsmall := (gammaOffsets_lt blk.ori o ho).2
  omega

theorem buttonsDoAction_y_near {blk : Block} (h : blk.ptrs = patternsGamma) (pressed : ButtonStates) :
    (buttonsDoAction blk pressed).1.y - 1 ≤ blk.y ∧ blk.y ≤ (buttonsDoAction blk pressed).1.y + 1 := by
  rw [buttonsDoAction_y_gamma h]
  simp only
  split_ifs <;> omega

theorem paintFrame_requests (vbuf : VBuf) (blk : Block) (grid : Grid) (score : Int) :
    (paintFrame vbuf blk grid score).requests = vbuf.requests := by
  rw [paintFrame, textDrawNumber_requests, gridDraw_requests, blockDraw_requests]

/-- The image of the score stays inside the box that is pushed for it. -/
theorem inNumber_scoreBox {v : BitVec 8} {p q : Nat} (h : InNumber v 0 0 (p, q)) :
    scoreBox.Covers p q := by
  have hchar : ∀ c : BitVec 8, InChar c 0 0 (p, q) → scoreBox.Covers p q := by
    intro c hglyph
    obtain ⟨-, entry, -, -, i, hi, j, hj, -, hrect⟩ := hglyph
    rw [List.mem_range] at hi hj
    simp only [InRect, gridStep, zero_add] at hrect
    simp only [BBox.Covers, scoreBox, gridStep, charSize]
    obtain ⟨hp, hq, hx, hx', hy, hy'⟩ := hrect
    rw [Int.tdiv_eq_ediv_of_nonneg (by positivity)] at hx hx' hy hy'
    omega
  unfold InNumber at h
  split_ifs at h
  · exact hchar 0 h
  · obtain ⟨d, -, hd⟩ := h
    exact hchar _ hd

/-! ## What a strip covers -/

/-- The box pushed after a move from `before` to `after` is on the raster, starts on the screen, is not
    empty once clipped to it, and contains the visible pixels of the piece at both places. -/
structure StripFor (before after : Block) : Prop where
  aligned : (updateMask after).Aligned
  columns : 0 < min ((updateMask after).x + (updateMask after).sizex) 240 - (updateMask after).x
  rows : 0 < min ((updateMask after).y + (updateMask after).sizey) 240 - (updateMask after).y
  coversBefore : ∀ p q : Nat, p < 240 → q < 240 → before.Cell (p / 8 : Nat) (q / 8 : Nat) →
    (updateMask after).Covers p q
  coversAfter : ∀ p q : Nat, p < 240 → q < 240 → after.Cell (p / 8 : Nat) (q / 8 : Nat) →
    (updateMask after).Covers p q

theorem stripFor_of_near {before after : Block} (h : before.ptrs = patternsGamma)
    (h' : after.ptrs = patternsGamma) (hy' : 0 ≤ after.y ∧ after.y ≤ 28)
    (hnear : after.y - 1 ≤ before.y ∧ before.y ≤ after.y + 1) : StripFor before after := by
  have haligned := updateMask_aligned hy'
  have hx := haligned.x_mem
  have hy := haligned.y_mem
  have hsizex := haligned.sizex_pos
  have hsizey := haligned.sizey_pos
  refine ⟨haligned, by omega, by omega, ?_, ?_⟩
  · intro p q hp hq hcell
    have hcol := hcell.column h
    exact updateMask_covers hp hq (by omega) (by omega)
  · intro p q hp hq hcell
    have hcol := hcell.column h'
    exact updateMask_covers hp hq (by omega) (by omega)

/-- **One strip is enough for every move.** The margins of two columns on either side of the position
    after the move contain the position before it, whatever buttons were pressed; a fall stays in its
    columns. -/
theorem updateMask_stripFor {blk : Block} (h : blk.ptrs = patternsGamma)
    (hy : 0 ≤ blk.y ∧ blk.y ≤ 28) :
    (∀ pressed, StripFor blk (buttonsDoAction blk pressed).1) ∧ StripFor blk blk.down := by
  refine ⟨fun pressed => ?_, ?_⟩
  · have h' : (buttonsDoAction blk pressed).1.ptrs = patternsGamma := by
      rw [buttonsDoAction_ptrs, h]
    exact stripFor_of_near h h' (buttonsDoAction_y_bounds h pressed hy)
      (buttonsDoAction_y_near h pressed)
  · have hdown : blk.down.ptrs = patternsGamma := h
    refine stripFor_of_near h hdown hy ?_
    simp only [Block.down]
    omega

/-- A West piece at the right wall, moved left, down and turned at once. -/
theorem updateMask_stripFor_atWall :
    StripFor ⟨patternsGamma, .west, 5, 27⟩
      (buttonsDoAction ⟨patternsGamma, .west, 5, 27⟩ (.only [.left, .down, .enter])).1 :=
  (@updateMask_stripFor ⟨patternsGamma, .west, 5, 27⟩ rfl (by decide)).1 _

/-! ## The requests of a run -/

/-- The box a step asks to be redrawn: the strip after a move or a fall, the score with every frame. -/
def Main.request (s : Main) : Label → Option BBox
  | .main env =>
      match s.pc with
      | .loop =>
          if (buttonsDoAction s.blk env.buttons).2 then
            some (updateMask (buttonsDoAction s.blk env.buttons).1)
          else none
      | .gravity => if gravityFires s env then some (updateMask s.blk.down) else none
      | .paint => some scoreBox
      | _ => none
  | .video => none

/-- The push of the step, if it makes one, returns true. -/
def PushSucceeds (s : Main) (l : Label) : Prop :=
  ∀ box ∈ s.request l, (bboxStackPush s.vbuf.updStack box).2 = true

instance (s : Main) (l : Label) : Decidable (PushSucceeds s l) :=
  inferInstanceAs (Decidable (∀ box ∈ s.request l, _))

theorem bboxStackPush_snd (stack : BBoxStack) (box : BBox) :
    (bboxStackPush stack box).2 = true ↔ stack.size < stackSize := by
  unfold bboxStackPush
  split <;> simp [*]

theorem pushSucceeds_iff {s : Main} {l : Label} :
    PushSucceeds s l ↔ ((s.request l).isSome → s.vbuf.updStack.size < stackSize) := by
  unfold PushSucceeds
  cases hreq : s.request l with
  | none => simp
  | some box => simp [bboxStackPush_snd]

theorem VBuf.push_size {vbuf : VBuf} {box : BBox} (h : vbuf.updStack.size < stackSize) :
    (vbuf.push box).updStack.size = vbuf.updStack.size + 1 := by
  unfold BBoxStack.size
  rw [VBuf.push_arr, if_pos h, List.length_cons]

/-- `draw` empties the stack unless the flag makes it redraw everything instead. -/
theorem draw_stack (cfg : Config) (vbuf : VBuf) (screen : Screen) :
    (draw cfg vbuf screen).1.updStack.size = (if vbuf.clearFlag then vbuf.updStack.size else 0)
      ∧ (draw cfg vbuf screen).1.clearFlag = false := by
  have hloop : (drawLoop cfg vbuf screen).1.updStack.size = 0
      ∧ (drawLoop cfg vbuf screen).1.clearFlag = vbuf.clearFlag := by
    induction vbuf, screen using drawLoop.induct cfg with
    | case1 vbuf screen hnil =>
        rw [drawLoop_nil cfg screen hnil]
        exact ⟨by simp [BBoxStack.size, hnil], rfl⟩
    | case2 vbuf screen bbox rest hcons vbuf' ih =>
        rw [drawLoop_cons cfg screen hcons]
        exact ih
  unfold draw
  split_ifs with hflag
  · exact ⟨rfl, rfl⟩
  · exact ⟨hloop.1, by simpa [hflag] using hloop.2⟩

/-! ## Streaks of locks -/

/-- What is counted along a run: the boxes requested since the last iteration without a lock, and
    whether this iteration has locked a piece. -/
structure Streak where
  requested : Nat
  locked : Bool

/-- With `SHIFT_CLEAR` a lock keeps `draw` from emptying the stack at the end of its iteration. -/
def Streak.step (cfg : Config) (s : Main) (l : Label) (k : Streak) : Streak :=
  match l with
  | .main _ =>
      match s.pc with
      | .clearRows => { k with locked := k.locked || cfg.shiftClear }
      | .present => { requested := if k.locked then k.requested else 0, locked := false }
      | _ => { k with requested := k.requested + (s.request l).toList.length }
  | .video => k

/-- No streak of iterations that each lock a piece, together with the iteration after it, requests
    more boxes than the stack holds. -/
def StreaksFit (cfg : Config) : Streak → Main → List Label → Prop
  | _, _, [] => True
  | k, s, l :: ls =>
      ((s.request l).isSome → k.requested < stackSize)
        ∧ StreaksFit cfg (k.step cfg s l) (step cfg s l) ls

instance StreaksFit.decidable (cfg : Config) :
    ∀ (k : Streak) (s : Main) (ls : List Label), Decidable (StreaksFit cfg k s ls)
  | _, _, [] => isTrue trivial
  | k, s, l :: ls =>
      have := StreaksFit.decidable cfg (k.step cfg s l) (step cfg s l) ls
      inferInstanceAs (Decidable (_ ∧ StreaksFit cfg (k.step cfg s l) (step cfg s l) ls))

/-- The count is the size of the stack, and the mark is the flag. -/
structure Streak.Tracks (k : Streak) (s : Main) : Prop where
  requested : k.requested = s.vbuf.updStack.size
  locked : k.locked = s.vbuf.clearFlag

/-- A step that requests a box adds it to the count and to the stack alike. -/
theorem Streak.Tracks.push {k : Streak} {s s' : Main} {l : Label} {box : BBox} {vbuf : VBuf}
    (h : k.Tracks s) (hpush : PushSucceeds s l) (hreq : s.request l = some box)
    (hbase : vbuf.requests = s.vbuf.requests) (hvbuf : s'.vbuf = vbuf.push box) :
    Streak.Tracks { k with requested := k.requested + (s.request l).toList.length } s' := by
  have hstack : vbuf.updStack = s.vbuf.updStack := congrArg Prod.fst hbase
  have hflag : vbuf.clearFlag = s.vbuf.clearFlag := congrArg Prod.snd hbase
  have hroom : vbuf.updStack.size < stackSize := by
    rw [hstack]
    exact pushSucceeds_iff.1 hpush (by simp [hreq])
  refine ⟨?_, ?_⟩
  · rw [hvbuf, VBuf.push_size hroom, hstack, h.requested, hreq]
    rfl
  · rw [h.locked, hvbuf, ← hflag]
    rfl

theorem Streak.Tracks.keep {k : Streak} {s s' : Main} {l : Label} (h : k.Tracks s)
    (hreq : s.request l = none) (hvbuf : s'.vbuf.requests = s.vbuf.requests) :
    Streak.Tracks { k with requested := k.requested + (s.request l).toList.length } s' := by
  have hstack : s'.vbuf.updStack = s.vbuf.updStack := congrArg Prod.fst hvbuf
  have hflag : s'.vbuf.clearFlag = s.vbuf.clearFlag := congrArg Prod.snd hvbuf
  refine ⟨?_, by rw [h.locked, hflag]⟩
  rw [hstack, ← h.requested, hreq]
  rfl

theorem Streak.Tracks.step {cfg : Config} (hsitl : cfg.sitl = true) {k : Streak} {s : Main} {l : Label}
    (h : k.Tracks s) (hpush : PushSucceeds s l) : (k.step cfg s l).Tracks (Katetris.step cfg s l) := by
  apply step_cases (motive := fun s' => (k.step cfg s l).Tracks s') cfg s l
  case moved =>
      intro env hlabel hpc hmoved
      subst hlabel
      simp only [Streak.step, hpc]
      exact h.push hpush (by simp [Main.request, hpc, hmoved]) rfl rfl
  case fall =>
      intro env hlabel hpc hfires
      subst hlabel
      simp only [Streak.step, hpc]
      exact h.push hpush (by simp [Main.request, hpc, hfires]) rfl rfl
  case paint =>
      intro env hlabel hpc
      subst hlabel
      simp only [Streak.step, hpc]
      exact h.push hpush (by simp [Main.request, hpc])
        (paintFrame_requests s.vbuf s.blk s.grid s.score) rfl
  case clear =>
      intro env hlabel hpc
      subst hlabel
      simp only [Streak.step, hpc]
      refine ⟨?_, ?_⟩
      · cases cfg.shiftClear <;> exact h.requested
      · cases cfg.shiftClear with
        | true => simp [vbufSetFlag]
        | false => simpa using h.locked
  case present =>
      intro env hlabel hpc
      subst hlabel
      obtain ⟨hsize, hflag⟩ := draw_stack cfg s.vbuf s.screen
      simp only [Streak.step, hpc]
      refine ⟨?_, hflag.symm⟩
      rw [hsize, h.locked, h.requested]
  case video =>
      intro _ hstm32 _
      rw [hsitl] at hstm32
      exact absurd hstm32 (by simp)
  case quiet =>
      intro hlabel
      subst hlabel
      exact ⟨h.requested, h.locked⟩
  all_goals
    intro env hlabel hpc
    intros
    subst hlabel
    simp only [Streak.step, hpc]
    exact h.keep (by simp [Main.request, *]) rfl

theorem Streak.Tracks.run {cfg : Config} (hsitl : cfg.sitl = true) (ls : List Label) {k : Streak}
    {s : Main} (h : k.Tracks s) :
    AllSteps (Katetris.step cfg) PushSucceeds s ls ↔ StreaksFit cfg k s ls := by
  induction ls generalizing k s with
  | nil => exact Iff.rfl
  | cons l ls ih =>
      have hfirst : PushSucceeds s l ↔ ((s.request l).isSome → k.requested < stackSize) := by
        rw [pushSucceeds_iff, h.requested]
      rw [AllSteps, StreaksFit, ← hfirst]
      exact and_congr_right fun hpush => ih (h.step hsitl hpush)

/-- At the start nothing is requested, and the flag is set as after a lock. -/
theorem Streak.tracks_start (t0 : BitVec 32) (screen : Screen) :
    Streak.Tracks ⟨0, true⟩ (start t0 screen) := ⟨rfl, rfl⟩

/-- **Requests are dropped exactly when a streak of locks is too long for the stack.** In a run of the
    SITL build every push returns true if and only if no streak of locking iterations requests more
    boxes than the stack holds; the first iteration counts as one, since the flag is set before it. -/
theorem pushSucceeds_iff_streaksFit (shiftClear : Bool) (t0 : BitVec 32) (screen : Screen)
    (ls : List Label) :
    AllSteps (step ⟨true, shiftClear⟩) PushSucceeds (start t0 screen) ls ↔
      StreaksFit ⟨true, shiftClear⟩ ⟨0, true⟩ (start t0 screen) ls :=
  (Streak.tracks_start t0 screen).run rfl ls

/-- DOWN held from the start, with no gravity: the pieces pile up in the first two columns, and once
    the pile has reached the top every piece is locked in the iteration it appears in. -/
def heldDown : List Label :=
  List.replicate 1025 (.main ⟨ButtonStates.only [.down], 0, fun _ => 0⟩)

/-- Eight iterations after the first of these locks the stack is full. -/
theorem heldDown_drops_request :
    ¬AllSteps (step sitlConfig) PushSucceeds (start 0 .blank) heldDown := by
  rw [(Streak.tracks_start 0 .blank).run rfl heldDown]
  decide +kernel

end Katetris
