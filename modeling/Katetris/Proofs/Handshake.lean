import Katetris.Proofs.Frame
import Katetris.Proofs.Requests

set_option autoImplicit false

/-! # The handshake between the game loop and the video thread

STM32 build with `SHIFT_CLEAR` on. The game loop pushes the box of what is about to change, the video
thread pops boxes and sends what the buffer holds. A box is pushed before the pixels it announces are
painted, and the sleep of `loop_stm32` lies in between. What must not happen there, and in two other
places, is said by three conditions on steps: a draw that pops the strip of a move before the move is
painted (`DrainsStrip`), a push that finds the stack full (`DropsStrip`), and a lock that leaves stale
pixels in the buffer (`LocksOverStale`), which the next iteration erases unannounced. Without them no
update is lost (`noUpdateLost_of_conditions`). -/

namespace Katetris

open Lib

/-! ## Where nothing has to be redrawn -/

/-- Where the strip of the new position does not reach, a move by one column changes nothing. -/
theorem shows_of_not_covers {blk blk' : Block} (h : blk.ptrs = patternsGamma)
    (h' : blk'.ptrs = patternsGamma) (hy : blk'.y - 1 ≤ blk.y ∧ blk.y ≤ blk'.y + 1) (grid : Grid)
    (score : Int) {p q : Nat} (hp : p < 240) (hq : q < 240)
    (hout : ¬(updateMask blk').Covers p q) : Shows blk grid score p q ↔ Shows blk' grid score p q := by
  have hno : ¬blk.Cell (p / 8 : Nat) (q / 8 : Nat) := by
    intro hcell
    have hcol := hcell.column h
    exact hout (updateMask_covers hp hq (by omega) (by omega))
  have hno' : ¬blk'.Cell (p / 8 : Nat) (q / 8 : Nat) := by
    intro hcell
    have hcol := hcell.column h'
    exact hout (updateMask_covers hp hq (by omega) (by omega))
  simp only [Shows, hno, hno']

theorem gridClear_not_cell (r c : Int) : ¬Grid.Cell gridClear r c := by
  intro hcell
  obtain ⟨-, -, hbit⟩ := hcell
  rw [rowAt_gridClear] at hbit
  simp at hbit

/-! ## What is up to date -/

/-- The panel shows the buffer except where a redraw is pending. -/
def Synced (vbuf : VBuf) (screen : Screen) : Prop :=
  ∀ p q, p < 240 → q < 240 →
    screen.stm32.panel.pixel p q = (if vbuf.pixel p q then 0xFFFF else 0x0000) ∨ vbuf.Covered p q

/-- The buffer shows the picture except where a redraw is pending or is requested with every frame. -/
def FrameAhead (vbuf : VBuf) (blk : Block) (grid : Grid) (score : Int) : Prop :=
  ∀ p q, p < 240 → q < 240 →
    (vbuf.pixel p q = true ↔ Shows blk grid score p q) ∨ vbuf.Covered p q ∨ scoreBox.Covers p q

/-- The panel shows the picture except where a redraw is pending or is requested with every frame. -/
def Announced (vbuf : VBuf) (screen : Screen) (blk : Block) (grid : Grid) (score : Int) : Prop :=
  ∀ p q, p < 240 → q < 240 →
    screen.stm32.panel.pixel p q = (if Shows blk grid score p q then 0xFFFF else 0x0000)
      ∨ vbuf.Covered p q ∨ scoreBox.Covers p q

section Requests

variable {vbuf : VBuf} {screen : Screen} {blk blk' : Block} {grid : Grid} {score : Int}

theorem Synced.push (h : Synced vbuf screen) (box : BBox) : Synced (vbuf.push box) screen := by
  intro p q hp hq
  exact (h p q hp hq).imp_right (fun hcov => hcov.push box)

/-- Moving the piece by a column is announced by the strip of its new position. -/
theorem FrameShows.ahead_of_move (h : FrameShows vbuf blk grid score) (hg : blk.ptrs = patternsGamma)
    (hg' : blk'.ptrs = patternsGamma) (hy : blk'.y - 1 ≤ blk.y ∧ blk.y ≤ blk'.y + 1)
    (hacc : vbuf.Accepts (updateMask blk')) : FrameAhead (updateBlock vbuf blk') blk' grid score := by
  intro p q hp hq
  by_cases hstrip : (updateMask blk').Covers p q
  · exact Or.inr (Or.inl ⟨updateMask blk', hacc.mem_push, hstrip⟩)
  · refine Or.inl ?_
    rw [← shows_of_not_covers hg hg' hy grid score hp hq hstrip]
    exact h p q hp hq

/-- The first frame on a dark buffer is announced by the strip and the score box. -/
theorem frameAhead_of_dark (h : ∀ p q, vbuf.pixel p q = false) (hgrid : grid = gridClear)
    (hg' : blk'.ptrs = patternsGamma) (hacc : vbuf.Accepts (updateMask blk')) :
    FrameAhead (updateBlock vbuf blk') blk' grid score := by
  intro p q hp hq
  by_cases hshows : Shows blk' grid score p q
  · refine Or.inr ?_
    rcases hshows with hcell | hcell | himage
    · rw [hgrid] at hcell
      exact absurd hcell (gridClear_not_cell _ _)
    · have hcol := hcell.column hg'
      exact Or.inl ⟨updateMask blk', hacc.mem_push, updateMask_covers hp hq (by omega) (by omega)⟩
    · exact Or.inr (inNumber_scoreBox ((scoreImage_pixel score p q).1 himage))
  · refine Or.inl (iff_of_false ?_ hshows)
    have hdark : (updateBlock vbuf blk').pixel p q = false := h p q
    simp [hdark]

theorem Synced.announced (h : Synced vbuf screen) (hahead : FrameAhead vbuf blk grid score) :
    Announced vbuf screen blk grid score := by
  intro p q hp hq
  rcases hahead p q hp hq with hpix | hcov
  · rcases h p q hp hq with hpanel | hcov
    · exact Or.inl (hpanel.trans (if_congr hpix rfl rfl))
    · exact Or.inr (Or.inl hcov)
  · exact Or.inr hcov

theorem FrameShows.ahead (h : FrameShows vbuf blk grid score) : FrameAhead vbuf blk grid score :=
  fun p q hp hq => Or.inl (h p q hp hq)

/-- A fall by one row is announced by the strip of the new position. -/
theorem Announced.down (h : Announced vbuf screen blk grid score) (hg : blk.ptrs = patternsGamma)
    (hacc : vbuf.Accepts (updateMask blk.down)) :
    Announced (updateBlock vbuf blk.down) screen blk.down grid score := by
  intro p q hp hq
  by_cases hstrip : (updateMask blk.down).Covers p q
  · exact Or.inr (Or.inl ⟨updateMask blk.down, hacc.mem_push, hstrip⟩)
  · have hsame : Shows blk grid score p q ↔ Shows blk.down grid score p q :=
      shows_of_not_covers hg (by exact hg) (by simp only [Block.down]; omega) grid score hp hq hstrip
    rcases h p q hp hq with hpanel | hcov | hscore
    · exact Or.inl (hpanel.trans (if_congr hsame rfl rfl))
    · exact Or.inr (Or.inl (hcov.push _))
    · exact Or.inr (Or.inr hscore)

/-- Painting what has been announced, and pushing the score box, leaves nothing unrequested. -/
theorem Announced.synced_paint (h : Announced vbuf screen blk grid score)
    (hlit : LitWithin vbuf blk grid score) (hacc : vbuf.Accepts scoreBox) :
    Synced ((paintFrame vbuf blk grid score).push scoreBox) screen := by
  have hreq := paintFrame_requests vbuf blk grid score
  have hstack : (paintFrame vbuf blk grid score).updStack = vbuf.updStack := congrArg Prod.fst hreq
  intro p q hp hq
  have hframe := frameShows_paintFrame hlit p q hp hq
  have hcovered : vbuf.Covered p q → (paintFrame vbuf blk grid score).Covered p q := by
    intro hcov
    obtain ⟨box, hmem, hcovers⟩ := hcov
    exact ⟨box, by rw [hstack]; exact hmem, hcovers⟩
  have hacc' : (paintFrame vbuf blk grid score).Accepts scoreBox := by
    unfold VBuf.Accepts
    rw [hstack]
    exact hacc
  rcases h p q hp hq with hpanel | hcov | hscore
  · exact Or.inl (hpanel.trans (if_congr hframe.symm rfl rfl))
  · exact Or.inr ((hcovered hcov).push scoreBox)
  · exact Or.inr ⟨scoreBox, hacc'.mem_push, hscore⟩

end Requests

/-! ## The bus and the stack -/

/-- The boxes on the stack are aligned and the transfer buffer is empty, so that every `draw` does
    what it should. -/
structure BusReady (s : Main) : Prop where
  motion : Motion s
  aligned : ∀ box ∈ s.vbuf.updStack.arr, box.Aligned
  transfer : s.screen.stm32.buf.size = 0

theorem aligned_push {vbuf : VBuf} (h : ∀ box ∈ vbuf.updStack.arr, box.Aligned) {box : BBox}
    (hbox : box.Aligned) : ∀ box' ∈ (vbuf.push box).updStack.arr, box'.Aligned := by
  intro box' hmem
  rcases VBuf.mem_push hmem with rfl | hmem
  · exact hbox
  · exact h box' hmem

theorem aligned_draw {cfg : Config} (hcfg : cfg.sitl = false) {vbuf : VBuf} {screen : Screen}
    (h : ∀ box ∈ vbuf.updStack.arr, box.Aligned) (hbuf : screen.stm32.buf.size = 0) :
    (∀ box ∈ (draw cfg vbuf screen).1.updStack.arr, box.Aligned)
      ∧ (draw cfg vbuf screen).2.stm32.buf.size = 0 := by
  cases hflag : vbuf.clearFlag with
  | true =>
      have hfull : FullRedraw vbuf (draw cfg vbuf screen) := draw_fullRedraw hcfg hbuf hflag
      rw [hfull.stack]
      exact ⟨h, hfull.transfer⟩
  | false =>
      have hpart : PartialRedraw vbuf screen (draw cfg vbuf screen) :=
        draw_partialRedraw hcfg h hbuf hflag
      rw [hpart.stack]
      exact ⟨by simp, hpart.transfer⟩

theorem BusReady.step {cfg : Config} (hcfg : cfg.sitl = false) (s : Main) (l : Label) (h : BusReady s) :
    BusReady (step cfg s l) := by
  have hkeep : (∀ box ∈ s.vbuf.updStack.arr, box.Aligned) ∧ s.screen.stm32.buf.size = 0 :=
    ⟨h.aligned, h.transfer⟩
  suffices hnext : (∀ box ∈ (Katetris.step cfg s l).vbuf.updStack.arr, box.Aligned)
      ∧ (Katetris.step cfg s l).screen.stm32.buf.size = 0 from
    ⟨h.motion.step cfg s l, hnext.1, hnext.2⟩
  apply step_cases (motive := fun s' => (∀ box ∈ s'.vbuf.updStack.arr, box.Aligned)
    ∧ s'.screen.stm32.buf.size = 0) cfg s l
  case moved =>
      intro env _ _ _
      exact ⟨aligned_push h.aligned (updateMask_aligned
        (buttonsDoAction_y_bounds h.motion.gamma env.buttons h.motion.y_bounds)), h.transfer⟩
  case fall =>
      intro env _ _ _
      exact ⟨aligned_push h.aligned (updateMask_aligned h.motion.y_bounds), h.transfer⟩
  case paint =>
      intro env _ _
      have hstack : (paintFrame s.vbuf s.blk s.grid s.score).updStack = s.vbuf.updStack :=
        congrArg Prod.fst (paintFrame_requests s.vbuf s.blk s.grid s.score)
      exact ⟨aligned_push (by rw [hstack]; exact h.aligned) scoreBox_aligned, h.transfer⟩
  case clear =>
      intro env _ _
      cases cfg.shiftClear <;> exact hkeep
  case present =>
      intro env _ _
      exact aligned_draw hcfg h.aligned h.transfer
  case video =>
      intro _ _ _
      exact aligned_draw hcfg h.aligned h.transfer
  all_goals
    intros
    exact hkeep

/-! ## The handshake along a run -/

/-- The video thread pops the strip of a move while the move is not yet painted. -/
def DrainsStrip (s : Main) : Label → Prop
  | .main _ => False
  | .video => s.pc = .loopDelay ∧ s.vbuf.clearFlag = false

/-- The strip of a move, or of a fall that no full redraw is going to show, finds the stack full of
    other boxes. -/
def DropsStrip (s : Main) : Label → Prop
  | .main env =>
      (s.pc = .loop ∧ (buttonsDoAction s.blk env.buttons).2 = true
          ∧ ¬s.vbuf.Accepts (updateMask (buttonsDoAction s.blk env.buttons).1))
        ∨ (s.pc = .gravity ∧ gravityFires s env ∧ s.vbuf.clearFlag = false
          ∧ ¬s.vbuf.Accepts (updateMask s.blk.down))
  | .video => False

instance (s : Main) : (l : Label) → Decidable (DrainsStrip s l)
  | .main _ => inferInstanceAs (Decidable False)
  | .video => inferInstanceAs (Decidable (_ ∧ _))

instance (s : Main) : (l : Label) → Decidable (DropsStrip s l)
  | .main _ => inferInstanceAs (Decidable ((_ ∧ _ ∧ _) ∨ (_ ∧ _ ∧ _ ∧ _)))
  | .video => inferInstanceAs (Decidable False)

/-- How many boxes other than the score box there can be when that one is not on the stack: the strips
    pushed since the last frame. -/
def stripsSoFar : Pc → Nat
  | .loop | .present | .delay => 0
  | .loopDelay | .floorTest | .gravity => 1
  | .collides | .lock | .clearRows | .paint => 2

/-- What is up to date where the main thread stands. With the flag set nothing has to be, except
    while the video thread may take the flag and leave the rest to the stack. -/
def SyncSoFar (s : Main) : Prop :=
  match s.pc with
  | .loop =>
      (s.vbuf.clearFlag = true ∨ Synced s.vbuf s.screen)
        ∧ (FrameShows s.vbuf s.blk s.grid s.score
          ∨ (∀ p q, s.vbuf.pixel p q = false) ∧ s.vbuf.clearFlag = true ∧ s.grid = gridClear)
  | .loopDelay =>
      (s.vbuf.clearFlag = true ∨ Synced s.vbuf s.screen)
        ∧ FrameAhead s.vbuf s.blk s.grid s.score
  | .floorTest | .gravity | .collides | .paint =>
      s.vbuf.clearFlag = true ∨ Announced s.vbuf s.screen s.blk s.grid s.score
  | .lock | .clearRows => True
  | .present => False
  | .delay => s.vbuf.clearFlag = true ∨ Synced s.vbuf s.screen

structure Handshake (s : Main) : Prop where
  bus : BusReady s
  frame : FrameSoFar s
  room : scoreBox ∈ s.vbuf.updStack.arr ∨ s.vbuf.updStack.size ≤ stripsSoFar s.pc
  sync : SyncSoFar s

theorem room_push {vbuf : VBuf} {n : Nat} (h : scoreBox ∈ vbuf.updStack.arr ∨ vbuf.updStack.size ≤ n)
    (box : BBox) :
    scoreBox ∈ (vbuf.push box).updStack.arr ∨ (vbuf.push box).updStack.size ≤ n + 1 := by
  rcases h with hmem | hsize
  · exact Or.inl (VBuf.mem_push_of_mem hmem)
  · exact Or.inr (le_trans (VBuf.size_push_le vbuf box) (by omega))

/-- A draw at the final delay brings the panel up to date with the buffer. -/
theorem synced_draw {vbuf : VBuf} {screen : Screen} (h : ∀ box ∈ vbuf.updStack.arr, box.Aligned)
    (hbuf : screen.stm32.buf.size = 0) (hsync : vbuf.clearFlag = true ∨ Synced vbuf screen) :
    Synced (draw stm32Config vbuf screen).1 (draw stm32Config vbuf screen).2 := by
  intro p q hp hq
  refine Or.inl ?_
  rw [draw_pixel]
  cases hflag : vbuf.clearFlag with
  | true =>
      have hfull : FullRedraw vbuf (draw stm32Config vbuf screen) := draw_fullRedraw rfl hbuf hflag
      exact hfull.panel p q hp hq
  | false =>
      have hpart : PartialRedraw vbuf screen (draw stm32Config vbuf screen) :=
        draw_partialRedraw rfl h hbuf hflag
      by_cases hcov : vbuf.Covered p q
      · exact hpart.inside p q hcov
      · rw [hpart.outside p q hcov]
        rcases hsync with hset | hsync
        · rw [hflag] at hset
          exact absurd hset (by simp)
        · exact (hsync p q hp hq).resolve_right hcov

theorem Handshake.room_step (s : Main) (l : Label) (h : Handshake s) :
    scoreBox ∈ (step stm32Config s l).vbuf.updStack.arr
      ∨ (step stm32Config s l).vbuf.updStack.size ≤ stripsSoFar (step stm32Config s l).pc := by
  have hroom := h.room
  apply step_cases (motive := fun s' => scoreBox ∈ s'.vbuf.updStack.arr
    ∨ s'.vbuf.updStack.size ≤ stripsSoFar s'.pc) stm32Config s l
  case moved =>
      intro env _ hpc _
      rw [hpc] at hroom
      exact room_push hroom _
  case fall =>
      intro env _ hpc _
      rw [hpc] at hroom
      exact room_push hroom _
  case paint =>
      intro env _ hpc
      rw [hpc] at hroom
      have hstack : (paintFrame s.vbuf s.blk s.grid s.score).updStack = s.vbuf.updStack :=
        congrArg Prod.fst (paintFrame_requests s.vbuf s.blk s.grid s.score)
      have hacc : (paintFrame s.vbuf s.blk s.grid s.score).Accepts scoreBox := by
        unfold VBuf.Accepts
        rw [hstack]
        exact hroom.symm.imp_left (fun hsize => lt_of_le_of_lt hsize (by decide))
      exact Or.inl hacc.mem_push
  case present =>
      intro env _ hpc
      have hsync := h.sync
      simp [SyncSoFar, hpc] at hsync
  case video =>
      intro hlabel _ _
      subst hlabel
      cases hflag : s.vbuf.clearFlag with
      | true =>
          have hfull : FullRedraw s.vbuf (draw stm32Config s.vbuf s.screen) :=
            draw_fullRedraw rfl h.bus.transfer hflag
          simp only [hfull.stack]
          exact hroom
      | false =>
          have hpart : PartialRedraw s.vbuf s.screen (draw stm32Config s.vbuf s.screen) :=
            draw_partialRedraw rfl h.bus.aligned h.bus.transfer hflag
          refine Or.inr ?_
          simp [BBoxStack.size, hpart.stack]
  case quiet => exact fun _ => hroom
  all_goals
    intros
    refine hroom.imp_right (fun hsize => le_trans hsize ?_)
    simp_all [stripsSoFar]

theorem Handshake.sync_step (s : Main) (l : Label) (h : Handshake s) (hdrain : ¬DrainsStrip s l)
    (hdrop : ¬DropsStrip s l) : SyncSoFar (step stm32Config s l) := by
  have hsync := h.sync
  have hframe := h.frame
  have hgamma := h.bus.motion.gamma
  apply step_cases (motive := SyncSoFar) stm32Config s l
  case moved =>
      intro env hlabel hpc hmoved
      subst hlabel
      simp only [SyncSoFar, hpc] at hsync
      have hgamma' : (buttonsDoAction s.blk env.buttons).1.ptrs = patternsGamma := by
        rw [buttonsDoAction_ptrs, hgamma]
      have hacc : s.vbuf.Accepts (updateMask (buttonsDoAction s.blk env.buttons).1) := by
        by_contra hacc
        exact hdrop (Or.inl ⟨hpc, hmoved, hacc⟩)
      refine ⟨hsync.1.imp_right (fun hs => hs.push _), ?_⟩
      rcases hsync.2 with hshows | ⟨hdark, -, hclear⟩
      · exact hshows.ahead_of_move hgamma hgamma' (buttonsDoAction_y_near hgamma env.buttons) hacc
      · exact frameAhead_of_dark hdark hclear hgamma' hacc
  case idle =>
      intro env hlabel hpc hidle
      subst hlabel
      simp only [SyncSoFar, hpc] at hsync
      rw [buttonsDoAction_idle s.blk env.buttons hidle]
      rcases hsync with ⟨hflag | hs, hshows | ⟨-, hflag, -⟩⟩
      · exact Or.inl hflag
      · exact Or.inl hflag
      · exact Or.inr (hs.announced hshows.ahead)
      · exact Or.inl hflag
  case wake =>
      intro env _ hpc
      simp only [SyncSoFar, hpc] at hsync
      exact hsync.1.imp_right (fun hs => hs.announced hsync.2)
  case floorHit =>
      intros
      trivial
  case floorMiss =>
      -- clearing the buffer touches neither the stack nor the panel
      intro env _ hpc _
      simp only [SyncSoFar, hpc] at hsync
      exact hsync
  case fall =>
      intro env hlabel hpc hfires
      subst hlabel
      simp only [SyncSoFar, hpc] at hsync
      cases hflag : s.vbuf.clearFlag with
      | true => exact Or.inl hflag
      | false =>
          have hacc : s.vbuf.Accepts (updateMask s.blk.down) := by
            by_contra hacc
            exact hdrop (Or.inr ⟨hpc, hfires, hflag, hacc⟩)
          have hann := hsync.resolve_left (by simp [hflag])
          exact Or.inr (hann.down hgamma hacc)
  case stay =>
      intro env _ hpc _
      simp only [SyncSoFar, hpc] at hsync
      exact hsync
  case hit =>
      intros
      trivial
  case miss =>
      intro env _ hpc _
      simp only [SyncSoFar, hpc] at hsync
      exact hsync
  case lock =>
      intros
      trivial
  case clear =>
      intros
      exact Or.inl rfl
  case paint =>
      intro env _ hpc
      simp only [SyncSoFar, FrameSoFar, hpc] at hsync hframe
      have hroom := h.room
      rw [hpc] at hroom
      have hflag : (paintFrame s.vbuf s.blk s.grid s.score).clearFlag = s.vbuf.clearFlag :=
        congrArg Prod.snd (paintFrame_requests s.vbuf s.blk s.grid s.score)
      rcases hsync with hset | hann
      · exact Or.inl (hflag.trans hset)
      · exact Or.inr (hann.synced_paint hframe
          (hroom.symm.imp_left (fun hsize => lt_of_le_of_lt hsize (by decide))))
  case present =>
      intro env _ hpc
      simp [SyncSoFar, hpc] at hsync
  case again =>
      intro env _ hpc
      simp only [SyncSoFar, FrameSoFar, hpc] at hsync hframe
      exact ⟨hsync, Or.inl hframe⟩
  case video =>
      intro hlabel _ hor
      subst hlabel
      rcases hor with hpc | hpc
      · -- the flag is set here, so the draw leaves the stack alone
        simp only [SyncSoFar, hpc] at hsync ⊢
        have hflag : s.vbuf.clearFlag = true := by
          by_contra hflag
          exact hdrain ⟨hpc, by simpa using hflag⟩
        have hfull : FullRedraw s.vbuf (draw stm32Config s.vbuf s.screen) :=
          draw_fullRedraw rfl h.bus.transfer hflag
        refine ⟨Or.inr (synced_draw h.bus.aligned h.bus.transfer (Or.inl hflag)), ?_⟩
        intro p q hp hq
        rw [draw_pixel]
        unfold VBuf.Covered
        rw [hfull.stack]
        exact hsync.2 p q hp hq
      · simp only [SyncSoFar, hpc] at hsync ⊢
        exact Or.inr (synced_draw h.bus.aligned h.bus.transfer hsync)
  case quiet => exact fun _ => hsync

theorem Handshake.step (s : Main) (l : Label) (h : Handshake s)
    (hl : ¬DrainsStrip s l ∧ ¬DropsStrip s l ∧ ¬LocksOverStale s l) :
    Handshake (step stm32Config s l) where
  bus := h.bus.step rfl s l
  frame := h.frame.step stm32Config s l hl.2.2
  room := h.room_step s l
  sync := h.sync_step s l hl.1 hl.2.1

theorem start_dark (t0 : BitVec 32) (screen : Screen) (p q : Nat) :
    (start t0 screen).vbuf.pixel p q = false :=
  vbufClear_pixel (vbufInit ⟨Vector.replicate 240 (Vector.replicate 30 0), .empty, false⟩) p q

theorem start_stack (t0 : BitVec 32) (screen : Screen) : (start t0 screen).vbuf.updStack.arr = [] :=
  rfl

theorem handshake_start (t0 : BitVec 32) {screen : Screen} (hbuf : screen.stm32.buf.size = 0) :
    Handshake (start t0 screen) where
  bus := ⟨motion_start t0 screen, by simp [start_stack], hbuf⟩
  frame := trivial
  room := Or.inr (by simp [BBoxStack.size, start_stack])
  sync := ⟨Or.inl rfl, Or.inr ⟨start_dark t0 screen, rfl, rfl⟩⟩

/-- At the final delay every pixel in which panel and buffer differ is in a box on the stack, or the
    flag is set. -/
def NoUpdateLost (s : Main) : Prop :=
  s.pc = .delay → s.vbuf.clearFlag = true ∨
    ∀ p q, p < 240 → q < 240 →
      s.screen.stm32.panel.pixel p q ≠ (if s.vbuf.pixel p q then 0xFFFF else 0x0000) →
        s.vbuf.Covered p q

/-- **No update is lost** in a run of the STM32 build in which no draw pops the strip of a move before
    the move is painted, no strip is dropped by a full stack, and no floor lock leaves stale pixels. -/
theorem noUpdateLost_of_conditions (t0 : BitVec 32) (screen : Screen)
    (hbuf : screen.stm32.buf.size = 0) (ls : List Label)
    (hl : AllSteps (step stm32Config)
      (fun s l => ¬DrainsStrip s l ∧ ¬DropsStrip s l ∧ ¬LocksOverStale s l) (start t0 screen) ls) :
    AllStates (step stm32Config) NoUpdateLost (start t0 screen) ls := by
  refine (AllStates.of_invariant Handshake.step (handshake_start t0 hbuf) hl).mono ?_
  intro s h hpc
  have hsync := h.sync
  simp only [SyncSoFar, hpc] at hsync
  exact hsync.imp_right (fun hs p q hp hq hne => (hs p q hp hq).resolve_left hne)

/-- Steps of the main thread of the STM32 build under the same buttons and clock reading. -/
def mainSteps (n : Nat) (pressed : List Button) (millis : BitVec 32) : List Label :=
  List.replicate n (.main ⟨ButtonStates.only pressed, millis, fun _ => 0⟩)

/-- Three falls with a draw in each final delay, up to the next call of `hw->loop`. -/
def drawnDrops : List Label :=
  mainSteps 5 [] 1000 ++ [.video] ++ mainSteps 6 [] 2000 ++ [.video] ++ mainSteps 6 [] 3000 ++ [.video]
    ++ mainSteps 1 [] 3000

/-- After them a move to the right, drawn in the final delay. -/
theorem noUpdateLost_of_conditions_move :
    AllStates (step stm32Config) NoUpdateLost (start 0 .blank)
      (drawnDrops ++ mainSteps 6 [.right] 3000 ++ [.video]) :=
  noUpdateLost_of_conditions 0 .blank rfl (drawnDrops ++ mainSteps 6 [.right] 3000 ++ [.video])
    (by decide +kernel)

/-! ## A lost update -/

/-- The pixel is off in the buffer and on the panel. -/
structure BothDark (p q : Nat) (s : Main) : Prop where
  bus : BusReady s
  buffer : s.vbuf.pixel p q = false
  panel : s.screen.stm32.panel.pixel p q = 0x0000

/-- Only painting turns a pixel on, and a draw never sends what the buffer does not hold. -/
theorem BothDark.step {p q : Nat} (hp : p < 240) (hq : q < 240) (s : Main) (l : Label)
    (h : BothDark p q s) (hl : s.pc ≠ .paint) : BothDark p q (step stm32Config s l) := by
  have hdraw : (draw stm32Config s.vbuf s.screen).1.pixel p q = false
      ∧ (draw stm32Config s.vbuf s.screen).2.stm32.panel.pixel p q = 0x0000 := by
    refine ⟨by rw [draw_pixel, h.buffer], ?_⟩
    cases hflag : s.vbuf.clearFlag with
    | true =>
        have hfull : FullRedraw s.vbuf (draw stm32Config s.vbuf s.screen) :=
          draw_fullRedraw rfl h.bus.transfer hflag
        rw [hfull.panel p q hp hq, h.buffer, if_neg Bool.false_ne_true]
    | false =>
        have hpart : PartialRedraw s.vbuf s.screen (draw stm32Config s.vbuf s.screen) :=
          draw_partialRedraw rfl h.bus.aligned h.bus.transfer hflag
        by_cases hcov : s.vbuf.Covered p q
        · rw [hpart.inside p q hcov, h.buffer, if_neg Bool.false_ne_true]
        · rw [hpart.outside p q hcov, h.panel]
  suffices hnext : (Katetris.step stm32Config s l).vbuf.pixel p q = false
      ∧ (Katetris.step stm32Config s l).screen.stm32.panel.pixel p q = 0x0000 from
    ⟨h.bus.step rfl s l, hnext.1, hnext.2⟩
  apply step_cases (motive := fun s' => s'.vbuf.pixel p q = false
    ∧ s'.screen.stm32.panel.pixel p q = 0x0000) stm32Config s l
  case floorMiss =>
      intros
      exact ⟨vbufClear_pixel s.vbuf p q, h.panel⟩
  case paint =>
      intro env _ hpc
      exact absurd hpc hl
  case present =>
      intros
      exact hdraw
  case video =>
      intros
      exact hdraw
  all_goals
    intros
    exact ⟨h.buffer, h.panel⟩

theorem Handshake.bothDark_of_loop {s : Main} (h : Handshake s) (hpc : s.pc = .loop)
    (hflag : s.vbuf.clearFlag = false) {p q : Nat} (hp : p < 240) (hq : q < 240)
    (hshows : ¬Shows s.blk s.grid s.score p q) (hcov : ¬s.vbuf.Covered p q) : BothDark p q s := by
  have hsync := h.sync
  simp only [SyncSoFar, hpc, hflag, Bool.false_eq_true, false_or, false_and, and_false, or_false]
    at hsync
  obtain ⟨hpanel, hframe⟩ := hsync
  have hbuffer : s.vbuf.pixel p q = false := by
    rw [← Bool.not_eq_true, hframe p q hp hq]
    exact hshows
  refine ⟨h.bus, hbuffer, ?_⟩
  rw [(hpanel p q hp hq).resolve_right hcov, hbuffer, if_neg Bool.false_ne_true]

theorem step_paint_screen (cfg : Config) {s : Main} (hpc : s.pc = .paint) (env : Env) :
    (step cfg s (.main env)).screen = s.screen := by
  simp [step, mainStep, hpc]

/-- Where the three falls end. -/
def afterDrops : Main := exec (step stm32Config) (start 0 .blank) drawnDrops

/-- A move to the right with a draw in the delay of `loop_stm32`, up to the painting. -/
def drainedMove : List Label := mainSteps 1 [.right] 3000 ++ [.video] ++ mainSteps 4 [] 3000

theorem handshake_afterDrops : Handshake afterDrops := by
  have hconditions : AllSteps (step stm32Config)
      (fun s l => ¬DrainsStrip s l ∧ ¬DropsStrip s l ∧ ¬LocksOverStale s l) (start 0 .blank)
      drawnDrops := by
    decide +kernel
  exact (AllStates.of_invariant Handshake.step (handshake_start 0 rfl) hconditions).last

/-- Up to the painting of the new picture, pixel (40, 8) is off in the buffer and on the panel. -/
theorem bothDark_drainedMove : BothDark 40 8 (exec (step stm32Config) afterDrops drainedMove) := by
  have hdark : BothDark 40 8 afterDrops :=
    handshake_afterDrops.bothDark_of_loop (by decide +kernel) (by decide +kernel) (by decide)
      (by decide) (by decide +kernel) (by decide +kernel)
  have hnoPaint : AllSteps (step stm32Config) (fun s _ => s.pc ≠ .paint) afterDrops drainedMove := by
    decide +kernel
  exact (AllStates.of_invariant (BothDark.step (by decide) (by decide)) hdark hnoPaint).last

/-- The draw pops the strip and sends the old picture; the new one is painted unannounced, and pixel
    (40, 8) of the piece, outside the score box, does not get to the panel. -/
theorem drainedMove_loses_update :
    ¬AllStates (step stm32Config) NoUpdateLost (start 0 .blank)
      (drawnDrops ++ (drainedMove ++ mainSteps 1 [] 3000)) := by
  intro h
  have hlost : NoUpdateLost (exec (step stm32Config) afterDrops (drainedMove ++ mainSteps 1 [] 3000)) :=
    h.append.last
  have hpc : (exec (step stm32Config) afterDrops (drainedMove ++ mainSteps 1 [] 3000)).pc = .delay := by
    decide +kernel
  -- the picture painted last has the pixel
  have hnoStale : AllSteps (step stm32Config) (fun s l => ¬LocksOverStale s l) afterDrops
      (drainedMove ++ mainSteps 1 [] 3000) := by
    decide +kernel
  have hframe := (AllStates.of_invariant (FrameSoFar.step stm32Config) handshake_afterDrops.frame
    hnoStale).last
  simp only [FrameSoFar, hpc] at hframe
  have hlit := (hframe 40 8 (by decide) (by decide)).2 (by decide +kernel)
  -- the panel is as it was before the painting
  have hpanel : (exec (step stm32Config) afterDrops
      (drainedMove ++ mainSteps 1 [] 3000)).screen.stm32.panel.pixel 40 8 = 0x0000 := by
    rw [exec_append, mainSteps, List.replicate_one, exec_cons, exec_nil,
      step_paint_screen stm32Config (by decide +kernel)]
    exact bothDark_drainedMove.panel
  rcases hlost hpc with hflag | hcovered
  · exact absurd hflag (by decide +kernel)
  · refine absurd (hcovered 40 8 (by decide) (by decide) ?_) (by decide +kernel)
    rw [hlit, hpanel]
    decide

end Katetris
