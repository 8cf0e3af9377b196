import Mathlib.Data.List.GetD
import Katetris.Video
import Katetris.Proofs.Handshake
import Katetris.Proofs.Transfer

set_option autoImplicit false

/-! # What the mutex guards

While the video thread holds `vbuf.mtx`, the main thread stays out of the code that writes to the frame
buffer or to the flag; what it may do is to push the strip of a move. `Held` is what follows from that in
every interleaving and for both settings of `SHIFT_CLEAR`. The stack is not guarded. A push that falls
into a pop can mix two boxes up, or lose one, but every box keeps to the cell raster field by field, so
each transfer still sends exactly the window it opens (`threads_sendWindow`). And what is left to do gets
less with every step of the video thread while the main thread waits (`waits_bounded`). -/

namespace Katetris

open Lib

/-! ## The stack in memory -/

theorem BBoxStack.size_withSize (stack : BBoxStack) (n : Nat) :
    (stack.withSize n).size = min n stack.size := by
  have hlength : (stack.withSize n).size = stack.size - (stack.size - n) := List.length_drop
  omega

theorem BBoxStack.mem_withSize {stack : BBoxStack} {n : Nat} {box : BBox}
    (h : box ∈ (stack.withSize n).arr) : box ∈ stack.arr :=
  List.mem_of_mem_drop h

/-- A live slot holds a box of the stack. -/
theorem BBoxStack.slot_mem (stack : BBoxStack) (gone : BBox) {i : Nat} (h : i < stack.size) :
    stack.slot gone i ∈ stack.arr := by
  have hi : i < stack.arr.reverse.length := by rwa [List.length_reverse]
  rw [BBoxStack.slot, List.getD_eq_getElem _ _ hi]
  exact List.mem_reverse.1 (List.getElem_mem hi)

theorem BBoxStack.slot_of_size_le (stack : BBoxStack) (gone : BBox) {i : Nat} (h : stack.size ≤ i) :
    stack.slot gone i = gone := by
  have hi : stack.arr.reverse.length ≤ i := by rwa [List.length_reverse]
  rw [BBoxStack.slot, List.getD_eq_default _ _ hi]

/-- The top of the stack is the slot below `size`. -/
theorem BBoxStack.slot_top {stack : BBoxStack} {box : BBox} {rest : List BBox}
    (h : stack.arr = box :: rest) (gone : BBox) : stack.slot gone (stack.size - 1) = box := by
  simp [BBoxStack.slot, BBoxStack.size, h, List.getD_eq_getElem?_getD]

theorem BBoxStack.withSize_arr {stack : BBoxStack} {box : BBox} {rest : List BBox}
    (h : stack.arr = box :: rest) : (stack.withSize (stack.size - 1)).arr = rest := by
  simp [BBoxStack.withSize, BBoxStack.size, h]

/-- **Without a push in between, the store of `size` and the read of the slot are `bbox_stack_pop`.** -/
theorem bboxStackPop_eq {stack : BBoxStack} {box : BBox} {rest : List BBox} (h : stack.arr = box :: rest)
    (gone : BBox) :
    bboxStackPop stack = (stack.withSize (stack.size - 1), some (stack.slot gone (stack.size - 1))) := by
  obtain ⟨arr, hle⟩ := stack
  subst h
  rw [BBoxStack.slot_top rfl]
  simp [bboxStackPop, BBoxStack.withSize, BBoxStack.size]

/-! ## Boxes, field by field -/

/-- The `k`-th field. -/
def BBox.field (box : BBox) : Nat → Int
  | 0 => box.x
  | 1 => box.y
  | 2 => box.sizex
  | _ => box.sizey

/-- What `BBox.Aligned` asks of the `k`-th field. -/
structure FieldAligned (k : Nat) (v : Int) : Prop where
  dvd : (gridStep : Int) ∣ v
  corner : k < 2 → 0 ≤ v ∧ v < 240
  size : 2 ≤ k → 0 < v

theorem BBox.aligned_iff {box : BBox} : box.Aligned ↔ ∀ k, k < 4 → FieldAligned k (box.field k) := by
  refine ⟨fun h k hk => ?_, fun h => ?_⟩
  · obtain rfl | rfl | rfl | rfl : k = 0 ∨ k = 1 ∨ k = 2 ∨ k = 3 := by omega
    · exact ⟨h.x_dvd, fun _ => h.x_mem, by simp⟩
    · exact ⟨h.y_dvd, fun _ => h.y_mem, by simp⟩
    · exact ⟨h.sizex_dvd, by simp, fun _ => h.sizex_pos⟩
    · exact ⟨h.sizey_dvd, by simp, fun _ => h.sizey_pos⟩
  · have hx := h 0 (by decide)
    have hy := h 1 (by decide)
    have hsizex := h 2 (by decide)
    have hsizey := h 3 (by decide)
    exact ⟨hx.dvd, hy.dvd, hsizex.dvd, hsizey.dvd, hx.corner (by decide), hy.corner (by decide),
      hsizex.size (by decide), hsizey.size (by decide)⟩

theorem BBox.field_copyField (box src : BBox) {j k : Nat} (hj : j < 4) (hk : k < 4) :
    (box.copyField src k).field j = if j = k then src.field j else box.field j := by
  obtain rfl | rfl | rfl | rfl : k = 0 ∨ k = 1 ∨ k = 2 ∨ k = 3 := by omega
  all_goals
    obtain rfl | rfl | rfl | rfl : j = 0 ∨ j = 1 ∨ j = 2 ∨ j = 3 := by omega
    all_goals rfl

theorem BBox.eq_of_fields {box box' : BBox} (h : ∀ k, k < 4 → box.field k = box'.field k) : box = box' := by
  obtain ⟨x, y, sizex, sizey⟩ := box
  obtain ⟨x', y', sizex', sizey'⟩ := box'
  have hx : x = x' := h 0 (by decide)
  have hy : y = y' := h 1 (by decide)
  have hsizex : sizex = sizex' := h 2 (by decide)
  have hsizey : sizey = sizey' := h 3 (by decide)
  rw [hx, hy, hsizex, hsizey]

/-! ## The main thread while the mutex is held -/

/-- The state with other requests and another display. -/
def Main.withVideo (s : Main) (stack : BBoxStack) (flag : Bool) (screen : Screen) : Main :=
  { s with vbuf := { s.vbuf with updStack := stack, clearFlag := flag }, screen := screen }

section WithVideo

variable (s : Main) (stack : BBoxStack) (flag : Bool) (screen : Screen)

@[simp] theorem Main.withVideo_pc : (s.withVideo stack flag screen).pc = s.pc := rfl

@[simp] theorem Main.withVideo_updStack : (s.withVideo stack flag screen).vbuf.updStack = stack := rfl

@[simp] theorem Main.withVideo_clearFlag : (s.withVideo stack flag screen).vbuf.clearFlag = flag := rfl

@[simp] theorem Main.withVideo_pixel (p q : Nat) :
    (s.withVideo stack flag screen).vbuf.pixel p q = s.vbuf.pixel p q := rfl

@[simp] theorem Main.withVideo_screen : (s.withVideo stack flag screen).screen = screen := rfl

end WithVideo

theorem Main.withVideo_eq {s s' : Main} (hvbuf : s.vbuf = s'.vbuf) (hscreen : s.screen = s'.screen) :
    s.withVideo s'.vbuf.updStack s'.vbuf.clearFlag s'.screen = s := by
  rw [← hvbuf, ← hscreen]
  rfl

/-- Where the main thread can stand while the video thread holds the mutex. -/
def Pc.InSession (pc : Pc) : Prop := pc ≠ .gravity ∧ pc ≠ .collides ∧ pc ≠ .present

theorem mainStep_withScreen {cfg : Config} (hcfg : cfg.sitl = false) {s : Main} (hpc : s.pc ≠ .present)
    (env : Env) (screen : Screen) :
    mainStep cfg { s with screen := screen } env = { mainStep cfg s env with screen := screen }
      ∧ (mainStep cfg s env).screen = s.screen ∧ (mainStep cfg s env).pc ≠ .present := by
  unfold mainStep
  cases hs : s.pc with
  | present => exact absurd hs hpc
  | loop =>
      simp only [hwLoop]
      split_ifs <;> simp
  | floorTest =>
      simp only
      split_ifs with h h'
      · simp
      · exact absurd h h'
      · rename_i h'
        exact absurd h' h
      · simp
  | gravity =>
      simp only
      split_ifs with h h'
      · simp
      · exact absurd h h'
      · rename_i h'
        exact absurd h' h
      · simp
  | collides =>
      simp only
      split_ifs <;> simp
  | _ => simp [hcfg]

/-- A step that pushes the strip of a move, whatever is on the stack and on the display. -/
structure PushStep (shiftClear : Bool) (s : Main) (env : Env) : Prop where
  pc : s.pc = .loop
  moves : (buttonsDoAction s.blk env.buttons).2 = true
  step : ∀ stack flag screen,
    mainStep ⟨false, shiftClear⟩ (s.withVideo stack flag screen) env
      = { s with blk := (buttonsDoAction s.blk env.buttons).1, pc := .loopDelay }.withVideo
          (bboxStackPush stack (updateMask (buttonsDoAction s.blk env.buttons).1)).1 flag screen

/-- A step to `s'` that leaves alone everything the video thread reads, whatever is on the stack and on
    the display. -/
structure QuietStep (shiftClear : Bool) (s : Main) (env : Env) (s' : Main) : Prop where
  vbuf : s'.vbuf = s.vbuf
  screen : s'.screen = s.screen
  session : s'.pc.InSession
  delay : s'.pc ≠ .delay
  loop : s'.pc = .loop → s.pc = .delay
  step : ∀ stack flag screen,
    mainStep ⟨false, shiftClear⟩ (s.withVideo stack flag screen) env = s'.withVideo stack flag screen

theorem PushStep.mainStep {shiftClear : Bool} {s : Main} {env : Env} (h : PushStep shiftClear s env) :
    mainStep ⟨false, shiftClear⟩ s env
      = { s with blk := (buttonsDoAction s.blk env.buttons).1, pc := .loopDelay }.withVideo
          (bboxStackPush s.vbuf.updStack (updateMask (buttonsDoAction s.blk env.buttons).1)).1
          s.vbuf.clearFlag s.screen :=
  h.step s.vbuf.updStack s.vbuf.clearFlag s.screen

theorem QuietStep.mainStep {shiftClear : Bool} {s s' : Main} {env : Env}
    (h : QuietStep shiftClear s env s') : mainStep ⟨false, shiftClear⟩ s env = s' :=
  (h.step s.vbuf.updStack s.vbuf.clearFlag s.screen).trans (Main.withVideo_eq h.vbuf h.screen)

/-- **What the main thread does while the video thread holds the mutex.** -/
theorem mainStep_inSession {shiftClear : Bool} {s : Main} (hpc : s.pc.InSession)
    (hfree : ¬TakesMutex ⟨false, shiftClear⟩ s) (env : Env) :
    PushStep shiftClear s env ∨ ∃ s', QuietStep shiftClear s env s' := by
  unfold TakesMutex at hfree
  cases hs : s.pc with
  | loop =>
      cases hret : (buttonsDoAction s.blk env.buttons).2 with
      | true =>
          refine Or.inl ⟨hs, hret, fun stack flag screen => ?_⟩
          simp only [mainStep, Main.withVideo, hs, hwLoop, hret, if_true]
          rfl
      | false =>
          refine Or.inr ⟨{ s with blk := (buttonsDoAction s.blk env.buttons).1, pc := .floorTest },
            rfl, rfl, by simp [Pc.InSession], by simp, by simp, fun stack flag screen => ?_⟩
          simp [mainStep, Main.withVideo, hs, hwLoop, hret]
  | loopDelay =>
      exact Or.inr ⟨{ s with pc := .floorTest }, rfl, rfl, by simp [Pc.InSession], by simp,
        by simp, fun stack flag screen => by simp [mainStep, Main.withVideo, hs]⟩
  | floorTest =>
      have hfloor : atFloor s := by
        by_contra hmiss
        exact hfree (Or.inl ⟨hs, hmiss⟩)
      refine Or.inr ⟨{ s with pc := .lock }, rfl, rfl, by simp [Pc.InSession], by simp,
        by simp, fun stack flag screen => ?_⟩
      have hfloor' : atFloor (s.withVideo stack flag screen) := hfloor
      rw [mainStep]
      simp only [Main.withVideo, hs] at hfloor' ⊢
      rw [if_pos hfloor']
  | lock =>
      exact Or.inr ⟨{ s with
          grid := blockAdd s.blk s.grid
          blk := blockGamma
          bbox := getBbox blockGamma.pattern
          pc := .clearRows }, rfl, rfl, by simp [Pc.InSession], by simp,
        by simp, fun stack flag screen => by simp [mainStep, Main.withVideo, hs]⟩
  | delay =>
      exact Or.inr ⟨{ s with pc := .loop }, rfl, rfl, by simp [Pc.InSession], by simp, fun _ => hs,
        fun stack flag screen => by simp [mainStep, Main.withVideo, hs]⟩
  | clearRows =>
      have hoff : shiftClear = false := by
        cases hclear : shiftClear
        · rfl
        · exact absurd (Or.inr (Or.inl ⟨hs, hclear⟩)) hfree
      refine Or.inr ⟨{ s with
          grid := (clearRows s.grid s.score).1
          score := (clearRows s.grid s.score).2
          pc := .paint }, rfl, rfl, by simp [Pc.InSession], by simp, by simp,
        fun stack flag screen => ?_⟩
      simp [mainStep, Main.withVideo, hs, hoff]
  | paint => exact absurd (Or.inr (Or.inr hs)) hfree
  | gravity => exact absurd hs hpc.1
  | collides => exact absurd hs hpc.2.1
  | present => exact absurd hs hpc.2.2

/-! ## What the video thread does -/

/-- The video thread pops boxes, resets the flag and writes to the display. -/
theorem thdVideo_main (cfg : Config) (t : Threads) :
    ∃ stack flag screen, (thdVideo cfg t).main = t.main.withVideo stack flag screen
      ∧ ∀ box ∈ stack.arr, box ∈ t.main.vbuf.updStack.arr := by
  unfold thdVideo
  cases t.video with
  | popSize size =>
      exact ⟨t.main.vbuf.updStack.withSize (size - 1), _, _, rfl, fun _ => BBoxStack.mem_withSize⟩
  | _ => exact ⟨t.main.vbuf.updStack, _, _, rfl, fun _ hbox => hbox⟩

theorem thdVideo_pc (cfg : Config) (t : Threads) : (thdVideo cfg t).main.pc = t.main.pc := by
  obtain ⟨stack, flag, screen, hmain, -⟩ := thdVideo_main cfg t
  rw [hmain]
  rfl

theorem threadStep_video_pc (cfg : Config) (t : Threads) :
    (threadStep cfg t .video).main.pc = t.main.pc := by
  rw [threadStep]
  split_ifs
  · exact thdVideo_pc cfg t
  · rfl

theorem displayUpdateStm32_spec (vbuf : VBuf) (disp : Stm32Display) (hbuf : disp.buf.size = 0) :
    (displayUpdateStm32 vbuf disp).buf.size = 0
      ∧ ∀ p q, p < 240 → q < 240 →
          (displayUpdateStm32 vbuf disp).panel.pixel p q = if vbuf.pixel p q then 0xFFFF else 0x0000 := by
  obtain ⟨hsize, hpixel⟩ := updateRectStm32_spec vbuf fullScreen_aligned disp hbuf
  refine ⟨hsize, fun p q hp hq => ?_⟩
  have hcovers : (BBox.mk 0 0 dispCols (dispRows * 8)).Covers p q := by
    simp only [BBox.Covers, dispCols, dispRows]
    omega
  exact (hpixel p q).trans (if_pos hcovers)

/-! ## What holds in every interleaving -/

/-- The panel shows what is in the buffer. -/
def Shown (t : Threads) (p q : Nat) : Prop :=
  t.main.screen.stm32.panel.pixel p q = if t.main.vbuf.pixel p q then 0xFFFF else 0x0000

/-- `popCopy` has copied the fields before `k`. -/
structure Copied (stack : BBoxStack) (i : Nat) (gone box : BBox) (k : Nat) : Prop where
  live : i ≤ stack.size
  field_lt : k < 4
  goneAligned : gone.Aligned
  aligned : ∀ j, j < k → FieldAligned j (box.field j)
  /-- as long as nothing has been pushed they are those of the box that was given up -/
  same : stack.size = i → ∀ j, j < k → box.field j = gone.field j

/-- One field more is copied. -/
theorem Copied.next {stack : BBoxStack} {i : Nat} {gone box : BBox} {k : Nat}
    (h : Copied stack i gone box k) (hstack : ∀ box ∈ stack.arr, box.Aligned) :
    (∀ j, j < k + 1 → FieldAligned j ((box.copyField (stack.slot gone i) k).field j))
      ∧ (stack.size = i → ∀ j, j < k + 1 → (box.copyField (stack.slot gone i) k).field j = gone.field j) := by
  have hk := h.field_lt
  have hslot : (stack.slot gone i).Aligned := by
    by_cases hi : i < stack.size
    · exact hstack _ (stack.slot_mem gone hi)
    · rw [stack.slot_of_size_le gone (by omega)]
      exact h.goneAligned
  refine ⟨fun j hj => ?_, fun hsize j hj => ?_⟩
  · rw [BBox.field_copyField _ _ (by omega) hk]
    split_ifs with hjk
    · exact BBox.aligned_iff.1 hslot j (by omega)
    · exact h.aligned j (by omega)
  · rw [BBox.field_copyField _ _ (by omega) hk, stack.slot_of_size_le gone (by omega)]
    split_ifs with hjk
    · rfl
    · exact h.same hsize j (by omega)

/-- What the video thread relies on where it stands. -/
def VideoSoFar (t : Threads) : Prop :=
  match t.video with
  | .asleep | .locked | .unlock => True
  | .sendAll => t.main.vbuf.clearFlag = true
  | .resetFlag => t.main.vbuf.clearFlag = true ∧ ∀ p q, p < 240 → q < 240 → Shown t p q
  | .loopTest => t.main.vbuf.clearFlag = false
  | .pop => t.main.vbuf.clearFlag = false ∧ 0 < t.main.vbuf.updStack.size
  | .popSize size => t.main.vbuf.clearFlag = false ∧ 0 < size ∧ size ≤ t.main.vbuf.updStack.size
  | .popCopy i gone box k =>
      t.main.vbuf.clearFlag = false ∧ Copied t.main.vbuf.updStack i gone box k
  | .sendBox box => t.main.vbuf.clearFlag = false ∧ box.Aligned

/-- **Everything a step of the video thread can do**, with what it relies on. -/
theorem thdVideo_cases {motive : Threads → Prop} {shiftClear : Bool} {t : Threads} (h : VideoSoFar t)
    (hbus : BusReady t.main)
    (lock : t.video = .asleep → motive ⟨t.main, .locked⟩)
    (full : t.video = .locked → t.main.vbuf.clearFlag = true → motive ⟨t.main, .sendAll⟩)
    (enter : t.video = .locked → t.main.vbuf.clearFlag = false → motive ⟨t.main, .loopTest⟩)
    (sendAll : t.video = .sendAll → t.main.vbuf.clearFlag = true → ∀ disp : Stm32Display,
      disp.buf.size = 0 →
      (∀ p q, p < 240 → q < 240 →
        disp.panel.pixel p q = if t.main.vbuf.pixel p q then 0xFFFF else 0x0000) →
      motive ⟨{ t.main with screen := { t.main.screen with stm32 := disp } }, .resetFlag⟩)
    (reset : t.video = .resetFlag → (∀ p q, p < 240 → q < 240 → Shown t p q) →
      motive ⟨t.main.withVideo t.main.vbuf.updStack false t.main.screen, .unlock⟩)
    (done : t.video = .loopTest → t.main.vbuf.clearFlag = false → t.main.vbuf.updStack.arr = [] →
      motive ⟨t.main, .unlock⟩)
    (more : t.video = .loopTest → t.main.vbuf.clearFlag = false → 0 < t.main.vbuf.updStack.size →
      motive ⟨t.main, .pop⟩)
    (pop : t.video = .pop → t.main.vbuf.clearFlag = false → 0 < t.main.vbuf.updStack.size →
      motive ⟨t.main, .popSize t.main.vbuf.updStack.size⟩)
    (popSize : ∀ size, t.video = .popSize size → t.main.vbuf.clearFlag = false → 0 < size →
      size ≤ t.main.vbuf.updStack.size →
      motive ⟨t.main.withVideo (t.main.vbuf.updStack.withSize (size - 1)) t.main.vbuf.clearFlag
          t.main.screen,
        .popCopy (size - 1) (t.main.vbuf.updStack.slot ⟨0, 0, 0, 0⟩ (size - 1)) ⟨0, 0, 0, 0⟩ 0⟩)
    (popCopy : ∀ i gone box k, t.video = .popCopy i gone box k → t.main.vbuf.clearFlag = false →
      Copied t.main.vbuf.updStack i gone box k → k < 3 →
      motive ⟨t.main, .popCopy i gone (box.copyField (t.main.vbuf.updStack.slot gone i) k) (k + 1)⟩)
    (popped : ∀ i gone box, t.video = .popCopy i gone box 3 → t.main.vbuf.clearFlag = false →
      Copied t.main.vbuf.updStack i gone box 3 →
      motive ⟨t.main, .sendBox (box.copyField (t.main.vbuf.updStack.slot gone i) 3)⟩)
    (sendBox : ∀ box, t.video = .sendBox box → t.main.vbuf.clearFlag = false → box.Aligned →
      ∀ disp : Stm32Display, disp.buf.size = 0 →
      (∀ p q, disp.panel.pixel p q = if box.Covers p q
        then (if t.main.vbuf.pixel p q then 0xFFFF else 0x0000)
        else t.main.screen.stm32.panel.pixel p q) →
      motive ⟨{ t.main with screen := { t.main.screen with stm32 := disp } }, .loopTest⟩)
    (unlock : t.video = .unlock → motive ⟨t.main, .asleep⟩) :
    motive (thdVideo ⟨false, shiftClear⟩ t) := by
  obtain ⟨main, video⟩ := t
  unfold VideoSoFar at h
  cases video with
  | asleep => exact lock rfl
  | locked =>
      cases hflag : main.vbuf.clearFlag with
      | false => simpa [thdVideo, hflag] using enter rfl hflag
      | true => simpa [thdVideo, hflag] using full rfl hflag
  | sendAll =>
      obtain ⟨hsize, hpixel⟩ := displayUpdateStm32_spec main.vbuf main.screen.stm32 hbus.transfer
      obtain ⟨disp, hdisp⟩ : ∃ disp, disp = displayUpdateStm32 main.vbuf main.screen.stm32 := ⟨_, rfl⟩
      have hstep : thdVideo ⟨false, shiftClear⟩ ⟨main, .sendAll⟩
          = ⟨{ main with screen := { main.screen with stm32 := disp } }, .resetFlag⟩ := by
        rw [thdVideo, hdisp]
        rfl
      rw [← hdisp] at hsize hpixel
      rw [hstep]
      exact sendAll rfl h disp hsize hpixel
  | resetFlag => exact reset rfl h.2
  | loopTest =>
      by_cases hsize : main.vbuf.updStack.size = 0
      · simpa [thdVideo, hsize] using done rfl h (List.length_eq_zero_iff.1 hsize)
      · simpa [thdVideo, hsize] using more rfl h (Nat.pos_of_ne_zero hsize)
  | pop =>
      have hsize : main.vbuf.updStack.size ≠ 0 := Nat.pos_iff_ne_zero.1 h.2
      simpa [thdVideo, hsize] using pop rfl h.1 h.2
  | popSize size => exact popSize size rfl h.1 h.2.1 h.2.2
  | popCopy i gone box k =>
      by_cases hk : k < 3
      · simpa [thdVideo, hk] using popCopy i gone box k rfl h.1 h.2 hk
      · have hlast : k = 3 := by
          have hlt := h.2.field_lt
          omega
        subst hlast
        exact popped i gone box rfl h.1 h.2
  | sendBox box =>
      obtain ⟨hsize, hpixel⟩ := updateRectStm32_spec main.vbuf h.2 main.screen.stm32 hbus.transfer
      exact sendBox box rfl h.1 h.2 _ hsize hpixel
  | unlock => exact unlock rfl

/-! ### A pop that is let alone -/

/-- The box that the stack has given up and that is not yet sent. -/
def VideoPc.inFlight : VideoPc → List BBox
  | .popCopy _ gone _ _ => [gone]
  | .sendBox box => [box]
  | _ => []

/-- Nothing has been pushed since the pop that is under way has read `size`. -/
def Untorn (t : Threads) : Prop :=
  match t.video with
  | .popSize size => t.main.vbuf.updStack.size = size
  | .popCopy i _ _ _ => t.main.vbuf.updStack.size = i
  | _ => True

/-- The video thread has read `size` in `bbox_stack_pop` and has not yet copied the last field. -/
def VideoPc.InPop : VideoPc → Prop
  | .popSize _ | .popCopy _ _ _ _ => True
  | _ => False

instance : (v : VideoPc) → Decidable v.InPop
  | .popSize _ | .popCopy _ _ _ _ => inferInstanceAs (Decidable True)
  | .asleep | .locked | .sendAll | .resetFlag | .loopTest | .pop | .sendBox _ | .unlock =>
      inferInstanceAs (Decidable False)

/-- The strip of a move is pushed while a pop is under way. -/
def PushesInPop (t : Threads) : ThreadLabel → Prop
  | .main env => t.video.InPop ∧ t.main.pc = .loop ∧ (buttonsDoAction t.main.blk env.buttons).2 = true
  | .video => False

instance (t : Threads) : (k : ThreadLabel) → Decidable (PushesInPop t k)
  | .main _ => inferInstanceAs (Decidable (_ ∧ _ ∧ _))
  | .video => inferInstanceAs (Decidable False)

theorem Untorn.of_not_inPop {t : Threads} (h : ¬t.video.InPop) : Untorn t := by
  unfold Untorn
  cases hv : t.video <;> simp_all [VideoPc.InPop]

/-- Then the box it gets is the one the stack has given up. -/
theorem Copied.eq_gone {stack : BBoxStack} {i : Nat} {gone box : BBox} (h : Copied stack i gone box 3)
    (hstack : ∀ box ∈ stack.arr, box.Aligned) (hsize : stack.size = i) :
    box.copyField (stack.slot gone i) 3 = gone :=
  BBox.eq_of_fields ((h.next hstack).2 hsize)

/-- No step of the video thread pushes. -/
theorem Untorn.thdVideo {shiftClear : Bool} {t : Threads} (h : Untorn t) (hvideo : VideoSoFar t)
    (hbus : BusReady t.main) : Untorn (thdVideo ⟨false, shiftClear⟩ t) := by
  unfold Untorn at h
  apply thdVideo_cases (motive := Untorn) hvideo hbus
  case popSize =>
      intro size hv _ hpos hle
      simp only [Untorn, Main.withVideo, BBoxStack.size_withSize]
      omega
  case popCopy =>
      intro i gone box k hv _ _ _
      simp only [hv] at h
      exact h
  all_goals
    intros
    trivial

/-! ### The two threads -/

/-- What holds of the two threads, whatever is pushed when. -/
structure Held (t : Threads) : Prop where
  bus : BusReady t.main
  pc : t.main.pc ≠ .present
  session : t.video ≠ .asleep → t.main.pc.InSession
  video : VideoSoFar t

theorem held_start (t0 : BitVec 32) {screen : Screen} (hbuf : screen.stm32.buf.size = 0) :
    Held (threadStart t0 screen) where
  bus := (handshake_start t0 hbuf).bus
  pc := by simp [threadStart, start]
  session := by simp [threadStart]
  video := trivial

/-! ### Steps of the main thread -/

theorem VideoSoFar.congr {t : Threads} (h : VideoSoFar t) {s : Main} (hvbuf : s.vbuf = t.main.vbuf)
    (hscreen : s.screen = t.main.screen) : VideoSoFar { t with main := s } := by
  simpa only [VideoSoFar, Shown, hvbuf, hscreen] using h

theorem VBuf.size_le_push (vbuf : VBuf) (box : BBox) :
    vbuf.updStack.size ≤ (vbuf.push box).updStack.size := by
  rw [BBoxStack.size, BBoxStack.size, VBuf.push_arr]
  split_ifs
  · exact Nat.le_succ _
  · exact le_refl _

/-- A push only adds to the stack. -/
theorem VideoSoFar.push {t : Threads} (h : VideoSoFar t) {s : Main} (box : BBox)
    (hvbuf : s.vbuf = t.main.vbuf.push box) (hscreen : s.screen = t.main.screen) :
    VideoSoFar { t with main := s } := by
  have hflag : s.vbuf.clearFlag = t.main.vbuf.clearFlag := by rw [hvbuf]; rfl
  have hsize : t.main.vbuf.updStack.size ≤ s.vbuf.updStack.size := by
    rw [hvbuf]
    exact VBuf.size_le_push t.main.vbuf box
  have hpixel : ∀ p q, s.vbuf.pixel p q = t.main.vbuf.pixel p q := by
    intro p q
    rw [hvbuf]
    rfl
  unfold VideoSoFar at h ⊢
  cases hv : t.video with
  | asleep | locked | unlock => trivial
  | sendAll | loopTest => simpa only [hv, hflag] using h
  | resetFlag => simpa only [hv, hflag, Shown, hpixel, hscreen] using h
  | pop =>
      simp only [hv, hflag] at h ⊢
      exact ⟨h.1, lt_of_lt_of_le h.2 hsize⟩
  | popSize size =>
      simp only [hv, hflag] at h ⊢
      exact ⟨h.1, h.2.1, le_trans h.2.2 hsize⟩
  | popCopy i gone box' k =>
      simp only [hv, hflag] at h ⊢
      have hcopied := h.2
      refine ⟨h.1, le_trans hcopied.live hsize, hcopied.field_lt, hcopied.goneAligned, hcopied.aligned,
        fun hsame => hcopied.same ?_⟩
      have hlive := hcopied.live
      omega
  | sendBox box' => simpa only [hv, hflag] using h

theorem Held.main {shiftClear : Bool} {t : Threads} (h : Held t) (env : Env) :
    Held (threadStep ⟨false, shiftClear⟩ t (.main env)) := by
  rw [threadStep]
  split_ifs with hwaits
  · exact h
  have hbus : BusReady (mainStep ⟨false, shiftClear⟩ t.main env) := h.bus.step rfl t.main (.main env)
  have hpresent : (mainStep ⟨false, shiftClear⟩ t.main env).pc ≠ .present :=
    (mainStep_withScreen rfl h.pc env t.main.screen).2.2
  by_cases hasleep : t.video = .asleep
  · refine ⟨hbus, hpresent, fun hheld => absurd hasleep hheld, ?_⟩
    simp only [VideoSoFar, hasleep]
  · have hfree : ¬TakesMutex ⟨false, shiftClear⟩ t.main := fun htakes => hwaits ⟨hasleep, htakes⟩
    rcases mainStep_inSession (h.session hasleep) hfree env with hpush | ⟨s', hquiet⟩
    · refine ⟨hbus, hpresent, fun _ => ?_, ?_⟩
      · rw [hpush.mainStep]
        simp [Main.withVideo, Pc.InSession]
      · refine h.video.push (updateMask (buttonsDoAction t.main.blk env.buttons).1) ?_ ?_ <;>
          rw [hpush.mainStep] <;> rfl
    · rw [hquiet.mainStep] at hbus hpresent ⊢
      exact ⟨hbus, hpresent, fun _ => hquiet.session, h.video.congr hquiet.vbuf hquiet.screen⟩

/-- Nothing else is pushed while the video thread holds the mutex. -/
theorem Untorn.main {shiftClear : Bool} {t : Threads} (h : Untorn t) (hheld : Held t)
    (hfree : ¬t.Waits ⟨false, shiftClear⟩) {env : Env} (hpush : ¬PushesInPop t (.main env)) :
    Untorn { t with main := mainStep ⟨false, shiftClear⟩ t.main env } := by
  by_cases hin : t.video.InPop
  · have hv : t.video ≠ .asleep := by
      intro hasleep
      simp [hasleep, VideoPc.InPop] at hin
    rcases mainStep_inSession (hheld.session hv) (fun htakes => hfree ⟨hv, htakes⟩) env with
      hstep | ⟨s', hquiet⟩
    · exact absurd ⟨hin, hstep.pc, hstep.moves⟩ hpush
    · rw [hquiet.mainStep]
      simpa only [Untorn, hquiet.vbuf] using h
  · exact Untorn.of_not_inPop hin

/-! ### Steps of the video thread -/

theorem BusReady.withVideo {s : Main} (h : BusReady s) {stack : BBoxStack} {flag : Bool} {screen : Screen}
    (hstack : ∀ box ∈ stack.arr, box ∈ s.vbuf.updStack.arr) (htransfer : screen.stm32.buf.size = 0) :
    BusReady (s.withVideo stack flag screen) where
  motion := h.motion.congr rfl rfl
  aligned := fun box hbox => h.aligned box (hstack box hbox)
  transfer := htransfer

theorem VideoSoFar.thdVideo {shiftClear : Bool} {t : Threads} (h : VideoSoFar t) (hbus : BusReady t.main) :
    VideoSoFar (thdVideo ⟨false, shiftClear⟩ t)
      ∧ (Katetris.thdVideo ⟨false, shiftClear⟩ t).main.screen.stm32.buf.size = 0 := by
  have htransfer := hbus.transfer
  apply thdVideo_cases (motive := fun t' => VideoSoFar t' ∧ t'.main.screen.stm32.buf.size = 0) h hbus
  case full => exact fun _ hflag => ⟨hflag, htransfer⟩
  case enter => exact fun _ hflag => ⟨hflag, htransfer⟩
  case sendAll => exact fun _ hflag disp hsize hpixel => ⟨⟨hflag, hpixel⟩, hsize⟩
  case more => exact fun _ hflag hsize => ⟨⟨hflag, hsize⟩, htransfer⟩
  case pop => exact fun _ hflag hsize => ⟨⟨hflag, hsize, le_refl _⟩, htransfer⟩
  case popSize =>
      intro size _ hflag hpos hle
      refine ⟨⟨hflag, ?_, by decide, ?_, by simp, by simp⟩, htransfer⟩
      · rw [Main.withVideo, BBoxStack.size_withSize]
        omega
      · exact hbus.aligned _ (BBoxStack.slot_mem _ _ (by omega))
  case popCopy =>
      intro i gone box k _ hflag hcopied hk
      obtain ⟨haligned, hsame⟩ := hcopied.next hbus.aligned
      exact ⟨⟨hflag, hcopied.live, by omega, hcopied.goneAligned, haligned, hsame⟩, htransfer⟩
  case popped =>
      intro i gone box _ hflag hcopied
      have haligned := (hcopied.next hbus.aligned).1
      exact ⟨⟨hflag, BBox.aligned_iff.2 haligned⟩, htransfer⟩
  case sendBox => exact fun _ _ hflag _ disp hsize _ => ⟨hflag, hsize⟩
  all_goals
    intros
    exact ⟨trivial, htransfer⟩

theorem Held.video_step {shiftClear : Bool} {t : Threads} (h : Held t) :
    Held (threadStep ⟨false, shiftClear⟩ t .video) := by
  rw [threadStep]
  split_ifs with hruns
  · have hsession : t.main.pc.InSession := by
      by_cases hasleep : t.video = .asleep
      · have hsleeps : t.main.Sleeps := hruns.resolve_right fun hwaits => hwaits.1 hasleep
        rcases hsleeps with hpc | hpc <;> simp [hpc, Pc.InSession]
      · exact h.session hasleep
    have hnext : VideoSoFar (thdVideo ⟨false, shiftClear⟩ t) ∧ _ := h.video.thdVideo h.bus
    obtain ⟨hvideo, htransfer⟩ := hnext
    obtain ⟨stack, flag, screen, hmain, hstack⟩ := thdVideo_main ⟨false, shiftClear⟩ t
    rw [hmain] at htransfer
    refine ⟨?_, ?_, fun _ => ?_, hvideo⟩ <;> rw [hmain]
    · exact h.bus.withVideo hstack htransfer
    · exact h.pc
    · exact hsession
  · exact h

theorem Held.step {shiftClear : Bool} (t : Threads) (k : ThreadLabel) (h : Held t) :
    Held (threadStep ⟨false, shiftClear⟩ t k) := by
  cases k with
  | main env => exact h.main env
  | video => exact h.video_step

theorem held_run (shiftClear : Bool) (t0 : BitVec 32) {screen : Screen} (hbuf : screen.stm32.buf.size = 0)
    (ks : List ThreadLabel) : Held (exec (threadStep ⟨false, shiftClear⟩) (threadStart t0 screen) ks) :=
  (AllStates.of_invariant' Held.step (held_start t0 hbuf) ks).last

/-! ## What is sent -/

/-- The transfer the video thread is about to make sends exactly its window. -/
def SendsItsWindow (t : Threads) : Prop :=
  (∀ box, t.video = .sendBox box → SendsWindow t.main.vbuf box t.main.screen.stm32)
    ∧ (t.video = .sendAll →
      SendsWindow t.main.vbuf ⟨0, 0, dispCols, dispRows * 8⟩ t.main.screen.stm32)

theorem Held.sendsItsWindow {t : Threads} (h : Held t) : SendsItsWindow t := by
  refine ⟨fun box hvideo => ?_, fun _ => ?_⟩
  · have hbox := h.video
    simp only [VideoSoFar, hvideo] at hbox
    exact hbox.2.sendsWindow t.main.vbuf h.bus.transfer
  · exact fullScreen_aligned.sendsWindow t.main.vbuf h.bus.transfer

/-- **Every transfer of every run sends exactly its window**, however the two threads interleave. -/
theorem threads_sendWindow (shiftClear : Bool) (t0 : BitVec 32) (screen : Screen)
    (hbuf : screen.stm32.buf.size = 0) (ks : List ThreadLabel) :
    AllStates (threadStep ⟨false, shiftClear⟩) SendsItsWindow (threadStart t0 screen) ks :=
  (AllStates.of_invariant' Held.step (held_start t0 hbuf) ks).mono fun _ h => h.sendsItsWindow

/-- Steps of the main thread under the same buttons and clock reading. -/
def threadSteps (n : Nat) (pressed : List Button) (millis : BitVec 32) : List ThreadLabel :=
  List.replicate n (.main ⟨ButtonStates.only pressed, millis, fun _ => 0⟩)

/-- The first frame is sent as a whole. The video thread is about to copy the score box of the second one
    when the main thread wakes up and pushes the strip of a move into the same slot. -/
def pushInPop : List ThreadLabel :=
  threadSteps 5 [] 1000 ++ List.replicate 5 .video ++ threadSteps 6 [] 1000 ++ List.replicate 5 .video
    ++ threadSteps 1 [] 1000 ++ threadSteps 1 [.right] 1000 ++ List.replicate 5 .video

theorem threads_sendWindow_pushInPop :
    AllStates (threadStep ⟨false, true⟩) SendsItsWindow (threadStart 0 .blank) pushInPop :=
  threads_sendWindow true 0 .blank rfl pushInPop

-- the strip is sent in the place of the score box, and stays on the stack
example : (exec (threadStep ⟨false, true⟩) (threadStart 0 .blank) (pushInPop.take 27)).video
      = .sendBox ⟨0, 0, 1920, 56⟩
    ∧ (exec (threadStep ⟨false, true⟩) (threadStart 0 .blank) (pushInPop.take 27)).main.vbuf.updStack.arr
      = [⟨0, 0, 1920, 56⟩, scoreBox, ⟨0, 0, 1920, 56⟩] := by
  decide +kernel

/-! ## How long the mutex is held -/

/-- The steps the video thread has still to take before it gives the mutex back, if nothing more is
    pushed. A box takes eight of them. -/
def Threads.stepsLeft (t : Threads) : Nat :=
  match t.video with
  | .asleep => 0
  | .unlock => 1
  | .resetFlag => 2
  | .sendAll => 3
  | .locked => if t.main.vbuf.clearFlag then 4 else 8 * t.main.vbuf.updStack.size + 3
  | .loopTest => 8 * t.main.vbuf.updStack.size + 2
  | .pop => 8 * t.main.vbuf.updStack.size + 1
  | .popSize size => 8 * size
  | .popCopy _ _ _ k => 8 * t.main.vbuf.updStack.size + (7 - k)
  | .sendBox _ => 8 * t.main.vbuf.updStack.size + 3

theorem Held.stepsLeft_le {t : Threads} (h : Held t) : t.stepsLeft ≤ 135 := by
  have hsize : t.main.vbuf.updStack.size ≤ 16 := t.main.vbuf.updStack.size_le
  have hvideo := h.video
  unfold Threads.stepsLeft
  cases hv : t.video with
  | popSize size =>
      simp only [VideoSoFar, hv] at hvideo
      simp only
      omega
  | locked =>
      simp only
      split_ifs <;> omega
  | _ =>
      simp only
      omega

/-- Each step of the video thread leaves one step less. -/
theorem Held.stepsLeft_thdVideo {shiftClear : Bool} {t : Threads} (h : Held t) (hheld : t.video ≠ .asleep) :
    (thdVideo ⟨false, shiftClear⟩ t).stepsLeft + 1 = t.stepsLeft := by
  apply thdVideo_cases (motive := fun t' => t'.stepsLeft + 1 = t.stepsLeft) h.video h.bus
  case lock => exact fun hv => absurd hv hheld
  case done =>
      intro hv _ hnil
      simp [Threads.stepsLeft, hv, BBoxStack.size, hnil]
  case popSize =>
      intro size hv _ hpos hle
      simp only [Threads.stepsLeft, hv, Main.withVideo, BBoxStack.size_withSize]
      omega
  case popCopy =>
      intro i gone box k hv _ _ hk
      simp only [Threads.stepsLeft, hv]
      omega
  all_goals
    intros
    simp [Threads.stepsLeft, *]

def ThreadLabel.isVideo : ThreadLabel → Bool
  | .main _ => false
  | .video => true

/-- **The main thread waits for the mutex through at most 135 steps of the video thread**, from every
    state the threads can reach and whatever the scheduler does. -/
theorem waits_bounded (shiftClear : Bool) (t0 : BitVec 32) (screen : Screen)
    (hbuf : screen.stm32.buf.size = 0) (ks ks' : List ThreadLabel)
    (hwaits : AllStates (threadStep ⟨false, shiftClear⟩) (Threads.Waits ⟨false, shiftClear⟩)
      (exec (threadStep ⟨false, shiftClear⟩) (threadStart t0 screen) ks) ks') :
    ks'.countP ThreadLabel.isVideo ≤ 135 := by
  have hheld := held_run shiftClear t0 hbuf ks
  suffices hcount : countSteps (threadStep ⟨false, shiftClear⟩) (fun _ k => ThreadLabel.isVideo k = true)
      (exec (threadStep ⟨false, shiftClear⟩) (threadStart t0 screen) ks) ks'
      + Threads.stepsLeft (exec (threadStep ⟨false, shiftClear⟩)
          (exec (threadStep ⟨false, shiftClear⟩) (threadStart t0 screen) ks) ks')
      ≤ Threads.stepsLeft (exec (threadStep ⟨false, shiftClear⟩) (threadStart t0 screen) ks) by
    rw [countSteps_eq_countP] at hcount
    have hmost := hheld.stepsLeft_le
    omega
  refine countSteps_add_rank_le (I := Held) (L := fun t _ => t.Waits ⟨false, shiftClear⟩)
    (fun t k h _ => h.step t k) ?_ ?_ hheld (hwaits.allSteps.mono fun _ _ h => h.1)
  · intro t k h hwait hk
    cases k with
    | main env => exact absurd hk (by simp [ThreadLabel.isVideo])
    | video =>
        have hstep : (thdVideo ⟨false, shiftClear⟩ t).stepsLeft + 1 = t.stepsLeft :=
          h.stepsLeft_thdVideo hwait.1
        rw [threadStep, if_pos (Or.inr hwait)]
        omega
  · intro t k _ hwait hk
    cases k with
    | main env => rw [threadStep, if_pos hwait]
    | video => exact absurd rfl hk

/-- The video thread takes the mutex in the final delay of the first frame, and the main thread comes to
    `vbuf_clear` before anything is sent. -/
def lockedFrame : List ThreadLabel := threadSteps 5 [] 0 ++ [.video] ++ threadSteps 2 [] 0

theorem waits_bounded_lockedFrame :
    AllStates (threadStep ⟨false, true⟩) (Threads.Waits ⟨false, true⟩)
        (exec (threadStep ⟨false, true⟩) (threadStart 0 .blank) lockedFrame) [.video, .video]
      ∧ [ThreadLabel.video, .video].countP ThreadLabel.isVideo ≤ 135 := by
  have hwaits : AllStates (threadStep ⟨false, true⟩) (Threads.Waits ⟨false, true⟩)
      (exec (threadStep ⟨false, true⟩) (threadStart 0 .blank) lockedFrame) [.video, .video] := by
    decide +kernel
  exact ⟨hwaits, waits_bounded true 0 .blank rfl lockedFrame [.video, .video] hwaits⟩

end Katetris
