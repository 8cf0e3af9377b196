import Katetris.Main

set_option autoImplicit false

/-! # The two threads of the STM32 build (`main.c`, `display.c`)

`Main` runs `draw` in one step. Here the video thread takes the steps of `thd_video` and `draw` one at
a time, and the main thread can run between any two of them. `vbuf_clear`, `vbuf_set_flag` and
`vbuf_draw_rect` take the mutex, so the main thread waits in front of them as long as the video thread
holds it; `update_block` and the push of the score box do not take it. The main thread has the higher
priority (`NORMALPRIO` against `LOWPRIO`), so the video thread gets the processor only while the main
thread sleeps or waits. A push by the main thread is therefore not interrupted; a pop by the video thread
can be, so the read of `size`, the store of `size` and the read of each field of the box are steps of
their own. -/

namespace Katetris

/-! ## The update stack in memory -/

/-- `arr[i]`. The slots from `size` on are not live: the one the stack gave up last still holds what was
    in it then, `gone`. -/
def BBoxStack.slot (stack : BBoxStack) (gone : BBox) (i : Nat) : BBox := stack.arr.reverse.getD i gone

/-- The stack after a store of `size`, which is never larger than what it has grown to: nobody pops but
    the thread that stores. -/
def BBoxStack.withSize (stack : BBoxStack) (size : Nat) : BBoxStack where
  arr := stack.arr.drop (stack.size - size)
  size_le := le_trans (by rw [List.length_drop]; exact Nat.sub_le _ _) stack.size_le

/-- `box.f = src.f` for the `k`-th field `f`. -/
def BBox.copyField (box src : BBox) : Nat → BBox
  | 0 => { box with x := src.x }
  | 1 => { box with y := src.y }
  | 2 => { box with sizex := src.sizex }
  | _ => { box with sizey := src.sizey }

/-! ## The threads -/

/-- Where the video thread stands. -/
inductive VideoPc where
  /-- in `hw->delay(1)`, without the mutex -/
  | asleep
  /-- it has the mutex, the test of `clear_flag` comes next -/
  | locked
  /-- about to call `hw->display_update` -/
  | sendAll
  /-- about to reset `clear_flag` -/
  | resetFlag
  /-- at the test of `while (vbuf->upd_stack.size)` -/
  | loopTest
  /-- about to read `size` in `bbox_stack_pop` -/
  | pop
  /-- it has read this `size` and is about to store one less -/
  | popSize (size : Nat)
  /-- in `*box = stack->arr[i]`, field `k` comes next; `box` has the fields before it, and `gone` was in the
      slot when `size` was stored -/
  | popCopy (i : Nat) (gone box : BBox) (k : Nat)
  /-- about to call `hw->display_update_rect` -/
  | sendBox (box : BBox)
  /-- about to give the mutex back -/
  | unlock
  deriving DecidableEq, Repr

/-- Both threads, with the memory they share in `main`. -/
structure Threads where
  main : Main
  video : VideoPc

/-- The next thing the main thread does is to take the mutex: in `vbuf_clear`, in `vbuf_set_flag`, in
    the first `vbuf_draw_rect` of `block_draw`. The `goto` of the floor test leaves `vbuf_clear` out. -/
def TakesMutex (cfg : Config) (s : Main) : Prop :=
  (s.pc = .floorTest ∧ ¬atFloor s) ∨ (s.pc = .clearRows ∧ cfg.shiftClear = true) ∨ s.pc = .paint

instance (cfg : Config) (s : Main) : Decidable (TakesMutex cfg s) :=
  inferInstanceAs (Decidable ((_ ∧ _) ∨ (_ ∧ _) ∨ _))

/-- The main thread waits for the mutex. -/
def Threads.Waits (cfg : Config) (t : Threads) : Prop := t.video ≠ .asleep ∧ TakesMutex cfg t.main

instance (cfg : Config) (t : Threads) : Decidable (t.Waits cfg) :=
  inferInstanceAs (Decidable (_ ∧ _))

/-- The main thread is in one of its two delays. -/
def Main.Sleeps (s : Main) : Prop := s.pc = .loopDelay ∨ s.pc = .delay

instance (s : Main) : Decidable s.Sleeps := inferInstanceAs (Decidable (_ ∨ _))

/-- One step of `thd_video`. -/
def thdVideo (cfg : Config) (t : Threads) : Threads :=
  match t.video with
  | .asleep => { t with video := .locked }
  | .locked => { t with video := if t.main.vbuf.clearFlag then .sendAll else .loopTest }
  | .sendAll =>
      { main := { t.main with screen := displayUpdate cfg t.main.vbuf t.main.screen }
        video := .resetFlag }
  | .resetFlag =>
      { main := { t.main with vbuf := { t.main.vbuf with clearFlag := false } }
        video := .unlock }
  | .loopTest => { t with video := if t.main.vbuf.updStack.size = 0 then .unlock else .pop }
  | .pop =>
      let size := t.main.vbuf.updStack.size
      -- `bbox` is zero before the call, and a failed pop leaves it so
      { t with video := if size = 0 then .sendBox ⟨0, 0, 0, 0⟩ else .popSize size }
  | .popSize size =>
      let stack := t.main.vbuf.updStack
      { main := { t.main with vbuf := { t.main.vbuf with updStack := stack.withSize (size - 1) } }
        video := .popCopy (size - 1) (stack.slot ⟨0, 0, 0, 0⟩ (size - 1)) ⟨0, 0, 0, 0⟩ 0 }
  | .popCopy i gone box k =>
      let box' := box.copyField (t.main.vbuf.updStack.slot gone i) k
      { t with video := if k < 3 then .popCopy i gone box' (k + 1) else .sendBox box' }
  | .sendBox box =>
      { main := { t.main with screen := displayUpdateRect cfg t.main.vbuf box t.main.screen }
        video := .loopTest }
  | .unlock => { t with video := .asleep }

/-- A step of the main thread, or one of the video thread. -/
inductive ThreadLabel where
  | main (env : Env)
  | video

/-- One step of the thread the label names, if it can run. -/
def threadStep (cfg : Config) (t : Threads) : ThreadLabel → Threads
  | .main env => if t.Waits cfg then t else { t with main := mainStep cfg t.main env }
  | .video => if t.main.Sleeps ∨ t.Waits cfg then thdVideo cfg t else t

/-- `while (1)` is entered. The video thread was created before, but has not had the processor. -/
def threadStart (t0 : BitVec 32) (screen : Screen) : Threads := ⟨start t0 screen, .asleep⟩

end Katetris
