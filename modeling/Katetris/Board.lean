import Katetris.Video
import Katetris.Debounce

set_option autoImplicit false

/-! # The STM32 board (`impl_stm32.c`)

The two threads together with the five button lines and their timers. `loop_stm32` reads the stored
states of the buttons one after the other, without a lock, and `button_cb` and `vt_cb` run as interrupts:
a pin can change and a timer expire between any two steps of either thread, and so between any two of
these reads. -/

namespace Katetris

/-- `buttons`, each entry by the button that has its index in `button_e`. -/
def buttons : List Button := [.left, .up, .down, .right, .enter]

/-- The threads, `buttons`, the loop variable of `loop_stm32` and its `button_states`. -/
structure Board where
  threads : Threads
  lines : Button → ButtonLine
  i : Nat
  states : ButtonStates

/-- A step of one of the threads, or an event of one of the lines. -/
inductive BoardLabel where
  | main (env : Env)
  | video
  | line (b : Button) (e : LineEvent)

/-- A step of the main thread in `loop_stm32`: the next read, or, after the last one,
    `buttons_do_action` and what follows it up to the delay. -/
def loopStm32 (cfg : Config) (t : Board) (env : Env) : Board :=
  match buttons[t.i]? with
  | some b => { t with states := Function.update t.states b (t.lines b).state, i := t.i + 1 }
  | none =>
      { t with threads := threadStep cfg t.threads (.main { env with buttons := t.states }), i := 0 }

/-- One step of the board. -/
def boardStep (cfg : Config) (t : Board) : BoardLabel → Board
  | .main env =>
      if t.threads.main.pc = .loop then loopStm32 cfg t env
      else { t with threads := threadStep cfg t.threads (.main env) }
  | .video => { t with threads := threadStep cfg t.threads .video }
  | .line b e => { t with lines := Function.update t.lines b (lineStep (t.lines b) e) }

/-- `while (1)` is entered, with no button touched since `init_stm32`; `button_states` is static and
    zero. -/
def boardStart (t0 : BitVec 32) (screen : Screen) : Board :=
  ⟨threadStart t0 screen, fun _ => lineInit, 0, .none⟩

end Katetris
