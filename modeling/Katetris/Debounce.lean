import Katetris.Lib.Runs

set_option autoImplicit false

/-! # Button debouncing (`impl_stm32.c`)

One button line of the STM32 build. An edge of the pin runs `button_cb` if line events are enabled
and is lost if they are not; `button_cb` disables them, toggles the stored state and starts a 50 ms
timer, and `vt_cb` enables them again when it expires. When edges come and when the timer expires is
the environment's choice. -/

namespace Katetris

/-- `button_t` with the pin and the parts of the PAL and the virtual timer it uses. -/
structure ButtonLine where
  /-- the pin level, true for high -/
  level : Bool
  /-- line events are enabled -/
  enabled : Bool
  /-- `button->vt` is armed -/
  armed : Bool
  /-- `button->state` -/
  state : Bool
  deriving DecidableEq, Repr

inductive LineEvent where
  | edge
  | expire
  deriving DecidableEq, Repr

/-- `button_cb`: `palDisableLineEventI`, `chVTResetI`, the toggle, `chVTDoSetI`. -/
def buttonCb (b : ButtonLine) : ButtonLine :=
  { b with enabled := false, state := !b.state, armed := true }

/-- `vt_cb`: `palEnableLineEventI`; the callback it sets again is the one already set. -/
def vtCb (b : ButtonLine) : ButtonLine := { b with enabled := true }

/-- One step: the pin flips, or the armed timer expires. -/
def lineStep (b : ButtonLine) : LineEvent → ButtonLine
  | .edge =>
      let b := { b with level := !b.level }
      if b.enabled then buttonCb b else b
  | .expire => if b.armed then vtCb { b with armed := false } else b

/-- The line as `init_stm32` leaves it, with the pin low. -/
def lineInit : ButtonLine := ⟨false, true, false, false⟩

end Katetris
