import Katetris.Main

set_option autoImplicit false

/-! # The clocks (`impl_stm32.c`, `chconf.h`, `chtime.h`, `impl_sitl.c`)

On the STM32 build the hardware counts ticks of a tenth of a millisecond without end. The system reads
them as a 16-bit counter, `millis_stm32` turns the reading into milliseconds, and the gravity step of the
game loop compares two such values. The SITL build reads `CLOCK_MONOTONIC` and combines its seconds and nanoseconds
(`gettime`). The machine of the game loop takes its clock readings from the environment; here the
environment is a clock that counts ticks (`timedStep`), and the tick of the last gravity step is kept
beside the state. -/

namespace Katetris

open Lib

/-! ## Reading the clock -/

/-- `CH_CFG_ST_RESOLUTION`: the width of `systime_t`. -/
abbrev stResolution : Nat := 16

/-- `CH_CFG_ST_FREQUENCY`, in ticks per second. -/
abbrev stFrequency : Nat := 10000

/-- `chVTGetSystemTime` once the hardware has counted `tick` ticks. -/
def chVTGetSystemTime (tick : Nat) : BitVec stResolution := BitVec.ofNat stResolution tick

/-- `TIME_I2MS`: computed in the 64 bits of `time_conv_t`, narrowed to the 32 of `time_msecs_t`. -/
def timeI2MS (interval : BitVec stResolution) : BitVec 32 :=
  ((interval.setWidth 64 * 1000#64 + BitVec.ofNat 64 stFrequency - 1#64)
    / BitVec.ofNat 64 stFrequency).setWidth 32

/-- `millis_stm32`. -/
def millisStm32 (tick : Nat) : BitVec 32 := timeI2MS (chVTGetSystemTime tick)

/-- The reading is the 16-bit counter in milliseconds, rounded up. -/
theorem millisStm32_toNat (tick : Nat) : (millisStm32 tick).toNat = (tick % 65536 + 9) / 10 := by
  have hcounter : ((chVTGetSystemTime tick).setWidth 64).toNat = tick % 65536 := by
    rw [chVTGetSystemTime, BitVec.toNat_setWidth_of_le (by norm_num), BitVec.toNat_ofNat]
    rfl
  have hlt : tick % 65536 < 65536 := Nat.mod_lt _ (by norm_num)
  have hdividend : ((chVTGetSystemTime tick).setWidth 64 * 1000#64 + 10000#64 - 1#64).toNat
      = tick % 65536 * 1000 + 9999 := by
    rw [BitVec.toNat_sub, BitVec.toNat_add, BitVec.toNat_mul, hcounter]
    simp only [BitVec.toNat_ofNat]
    omega
  have hdivisor : (BitVec.ofNat 64 stFrequency).toNat = 10000 := rfl
  rw [millisStm32, timeI2MS, BitVec.toNat_setWidth, BitVec.toNat_udiv, hdividend, hdivisor]
  omega

/-! ## The machine under a clock -/

/-- The machine, the ticks counted so far, and the tick of the last gravity step. -/
structure Timed where
  main : Main
  tick : Nat
  lastFall : Option Nat

/-- Some ticks pass and a step is taken. -/
structure TimedLabel where
  elapsed : Nat
  label : Label

/-- The step with its clock reading taken from `clock` at tick `tick`. -/
def Label.readAt (clock : Nat → BitVec 32) (tick : Nat) : Label → Label
  | .main env => .main { env with millis := clock tick }
  | .video => .video

/-- The step polls the clock. -/
def Polls (s : Main) : Label → Prop
  | .main _ => s.pc = .gravity
  | .video => False

instance (s : Main) : (l : Label) → Decidable (Polls s l)
  | .main _ => inferInstanceAs (Decidable (_ = _))
  | .video => inferInstanceAs (Decidable False)

/-- The step polls the clock and the gravity step fires. -/
def Falls (s : Main) : Label → Prop
  | .main env => s.pc = .gravity ∧ gravityFires s env
  | .video => False

instance (s : Main) : (l : Label) → Decidable (Falls s l)
  | .main _ => inferInstanceAs (Decidable (_ ∧ _))
  | .video => inferInstanceAs (Decidable False)

/-- One step of the machine under the clock. -/
def timedStep (cfg : Config) (clock : Nat → BitVec 32) (t : Timed) (i : TimedLabel) : Timed where
  main := step cfg t.main (i.label.readAt clock (t.tick + i.elapsed))
  tick := t.tick + i.elapsed
  lastFall :=
    if Falls t.main (i.label.readAt clock (t.tick + i.elapsed)) then some (t.tick + i.elapsed)
    else t.lastFall

/-- `while (1)` is entered at tick `tick`, right after `t_last = hw->millis()`. -/
def timedStart (clock : Nat → BitVec 32) (tick : Nat) (screen : Screen) : Timed where
  main := start (clock tick) screen
  tick := tick
  lastFall := none

/-! ## The clock of the SITL build -/

/-- `struct timespec` as `clock_gettime` fills it in: the nanoseconds are those of the second. -/
structure Timespec where
  tvSec : Int
  tvNsec : Int
  nsec_mem : 0 ≤ tvNsec ∧ tvNsec < 1000000000

/-- `gettime`: the sum is made in the type of `tv_sec` and narrowed to `uint32_t`. -/
def gettime (t : Timespec) : BitVec 32 := BitVec.ofInt 32 (t.tvSec * 100 + t.tvNsec.tdiv 1000000)

/-- `millis_sitl`; `init` is the reading `init_sitl` stored in `_time_ms`. -/
def millisSitl (init t : Timespec) : BitVec 32 := gettime t - gettime init

/-- The nanoseconds a reading stands for. -/
def Timespec.nanos (t : Timespec) : Int := t.tvSec * 1000000000 + t.tvNsec

/-- The whole milliseconds a reading stands for. -/
def Timespec.ms (t : Timespec) : Int := t.nanos / 1000000

/-- The nanoseconds of a second never carry into its milliseconds. -/
theorem Timespec.ms_eq (t : Timespec) : t.ms = 1000 * t.tvSec + t.tvNsec.tdiv 1000000 := by
  rw [Timespec.ms, Timespec.nanos, Int.tdiv_eq_ediv_of_nonneg t.nsec_mem.1]
  omega

end Katetris
