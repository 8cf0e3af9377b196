import Katetris.Clock
import Katetris.Proofs.Motion

set_option autoImplicit false

/-! # When gravity fires

`t_now - t_last >= 1000` in `uint32_t` arithmetic would survive a wrap of the clock at `2^32`. The
readings come from a 16-bit counter and wrap at 6554: after a wrap the difference of a small and a
large reading is close to `2^32`, and the gravity step fires at the first poll, however little time has
passed. Without a wrap the rounding costs at most nine ticks.

The clock of the SITL build counts 100 for a second and 1 for a millisecond, so it falls back by 899 at
every second boundary; two of its readings have the right difference only if the seconds between them
are a multiple of `2^30` (`clockExact_iff`). -/

namespace Katetris

open Lib

/-! ## The STM32 build -/

/-- A gravity step is at least 9990 ticks after the one before. -/
def NotEarly (t : Timed) (i : TimedLabel) : Prop :=
  Falls t.main (i.label.readAt millisStm32 (t.tick + i.elapsed)) →
    ∀ a ∈ t.lastFall, a + 9990 ≤ t.tick + i.elapsed

instance (t : Timed) (i : TimedLabel) : Decidable (NotEarly t i) :=
  inferInstanceAs (Decidable (_ → ∀ a ∈ t.lastFall, _))

/-- The clock is polled within 9990 ticks of a gravity step, and its counter has wrapped in between. -/
def PollsAcrossWrap (t : Timed) (i : TimedLabel) : Prop :=
  Polls t.main i.label ∧ ∃ a ∈ t.lastFall, t.tick + i.elapsed < a + 9990
    ∧ (t.tick + i.elapsed) / 65536 ≠ a / 65536

/-- Between two readings, the second one less than 9990 ticks after the first, the difference comes
    to a second exactly when the counter has wrapped. -/
theorem fires_iff_wrap {a b : Nat} (hab : a ≤ b) (hsoon : b < a + 9990) :
    1000 ≤ (millisStm32 b - millisStm32 a).toNat ↔ b / 65536 ≠ a / 65536 := by
  rw [BitVec.toNat_sub, millisStm32_toNat, millisStm32_toNat]
  omega

/-- `t_last` is set by the gravity step and by nothing else. -/
theorem step_tLast (cfg : Config) (clock : Nat → BitVec 32) (s : Main) (tick : Nat) (l : Label) :
    (step cfg s (l.readAt clock tick)).tLast
      = if Falls s (l.readAt clock tick) then clock tick else s.tLast := by
  apply step_cases (motive := fun s' => s'.tLast
    = if Falls s (l.readAt clock tick) then clock tick else s.tLast) cfg s
  case fall =>
      intro env hlabel hpc hfires
      have hfalls : Falls s (.main env) := ⟨hpc, hfires⟩
      rw [hlabel, if_pos hfalls]
      cases l with
      | video => exact absurd hlabel (by simp [Label.readAt])
      | main env' => exact congrArg Env.millis (Label.main.inj hlabel).symm
  case stay =>
      intro env hlabel hpc hstay
      have hno : ¬Falls s (.main env) := fun hfalls => hstay hfalls.2
      rw [hlabel, if_neg hno]
  case video =>
      intro hlabel _ _
      rw [hlabel]
      rfl
  case quiet =>
      intro hlabel
      rw [hlabel]
      rfl
  all_goals
    intro env hlabel hpc
    intros
    have hno : ¬Falls s (.main env) := fun hfalls => absurd hfalls.1 (by simp [hpc])
    rw [hlabel, if_neg hno]

/-- `t_last` is the reading at the tick of the last gravity step, which is not in the future. -/
def KeepsTime (clock : Nat → BitVec 32) (t : Timed) : Prop :=
  ∀ a ∈ t.lastFall, a ≤ t.tick ∧ t.main.tLast = clock a

theorem KeepsTime.step (cfg : Config) {clock : Nat → BitVec 32} (t : Timed) (i : TimedLabel)
    (h : KeepsTime clock t) : KeepsTime clock (timedStep cfg clock t i) := by
  intro a ha
  simp only [timedStep] at ha ⊢
  rw [step_tLast]
  split_ifs at ha ⊢ with hfalls
  · rw [Option.mem_some_iff] at ha
    subst ha
    exact ⟨le_refl _, rfl⟩
  · obtain ⟨hle, htime⟩ := h a ha
    exact ⟨by omega, htime⟩

theorem notEarly_iff {t : Timed} (h : KeepsTime millisStm32 t) (i : TimedLabel) :
    NotEarly t i ↔ ¬PollsAcrossWrap t i := by
  cases hlast : t.lastFall with
  | none => simp [NotEarly, PollsAcrossWrap, hlast]
  | some a =>
      obtain ⟨hle, htime⟩ := h a (by simp [hlast])
      cases hl : i.label with
      | video => simp [NotEarly, PollsAcrossWrap, hl, Label.readAt, Falls, Polls]
      | main env =>
          simp only [NotEarly, PollsAcrossWrap, hl, hlast, Label.readAt, Falls, Polls, gravityFires,
            htime, Option.mem_some_iff, forall_eq', exists_eq_left']
          by_cases hsoon : t.tick + i.elapsed < a + 9990
          · rw [fires_iff_wrap (by omega) hsoon]
            simp only [hsoon, not_le.2 hsoon, true_and, imp_false]
          · simp only [hsoon, not_lt.1 hsoon, false_and, and_false, not_false_eq_true, implies_true]

/-- **Gravity fires early exactly when the clock is polled across a wrap.** In a run of the STM32
    build, any two consecutive gravity steps are at least 9990 ticks apart if and only if the clock is
    never polled within 9990 ticks of a gravity step with a wrap of its counter in between. -/
theorem notEarly_iff_not_pollsAcrossWrap (shiftClear : Bool) (tick : Nat) (screen : Screen)
    (is : List TimedLabel) :
    AllSteps (timedStep ⟨false, shiftClear⟩ millisStm32) NotEarly (timedStart millisStm32 tick screen) is ↔
      AllSteps (timedStep ⟨false, shiftClear⟩ millisStm32) (fun t i => ¬PollsAcrossWrap t i)
        (timedStart millisStm32 tick screen) is := by
  have hstart : KeepsTime millisStm32 (timedStart millisStm32 tick screen) := by
    intro a ha
    exact absurd ha (by simp [timedStart])
  exact allSteps_congr (KeepsTime.step ⟨false, shiftClear⟩) (fun _ i h => notEarly_iff h i) hstart is

/-- The first gravity step at tick 60000, and a poll of the next iteration at tick 65536. -/
def pollsAtWrap : List TimedLabel :=
  [60000, 0, 0, 0, 0, 0, 5536, 0, 0].map fun elapsed =>
    ⟨elapsed, .main ⟨ButtonStates.none, 0, fun _ => 0⟩⟩

/-- The second gravity step is 5536 ticks after the first. -/
theorem pollsAtWrap_early :
    ¬AllSteps (timedStep stm32Config millisStm32) NotEarly (timedStart millisStm32 0 .blank) pollsAtWrap := by
  decide +kernel

/-! ## The SITL build -/

theorem ofInt_sub {w : Nat} (x y : Int) :
    BitVec.ofInt w (x - y) = BitVec.ofInt w x - BitVec.ofInt w y := by
  rw [Int.sub_eq_add_neg, BitVec.ofInt_add, BitVec.ofInt_neg, BitVec.sub_eq_add_neg]

/-- Two integers are the same word exactly when they differ by a multiple of the word's range. -/
theorem ofInt_eq_ofInt_iff {w : Nat} {x y : Int} :
    BitVec.ofInt w x = BitVec.ofInt w y ↔ (2 ^ w : Int) ∣ x - y := by
  have hpos : (0 : Int) < 2 ^ w := by positivity
  have hx := Int.emod_nonneg x hpos.ne'
  have hy := Int.emod_nonneg y hpos.ne'
  rw [BitVec.toNat_eq, BitVec.toNat_ofInt, BitVec.toNat_ofInt, Int.dvd_iff_emod_eq_zero,
    ← Int.emod_eq_emod_iff_emod_sub_eq_zero]
  push_cast
  omega

/-- What the game loop asks of two readings `a` and `b` of its clock, the second one not earlier: their
    difference is the milliseconds between them, the count does not go back unless it wraps, and with
    `t_last` read at `a` and `t_now` at `b` gravity does not fire before 999 ms have passed. -/
structure ClockExact (init a b : Timespec) : Prop where
  elapsed : gettime b - gettime a = BitVec.ofInt 32 (b.ms - a.ms)
  monotone : (millisSitl init a).toNat + (b.ms - a.ms) < 2 ^ 32 →
    (millisSitl init a).toNat ≤ (millisSitl init b).toNat
  notEarly : ∀ (s : Main) (env : Env), s.tLast = millisSitl init a → env.millis = millisSitl init b →
    gravityFires s env → 999 * 1000000 ≤ b.nanos - a.nanos

/-- `gettime` is 900 short for each second between its readings. -/
theorem gettime_sub_eq_iff (a b : Timespec) :
    gettime b - gettime a = BitVec.ofInt 32 (b.ms - a.ms) ↔
      (2 ^ 30 : Int) ∣ b.tvSec - a.tvSec := by
  have hshort : b.tvSec * 100 + b.tvNsec.tdiv 1000000 - (a.tvSec * 100 + a.tvNsec.tdiv 1000000)
      - (b.ms - a.ms) = -900 * (b.tvSec - a.tvSec) := by
    rw [Timespec.ms_eq, Timespec.ms_eq]
    ring
  rw [gettime, gettime, ← ofInt_sub, ofInt_eq_ofInt_iff, hshort]
  -- 900 is four times an odd number
  generalize b.tvSec - a.tvSec = d
  norm_num
  omega

theorem millisSitl_sub (init a b : Timespec) :
    millisSitl init b - millisSitl init a = gettime b - gettime a := by
  unfold millisSitl
  bv_omega

/-- **The SITL clock counts milliseconds exactly between such readings.** For two readings, the second
    not earlier, it behaves as the game loop needs if and only if the seconds between them are a
    multiple of `2^30`. -/
theorem clockExact_iff (init : Timespec) {a b : Timespec} (h : a.nanos ≤ b.nanos) :
    ClockExact init a b ↔ (2 ^ 30 : Int) ∣ b.tvSec - a.tvSec := by
  refine ⟨fun hexact => (gettime_sub_eq_iff a b).1 hexact.elapsed, fun hdvd => ?_⟩
  have helapsed := (gettime_sub_eq_iff a b).2 hdvd
  have hms : 0 ≤ b.ms - a.ms := by
    simp only [Timespec.ms]
    omega
  have hdiff : (millisSitl init b - millisSitl init a).toNat = ((b.ms - a.ms) % 2 ^ 32).toNat := by
    rw [millisSitl_sub, helapsed, BitVec.toNat_ofInt]
    rfl
  refine ⟨helapsed, fun hwrap => ?_, fun s env hlast hnow hfires => ?_⟩
  · have hsum : millisSitl init b
        = millisSitl init a + (millisSitl init b - millisSitl init a) := by
      rw [BitVec.add_comm, BitVec.sub_add_cancel]
    rw [hsum, BitVec.toNat_add, hdiff]
    omega
  · rw [gravityFires, hlast, hnow, hdiff] at hfires
    simp only [Timespec.ms] at hfires hms
    omega

/-- Two readings within one second, 400 ms apart. -/
theorem clockExact_iff_sameSecond :
    ClockExact ⟨0, 0, by decide⟩ ⟨7, 100000000, by decide⟩ ⟨7, 500000000, by decide⟩ :=
  (clockExact_iff _ (by decide)).2 (by decide)

/-- One millisecond over a second boundary: gravity fires. -/
theorem secondBoundary_early :
    ¬ClockExact ⟨0, 0, by decide⟩ ⟨0, 999000000, by decide⟩ ⟨1, 0, by decide⟩ := by
  intro hexact
  have hpassed := hexact.notEarly
    { start (millisSitl ⟨0, 0, by decide⟩ ⟨0, 999000000, by decide⟩) .blank with pc := .gravity }
    ⟨ButtonStates.none, millisSitl ⟨0, 0, by decide⟩ ⟨1, 0, by decide⟩, fun _ => 0⟩ rfl rfl (by decide)
  exact absurd hpassed (by decide)

end Katetris
