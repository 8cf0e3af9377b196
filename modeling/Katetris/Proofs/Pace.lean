import Katetris.Proofs.Clock
import Katetris.Proofs.Bounds

set_option autoImplicit false

/-! # How long a piece can take

Gravity can be early; how late can it be? The main thread reads the clock at least once in every fourteen
of its steps, fourteen when an iteration that locks at the floor, and so skips the gravity step, lies in
between (`timeToPoll`). If the thread is held up for `d` ticks at most at a step and for `e` in a sleep,
that bounds the time between two readings (`allSteps_readsWithin`). A clock that is read so often takes the
piece down in time if for each value of `t_last` there is a stretch of that length in which every reading
fires (`FiresWithin`): the readings cannot step over it.

The counter of the STM32 build has such a stretch from 10000 ticks after `t_last` on, until it comes round
again. The clock of the SITL build has one too, in spite of its jumps: at the start of the next second, if
`t_last` was read late in its own, and otherwise at the end of one of the next few. From row 0 to row 27
this gives every piece a time to land in, and the game a least number of locks (`paced_stm32`,
`paced_sitl`). -/

namespace Katetris

open Lib

/-! ## The machine under a clock -/

/-- The machine under a clock, with the ticks at which the loop was entered, the main thread took its last
    step and last read the clock, and the piece was spawned, and the number of pieces locked. -/
structure Paced extends Timed where
  started : Nat
  lastMain : Nat
  lastRead : Nat
  spawned : Nat
  locked : Nat

/-- The tick at which the value of `t_last` was read. -/
def Paced.lastKept (p : Paced) : Nat := p.lastFall.getD p.started

/-- Some ticks pass and a step is taken. What is kept beside the machine is not used by it. -/
def pacedStep (cfg : Config) (clock : Nat → BitVec 32) (p : Paced) (i : TimedLabel) : Paced :=
  let now := p.tick + i.elapsed
  let label := i.label.readAt clock now
  { toTimed := timedStep cfg clock p.toTimed i
    started := p.started
    lastMain := match i.label with
      | .main _ => now
      | .video => p.lastMain
    lastRead := if Polls p.main label then now else p.lastRead
    spawned := if Locks p.main label then now else p.spawned
    locked := if Locks p.main label then p.locked + 1 else p.locked }

theorem pacedStep_lastKept (cfg : Config) (clock : Nat → BitVec 32) (p : Paced) (i : TimedLabel) :
    (pacedStep cfg clock p i).lastKept
      = if Falls p.main (i.label.readAt clock (p.tick + i.elapsed)) then p.tick + i.elapsed
        else p.lastKept := by
  simp only [Paced.lastKept, pacedStep, timedStep]
  split_ifs <;> rfl

/-- The first piece is there when the loop is entered. -/
def pacedStart (clock : Nat → BitVec 32) (tick : Nat) (screen : Screen) : Paced :=
  ⟨timedStart clock tick screen, tick, tick, tick, tick, 0⟩

/-- The step comes `gap` ticks after the last reading of the clock at the latest. -/
def ReadsWithin (gap : Nat) (p : Paced) (i : TimedLabel) : Prop :=
  p.tick + i.elapsed ≤ p.lastRead + gap

instance (gap : Nat) (p : Paced) (i : TimedLabel) : Decidable (ReadsWithin gap p i) :=
  inferInstanceAs (Decidable (_ ≤ _))

/-- How long the main thread may be held up: `e` ticks in a sleep and `d` elsewhere. -/
def budget (d e : Nat) : Pc → Nat
  | .loopDelay | .delay => e
  | _ => d

/-- The step comes in time after the last one of the main thread. -/
def InTime (d e : Nat) (p : Paced) (i : TimedLabel) : Prop :=
  p.tick + i.elapsed ≤ p.lastMain + budget d e p.main.pc

instance (d e : Nat) (p : Paced) (i : TimedLabel) : Decidable (InTime d e p i) :=
  inferInstanceAs (Decidable (_ ≤ _))

/-- What a main thread that is in time owes the player, with `pace` ticks for a row. -/
structure Paces (pace : Nat) (p : Paced) : Prop where
  /-- gravity is never late -/
  fall : p.tick ≤ p.lastKept + pace
  /-- the piece has come down a row in every `pace` ticks -/
  row : p.tick ≤ p.spawned + (p.main.blk.x.toNat + 1) * pace
  /-- it is locked in bounded time -/
  lands : p.tick ≤ p.spawned + 28 * pace
  /-- and so is one after the other -/
  locks : p.tick ≤ p.started + (p.locked + 1) * (28 * pace)

/-! ## From one reading to the next -/

/-- The longest time from here to the next reading of the clock. With the piece near the floor there may
    be a lock on the way. -/
def timeToPoll (cfg : Config) (d e : Nat) (s : Main) : Nat :=
  -- the delay after a move and the call of `draw`, each in one build only
  let move := if cfg.sitl then 0 else e
  let draw := if cfg.sitl then d else 0
  -- a new piece is away from the floor
  let newPiece := d + draw + e + (3 * d + move)
  let test := if s.blk.x = 27 then 3 * d + newPiece else 2 * d
  let loop := if 26 ≤ s.blk.x then d + move + (3 * d + newPiece) else 3 * d + move
  match s.pc with
  | .loop => loop
  | .loopDelay => e + test
  | .floorTest => test
  | .gravity => d
  | .collides => d + (d + draw + (e + (d + move + (3 * d + newPiece))))
  | .lock => 2 * d + newPiece
  | .clearRows => d + (d + draw + (e + loop))
  | .paint => d + draw + (e + loop)
  | .present => d + (e + loop)
  | .delay => e + loop

/-- The longest time between two readings: two iterations without the gravity step of the first. -/
def pollGap (cfg : Config) (d e : Nat) : Nat := if cfg.sitl then 12 * d + 2 * e else 10 * d + 4 * e

section TimeToPoll

variable (cfg : Config) (d e : Nat)

theorem timeToPoll_le (s : Main) : timeToPoll cfg d e s ≤ pollGap cfg d e := by
  unfold timeToPoll pollGap
  cases s.pc <;> dsimp only <;> split_ifs <;> omega

theorem budget_le_timeToPoll (s : Main) : budget d e s.pc ≤ timeToPoll cfg d e s := by
  unfold budget timeToPoll
  cases s.pc <;> dsimp only <;> (try split_ifs) <;> omega

theorem timeToPoll_video (s : Main) : timeToPoll cfg d e (step cfg s .video) = timeToPoll cfg d e s := by
  show timeToPoll cfg d e (videoStep cfg s) = timeToPoll cfg d e s
  unfold videoStep
  split_ifs <;> rfl

/-- A step of the main thread that does not read the clock takes its time off. -/
theorem timeToPoll_step {s : Main} {env : Env} (h : OnFloor s) (hread : ¬Polls s (.main env)) :
    timeToPoll cfg d e (step cfg s (.main env)) + budget d e s.pc ≤ timeToPoll cfg d e s := by
  have hx := h.x_le
  -- the buttons take the piece down one row at most
  have hbuttons : (buttonsDoAction s.blk env.buttons).1.x = 27 → 26 ≤ s.blk.x := by
    intro h27
    rw [buttonsDoAction_x_gamma h.motion.gamma] at h27
    split_ifs at h27 <;> omega
  apply step_cases (motive := fun s' => timeToPoll cfg d e s' + budget d e s.pc ≤ timeToPoll cfg d e s)
    cfg s (.main env)
  case moved =>
      intro env' hlabel hpc _
      obtain rfl := Label.main.inj hlabel
      cases hsitl : cfg.sitl <;> simp only [timeToPoll, budget, hsitl, hpc, if_true, if_false,
        Bool.false_eq_true] <;> split_ifs <;> omega
  case idle =>
      intro env' hlabel hpc _
      obtain rfl := Label.main.inj hlabel
      simp only [timeToPoll, budget, hpc]
      split_ifs <;> omega
  case floorHit =>
      intro _ _ hpc hfloor
      simp only [timeToPoll, budget, hpc, if_pos (h.motion.atFloor_iff.1 hfloor)]
      omega
  case floorMiss =>
      intro _ _ hpc hfloor
      rw [h.motion.atFloor_iff] at hfloor
      simp only [timeToPoll, budget, hpc, if_neg hfloor]
      omega
  case fall => exact fun _ _ hpc _ => absurd hpc hread
  case stay => exact fun _ _ hpc _ => absurd hpc hread
  case lock =>
      intro _ _ hpc
      have hspawn : ¬26 ≤ blockGamma.x := by decide
      simp only [timeToPoll, budget, hpc, if_neg hspawn]
      omega
  case paint =>
      intro _ _ hpc
      cases hsitl : cfg.sitl <;> simp only [timeToPoll, budget, hsitl, hpc, if_true, if_false,
        Bool.false_eq_true] <;> split_ifs <;> omega
  case video => exact fun hlabel => absurd hlabel (by simp)
  case quiet => exact fun hlabel => absurd hlabel (by simp)
  all_goals
    intro _ _ hpc
    intros
    simp only [timeToPoll, budget, hpc]
    split_ifs <;> omega

end TimeToPoll

/-! ## The clocks -/

/-- For every value of `t_last` there is a stretch of `gap` ticks, over within `pace`, in which every
    reading fires. -/
def FiresWithin (clock : Nat → BitVec 32) (gap pace : Nat) : Prop :=
  ∀ a, ∃ w, a < w ∧ w + gap ≤ a + pace + 1 ∧
    ∀ b, w ≤ b → b < w + gap → 1000 ≤ (clock b - clock a).toNat

/-- On the STM32 build the stretch begins a second after `t_last` and lasts until the counter comes round
    to it again. -/
theorem firesWithin_millisStm32 {gap : Nat} (hgap : gap ≤ 55527) :
    FiresWithin millisStm32 gap (9999 + gap) := by
  intro a
  refine ⟨a + 10000, by omega, by omega, fun b hlate hsoon => ?_⟩
  have hturns : b / 65536 = a / 65536 ∨ b / 65536 = a / 65536 + 1 := by omega
  rw [BitVec.toNat_sub, millisStm32_toNat, millisStm32_toNat]
  rcases hturns with hsame | hnext <;> omega

/-- `CLOCK_MONOTONIC` after `n` nanoseconds. -/
def Timespec.ofNanos (n : Nat) : Timespec where
  tvSec := n / 1000000000
  tvNsec := n % 1000000000
  nsec_mem := by omega

/-- `millis_sitl` after `n` nanoseconds. -/
def millisSitlAt (init : Timespec) (n : Nat) : BitVec 32 := millisSitl init (.ofNanos n)

theorem millisSitlAt_sub (init : Timespec) (a b : Nat) :
    (millisSitlAt init b - millisSitlAt init a).toNat
      = (((b / 1000000000 * 100 + b % 1000000000 / 1000000 : Nat)
          - (a / 1000000000 * 100 + a % 1000000000 / 1000000 : Nat) : Int) % 2 ^ 32).toNat := by
  rw [millisSitlAt, millisSitlAt, millisSitl_sub, gettime, gettime, ← ofInt_sub, BitVec.toNat_ofInt]
  simp only [Timespec.ofNanos]
  congr 2

/-- On the SITL build, read at least every `g` ms, the stretch is at the start of the next second if
    `t_last` was read more than `100 + g` ms into its own; otherwise it is at the end of the second in which
    the 100 counted for each second have made up for the milliseconds. -/
theorem firesWithin_millisSitl (init : Timespec) {g : Nat} (hg : g ≤ 400) :
    FiresWithin (millisSitlAt init) (g * 1000000)
      (((2 * g + 198) / 100 + 1) * 1000000000) := by
  intro a
  by_cases hlate : 100 + g ≤ a % 1000000000 / 1000000
  · refine ⟨(a / 1000000000 + 1) * 1000000000, by omega, by omega, fun b hfirst hlast => ?_⟩
    have hsec : b / 1000000000 = a / 1000000000 + 1 := by omega
    have hms : b % 1000000000 / 1000000 < g := by omega
    rw [millisSitlAt_sub, hsec]
    omega
  · obtain ⟨k, hk⟩ : ∃ k, k = (g + a % 1000000000 / 1000000 + 99) / 100 := ⟨_, rfl⟩
    refine ⟨(a / 1000000000 + k) * 1000000000
      + (1000 + a % 1000000000 / 1000000 - 100 * k) * 1000000, by omega, by omega,
      fun b hfirst hlast => ?_⟩
    have hsec : b / 1000000000 = a / 1000000000 + k := by omega
    have hms : 1000 + a % 1000000000 / 1000000 - 100 * k ≤ b % 1000000000 / 1000000 := by omega
    rw [millisSitlAt_sub, hsec]
    omega

/-- Between two locks the piece goes down with every gravity step and never up. -/
theorem step_x (cfg : Config) {s : Main} (h : Motion s) {l : Label} (hlock : ¬Locks s l) :
    s.blk.x + (if Falls s l then 1 else 0) ≤ (step cfg s l).blk.x := by
  apply step_cases (motive := fun s' => s.blk.x + (if Falls s l then 1 else 0) ≤ s'.blk.x) cfg s l
  case fall =>
      intro env hlabel hpc hfires
      subst hlabel
      have hfalls : Falls s (.main env) := ⟨hpc, hfires⟩
      rw [if_pos hfalls]
      exact le_refl _
  case stay =>
      intro env hlabel hpc hstay
      subst hlabel
      have hno : ¬Falls s (.main env) := fun hfalls => hstay hfalls.2
      rw [if_neg hno, add_zero]
  case moved =>
      intro env hlabel hpc _
      subst hlabel
      have hno : ¬Falls s (.main env) := fun hfalls => absurd hfalls.1 (by simp [hpc])
      rw [if_neg hno, add_zero]
      exact (buttonsDoAction_x_bounds h.gamma env.buttons).1
  case idle =>
      intro env hlabel hpc _
      subst hlabel
      have hno : ¬Falls s (.main env) := fun hfalls => absurd hfalls.1 (by simp [hpc])
      rw [if_neg hno, add_zero]
      exact (buttonsDoAction_x_bounds h.gamma env.buttons).1
  case lock =>
      intro env hlabel hpc
      subst hlabel
      exact absurd hpc hlock
  case video =>
      intro hlabel _ _
      subst hlabel
      exact (add_zero _).le
  case quiet =>
      intro hlabel
      subst hlabel
      exact (add_zero _).le
  all_goals
    intro env hlabel hpc
    intros
    subst hlabel
    have hno : ¬Falls s (.main env) := fun hfalls => absurd hfalls.1 (by simp [hpc])
    rw [if_neg hno, add_zero]

theorem Falls.polls {s : Main} {l : Label} (h : Falls s l) : Polls s l := by
  cases l with
  | video => exact h
  | main env => exact h.1

theorem Locks.not_polls {s : Main} {l : Label} (h : Locks s l) : ¬Polls s l := by
  cases l with
  | video => exact h.elim
  | main env =>
      intro hread
      have hlock : s.pc = .lock := h
      have hgravity : s.pc = .gravity := hread
      simp [hlock] at hgravity

theorem overshootsFloor_readAt {s : Main} {l : Label} (clock : Nat → BitVec 32) (tick : Nat) :
    OvershootsFloor s (l.readAt clock tick) ↔ OvershootsFloor s l := by
  cases l <;> rfl

/-! ## Along a run -/

section Run

variable {cfg : Config} {clock : Nat → BitVec 32} {gap pace : Nat}

/-- The ticks are in order, the clock has not been read in the stretch in which it fires, nor after it, and
    the rows of the piece and the pieces locked are accounted for. -/
structure Schedule (clock : Nat → BitVec 32) (gap pace : Nat) (p : Paced) : Prop where
  onFloor : OnFloor p.main
  kept : p.main.tLast = clock p.lastKept
  kept_le : p.lastKept ≤ p.lastRead
  read_le : p.lastRead ≤ p.tick
  soon : p.tick ≤ p.lastRead + gap
  unfired : ∃ w, p.lastRead < w ∧ w + gap ≤ p.lastKept + pace + 1 ∧
    ∀ b, w ≤ b → b < w + gap → 1000 ≤ (clock b - clock p.lastKept).toNat
  row : p.lastKept ≤ p.spawned + p.main.blk.x.toNat * pace
  locks : p.spawned ≤ p.started + p.locked * (28 * pace)

section Bounds

variable {p : Paced} (h : Schedule clock gap pace p) {now : Nat} (hnow : now ≤ p.lastRead + gap)

include h hnow

theorem Schedule.fall_bound : now ≤ p.lastKept + pace := by
  obtain ⟨w, hlt, hle, -⟩ := h.unfired
  omega

theorem Schedule.row_bound : now ≤ p.spawned + (p.main.blk.x.toNat + 1) * pace := by
  have hfall := h.fall_bound hnow
  have hrow := h.row
  rw [Nat.succ_mul]
  omega

theorem Schedule.lands_bound : now ≤ p.spawned + 28 * pace := by
  have hx := h.onFloor.x_le
  have hrows : (p.main.blk.x.toNat + 1) * pace ≤ 28 * pace := Nat.mul_le_mul_right _ (by omega)
  have hrow := h.row_bound hnow
  omega

theorem Schedule.locks_bound : now ≤ p.started + (p.locked + 1) * (28 * pace) := by
  have hlands := h.lands_bound hnow
  have hlocks := h.locks
  rw [Nat.succ_mul]
  omega

end Bounds

theorem Schedule.paces {p : Paced} (h : Schedule clock gap pace p) : Paces pace p :=
  ⟨h.fall_bound h.soon, h.row_bound h.soon, h.lands_bound h.soon, h.locks_bound h.soon⟩

theorem schedule_start (hclock : FiresWithin clock gap pace) (tick : Nat) (screen : Screen) :
    Schedule clock gap pace (pacedStart clock tick screen) where
  onFloor := onFloor_start (clock tick) screen
  kept := rfl
  kept_le := le_refl _
  read_le := le_refl _
  soon := Nat.le_add_right _ _
  unfired := hclock tick
  row := by simp [pacedStart, timedStart, Paced.lastKept]
  locks := by simp [pacedStart]

section Step

variable {p : Paced} {i : TimedLabel} (h : Schedule clock gap pace p)

include h

theorem Schedule.kept_step :
    (pacedStep cfg clock p i).main.tLast = clock (pacedStep cfg clock p i).lastKept := by
  rw [pacedStep_lastKept]
  simp only [pacedStep, timedStep]
  rw [step_tLast]
  split_ifs
  · rfl
  · exact h.kept

theorem Schedule.kept_le_step :
    (pacedStep cfg clock p i).lastKept ≤ (pacedStep cfg clock p i).lastRead := by
  have hread := h.read_le
  have hkept := h.kept_le
  rw [pacedStep_lastKept]
  simp only [pacedStep]
  split_ifs with hfalls hpolls hpolls
  · exact le_refl _
  · exact absurd hfalls.polls hpolls
  · omega
  · exact hkept

variable (hi : ReadsWithin gap p i)

include hi

/-- A reading that does not fire is before the stretch: it comes too early to be after it. -/
theorem Schedule.unfired_step (hclock : FiresWithin clock gap pace) :
    ∃ w, (pacedStep cfg clock p i).lastRead < w
      ∧ w + gap ≤ (pacedStep cfg clock p i).lastKept + pace + 1
      ∧ ∀ b, w ≤ b → b < w + gap →
        1000 ≤ (clock b - clock (pacedStep cfg clock p i).lastKept).toNat := by
  have hnow : p.tick + i.elapsed ≤ p.lastRead + gap := hi
  rw [pacedStep_lastKept]
  simp only [pacedStep]
  split_ifs with hpolls hfalls hfalls
  · exact hclock _
  · obtain ⟨w, hlt, hle, hfires⟩ := h.unfired
    refine ⟨w, ?_, hle, hfires⟩
    by_contra hafter
    cases hl : i.label with
    | video => simp [hl, Label.readAt, Polls] at hpolls
    | main env =>
        rw [hl] at hpolls hfalls
        refine hfalls ⟨hpolls, ?_⟩
        rw [gravityFires, h.kept]
        exact hfires _ (by omega) (by omega)
  · exact absurd hfalls.polls hpolls
  · exact h.unfired

theorem Schedule.row_step :
    (pacedStep cfg clock p i).lastKept
      ≤ (pacedStep cfg clock p i).spawned + (pacedStep cfg clock p i).main.blk.x.toNat * pace := by
  have hread := h.read_le
  have hkept := h.kept_le
  rw [pacedStep_lastKept]
  simp only [pacedStep, timedStep]
  by_cases hlock : Locks p.main (i.label.readAt clock (p.tick + i.elapsed))
  · have hstays : ¬Falls p.main (i.label.readAt clock (p.tick + i.elapsed)) :=
      fun hfalls => hlock.not_polls hfalls.polls
    rw [if_neg hstays, if_pos hlock]
    omega
  · have hx := step_x cfg h.onFloor.motion hlock
    have hx0 := h.onFloor.motion.x_nonneg
    rw [if_neg hlock]
    generalize Katetris.step cfg p.main (i.label.readAt clock (p.tick + i.elapsed)) = s' at hx ⊢
    split_ifs at hx ⊢ with hfalls
    · have hrow := h.row_bound hi
      have hrows : (p.main.blk.x.toNat + 1) * pace ≤ s'.blk.x.toNat * pace :=
        Nat.mul_le_mul_right _ (by omega)
      omega
    · have hrow := h.row
      have hrows : p.main.blk.x.toNat * pace ≤ s'.blk.x.toNat * pace :=
        Nat.mul_le_mul_right _ (by omega)
      omega

theorem Schedule.locks_step :
    (pacedStep cfg clock p i).spawned
      ≤ (pacedStep cfg clock p i).started + (pacedStep cfg clock p i).locked * (28 * pace) := by
  simp only [pacedStep]
  split_ifs
  · exact h.locks_bound hi
  · exact h.locks

end Step

theorem onFloor_pacedStep (cfg : Config) (clock : Nat → BitVec 32) {p : Paced} {i : TimedLabel}
    (h : OnFloor p.main) (hover : ¬OvershootsFloor p.main i.label) :
    OnFloor (pacedStep cfg clock p i).main :=
  h.step cfg _ _ (fun hover' => hover ((overshootsFloor_readAt clock (p.tick + i.elapsed)).1 hover'))

theorem Schedule.step (hclock : FiresWithin clock gap pace) (p : Paced) (i : TimedLabel)
    (h : Schedule clock gap pace p) (hi : ReadsWithin gap p i ∧ ¬OvershootsFloor p.main i.label) :
    Schedule clock gap pace (pacedStep cfg clock p i) where
  onFloor := onFloor_pacedStep cfg clock h.onFloor hi.2
  kept := h.kept_step
  kept_le := h.kept_le_step
  read_le := by
    have hread := h.read_le
    simp only [pacedStep, timedStep]
    split_ifs <;> omega
  soon := by
    have hnow : p.tick + i.elapsed ≤ p.lastRead + gap := hi.1
    simp only [pacedStep, timedStep]
    split_ifs <;> omega
  unfired := h.unfired_step hi.1 hclock
  row := h.row_step hi.1
  locks := h.locks_step hi.1

/-- In every run that reads the clock often enough for it to fire in time, and in which DOWN does not take a
    West piece past the floor, the piece is on schedule. -/
theorem allStates_paces (hclock : FiresWithin clock gap pace) (tick : Nat) (screen : Screen)
    {is : List TimedLabel}
    (hread : AllSteps (pacedStep cfg clock) (ReadsWithin gap) (pacedStart clock tick screen) is)
    (hno : AllSteps (pacedStep cfg clock) (fun p i => ¬OvershootsFloor p.main i.label)
      (pacedStart clock tick screen) is) :
    AllStates (pacedStep cfg clock) (Paces pace) (pacedStart clock tick screen) is :=
  (AllStates.of_invariant (Schedule.step hclock) (schedule_start hclock tick screen)
    (hread.and hno)).mono fun _ h => h.paces

end Run

/-! ## How often the clock is read -/

section Budget

variable {cfg : Config} {clock : Nat → BitVec 32} {d e : Nat}

/-- The main thread has not used up the time it has for its next reading. -/
structure OnBudget (cfg : Config) (d e : Nat) (p : Paced) : Prop where
  onFloor : OnFloor p.main
  main_le : p.lastMain + timeToPoll cfg d e p.main ≤ p.lastRead + pollGap cfg d e

theorem OnBudget.readsWithin {p : Paced} {i : TimedLabel} (h : OnBudget cfg d e p) (hi : InTime d e p i) :
    ReadsWithin (pollGap cfg d e) p i := by
  have hnow : p.tick + i.elapsed ≤ p.lastMain + budget d e p.main.pc := hi
  have hsteps := budget_le_timeToPoll cfg d e p.main
  have hmain := h.main_le
  unfold ReadsWithin
  omega

theorem OnBudget.step (p : Paced) (i : TimedLabel) (h : OnBudget cfg d e p)
    (hi : InTime d e p i ∧ ¬OvershootsFloor p.main i.label) : OnBudget cfg d e (pacedStep cfg clock p i) := by
  refine ⟨onFloor_pacedStep cfg clock h.onFloor hi.2, ?_⟩
  have hnow : p.tick + i.elapsed ≤ p.lastMain + budget d e p.main.pc := hi.1
  have hmain := h.main_le
  cases hl : i.label with
  | video =>
      simp only [pacedStep, timedStep, hl, Label.readAt, Polls, if_false, timeToPoll_video]
      exact hmain
  | main env =>
      simp only [pacedStep, timedStep, hl]
      split_ifs with hpolls
      · have hsteps := timeToPoll_le cfg d e (Katetris.step cfg p.main
          ((Label.main env).readAt clock (p.tick + i.elapsed)))
        omega
      · have hsteps := timeToPoll_step cfg d e h.onFloor hpolls
        simp only [Label.readAt]
        omega

theorem onBudget_start (cfg : Config) (clock : Nat → BitVec 32) (d e tick : Nat) (screen : Screen) :
    OnBudget cfg d e (pacedStart clock tick screen) where
  onFloor := onFloor_start (clock tick) screen
  main_le := Nat.add_le_add_left (timeToPoll_le cfg d e (start (clock tick) screen)) tick

/-- A main thread that is in time reads the clock once in two iterations, whose gravity step the first
    may skip. -/
theorem allSteps_readsWithin {tick : Nat} {screen : Screen} {is : List TimedLabel}
    (htime : AllSteps (pacedStep cfg clock) (InTime d e) (pacedStart clock tick screen) is)
    (hno : AllSteps (pacedStep cfg clock) (fun p i => ¬OvershootsFloor p.main i.label)
      (pacedStart clock tick screen) is) :
    AllSteps (pacedStep cfg clock) (ReadsWithin (pollGap cfg d e)) (pacedStart clock tick screen) is :=
  AllSteps.of_invariant OnBudget.step (fun _ _ h hi => h.readsWithin hi.1)
    (onBudget_start cfg clock d e tick screen) (htime.and hno)

end Budget

/-! ## The two builds -/

/-- **Gravity is never late on the STM32 build, and every piece lands.** Let the main thread never be held
    up for more than `d` ticks at a step and `e` ticks in a sleep, with `10 * d + 4 * e` at most 55527, and
    let DOWN not take a West piece past the floor. Then in every state of the run gravity has come within
    the last `9999 + (10 * d + 4 * e)` ticks, the piece has gone down a row in each such stretch since it was
    spawned, it is locked within 28 of them, and as many pieces are locked as fit into the time. -/
theorem paced_stm32 (shiftClear : Bool) (d e : Nat) (hgap : 10 * d + 4 * e ≤ 55527) (tick : Nat)
    (screen : Screen) (is : List TimedLabel)
    (htime : AllSteps (pacedStep ⟨false, shiftClear⟩ millisStm32) (InTime d e)
      (pacedStart millisStm32 tick screen) is)
    (hno : AllSteps (pacedStep ⟨false, shiftClear⟩ millisStm32)
      (fun p i => ¬OvershootsFloor p.main i.label) (pacedStart millisStm32 tick screen) is) :
    AllStates (pacedStep ⟨false, shiftClear⟩ millisStm32) (Paces (9999 + (10 * d + 4 * e)))
      (pacedStart millisStm32 tick screen) is :=
  allStates_paces (firesWithin_millisStm32 hgap) tick screen (allSteps_readsWithin htime hno) hno

/-- One step of the main thread in every `elapsed` ticks, without a button. -/
def slowSteps (n elapsed : Nat) : List TimedLabel :=
  List.replicate n ⟨elapsed, .main ⟨ButtonStates.none, 0, fun _ => 0⟩⟩

/-- At 200 ms a step the first piece is down and locked within 170 of them, the counter having wrapped six
    times. -/
theorem paced_stm32_slowSteps :
    AllStates (pacedStep stm32Config millisStm32) (Paces 37999) (pacedStart millisStm32 60000 .blank)
        (slowSteps 170 2000)
      ∧ (exec (pacedStep stm32Config millisStm32) (pacedStart millisStm32 60000 .blank)
        (slowSteps 170 2000)).locked = 1 :=
  ⟨paced_stm32 true 2000 2000 (by decide) 60000 .blank (slowSteps 170 2000) (by decide +kernel)
    (by decide +kernel), by decide +kernel⟩

/-- **On the SITL build gravity is late by a few seconds at most.** Let the main thread read the clock in
    every `g ≤ 400` milliseconds, ticks being nanoseconds here, and let DOWN not take a West piece past the
    floor. Then in every state of the run gravity has come within the last `(2 * g + 198) / 100 + 1` seconds,
    whatever the jumps of the clock at the second boundaries, and pieces come down, land and are locked at
    that pace. -/
theorem paced_sitl (shiftClear : Bool) (init : Timespec) (g : Nat) (hg : g ≤ 400) (tick : Nat)
    (screen : Screen) (is : List TimedLabel)
    (hread : AllSteps (pacedStep ⟨true, shiftClear⟩ (millisSitlAt init)) (ReadsWithin (g * 1000000))
      (pacedStart (millisSitlAt init) tick screen) is)
    (hno : AllSteps (pacedStep ⟨true, shiftClear⟩ (millisSitlAt init))
      (fun p i => ¬OvershootsFloor p.main i.label) (pacedStart (millisSitlAt init) tick screen) is) :
    AllStates (pacedStep ⟨true, shiftClear⟩ (millisSitlAt init))
      (Paces (((2 * g + 198) / 100 + 1) * 1000000000)) (pacedStart (millisSitlAt init) tick screen) is :=
  allStates_paces (firesWithin_millisSitl init hg) tick screen hread hno

/-- At 20 ms a step the clock is read every 140 ms: the first fall comes after 2.86 seconds, the second
    after 3. -/
theorem paced_sitl_slowSteps :
    AllStates (pacedStep sitlConfig (millisSitlAt (.ofNanos 0))) (Paces 5000000000)
        (pacedStart (millisSitlAt (.ofNanos 0)) 0 .blank) (slowSteps 155 20000000)
      ∧ (exec (pacedStep sitlConfig (millisSitlAt (.ofNanos 0)))
        (pacedStart (millisSitlAt (.ofNanos 0)) 0 .blank) (slowSteps 155 20000000)).main.blk.x = 2 :=
  ⟨paced_sitl true (.ofNanos 0) 140 (by decide) 0 .blank (slowSteps 155 20000000) (by decide +kernel)
    (by decide +kernel), by decide +kernel⟩

end Katetris
