import Katetris.Lib.Simulation
import Katetris.Proofs.Builds
import Katetris.Proofs.Mutex

set_option autoImplicit false

/-! # `draw` in one step

STM32 build. The main thread can wake up between any two steps of the video thread, and `update_block`
pushes to the update stack without the mutex. The game does not notice: every run of the two threads reads
the same buttons and clock values in the same order as some run of `step`, in which `draw` is one step, and
is in the same state of the game. The panel may notice, for a push that falls into a pop can overwrite the
box that is being popped. As long as none does (`PushesInPop`), the buffer, the requests and the panel are
the same too whenever the video thread is outside `draw` (`threads_refine`).

The run of `step` draws when the first box is given up and again when the main thread leaves the delay of
`loop_stm32`, so it is ahead of the video thread (`Ahead`): what is still to be sent it has sent. Up to
the first pop it must not draw, since a full stack may still turn a push away; if the main thread wakes
up in that time, the run of `step` stays behind by this one step (`Accounts.lagging`). -/

namespace Katetris

open Lib

/-! ## What the main thread reads -/

/-- What comes from outside. -/
inductive Input where
  | buttons (states : ButtonStates)
  | millis (now : BitVec 32)
  /-- the words past the end of the grid -/
  | beyond (oob : Int → BitVec 32)

/-- What a step reads: the buttons in `hw->loop`, the clock at the gravity test, what is below the grid at
    the collision test. -/
def Main.reads (s : Main) : Label → List Input
  | .main env =>
      match s.pc with
      | .loop => [.buttons env.buttons]
      | .gravity => [.millis env.millis]
      | .collides => [.beyond env.oob]
      | _ => []
  | .video => []

/-- The video thread reads nothing, and where the main thread waits for the mutex neither does that. -/
def Threads.reads (t : Threads) : ThreadLabel → List Input
  | .main env => t.main.reads (.main env)
  | .video => []

def Main.readings (s : Main) (cfg : Config) (ls : List Label) : List Input :=
  projected (step cfg) Main.reads s ls

theorem Main.readings_one (s : Main) (cfg : Config) (l : Label) : s.readings cfg [l] = s.reads l :=
  List.append_nil _

theorem Main.readings_cons (s : Main) (cfg : Config) (l : Label) (ls : List Label) :
    s.readings cfg (l :: ls) = s.reads l ++ (step cfg s l).readings cfg ls :=
  rfl

theorem Threads.reads_of_waits {cfg : Config} {t : Threads} (h : t.Waits cfg) (env : Env) :
    t.reads (.main env) = [] := by
  rcases h.2 with ⟨hpc, -⟩ | ⟨hpc, -⟩ | hpc <;> simp [Threads.reads, Main.reads, hpc]

/-! ## The game by itself -/

/-- The run of `step` is at the same point of the same game. -/
structure PlaysAlong (t : Threads) (s : Main) : Prop where
  game : SameGame t.main s
  pc : s.pc = t.main.pc
  present : t.main.pc ≠ .present

theorem PlaysAlong.main {shiftClear : Bool} {t : Threads} {s : Main} (h : PlaysAlong t s)
    (hfree : ¬t.Waits ⟨false, shiftClear⟩) (env : Env) :
    PlaysAlong (threadStep ⟨false, shiftClear⟩ t (.main env))
      (mainStep ⟨false, shiftClear⟩ s env) := by
  rw [threadStep, if_neg hfree]
  refine ⟨h.game.mainStep h.pc env, ?_, (mainStep_withScreen rfl h.present env t.main.screen).2.2⟩
  by_cases hloop : t.main.pc = .loop
  · rw [mainStep_loop_pc _ (h.pc.trans hloop), mainStep_loop_pc _ hloop, h.game.blk]
  by_cases hpaint : t.main.pc = .paint
  · rw [mainStep_paint_pc _ (h.pc.trans hpaint), mainStep_paint_pc _ hpaint]
  · exact h.game.mainStep_pc h.pc hloop hpaint env

theorem PlaysAlong.video {cfg : Config} {t : Threads} {s : Main} (h : PlaysAlong t s) :
    PlaysAlong (threadStep cfg t .video) s := by
  rw [threadStep]
  split_ifs
  · obtain ⟨stack, flag, screen, hmain, -⟩ := thdVideo_main cfg t
    refine ⟨?_, ?_, ?_⟩ <;> rw [hmain]
    exacts [⟨h.game.blk, h.game.grid, h.game.bbox, h.game.score, h.game.tLast, h.game.frame⟩, h.pc,
      h.present]
  · exact h

theorem playsAlong_simulates (shiftClear : Bool) :
    Simulates (threadStep ⟨false, shiftClear⟩) (step ⟨false, shiftClear⟩) Threads.reads Main.reads
      (fun _ _ => True) PlaysAlong := by
  intro t s k h _
  cases k with
  | video => exact ⟨[], h.video, rfl⟩
  | main env =>
      by_cases hwaits : t.Waits ⟨false, shiftClear⟩
      · refine ⟨[], ?_, (Threads.reads_of_waits hwaits env).symm⟩
        rw [threadStep, if_pos hwaits]
        exact h
      · refine ⟨[.main env], h.main hwaits env, (Main.readings_one s _ _).trans ?_⟩
        simp only [Threads.reads, Main.reads, h.pc]

/-! ## A draw in one step -/

/-- The two panels show the same. -/
def SamePanel (screen screen' : Screen) : Prop :=
  ∀ p q, p < 240 → q < 240 →
    screen'.stm32.panel.pixel p q = screen.stm32.panel.pixel p q

theorem BBoxStack.eq_empty {stack : BBoxStack} (h : stack.arr = []) : stack = .empty := by
  obtain ⟨arr, hle⟩ := stack
  subst h
  rfl

theorem VBuf.eq_of_fields {vbuf vbuf' : VBuf} (hbuf : vbuf.buf = vbuf'.buf)
    (hstack : vbuf.updStack = vbuf'.updStack) (hflag : vbuf.clearFlag = vbuf'.clearFlag) :
    vbuf = vbuf' := by
  obtain ⟨buf, stack, flag⟩ := vbuf
  obtain ⟨buf', stack', flag'⟩ := vbuf'
  simp only at hbuf hstack hflag
  rw [hbuf, hstack, hflag]

section Atomic

variable {shiftClear : Bool}

/-- A draw of the whole stack by the atomic video thread. -/
theorem step_video_partial {s : Main} (hbus : BusReady s) (hsleeps : s.Sleeps)
    (hflag : s.vbuf.clearFlag = false) :
    ∃ screen, step ⟨false, shiftClear⟩ s .video = s.withVideo .empty false screen
      ∧ (∀ p q, s.vbuf.Covered p q →
          screen.stm32.panel.pixel p q = if s.vbuf.pixel p q then 0xFFFF else 0x0000)
      ∧ (∀ p q, ¬s.vbuf.Covered p q →
          screen.stm32.panel.pixel p q = s.screen.stm32.panel.pixel p q) := by
  have hpart : PartialRedraw s.vbuf s.screen (draw ⟨false, shiftClear⟩ s.vbuf s.screen) :=
    draw_partialRedraw rfl hbus.aligned hbus.transfer hflag
  refine ⟨(draw ⟨false, shiftClear⟩ s.vbuf s.screen).2, ?_, hpart.inside, hpart.outside⟩
  have hvbuf : (draw ⟨false, shiftClear⟩ s.vbuf s.screen).1
      = { s.vbuf with updStack := .empty, clearFlag := false } := by
    exact VBuf.eq_of_fields hpart.frame (BBoxStack.eq_empty hpart.stack) (hpart.flag.trans hflag)
  rw [step, videoStep, if_pos ⟨rfl, hsleeps⟩]
  simp only [hvbuf, Main.withVideo]

/-- A draw of the whole screen by the atomic video thread. -/
theorem step_video_full {s : Main} (hbus : BusReady s) (hsleeps : s.Sleeps)
    (hflag : s.vbuf.clearFlag = true) :
    ∃ screen, step ⟨false, shiftClear⟩ s .video = s.withVideo s.vbuf.updStack false screen
      ∧ ∀ p q, p < 240 → q < 240 →
          screen.stm32.panel.pixel p q = if s.vbuf.pixel p q then 0xFFFF else 0x0000 := by
  have hfull : FullRedraw s.vbuf (draw ⟨false, shiftClear⟩ s.vbuf s.screen) :=
    draw_fullRedraw rfl hbus.transfer hflag
  refine ⟨(draw ⟨false, shiftClear⟩ s.vbuf s.screen).2, ?_, hfull.panel⟩
  have hvbuf : (draw ⟨false, shiftClear⟩ s.vbuf s.screen).1 = { s.vbuf with clearFlag := false } := by
    exact VBuf.eq_of_fields hfull.frame hfull.stack hfull.flag
  rw [step, videoStep, if_pos ⟨rfl, hsleeps⟩]
  simp only [hvbuf, Main.withVideo]

theorem BusReady.exec {s : Main} (h : BusReady s) (ls : List Label) :
    BusReady (exec (Katetris.step ⟨false, shiftClear⟩) s ls) :=
  (AllStates.of_invariant' (BusReady.step rfl) h ls).last

/-! ## The relation -/

/-- The video thread is in `draw` and no box has been given up yet. -/
def VideoPc.BeforePop : VideoPc → Prop
  | .locked | .loopTest | .pop | .popSize _ => True
  | _ => False

/-- The video thread is in the loop of `draw` or about to enter it. -/
def VideoPc.InLoop : VideoPc → Prop
  | .locked | .loopTest | .pop | .popSize _ | .popCopy _ _ _ _ | .sendBox _ => True
  | _ => False

/-- The video thread redraws the whole screen or is about to. -/
def VideoPc.InRedraw : VideoPc → Prop
  | .locked | .sendAll | .resetFlag => True
  | _ => False

theorem VideoPc.BeforePop.inLoop {v : VideoPc} (h : v.BeforePop) : v.InLoop ∧ v.inFlight = [] := by
  cases v <;> simp_all [VideoPc.BeforePop, VideoPc.InLoop, VideoPc.inFlight]

/-- The pixel is in a box that the video thread has still to send, pushes of this session apart. -/
def Owed (t : Threads) (older : List BBox) (p q : Nat) : Prop :=
  ∃ box ∈ t.video.inFlight ++ older, box.Covers p q

/-- `draw` has begun and the atomic draw is made: `older` was on the stack at the time, `stack` has been
    pushed since and `screen` is what the atomic draw has left on the display. -/
structure Ahead (t : Threads) (stack : BBoxStack) (older : List BBox) (screen : Screen) : Prop where
  video : t.video.InLoop
  flag : t.main.vbuf.clearFlag = false
  arr : t.main.vbuf.updStack.arr = stack.arr ++ older
  /-- only a move is pushed, and before the delay is over the atomic machine draws it -/
  pushed : stack.arr ≠ [] → t.main.pc = .loopDelay
  /-- one box has been given up, so the push that may still come finds room -/
  room : t.main.pc = .delay ∨ t.main.pc = .loop → older.length < stackSize
  inside : ∀ p q, p < 240 → q < 240 → Owed t older p q →
    screen.stm32.panel.pixel p q = if t.main.vbuf.pixel p q then 0xFFFF else 0x0000
  outside : ∀ p q, p < 240 → q < 240 → ¬Owed t older p q →
    screen.stm32.panel.pixel p q = t.main.screen.stm32.panel.pixel p q

/-- `draw` has begun, no box has been given up yet and the flag is not set. -/
structure Owing (t : Threads) : Prop where
  video : t.video.BeforePop
  flag : t.main.vbuf.clearFlag = false

/-- `draw` has begun with the flag set, and the atomic draw of the whole screen is made. -/
structure Redrawing (t : Threads) (screen : Screen) : Prop where
  video : t.video.InRedraw
  flag : t.main.vbuf.clearFlag = true
  shows : ∀ p q, p < 240 → q < 240 →
    screen.stm32.panel.pixel p q = if t.main.vbuf.pixel p q then 0xFFFF else 0x0000

/-- A state of the atomic machine that accounts for what the two threads have done. -/
inductive Accounts (t : Threads) : Main → Prop
  /-- the video thread is not in `draw` -/
  | outside (screen : Screen) (hvideo : t.video = .asleep ∨ t.video = .unlock)
      (hpanel : SamePanel t.main.screen screen) : Accounts t { t.main with screen := screen }
  | owing (screen : Screen) (howing : Owing t) (hsleeps : t.main.Sleeps)
      (hpanel : SamePanel t.main.screen screen) : Accounts t { t.main with screen := screen }
  /-- the main thread has woken up before the first pop -/
  | lagging (screen : Screen) (howing : Owing t) (hpc : t.main.pc = .loop)
      (hpanel : SamePanel t.main.screen screen) :
      Accounts t { t.main with pc := .delay, screen := screen }
  | redrawing (screen : Screen) (hredraw : Redrawing t screen) :
      Accounts t (t.main.withVideo t.main.vbuf.updStack false screen)
  | ahead (stack : BBoxStack) (older : List BBox) (screen : Screen)
      (hahead : Ahead t stack older screen) : Accounts t (t.main.withVideo stack false screen)

/-- The relation that is kept as long as no push falls into a pop. -/
structure Atomically (t : Threads) (s : Main) : Prop where
  bus : BusReady s
  held : Held t
  untorn : Untorn t
  accounts : Accounts t s

/-- The atomic machine draws what the video thread is about to draw. -/
theorem Owing.draw {t : Threads} (h : Owing t) {s : Main} (hbus : BusReady s) (hvbuf : s.vbuf = t.main.vbuf)
    (hsleeps : s.Sleeps) (hpanel : SamePanel t.main.screen s.screen) :
    ∃ screen, step ⟨false, shiftClear⟩ s .video = s.withVideo .empty false screen
      ∧ (∀ p q, t.main.vbuf.Covered p q →
          screen.stm32.panel.pixel p q = if t.main.vbuf.pixel p q then 0xFFFF else 0x0000)
      ∧ (∀ p q, p < 240 → q < 240 → ¬t.main.vbuf.Covered p q →
          screen.stm32.panel.pixel p q = t.main.screen.stm32.panel.pixel p q) := by
  obtain ⟨screen, hstep, hinside, houtside⟩ := step_video_partial hbus hsleeps (by rw [hvbuf, h.flag])
  rw [hvbuf] at hinside houtside
  exact ⟨screen, hstep, hinside, fun p q hp hq hcov => (houtside p q hcov).trans (hpanel p q hp hq)⟩

/-- The main thread goes on to a test or a lock before the first pop: the atomic draw is made. -/
theorem Owing.ahead {t : Threads} (h : Owing t) {s : Main} (hvbuf : s.vbuf = t.main.vbuf)
    (hscreen : s.screen = t.main.screen) (hpc : s.pc = .floorTest) {screen : Screen}
    (hinside : ∀ p q, t.main.vbuf.Covered p q →
      screen.stm32.panel.pixel p q = if t.main.vbuf.pixel p q then 0xFFFF else 0x0000)
    (houtside : ∀ p q, p < 240 → q < 240 → ¬t.main.vbuf.Covered p q →
      screen.stm32.panel.pixel p q = t.main.screen.stm32.panel.pixel p q) :
    Ahead { t with main := s } .empty t.main.vbuf.updStack.arr screen := by
  obtain ⟨hloop, hflight⟩ := h.video.inLoop
  have howed : ∀ p q, Owed { t with main := s } t.main.vbuf.updStack.arr p q ↔ t.main.vbuf.Covered p q := by
    intro p q
    simp only [Owed, hflight, List.nil_append, VBuf.Covered]
  refine ⟨hloop, ?_, ?_, ?_, ?_, ?_, ?_⟩
  · simp only [hvbuf, h.flag]
  · simp [hvbuf, BBoxStack.empty]
  · simp [BBoxStack.empty]
  · simp [hpc]
  · intro p q _ _ ho
    simp only [hvbuf]
    exact hinside p q ((howed p q).1 ho)
  · intro p q hp hq ho
    simp only [hscreen]
    exact houtside p q hp hq (fun hcov => ho ((howed p q).2 hcov))

/-- A move that has been pushed is drawn by the atomic machine before the delay is over. -/
theorem Ahead.drain {t : Threads} {stack : BBoxStack} {older : List BBox} {screen : Screen}
    (h : Ahead t stack older screen) (hbus : BusReady (t.main.withVideo stack false screen)) :
    ∃ ls screen', exec (step ⟨false, shiftClear⟩) (t.main.withVideo stack false screen) ls
        = t.main.withVideo .empty false screen'
      ∧ (t.main.withVideo stack false screen).readings ⟨false, shiftClear⟩ ls = []
      ∧ Ahead t .empty (stack.arr ++ older) screen' := by
  by_cases hnil : stack.arr = []
  · have hstack : stack = .empty := BBoxStack.eq_empty hnil
    subst hstack
    exact ⟨[], screen, rfl, rfl, h⟩
  · have hpc := h.pushed hnil
    obtain ⟨screen', hstep, hinside, houtside⟩ := step_video_partial hbus (Or.inl hpc) rfl
    refine ⟨[.video], screen', hstep, rfl, ?_⟩
    have howed : ∀ p q, Owed t (stack.arr ++ older) p q ↔
        (t.main.withVideo stack false screen).vbuf.Covered p q ∨ Owed t older p q := by
      intro p q
      simp only [Owed, VBuf.Covered, Main.withVideo, List.mem_append]
      refine ⟨fun ho => ?_, fun ho => ?_⟩
      · obtain ⟨box, hbox | hbox | hbox, hcovers⟩ := ho
        · exact Or.inr ⟨box, Or.inl hbox, hcovers⟩
        · exact Or.inl ⟨box, hbox, hcovers⟩
        · exact Or.inr ⟨box, Or.inr hbox, hcovers⟩
      · rcases ho with ⟨box, hbox, hcovers⟩ | ⟨box, hbox | hbox, hcovers⟩
        · exact ⟨box, Or.inr (Or.inl hbox), hcovers⟩
        · exact ⟨box, Or.inl hbox, hcovers⟩
        · exact ⟨box, Or.inr (Or.inr hbox), hcovers⟩
    refine ⟨h.video, h.flag, h.arr, by simp [BBoxStack.empty], by simp [hpc], ?_, ?_⟩
    · intro p q hp hq ho
      by_cases hcov : (t.main.withVideo stack false screen).vbuf.Covered p q
      · exact hinside p q hcov
      · rw [houtside p q hcov]
        exact h.inside p q hp hq (((howed p q).1 ho).resolve_left hcov)
    · intro p q hp hq ho
      rw [howed, not_or] at ho
      rw [houtside p q ho.1]
      exact h.outside p q hp hq ho.2

/-- A step of the main thread that leaves the shared memory alone. -/
theorem Ahead.quiet {t : Threads} {older : List BBox} {screen : Screen}
    (h : Ahead t .empty older screen) {s : Main} (hvbuf : s.vbuf = t.main.vbuf)
    (hscreen : s.screen = t.main.screen) (hdelay : s.pc ≠ .delay)
    (hloop : s.pc = .loop → t.main.pc = .delay) :
    Ahead { t with main := s } .empty older screen where
  video := h.video
  flag := by simp only [hvbuf, h.flag]
  arr := by simp only [hvbuf, h.arr]
  pushed := by simp [BBoxStack.empty]
  room := fun hor => h.room (Or.inl (hloop (hor.resolve_left hdelay)))
  inside := by simp only [hvbuf]; exact h.inside
  outside := by simp only [hscreen]; exact h.outside

/-- The push of a move goes through on both sides. -/
theorem Ahead.push {t : Threads} {stack : BBoxStack} {older : List BBox} {screen : Screen}
    (h : Ahead t stack older screen) (hpc : t.main.pc = .loop) (box : BBox) (blk : Block) :
    Ahead ⟨Main.withVideo { t.main with blk := blk, pc := .loopDelay }
        (bboxStackPush t.main.vbuf.updStack box).1 t.main.vbuf.clearFlag t.main.screen, t.video⟩
      (bboxStackPush stack box).1 older screen := by
  have hnil : stack.arr = [] := by
    by_contra hne
    have hdelay := h.pushed hne
    rw [hpc] at hdelay
    exact absurd hdelay (by simp)
  have hroom : t.main.vbuf.updStack.size < stackSize := by
    have hless := h.room (Or.inr hpc)
    rw [BBoxStack.size, h.arr, hnil]
    exact hless
  have hroom' : stack.size < stackSize := by
    rw [BBoxStack.size, hnil]
    decide
  have harr : (bboxStackPush t.main.vbuf.updStack box).1.arr = box :: older := by
    rw [bboxStackPush_arr, if_pos hroom, h.arr, hnil, List.nil_append]
  have harr' : (bboxStackPush stack box).1.arr = [box] := by
    rw [bboxStackPush_arr, if_pos hroom', hnil]
  exact ⟨h.video, h.flag, by simp [Main.withVideo, harr, harr'], fun _ => rfl, by simp [Main.withVideo],
    h.inside, h.outside⟩

/-! ## Steps of the main thread -/

theorem exec_one (cfg : Config) (s : Main) (l : Label) : exec (step cfg) s [l] = step cfg s l := rfl

/-- The main thread goes from a sleep or from `hw->loop` to the floor test before the first pop. -/
theorem Owing.accounts_floorTest {t : Threads} (h : Owing t) {s s' : Main} (hbus : BusReady s)
    (hvbuf : s.vbuf = t.main.vbuf) (hsleeps : s.Sleeps) (hpanel : SamePanel t.main.screen s.screen)
    (hvbuf' : s'.vbuf = t.main.vbuf) (hscreen' : s'.screen = t.main.screen) (hpc' : s'.pc = .floorTest)
    (ls : List Label) {rs : List Input}
    (hls : ∀ screen, exec (step ⟨false, shiftClear⟩) (s.withVideo .empty false screen) ls
        = s'.withVideo .empty false screen
      ∧ (s.withVideo .empty false screen).readings ⟨false, shiftClear⟩ ls = rs) :
    ∃ ls, Accounts { t with main := s' } (exec (step ⟨false, shiftClear⟩) s ls)
      ∧ s.readings ⟨false, shiftClear⟩ ls = rs := by
  obtain ⟨screen, hdraw, hinside, houtside⟩ := h.draw hbus hvbuf hsleeps hpanel
  refine ⟨.video :: ls, ?_, ?_⟩
  · rw [exec_cons, hdraw, (hls screen).1]
    exact .ahead .empty _ screen (h.ahead hvbuf' hscreen' hpc' hinside houtside)
  · rw [Main.readings_cons, hdraw, (hls screen).2]
    rfl

/-- A step of the main thread before the first pop, from a sleep. -/
theorem Owing.main_of_sleeps {t : Threads} (h : Owing t) (hsleeps : t.main.Sleeps) {screen : Screen}
    (hpanel : SamePanel t.main.screen screen) (hbus : BusReady { t.main with screen := screen })
    (env : Env) :
    ∃ ls, Accounts { t with main := mainStep ⟨false, shiftClear⟩ t.main env }
        (exec (step ⟨false, shiftClear⟩) { t.main with screen := screen } ls)
      ∧ Main.readings { t.main with screen := screen } ⟨false, shiftClear⟩ ls = t.reads (.main env) := by
  rcases hsleeps with hpc | hpc
  · have hnext : mainStep ⟨false, shiftClear⟩ t.main env = { t.main with pc := .floorTest } := by
      simp [mainStep, hpc]
    rw [hnext]
    have hvbuf : ({ t.main with pc := .floorTest } : Main).vbuf = t.main.vbuf := rfl
    refine h.accounts_floorTest hbus rfl (Or.inl hpc) hpanel hvbuf rfl rfl [.main env] ?_
    intro screen'
    rw [exec_one, step, Main.readings_one]
    simp [mainStep, Main.withVideo, Threads.reads, Main.reads, hpc]
  · -- the atomic machine stays in the delay
    have hnext : mainStep ⟨false, shiftClear⟩ t.main env = { t.main with pc := .loop } := by
      simp [mainStep, hpc]
    rw [hnext]
    have hself : { t.main with screen := screen } = { t.main with pc := .delay, screen := screen } := by
      rw [← hpc]
    refine ⟨[], ?_, ?_⟩
    · rw [exec_nil, hself]
      exact .lagging (t := { t with main := { t.main with pc := .loop } }) screen ⟨h.video, h.flag⟩ rfl
        hpanel
    · simp [Main.readings, projected, Threads.reads, Main.reads, hpc]

/-- A step of the main thread before the first pop, from `hw->loop`. -/
theorem Owing.main_of_loop {t : Threads} (h : Owing t) (hpc : t.main.pc = .loop) {screen : Screen}
    (hpanel : SamePanel t.main.screen screen)
    (hbus : BusReady { t.main with pc := .delay, screen := screen }) (env : Env) :
    ∃ ls, Accounts { t with main := mainStep ⟨false, shiftClear⟩ t.main env }
        (exec (step ⟨false, shiftClear⟩) { t.main with pc := .delay, screen := screen } ls)
      ∧ Main.readings { t.main with pc := .delay, screen := screen } ⟨false, shiftClear⟩ ls
        = t.reads (.main env) := by
  have hreads : ∀ s : Main, s.pc = .delay →
      s.readings ⟨false, shiftClear⟩ [.main env, .main env] = t.reads (.main env) := by
    intro s hdelay
    rw [Main.readings_cons, Main.readings_one]
    simp [step, mainStep, Threads.reads, Main.reads, hdelay, hpc]
  cases hret : (buttonsDoAction t.main.blk env.buttons).2 with
  | true =>
      have hnext : mainStep ⟨false, shiftClear⟩ t.main env
          = { t.main with
              blk := (buttonsDoAction t.main.blk env.buttons).1
              vbuf := updateBlock t.main.vbuf (buttonsDoAction t.main.blk env.buttons).1
              pc := .loopDelay } := by
        simp only [mainStep, hpc, hwLoop, hret, if_true]
        rfl
      have hatomic : exec (step ⟨false, shiftClear⟩) { t.main with pc := .delay, screen := screen }
          [.main env, .main env]
          = { mainStep ⟨false, shiftClear⟩ t.main env with screen := screen } := by
        rw [hnext, exec_cons, exec_one]
        simp only [step, mainStep, hwLoop, hret, if_true]
        rfl
      refine ⟨[.main env, .main env], ?_, hreads _ rfl⟩
      rw [hatomic]
      refine .owing screen ⟨h.video, ?_⟩ ?_ ?_ <;> rw [hnext]
      exacts [h.flag, Or.inl rfl, hpanel]
  | false =>
      have hnext : mainStep ⟨false, shiftClear⟩ t.main env
          = { t.main with blk := (buttonsDoAction t.main.blk env.buttons).1, pc := .floorTest } := by
        simp [mainStep, hpc, hwLoop, hret]
      rw [hnext]
      have hvbuf : ({ t.main with blk := (buttonsDoAction t.main.blk env.buttons).1, pc := .floorTest } :
          Main).vbuf = t.main.vbuf := rfl
      refine h.accounts_floorTest hbus rfl (Or.inr rfl) hpanel hvbuf rfl rfl [.main env, .main env] ?_
      intro screen'
      refine ⟨?_, hreads _ rfl⟩
      rw [exec_cons, exec_one]
      simp [step, mainStep, Main.withVideo, hwLoop, hret]

/-- A step of the main thread during a redraw of the whole screen. -/
theorem Redrawing.main {t : Threads} {screen : Screen} (h : Redrawing t screen)
    (hpc : t.main.pc.InSession) (hfree : ¬TakesMutex ⟨false, shiftClear⟩ t.main) (env : Env) :
    Accounts { t with main := mainStep ⟨false, shiftClear⟩ t.main env }
      (exec (step ⟨false, shiftClear⟩) (t.main.withVideo t.main.vbuf.updStack false screen) [.main env]) := by
  rw [exec_one, step]
  rcases mainStep_inSession hpc hfree env with hpush | ⟨s', hquiet⟩
  · rw [hpush.step, hpush.mainStep]
    exact .redrawing screen ⟨h.video, h.flag, h.shows⟩
  · rw [hquiet.step, hquiet.mainStep, ← hquiet.vbuf]
    refine .redrawing (t := { t with main := s' }) screen ⟨h.video, ?_, ?_⟩ <;> rw [hquiet.vbuf]
    exacts [h.flag, h.shows]

/-- A step of the main thread when the atomic machine is ahead. -/
theorem Ahead.main {t : Threads} {stack : BBoxStack} {older : List BBox} {screen : Screen}
    (h : Ahead t stack older screen) (hbus : BusReady (t.main.withVideo stack false screen))
    (hpc : t.main.pc.InSession) (hfree : ¬TakesMutex ⟨false, shiftClear⟩ t.main) (env : Env) :
    ∃ ls, Accounts { t with main := mainStep ⟨false, shiftClear⟩ t.main env }
        (exec (step ⟨false, shiftClear⟩) (t.main.withVideo stack false screen) ls)
      ∧ (t.main.withVideo stack false screen).readings ⟨false, shiftClear⟩ ls = t.reads (.main env) := by
  rcases mainStep_inSession hpc hfree env with hpush | ⟨s', hquiet⟩
  · refine ⟨[.main env], ?_, Main.readings_one _ _ _⟩
    rw [exec_one, step, hpush.step, hpush.mainStep]
    exact .ahead _ older screen (h.push hpush.pc _ _)
  · obtain ⟨ls, screen', hdrain, hsilent, hahead⟩ := h.drain hbus
    refine ⟨ls ++ [.main env], ?_, ?_⟩
    · rw [exec_append, hdrain, exec_one, step, hquiet.step, hquiet.mainStep]
      exact .ahead .empty _ screen' (hahead.quiet hquiet.vbuf hquiet.screen hquiet.delay hquiet.loop)
    · rw [Main.readings, projected_append, ← Main.readings, hsilent, hdrain]
      exact Main.readings_one _ _ _

theorem Atomically.accounts_main {t : Threads} {s : Main} (h : Atomically t s)
    (hfree : ¬t.Waits ⟨false, shiftClear⟩) (env : Env) :
    ∃ ls, Accounts { t with main := mainStep ⟨false, shiftClear⟩ t.main env }
        (exec (step ⟨false, shiftClear⟩) s ls)
      ∧ s.readings ⟨false, shiftClear⟩ ls = t.reads (.main env) := by
  have hopen : t.video ≠ .asleep → ¬TakesMutex ⟨false, shiftClear⟩ t.main :=
    fun hv htakes => hfree ⟨hv, htakes⟩
  obtain ⟨hbus, hheld, -, hacc⟩ := h
  cases hacc with
  | outside screen hvideo hpanel =>
      have hsitl : Config.sitl ⟨false, shiftClear⟩ = false := rfl
      obtain ⟨hstep, hkeep, -⟩ := mainStep_withScreen hsitl hheld.pc env screen
      refine ⟨[.main env], ?_, Main.readings_one _ _ _⟩
      rw [exec_one, step, hstep]
      refine .outside (t := { t with main := mainStep ⟨false, shiftClear⟩ t.main env }) screen hvideo ?_
      rw [hkeep]
      exact hpanel
  | owing screen howing hsleeps hpanel => exact howing.main_of_sleeps hsleeps hpanel hbus env
  | lagging screen howing hpc hpanel => exact howing.main_of_loop hpc hpanel hbus env
  | redrawing screen hredraw =>
      have hv : t.video ≠ .asleep := by
        intro hasleep
        have hin := hredraw.video
        simp [hasleep, VideoPc.InRedraw] at hin
      exact ⟨[.main env], hredraw.main (hheld.session hv) (hopen hv) env, Main.readings_one _ _ _⟩
  | ahead stack older screen hahead =>
      have hv : t.video ≠ .asleep := by
        intro hasleep
        have hin := hahead.video
        simp [hasleep, VideoPc.InLoop] at hin
      exact hahead.main hbus (hheld.session hv) (hopen hv) env

theorem Atomically.main {t : Threads} {s : Main} (h : Atomically t s) {env : Env}
    (hpush : ¬PushesInPop t (.main env)) :
    ∃ ls, Atomically (threadStep ⟨false, shiftClear⟩ t (.main env)) (exec (step ⟨false, shiftClear⟩) s ls)
      ∧ s.readings ⟨false, shiftClear⟩ ls = t.reads (.main env) := by
  have hnext : Held (threadStep ⟨false, shiftClear⟩ t (.main env)) := h.held.main env
  by_cases hwaits : t.Waits ⟨false, shiftClear⟩
  · rw [threadStep, if_pos hwaits]
    exact ⟨[], h, (Threads.reads_of_waits hwaits env).symm⟩
  · rw [threadStep, if_neg hwaits] at hnext ⊢
    obtain ⟨ls, hacc, hreads⟩ := h.accounts_main hwaits env
    exact ⟨ls, ⟨h.bus.exec ls, hnext, h.untorn.main h.held hwaits hpush, hacc⟩, hreads⟩

/-! ## Steps of the video thread -/

/-- The top box is given up, with everything on the stack drawn by the atomic machine before. -/
theorem ahead_of_pop {t : Threads} (hflag : t.main.vbuf.clearFlag = false) {box : BBox} {rest : List BBox}
    (harr : t.main.vbuf.updStack.arr = box :: rest) {screen : Screen}
    (hinside : ∀ p q, p < 240 → q < 240 → (∃ box' ∈ box :: rest, box'.Covers p q) →
      screen.stm32.panel.pixel p q = if t.main.vbuf.pixel p q then 0xFFFF else 0x0000)
    (houtside : ∀ p q, p < 240 → q < 240 → (¬∃ box' ∈ box :: rest, box'.Covers p q) →
      screen.stm32.panel.pixel p q = t.main.screen.stm32.panel.pixel p q) (i k : Nat) (box' : BBox) :
    Accounts ⟨t.main.withVideo (t.main.vbuf.updStack.withSize (t.main.vbuf.updStack.size - 1))
        t.main.vbuf.clearFlag t.main.screen, .popCopy i box box' k⟩
      (t.main.withVideo .empty false screen) := by
  have hroom : rest.length < stackSize := by
    have hle := t.main.vbuf.updStack.size_le
    rw [harr, List.length_cons] at hle
    exact hle
  have hrest := BBoxStack.withSize_arr harr
  exact .ahead (t := ⟨t.main.withVideo (t.main.vbuf.updStack.withSize (t.main.vbuf.updStack.size - 1))
    t.main.vbuf.clearFlag t.main.screen, .popCopy i box box' k⟩) .empty rest screen
    ⟨trivial, hflag, by simp [hrest, BBoxStack.empty], by simp [BBoxStack.empty], fun _ => hroom, hinside,
      houtside⟩

/-- The video thread goes on, and the box it has in hand is the same. -/
theorem Ahead.next {t : Threads} {stack : BBoxStack} {older : List BBox} {screen : Screen}
    (h : Ahead t stack older screen) {video : VideoPc} (hloop : video.InLoop)
    (hflight : video.inFlight = t.video.inFlight) :
    Accounts ⟨t.main, video⟩ (t.main.withVideo stack false screen) := by
  refine .ahead (t := ⟨t.main, video⟩) stack older screen ⟨hloop, h.flag, h.arr, h.pushed, h.room, ?_, ?_⟩
  · simp only [Owed, hflight]
    exact h.inside
  · simp only [Owed, hflight]
    exact h.outside

/-- The box in hand is sent. -/
theorem Ahead.sent {t : Threads} {stack : BBoxStack} {older : List BBox} {screen : Screen}
    (h : Ahead t stack older screen) {box : BBox} (hvideo : t.video = .sendBox box) {disp : Stm32Display}
    (hpixel : ∀ p q, disp.panel.pixel p q = if box.Covers p q
      then (if t.main.vbuf.pixel p q then 0xFFFF else 0x0000) else t.main.screen.stm32.panel.pixel p q) :
    Accounts ⟨{ t.main with screen := { t.main.screen with stm32 := disp } }, .loopTest⟩
      (t.main.withVideo stack false screen) := by
  have hflight : t.video.inFlight = [box] := by rw [hvideo]; rfl
  refine .ahead (t := ⟨{ t.main with screen := { t.main.screen with stm32 := disp } }, .loopTest⟩) stack
    older screen ⟨trivial, h.flag, h.arr, h.pushed, h.room, fun p q hp hq ho => ?_, fun p q hp hq ho => ?_⟩
  · obtain ⟨b, hb, hcovers⟩ := ho
    exact h.inside p q hp hq ⟨b, List.mem_append_right _ hb, hcovers⟩
  · rw [hpixel p q]
    by_cases hcovers : box.Covers p q
    · rw [if_pos hcovers]
      exact h.inside p q hp hq ⟨box, by simp [hflight], hcovers⟩
    · rw [if_neg hcovers]
      refine h.outside p q hp hq fun howed => ?_
      obtain ⟨b, hb, hcov⟩ := howed
      rw [hflight, List.singleton_append, List.mem_cons] at hb
      rcases hb with rfl | hb
      · exact hcovers hcov
      · exact ho ⟨b, hb, hcov⟩

/-- The atomic machine answers a step of the video thread to `t'`. -/
def Answered (shiftClear : Bool) (t' : Threads) (s : Main) : Prop :=
  ∃ ls, Accounts t' (exec (step ⟨false, shiftClear⟩) s ls) ∧ s.readings ⟨false, shiftClear⟩ ls = []

theorem Accounts.answered {t' : Threads} {s : Main} (h : Accounts t' s) : Answered shiftClear t' s :=
  ⟨[], h, rfl⟩

theorem Redrawing.video_step {t : Threads} {screen : Screen} (h : Redrawing t screen) (hheld : Held t) :
    Accounts (thdVideo ⟨false, shiftClear⟩ t) (t.main.withVideo t.main.vbuf.updStack false screen) := by
  have hin := h.video
  apply thdVideo_cases (motive := fun t' =>
    Accounts t' (t.main.withVideo t.main.vbuf.updStack false screen)) hheld.video hheld.bus
  case full =>
      intro _ _
      exact .redrawing (t := ⟨t.main, .sendAll⟩) screen ⟨trivial, h.flag, h.shows⟩
  case enter =>
      intro _ hflag
      exact absurd (h.flag.symm.trans hflag) (by simp)
  case sendAll =>
      intro _ _ disp _ _
      exact .redrawing (t := ⟨{ t.main with screen := { t.main.screen with stm32 := disp } }, .resetFlag⟩)
        screen ⟨trivial, h.flag, h.shows⟩
  case reset =>
      intro _ hshown
      exact .outside (t := ⟨t.main.withVideo t.main.vbuf.updStack false t.main.screen, .unlock⟩) screen
        (Or.inr rfl) fun p q hp hq => (h.shows p q hp hq).trans (hshown p q hp hq).symm
  all_goals
    intros
    simp_all only [VideoPc.InRedraw]

theorem Ahead.video_step {t : Threads} {stack : BBoxStack} {older : List BBox} {screen : Screen}
    (h : Ahead t stack older screen) (hbus : BusReady (t.main.withVideo stack false screen))
    (hheld : Held t) (huntorn : Untorn t) :
    Answered shiftClear (thdVideo ⟨false, shiftClear⟩ t) (t.main.withVideo stack false screen) := by
  have hin := h.video
  apply thdVideo_cases (motive := fun t' => Answered shiftClear t' (t.main.withVideo stack false screen))
    hheld.video hheld.bus
  case full =>
      intro _ hflag
      exact absurd (h.flag.symm.trans hflag) (by simp)
  case enter => exact fun hv _ => Accounts.answered (h.next trivial (by rw [hv]; rfl))
  case done =>
      intro hv _ hnil
      have hparts : stack.arr = [] ∧ older = [] := by
        rw [h.arr] at hnil
        exact List.append_eq_nil_iff.1 hnil
      have hself : t.main.withVideo stack false screen = { t.main with screen := screen } := by
        rw [BBoxStack.eq_empty hparts.1, ← BBoxStack.eq_empty hnil, ← h.flag]
        rfl
      rw [hself]
      refine Accounts.answered (.outside (t := ⟨t.main, .unlock⟩) screen (Or.inr rfl) fun p q hp hq => ?_)
      exact h.outside p q hp hq (by simp [Owed, hv, VideoPc.inFlight, hparts.2])
  case more => exact fun hv _ _ => Accounts.answered (h.next trivial (by rw [hv]; rfl))
  case pop => exact fun hv _ _ => Accounts.answered (h.next trivial (by rw [hv]; rfl))
  case popSize =>
      intro size hv _ hpos _
      have hsize : t.main.vbuf.updStack.size = size := by simpa only [Untorn, hv] using huntorn
      rw [← hsize] at hpos ⊢
      obtain ⟨box, rest, harr⟩ := List.exists_cons_of_length_pos hpos
      obtain ⟨ls, screen', hdrain, hsilent, hahead⟩ := h.drain hbus
      rw [← h.arr, harr] at hahead
      have hinside := hahead.inside
      have houtside := hahead.outside
      simp only [Owed, hv, VideoPc.inFlight, List.nil_append] at hinside houtside
      rw [BBoxStack.slot_top harr]
      refine ⟨ls, ?_, hsilent⟩
      rw [hdrain]
      exact ahead_of_pop h.flag harr hinside houtside _ _ _
  case popCopy => exact fun _ _ _ _ hv _ _ _ => Accounts.answered (h.next trivial (by rw [hv]; rfl))
  case popped =>
      intro i gone box hv _ hcopied
      have hsize : t.main.vbuf.updStack.size = i := by simpa only [Untorn, hv] using huntorn
      rw [hcopied.eq_gone hheld.bus.aligned hsize]
      exact Accounts.answered (h.next trivial (by rw [hv]; rfl))
  case sendBox => exact fun box hv _ _ disp _ hpixel => (h.sent hv hpixel).answered
  all_goals
    intros
    simp_all only [VideoPc.InLoop]

theorem Owing.video_step {t : Threads} (h : Owing t) (hsleeps : t.main.Sleeps) {screen : Screen}
    (hpanel : SamePanel t.main.screen screen) (hbus : BusReady { t.main with screen := screen })
    (hheld : Held t) (huntorn : Untorn t) :
    Answered shiftClear (thdVideo ⟨false, shiftClear⟩ t) { t.main with screen := screen } := by
  have hin := h.video
  have hnext : ∀ video : VideoPc, video.BeforePop →
      Answered shiftClear ⟨t.main, video⟩ { t.main with screen := screen } :=
    fun video hvideo => Accounts.answered
      (.owing (t := ⟨t.main, video⟩) screen ⟨hvideo, h.flag⟩ hsleeps hpanel)
  apply thdVideo_cases (motive := fun t' => Answered shiftClear t' { t.main with screen := screen })
    hheld.video hheld.bus
  case full =>
      intro _ hflag
      exact absurd (h.flag.symm.trans hflag) (by simp)
  case enter => exact fun _ _ => hnext _ trivial
  case done =>
      intro _ _ _
      exact Accounts.answered (.outside (t := ⟨t.main, .unlock⟩) screen (Or.inr rfl) hpanel)
  case more => exact fun _ _ _ => hnext _ trivial
  case pop => exact fun _ _ _ => hnext _ trivial
  case popSize =>
      -- the atomic machine draws the whole stack
      intro size hv _ hpos _
      have hsize : t.main.vbuf.updStack.size = size := by simpa only [Untorn, hv] using huntorn
      rw [← hsize] at hpos ⊢
      obtain ⟨box, rest, harr⟩ := List.exists_cons_of_length_pos hpos
      obtain ⟨screen', hdraw, hinside, houtside⟩ := h.draw hbus rfl hsleeps hpanel
      simp only [VBuf.Covered, harr] at hinside houtside
      rw [BBoxStack.slot_top harr]
      refine ⟨[.video], ?_, rfl⟩
      rw [exec_one, hdraw]
      exact ahead_of_pop h.flag harr (fun p q _ _ => hinside p q) houtside _ _ _
  all_goals
    intros
    simp_all only [VideoPc.BeforePop]

/-- The video thread takes the mutex. -/
theorem accounts_lock {t : Threads} (hvideo : t.video = .asleep) (hsleeps : t.main.Sleeps)
    {screen : Screen} (hpanel : SamePanel t.main.screen screen)
    (hbus : BusReady { t.main with screen := screen }) :
    Answered shiftClear (thdVideo ⟨false, shiftClear⟩ t) { t.main with screen := screen } := by
  have hstep : thdVideo ⟨false, shiftClear⟩ t = ⟨t.main, .locked⟩ := by rw [thdVideo, hvideo]
  rw [hstep]
  cases hflag : t.main.vbuf.clearFlag with
  | false =>
      exact Accounts.answered (.owing (t := ⟨t.main, .locked⟩) screen ⟨trivial, hflag⟩ hsleeps hpanel)
  | true =>
      obtain ⟨screen', hdraw, hshows⟩ := step_video_full hbus hsleeps hflag
      refine ⟨[.video], ?_, rfl⟩
      rw [exec_one, hdraw]
      exact .redrawing (t := ⟨t.main, .locked⟩) screen' ⟨trivial, hflag, hshows⟩

theorem Atomically.answered_thdVideo {t : Threads} {s : Main} (h : Atomically t s)
    (hruns : t.main.Sleeps ∨ t.Waits ⟨false, shiftClear⟩) :
    Answered shiftClear (thdVideo ⟨false, shiftClear⟩ t) s := by
  obtain ⟨hbus, hheld, huntorn, hacc⟩ := h
  cases hacc with
  | outside screen hvideo hpanel =>
      rcases hvideo with hv | hv
      · have hsleeps : t.main.Sleeps := hruns.resolve_right fun hwaits => hwaits.1 hv
        exact accounts_lock hv hsleeps hpanel hbus
      · have hstep : thdVideo ⟨false, shiftClear⟩ t = ⟨t.main, .asleep⟩ := by rw [thdVideo, hv]
        rw [hstep]
        exact Accounts.answered (.outside (t := ⟨t.main, .asleep⟩) screen (Or.inl rfl) hpanel)
  | owing screen howing hsleeps hpanel => exact howing.video_step hsleeps hpanel hbus hheld huntorn
  | lagging screen howing hpc hpanel =>
      -- the main thread is about to run, so the video thread is not
      exfalso
      simp [Main.Sleeps, Threads.Waits, TakesMutex, hpc] at hruns
  | redrawing screen hredraw => exact (hredraw.video_step hheld).answered
  | ahead stack older screen hahead => exact hahead.video_step hbus hheld huntorn

theorem Atomically.video {t : Threads} {s : Main} (h : Atomically t s) :
    ∃ ls, Atomically (threadStep ⟨false, shiftClear⟩ t .video) (exec (step ⟨false, shiftClear⟩) s ls)
      ∧ s.readings ⟨false, shiftClear⟩ ls = [] := by
  have hnext : Held (threadStep ⟨false, shiftClear⟩ t .video) := h.held.video_step
  by_cases hruns : t.main.Sleeps ∨ t.Waits ⟨false, shiftClear⟩
  · rw [threadStep, if_pos hruns] at hnext ⊢
    obtain ⟨ls, hacc, hreads⟩ := h.answered_thdVideo hruns
    exact ⟨ls, ⟨h.bus.exec ls, hnext, h.untorn.thdVideo h.held.video h.held.bus, hacc⟩, hreads⟩
  · rw [threadStep, if_neg hruns]
    exact ⟨[], h, rfl⟩

end Atomic

/-! ## Every run of the threads is a run of the machine -/

theorem atomically_simulates (shiftClear : Bool) :
    Simulates (threadStep ⟨false, shiftClear⟩) (step ⟨false, shiftClear⟩) Threads.reads Main.reads
      (fun t k => ¬PushesInPop t k) Atomically := by
  intro t s k h hpush
  cases k with
  | main env => exact h.main hpush
  | video => exact h.video

theorem atomically_start (t0 : BitVec 32) {screen : Screen} (hbuf : screen.stm32.buf.size = 0) :
    Atomically (threadStart t0 screen) (start t0 screen) where
  bus := (handshake_start t0 hbuf).bus
  held := held_start t0 hbuf
  untorn := trivial
  accounts := .outside (t := threadStart t0 screen) screen (Or.inl rfl) (fun _ _ _ _ => rfl)

theorem Accounts.sameGame {t : Threads} {s : Main} (h : Accounts t s) : SameGame t.main s := by
  cases h <;> exact ⟨rfl, rfl, rfl, rfl, rfl, fun _ _ => rfl⟩

/-- Everything is the same except for the registers of the panel and what is left in the transfer
    buffer from the last transfer. -/
def SameButBus (s s' : Main) : Prop :=
  SamePanel s.screen s'.screen ∧ s' = { s with screen := s'.screen }

theorem Accounts.sameButBus {t : Threads} {s : Main} (h : Accounts t s) (hasleep : t.video = .asleep) :
    SameButBus t.main s := by
  cases h with
  | outside screen hvideo hpanel => exact ⟨hpanel, rfl⟩
  | owing screen howing hsleeps hpanel =>
      have hv := howing.video
      simp [hasleep, VideoPc.BeforePop] at hv
  | lagging screen howing hpc hpanel =>
      have hv := howing.video
      simp [hasleep, VideoPc.BeforePop] at hv
  | redrawing screen hredraw =>
      have hv := hredraw.video
      simp [hasleep, VideoPc.InRedraw] at hv
  | ahead stack older screen hahead =>
      have hv := hahead.video
      simp [hasleep, VideoPc.InLoop] at hv

/-- What a run of `step` with a `draw` in one step has in common with a run of the threads. -/
structure StandsFor (shiftClear : Bool) (t0 : BitVec 32) (screen : Screen) (ks : List ThreadLabel)
    (ls : List Label) : Prop where
  reads : (start t0 screen).readings ⟨false, shiftClear⟩ ls
    = projected (threadStep ⟨false, shiftClear⟩) Threads.reads (threadStart t0 screen) ks
  game : SameGame (exec (threadStep ⟨false, shiftClear⟩) (threadStart t0 screen) ks).main
    (exec (step ⟨false, shiftClear⟩) (start t0 screen) ls)
  rest : AllSteps (threadStep ⟨false, shiftClear⟩) (fun t k => ¬PushesInPop t k) (threadStart t0 screen) ks →
    (exec (threadStep ⟨false, shiftClear⟩) (threadStart t0 screen) ks).video = .asleep →
      SameButBus (exec (threadStep ⟨false, shiftClear⟩) (threadStart t0 screen) ks).main
        (exec (step ⟨false, shiftClear⟩) (start t0 screen) ls)

theorem exists_standsFor (shiftClear : Bool) (t0 : BitVec 32) {screen : Screen}
    (hbuf : screen.stm32.buf.size = 0) (ks : List ThreadLabel) :
    ∃ ls, StandsFor shiftClear t0 screen ks ls := by
  by_cases hwhole : AllSteps (threadStep ⟨false, shiftClear⟩) (fun t k => ¬PushesInPop t k)
    (threadStart t0 screen) ks
  · obtain ⟨ls, h, hreads⟩ := (atomically_simulates shiftClear).run (atomically_start t0 hbuf) hwhole
    exact ⟨ls, hreads, h.accounts.sameGame, fun _ => h.accounts.sameButBus⟩
  · have hstart : PlaysAlong (threadStart t0 screen) (start t0 screen) :=
      ⟨⟨rfl, rfl, rfl, rfl, rfl, fun _ _ => rfl⟩, rfl, by simp [threadStart, start]⟩
    obtain ⟨ls, h, hreads⟩ := (playsAlong_simulates shiftClear).run hstart
      (AllSteps.of_forall (fun _ _ => trivial) _ ks)
    exact ⟨ls, hreads, h.game, fun hnone => absurd hnone hwhole⟩

/-- **`draw` may be taken for one step.** For every interleaving of the two threads there is a run of the
    machine with a one-step `draw` that has read the same and is in the same state of the game. If no push
    falls into a pop, it is in the same state altogether, up to the bus, whenever the video thread does not
    hold the mutex. -/
theorem threads_refine (shiftClear : Bool) (t0 : BitVec 32) (screen : Screen)
    (hbuf : screen.stm32.buf.size = 0) (ks : List ThreadLabel) :
    ∃ ls, (start t0 screen).readings ⟨false, shiftClear⟩ ls
        = projected (threadStep ⟨false, shiftClear⟩) Threads.reads (threadStart t0 screen) ks
      ∧ SameGame (exec (threadStep ⟨false, shiftClear⟩) (threadStart t0 screen) ks).main
        (exec (step ⟨false, shiftClear⟩) (start t0 screen) ls)
      ∧ (AllSteps (threadStep ⟨false, shiftClear⟩) (fun t k => ¬PushesInPop t k) (threadStart t0 screen) ks →
        (exec (threadStep ⟨false, shiftClear⟩) (threadStart t0 screen) ks).video = .asleep →
        SameButBus (exec (threadStep ⟨false, shiftClear⟩) (threadStart t0 screen) ks).main
          (exec (step ⟨false, shiftClear⟩) (start t0 screen) ls)) := by
  obtain ⟨ls, h⟩ := exists_standsFor shiftClear t0 hbuf ks
  exact ⟨ls, h.reads, h.game, h.rest⟩

/-- The first frame is sent as a whole. The video thread pops the score box of the second one, the main
    thread wakes up and pushes the strip of a move, and the video thread goes on until it is done. -/
def pushInDraw : List ThreadLabel :=
  threadSteps 5 [] 1000 ++ List.replicate 5 .video ++ threadSteps 6 [] 1000 ++ List.replicate 9 .video
    ++ threadSteps 1 [] 1000 ++ threadSteps 1 [.right] 1000 ++ List.replicate 27 .video

theorem threads_refine_pushInDraw :
    (exec (threadStep ⟨false, true⟩) (threadStart 0 .blank) pushInDraw).video = .asleep
      ∧ ∃ ls, SameButBus (exec (threadStep ⟨false, true⟩) (threadStart 0 .blank) pushInDraw).main
        (exec (step ⟨false, true⟩) (start 0 .blank) ls) := by
  have hasleep : (exec (threadStep ⟨false, true⟩) (threadStart 0 .blank) pushInDraw).video = .asleep := by
    decide +kernel
  obtain ⟨ls, -, -, hsame⟩ := threads_refine true 0 .blank rfl pushInDraw
  exact ⟨hasleep, ls, hsame (by decide +kernel) hasleep⟩

end Katetris
