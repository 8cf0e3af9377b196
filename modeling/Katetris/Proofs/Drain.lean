import Katetris.Proofs.Mutex

set_option autoImplicit false

/-! # What a sleep is good for

The main thread leaves the panel to the video thread, which has it while the main thread sleeps. What a
sleep that is long enough achieves is the same in every interleaving: the flag is reset and the stack is
empty, and every pixel that was requested or right at the beginning is right, unless a push has come into
the pop that was under way (`sleep_drains`). It takes eight steps of the video thread for each box, two to
get to the loop of `draw`, five for a redraw of the whole screen that comes before, and one to get out of
an earlier `draw`.

An iteration pushes three boxes at most. So if every final delay lasts thirty-two steps of the video
thread, no more than three boxes are ever on the stack and no request is turned away (`stack_bounded`),
although the stack is not locked. -/

namespace Katetris

open Lib

/-! ## Requested and shown -/

/-- The pixel will be sent: the whole screen is to be redrawn, or it is in a box on the stack or in the
    one the stack has just given up. -/
def Pending (t : Threads) (p q : Nat) : Prop :=
  t.main.vbuf.clearFlag = true
    ∨ ∃ box ∈ t.video.inFlight ++ t.main.vbuf.updStack.arr, box.Covers p q

/-- Nothing is requested. -/
structure Drained (t : Threads) : Prop where
  flag : t.main.vbuf.clearFlag = false
  stack : t.main.vbuf.updStack.arr = []
  inFlight : t.video.inFlight = []

theorem Drained.not_pending {t : Threads} (h : Drained t) (p q : Nat) : ¬Pending t p q := by
  simp [Pending, h.flag, h.stack, h.inFlight]

/-! ## One step of the video thread -/

theorem thdVideo_buf (cfg : Config) (t : Threads) :
    (thdVideo cfg t).main.vbuf.buf = t.main.vbuf.buf := by
  obtain ⟨stack, flag, screen, hmain, -⟩ := thdVideo_main cfg t
  rw [hmain]
  rfl

/-- What is requested or right stays so. -/
theorem Held.pending_or_shown_thdVideo {shiftClear : Bool} {t : Threads} (h : Held t) (huntorn : Untorn t)
    {p q : Nat} (hp : p < 240) (hq : q < 240) (hpq : Pending t p q ∨ Shown t p q) :
    Pending (thdVideo ⟨false, shiftClear⟩ t) p q ∨ Shown (thdVideo ⟨false, shiftClear⟩ t) p q := by
  apply thdVideo_cases (motive := fun t' => Pending t' p q ∨ Shown t' p q) h.video h.bus
  case full => exact fun _ hflag => Or.inl (Or.inl hflag)
  case sendAll => exact fun _ _ disp _ hpixel => Or.inr (hpixel p q hp hq)
  case reset => exact fun _ hshown => Or.inr (hshown p q hp hq)
  case popSize =>
      intro size hv _ hpos _
      have hsize : t.main.vbuf.updStack.size = size := by simpa only [Untorn, hv] using huntorn
      rw [← hsize] at hpos ⊢
      obtain ⟨box, rest, harr⟩ := List.exists_cons_of_length_pos hpos
      rw [BBoxStack.slot_top harr]
      refine hpq.imp (fun hpending => ?_) (fun hshown => hshown)
      simpa [Pending, VideoPc.inFlight, hv, harr, BBoxStack.withSize_arr harr] using hpending
  case popCopy =>
      intro i gone box k hv _ _ _
      simpa only [Pending, Shown, hv, VideoPc.inFlight] using hpq
  case popped =>
      intro i gone box hv _ hcopied
      have hsize : t.main.vbuf.updStack.size = i := by simpa only [Untorn, hv] using huntorn
      rw [hcopied.eq_gone h.bus.aligned hsize]
      simpa only [Pending, Shown, hv, VideoPc.inFlight] using hpq
  case sendBox =>
      intro box hv _ _ disp _ hpixel
      simp only [Pending, Shown, hv, VideoPc.inFlight, hpixel, List.nil_append, List.singleton_append,
        List.mem_cons] at hpq ⊢
      by_cases hcovers : box.Covers p q
      · exact Or.inr (if_pos hcovers)
      · rw [if_neg hcovers]
        rcases hpq with (hflag | ⟨box', rfl | hmem, hcovers'⟩) | hshown
        · exact Or.inl (Or.inl hflag)
        · exact absurd hcovers' hcovers
        · exact Or.inl (Or.inr ⟨box', hmem, hcovers'⟩)
        · exact Or.inr hshown
  all_goals
    intro hv
    intros
    simpa only [Pending, Shown, hv, VideoPc.inFlight] using hpq

/-! ## How long it takes -/

/-- The steps for what is on the stack, from outside `draw`. -/
def stackSteps (t : Threads) : Nat :=
  if t.main.vbuf.updStack.size = 0 then 0 else 8 * t.main.vbuf.updStack.size + 2

/-- The steps of the video thread after which nothing is requested any more, if nothing is pushed. -/
def drainSteps (t : Threads) : Nat :=
  match t.video with
  | .asleep => (if t.main.vbuf.clearFlag then 5 else 0) + stackSteps t
  | .locked => if t.main.vbuf.clearFlag then 4 + stackSteps t else stackSteps t - 1
  | .sendAll => 3 + stackSteps t
  | .resetFlag => 2 + stackSteps t
  | .loopTest => 8 * t.main.vbuf.updStack.size
  | .pop => 8 * t.main.vbuf.updStack.size - 1
  | .popSize size => 8 * size - 2
  | .popCopy _ _ _ k => 8 * t.main.vbuf.updStack.size + (5 - k)
  | .sendBox _ => 8 * t.main.vbuf.updStack.size + 1
  | .unlock =>
      if t.main.vbuf.clearFlag then 6 + stackSteps t
      else if t.main.vbuf.updStack.size = 0 then 0 else 1 + stackSteps t

theorem Held.drainSteps_le {t : Threads} (h : Held t) :
    drainSteps t ≤ 8 * t.main.vbuf.updStack.size + 8 := by
  have hvideo := h.video
  unfold drainSteps stackSteps
  cases hv : t.video with
  | popSize size =>
      simp only [VideoSoFar, hv] at hvideo
      dsimp only
      omega
  | _ =>
      dsimp only
      (try split_ifs) <;> omega

theorem Held.drained_of_drainSteps {t : Threads} (h : Held t) (hzero : drainSteps t = 0) : Drained t := by
  have hempty : t.main.vbuf.updStack.size = 0 → t.main.vbuf.updStack.arr = [] :=
    List.length_eq_zero_iff.1
  have hvideo := h.video
  unfold VideoSoFar at hvideo
  unfold drainSteps stackSteps at hzero
  cases hv : t.video with
  | loopTest =>
      simp only [hv] at hzero hvideo
      exact ⟨hvideo, hempty (by omega), by simp [hv, VideoPc.inFlight]⟩
  | pop =>
      simp only [hv] at hzero hvideo
      omega
  | popSize size =>
      simp only [hv] at hzero hvideo
      omega
  | popCopy i gone box k =>
      simp only [hv] at hzero hvideo
      have hk := hvideo.2.field_lt
      omega
  | sendBox box => simp [hv] at hzero
  | sendAll => simp [hv] at hzero
  | resetFlag => simp [hv] at hzero
  | asleep | locked | unlock =>
      -- a set flag or a box on the stack takes at least one step
      cases hflag : t.main.vbuf.clearFlag <;> by_cases hsize : t.main.vbuf.updStack.size = 0 <;>
        simp [hv, hflag, hsize] at hzero
      exact ⟨hflag, hempty hsize, by simp [hv, VideoPc.inFlight]⟩

/-- Each step of the video thread leaves one step less. -/
theorem Held.drainSteps_thdVideo {shiftClear : Bool} {t : Threads} (h : Held t) :
    drainSteps (thdVideo ⟨false, shiftClear⟩ t) ≤ drainSteps t - 1 := by
  apply thdVideo_cases (motive := fun t' => drainSteps t' ≤ drainSteps t - 1) h.video h.bus
  case lock | unlock =>
      intro hv
      cases hflag : t.main.vbuf.clearFlag <;> by_cases hsize : t.main.vbuf.updStack.size = 0 <;>
        simp [drainSteps, stackSteps, hv, hflag, hsize]
      all_goals omega
  case enter =>
      intro hv hflag
      by_cases hsize : t.main.vbuf.updStack.size = 0 <;> simp [drainSteps, stackSteps, hv, hflag, hsize]
  case reset =>
      intro hv _
      by_cases hsize : t.main.vbuf.updStack.size = 0 <;>
        simp [drainSteps, stackSteps, Main.withVideo, hv, hsize]
      omega
  case done =>
      intro hv hflag hnil
      simp [drainSteps, hv, hflag, BBoxStack.size, hnil]
  case pop =>
      intro hv _ hsize
      simp only [drainSteps, hv]
      omega
  case popSize =>
      intro size hv _ hpos hle
      simp only [drainSteps, hv, Main.withVideo, BBoxStack.size_withSize]
      omega
  case popCopy =>
      intro i gone box k hv _ _ hk
      simp only [drainSteps, hv]
      omega
  all_goals
    intros
    simp [drainSteps, stackSteps, *]

/-! ## Along a sleep -/

/-- As long as the main thread sleeps, only the video thread has taken steps. -/
theorem threadStep_of_sleeps {cfg : Config} {t : Threads} {k : ThreadLabel} (hsleeps : t.main.Sleeps)
    (hstill : (threadStep cfg t k).main.Sleeps) : k = .video ∧ threadStep cfg t k = thdVideo cfg t := by
  cases k with
  | video => exact ⟨rfl, by rw [threadStep, if_pos (Or.inl hsleeps)]⟩
  | main env =>
      have hfree : ¬t.Waits cfg := by
        intro hwaits
        rcases hsleeps with hpc | hpc <;> simp [Threads.Waits, TakesMutex, hpc] at hwaits
      rw [threadStep, if_neg hfree] at hstill
      rcases hsleeps with hpc | hpc <;> simp [mainStep, hpc, Main.Sleeps] at hstill

section Sleep

variable {shiftClear : Bool} {t : Threads} {ks : List ThreadLabel} (h : Held t)
  (hsleeps : AllStates (threadStep ⟨false, shiftClear⟩) (fun t => t.main.Sleeps) t ks)

include hsleeps

theorem buf_after_sleep :
    (exec (threadStep ⟨false, shiftClear⟩) t ks).main.vbuf.buf = t.main.vbuf.buf := by
  refine (AllStates.of_invariant (I := fun t' => t'.main.vbuf.buf = t.main.vbuf.buf) ?_ rfl
    hsleeps.allSteps).last
  intro t' k hsame hstep
  rw [(threadStep_of_sleeps hstep.1 hstep.2).2, thdVideo_buf, hsame]

include h

theorem drained_after_sleep (hmany : drainSteps t ≤ ks.length) :
    Drained (exec (threadStep ⟨false, shiftClear⟩) t ks) := by
  have hrank : drainSteps (exec (threadStep ⟨false, shiftClear⟩) t ks)
      ≤ drainSteps t - countSteps (threadStep ⟨false, shiftClear⟩) (fun _ _ => true = true) t ks := by
    refine rank_exec_le (fun t k h _ => Held.step t k h) (fun t k h hstep => ?_) h hsleeps.allSteps
    rw [(threadStep_of_sleeps hstep.1 hstep.2).2]
    exact h.drainSteps_thdVideo
  have hlast : Held (exec (threadStep ⟨false, shiftClear⟩) t ks) :=
    (AllStates.of_invariant' Held.step h ks).last
  rw [countSteps_eq_countP (fun _ => true), List.countP_true] at hrank
  exact hlast.drained_of_drainSteps (by omega)

theorem pending_or_shown_after_sleep (huntorn : Untorn t) {p q : Nat} (hp : p < 240) (hq : q < 240)
    (hpq : Pending t p q ∨ Shown t p q) :
    Pending (exec (threadStep ⟨false, shiftClear⟩) t ks) p q
      ∨ Shown (exec (threadStep ⟨false, shiftClear⟩) t ks) p q := by
  refine (AllStates.of_invariant (I := fun t => (Held t ∧ Untorn t) ∧ (Pending t p q ∨ Shown t p q)) ?_
    ⟨⟨h, huntorn⟩, hpq⟩ hsleeps.allSteps).last.2
  intro t k hinv hstep
  obtain ⟨⟨h, huntorn⟩, hpq⟩ := hinv
  have hheld : Held (threadStep ⟨false, shiftClear⟩ t k) := h.step t k
  rw [(threadStep_of_sleeps hstep.1 hstep.2).2] at hheld ⊢
  exact ⟨⟨hheld, huntorn.thdVideo h.video h.bus⟩, h.pending_or_shown_thdVideo huntorn hp hq hpq⟩

end Sleep

/-- **A sleep brings the panel up to date.** Whenever the main thread sleeps through eight steps of the
    video thread and eight more for each box on the stack, whatever the threads have done before: nothing is
    requested any more, the buffer is what it was, and every pixel of the screen that was requested or right
    when the sleep began is right, provided no push had come into a pop under way. -/
theorem sleep_drains (shiftClear : Bool) (t0 : BitVec 32) (screen : Screen)
    (hbuf : screen.stm32.buf.size = 0) (ks ks' : List ThreadLabel)
    (hsleeps : AllStates (threadStep ⟨false, shiftClear⟩) (fun t => t.main.Sleeps)
      (exec (threadStep ⟨false, shiftClear⟩) (threadStart t0 screen) ks) ks')
    (hmany : 8 * (exec (threadStep ⟨false, shiftClear⟩) (threadStart t0 screen)
      ks).main.vbuf.updStack.size + 8 ≤ ks'.length) :
    Drained (exec (threadStep ⟨false, shiftClear⟩) (threadStart t0 screen) (ks ++ ks'))
    ∧ (exec (threadStep ⟨false, shiftClear⟩) (threadStart t0 screen) (ks ++ ks')).main.vbuf.buf
      = (exec (threadStep ⟨false, shiftClear⟩) (threadStart t0 screen) ks).main.vbuf.buf
    ∧ (Untorn (exec (threadStep ⟨false, shiftClear⟩) (threadStart t0 screen) ks) →
      ∀ p q, p < 240 → q < 240 →
        Pending (exec (threadStep ⟨false, shiftClear⟩) (threadStart t0 screen) ks) p q
          ∨ Shown (exec (threadStep ⟨false, shiftClear⟩) (threadStart t0 screen) ks) p q →
        Shown (exec (threadStep ⟨false, shiftClear⟩) (threadStart t0 screen) (ks ++ ks')) p q) := by
  have h := held_run shiftClear t0 hbuf ks
  have hdrained := drained_after_sleep h hsleeps (le_trans h.drainSteps_le hmany)
  rw [exec_append]
  refine ⟨hdrained, buf_after_sleep hsleeps, fun huntorn p q hp hq hpq => ?_⟩
  exact (pending_or_shown_after_sleep h hsleeps huntorn hp hq hpq).resolve_left
    (hdrained.not_pending p q)

/-- The whole screen is right after the final delay of the first frame. -/
theorem sleep_drains_firstFrame :
    Drained (exec (threadStep ⟨false, true⟩) (threadStart 0 .blank)
        (threadSteps 5 [] 1000 ++ List.replicate 24 .video))
      ∧ ∀ p q, p < 240 → q < 240 →
        Shown (exec (threadStep ⟨false, true⟩) (threadStart 0 .blank)
          (threadSteps 5 [] 1000 ++ List.replicate 24 .video)) p q := by
  obtain ⟨hdrained, -, hshown⟩ := sleep_drains true 0 .blank rfl (threadSteps 5 [] 1000)
    (List.replicate 24 .video) (by decide +kernel) (by decide +kernel)
  have hflag : (exec (threadStep ⟨false, true⟩) (threadStart 0 .blank)
      (threadSteps 5 [] 1000)).main.vbuf.clearFlag = true := by
    decide +kernel
  have huntorn : Untorn (exec (threadStep ⟨false, true⟩) (threadStart 0 .blank) (threadSteps 5 [] 1000)) :=
    trivial
  exact ⟨hdrained, fun p q hp hq => hshown huntorn p q hp hq (Or.inl (Or.inl hflag))⟩

/-! ## Frame after frame -/

/-- The threads, and the steps of the video thread since the final delay began. -/
structure Slept where
  threads : Threads
  slept : Nat

def sleptStep (cfg : Config) (t : Slept) (k : ThreadLabel) : Slept where
  threads := threadStep cfg t.threads k
  slept := match k with
    | .main _ => 0
    | .video => if t.threads.main.pc = .delay then t.slept + 1 else t.slept

/-- The final delay is not over before the video thread has taken thirty-two steps. -/
def SleepsLong (t : Slept) : ThreadLabel → Prop
  | .main _ => t.threads.main.pc = .delay → 32 ≤ t.slept
  | .video => True

instance (t : Slept) : (k : ThreadLabel) → Decidable (SleepsLong t k)
  | .main _ => inferInstanceAs (Decidable (_ → _))
  | .video => inferInstanceAs (Decidable True)

/-- A push of the main thread returns true. -/
def RequestKept (cfg : Config) (t : Slept) : ThreadLabel → Prop
  | .main env => ¬t.threads.Waits cfg → PushSucceeds t.threads.main (.main env)
  | .video => True

/-- The main thread goes on with nothing requested. -/
def WakesDrained (t : Slept) : ThreadLabel → Prop
  | .main _ => t.threads.main.pc = .delay → Drained t.threads
  | .video => True

/-- The boxes an iteration has pushed up to here. -/
def pushedSoFar : Pc → Nat
  | .loop => 0
  | .loopDelay | .floorTest | .gravity => 1
  | .collides | .lock | .clearRows | .paint => 2
  | .present | .delay => 3

theorem pushedSoFar_le (pc : Pc) : pushedSoFar pc ≤ 3 := by
  cases pc <;> decide

/-- The stack holds what this iteration has pushed at most, and in the final delay it is on the way to
    being empty. -/
structure Frames (t : Slept) : Prop where
  held : Held t.threads
  room : t.threads.main.vbuf.updStack.size ≤ pushedSoFar t.threads.main.pc
  drains : t.threads.main.pc = .delay → drainSteps t.threads ≤ 32 - t.slept

theorem thdVideo_size (cfg : Config) (t : Threads) :
    (thdVideo cfg t).main.vbuf.updStack.size ≤ t.main.vbuf.updStack.size := by
  unfold thdVideo
  cases t.video with
  | popSize size =>
      refine le_trans (le_of_eq (BBoxStack.size_withSize _ (size - 1))) ?_
      exact min_le_right _ _
  | _ => exact le_refl _

/-- What an iteration pushes. -/
theorem size_mainStep {shiftClear : Bool} {s : Main} (h : s.vbuf.updStack.size ≤ pushedSoFar s.pc)
    (hdelay : s.pc = .delay → s.vbuf.updStack.size = 0) (env : Env) :
    (mainStep ⟨false, shiftClear⟩ s env).vbuf.updStack.size
      ≤ pushedSoFar (mainStep ⟨false, shiftClear⟩ s env).pc := by
  apply step_cases (motive := fun s' => s'.vbuf.updStack.size ≤ pushedSoFar s'.pc) ⟨false, shiftClear⟩ s
    (.main env)
  case moved =>
      intro env' _ hpc _
      rw [hpc] at h
      exact le_trans (VBuf.size_push_le _ _) (Nat.succ_le_succ h)
  case fall =>
      intro env' _ hpc _
      rw [hpc] at h
      exact le_trans (VBuf.size_push_le _ _) (Nat.succ_le_succ h)
  case paint =>
      intro env' _ hpc
      rw [hpc] at h
      have hstack : (paintFrame s.vbuf s.blk s.grid s.score).updStack = s.vbuf.updStack :=
        congrArg Prod.fst (paintFrame_requests s.vbuf s.blk s.grid s.score)
      refine le_trans (VBuf.size_push_le _ _) ?_
      rw [hstack]
      exact Nat.succ_le_succ h
  case clear =>
      intro env' _ hpc
      rw [hpc] at h
      cases shiftClear <;> exact h
  case again =>
      intro env' _ hpc
      exact (hdelay hpc).le
  case present =>
      intro env' _ hpc
      rw [hpc] at h
      refine le_trans ?_ h
      rw [(draw_stack ⟨false, shiftClear⟩ s.vbuf s.screen).1]
      split_ifs <;> omega
  case video => exact fun hlabel => absurd hlabel (by simp)
  case quiet => exact fun hlabel => absurd hlabel (by simp)
  all_goals
    intro env' _ hpc
    intros
    rw [hpc] at h
    exact le_trans h (by simp [pushedSoFar])

theorem Frames.wakes {t : Slept} {k : ThreadLabel} (h : Frames t) (hk : SleepsLong t k) :
    WakesDrained t k := by
  cases k with
  | video => trivial
  | main env =>
      intro hpc
      have hslept := hk hpc
      have hsteps := h.drains hpc
      exact h.held.drained_of_drainSteps (by omega)

theorem Frames.step {shiftClear : Bool} (t : Slept) (k : ThreadLabel) (h : Frames t)
    (hk : SleepsLong t k) : Frames (sleptStep ⟨false, shiftClear⟩ t k) := by
  have hwakes := h.wakes hk
  obtain ⟨hheld, hroom, hdrains⟩ := h
  have hnext : Held (threadStep ⟨false, shiftClear⟩ t.threads k) := hheld.step t.threads k
  cases k with
  | main env =>
      have hempty : t.threads.main.pc = .delay → t.threads.main.vbuf.updStack.size = 0 := by
        intro hpc
        rw [BBoxStack.size, (hwakes hpc).stack]
        rfl
      have hroom' : (threadStep ⟨false, shiftClear⟩ t.threads (.main env)).main.vbuf.updStack.size
          ≤ pushedSoFar (threadStep ⟨false, shiftClear⟩ t.threads (.main env)).main.pc := by
        rw [threadStep]
        split_ifs
        · exact hroom
        · exact size_mainStep hroom hempty env
      refine ⟨hnext, hroom', fun hpc => ?_⟩
      -- a new final delay, with three boxes at most
      have hsteps := hnext.drainSteps_le
      have hthree := pushedSoFar_le (threadStep ⟨false, shiftClear⟩ t.threads (.main env)).main.pc
      simp only [sleptStep]
      omega
  | video =>
      have hpc := threadStep_video_pc ⟨false, shiftClear⟩ t.threads
      refine ⟨hnext, ?_, fun hdelay => ?_⟩
      · simp only [sleptStep, hpc]
        refine le_trans ?_ hroom
        rw [threadStep]
        split_ifs
        · exact thdVideo_size ⟨false, shiftClear⟩ t.threads
        · exact le_refl _
      · simp only [sleptStep, hpc] at hdelay ⊢
        have hless : drainSteps (thdVideo ⟨false, shiftClear⟩ t.threads) ≤ drainSteps t.threads - 1 :=
          hheld.drainSteps_thdVideo
        have hbefore := hdrains hdelay
        have hsleeps : t.threads.main.Sleeps := Or.inr hdelay
        rw [threadStep, if_pos (Or.inl hsleeps), if_pos hdelay]
        omega

theorem frames_start (t0 : BitVec 32) {screen : Screen} (hbuf : screen.stm32.buf.size = 0) :
    Frames ⟨threadStart t0 screen, 0⟩ :=
  ⟨held_start t0 hbuf, by simp [threadStart, start, pushedSoFar]; rfl, by simp [threadStart, start]⟩

/-- **No request is turned away.** In every interleaving in which each final delay lasts thirty-two steps
    of the video thread, the stack never holds more than three boxes, every push of the main thread
    succeeds, and nothing is requested any more when the delay is over. -/
theorem stack_bounded (shiftClear : Bool) (t0 : BitVec 32) (screen : Screen)
    (hbuf : screen.stm32.buf.size = 0) (ks : List ThreadLabel)
    (hlong : AllSteps (sleptStep ⟨false, shiftClear⟩) SleepsLong ⟨threadStart t0 screen, 0⟩ ks) :
    AllStates (sleptStep ⟨false, shiftClear⟩) (fun t => t.threads.main.vbuf.updStack.size ≤ 3)
        ⟨threadStart t0 screen, 0⟩ ks
      ∧ AllSteps (sleptStep ⟨false, shiftClear⟩) (RequestKept ⟨false, shiftClear⟩)
        ⟨threadStart t0 screen, 0⟩ ks
      ∧ AllSteps (sleptStep ⟨false, shiftClear⟩) WakesDrained ⟨threadStart t0 screen, 0⟩ ks := by
  have hstart := frames_start t0 hbuf
  refine ⟨(AllStates.of_invariant Frames.step hstart hlong).mono fun t h => ?_,
    AllSteps.of_invariant Frames.step (fun t k h _ => ?_) hstart hlong,
    AllSteps.of_invariant Frames.step (fun t k h hk => h.wakes hk) hstart hlong⟩
  · exact le_trans h.room (pushedSoFar_le _)
  · cases k with
    | video => trivial
    | main env =>
        intro _
        have hsize := le_trans h.room (pushedSoFar_le _)
        exact pushSucceeds_iff.2 fun _ => lt_of_le_of_lt hsize (by decide)

/-- The block falls in the first iteration, moves to the right and falls in the second, and each is drawn in
    its final delay. After thirty-three steps the video thread does not hold the mutex. -/
def fallThenMove : List ThreadLabel :=
  threadSteps 5 [] 1000 ++ List.replicate 33 .video ++ threadSteps 7 [.right] 2000
    ++ List.replicate 32 .video ++ threadSteps 1 [] 2000

theorem stack_bounded_fallThenMove :
    AllSteps (sleptStep ⟨false, true⟩) SleepsLong ⟨threadStart 0 .blank, 0⟩ fallThenMove
      ∧ AllStates (sleptStep ⟨false, true⟩) (fun t => t.threads.main.vbuf.updStack.size ≤ 3)
        ⟨threadStart 0 .blank, 0⟩ fallThenMove :=
  have hlong : AllSteps (sleptStep ⟨false, true⟩) SleepsLong ⟨threadStart 0 .blank, 0⟩ fallThenMove := by
    decide +kernel
  ⟨hlong, (stack_bounded true 0 .blank rfl fallThenMove hlong).1⟩

-- three boxes are on the stack when the second final delay begins
example : (exec (sleptStep ⟨false, true⟩) ⟨threadStart 0 .blank, 0⟩
    (fallThenMove.take 45)).threads.main.vbuf.updStack.size = 3 := by
  decide +kernel

end Katetris
