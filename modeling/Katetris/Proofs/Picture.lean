import Katetris.Proofs.Drain

set_option autoImplicit false

/-! # The picture on the panel

What the two threads are there for: whenever the main thread wakes up from the final delay of an iteration,
the panel shows the block, the locked cells and the score, and nothing else (`panel_shows_picture`). That
is for `SHIFT_CLEAR` on, and it takes three things. Each final delay lasts long enough for the video
thread to do what is requested (`SleepsLong`). No pop begins between the push of a move and `vbuf_clear`,
when the move is requested but not painted (`PopsEarly`). No lock at the floor leaves stale pixels behind
(`LocksOverStale`).

While the main thread is awake its own state keeps the handshake of the machine with a one-step `draw`. In
the final delay it does not, for the boxes are popped one by one, and what holds there is that each pixel
is requested or right. The delay empties the stack, and so brings the handshake back. -/

namespace Katetris

open Lib

/-! ## What must not happen -/

/-- A pop begins while the next picture is requested but not painted. -/
def PopsEarly (t : Threads) : ThreadLabel → Prop
  | .main _ => False
  | .video => t.video = .pop ∧ (t.main.pc = .loopDelay ∨ (t.main.pc = .floorTest ∧ ¬atFloor t.main))

instance (t : Threads) : (k : ThreadLabel) → Decidable (PopsEarly t k)
  | .main _ => inferInstanceAs (Decidable False)
  | .video => inferInstanceAs (Decidable (_ ∧ (_ ∨ (_ ∧ _))))

/-- The main thread takes the `goto` of the floor test over stale pixels. -/
def LocksStale (t : Threads) : ThreadLabel → Prop
  | .main env => LocksOverStale t.main (.main env)
  | .video => False

instance (t : Threads) : (k : ThreadLabel) → Decidable (LocksStale t k)
  | .main env => inferInstanceAs (Decidable (LocksOverStale t.main (.main env)))
  | .video => inferInstanceAs (Decidable False)

/-- The panel shows the picture of the iteration that is over. -/
def PanelShows (t : Slept) : ThreadLabel → Prop
  | .main _ => t.threads.main.pc = .delay → ∀ p q, p < 240 → q < 240 →
      t.threads.main.screen.stm32.panel.pixel p q
        = if Shows t.threads.main.blk t.threads.main.grid t.threads.main.score p q then 0xFFFF else 0x0000
  | .video => True

/-! ## What a step of the video thread leaves alone -/

theorem FrameSoFar.thdVideo {t : Threads} (h : FrameSoFar t.main) (cfg : Config) :
    FrameSoFar (thdVideo cfg t).main := by
  obtain ⟨stack, flag, screen, hmain, -⟩ := thdVideo_main cfg t
  rw [hmain]
  exact h

/-! ## Between the push of a move and `vbuf_clear` -/

/-- The buffer has the last picture, which the panel shows up to what is requested, and the picture to
    come is requested where it differs. -/
def Behind (s : Main) : Prop :=
  (s.vbuf.clearFlag = true ∨ Synced s.vbuf s.screen) ∧ FrameAhead s.vbuf s.blk s.grid s.score

/-- The buffer still has the last picture. -/
def Pc.Unpainted (pc : Pc) : Prop := pc = .loop ∨ pc = .loopDelay ∨ pc = .floorTest

/-- The video thread has no box in hand and is not about to get one. -/
def VideoPc.EmptyHanded (v : VideoPc) : Prop := ¬v.InPop ∧ v.inFlight = []

theorem Drained.emptyHanded {t : Threads} (h : Drained t) (hheld : Held t) : t.video.EmptyHanded := by
  refine ⟨fun hin => ?_, h.inFlight⟩
  have hvideo := hheld.video
  have hflight := h.inFlight
  cases hv : t.video <;> simp only [hv, VideoPc.InPop, VideoPc.inFlight] at hin hflight
  case popSize size =>
      simp only [VideoSoFar, hv, BBoxStack.size, h.stack, List.length_nil] at hvideo
      omega
  case popCopy => exact absurd hflight (by simp)

/-- A redraw of the whole screen shows the last picture and leaves the requests on the stack, and a `draw`
    of the stack gets as far as the first pop. -/
theorem Behind.thdVideo {t : Threads} (h : Behind t.main) (hheld : Held t) (hpop : t.video ≠ .pop)
    (hempty : t.video.EmptyHanded) :
    Behind (thdVideo stm32Config t).main ∧ (Katetris.thdVideo stm32Config t).video.EmptyHanded := by
  obtain ⟨hin, hflight⟩ := hempty
  apply thdVideo_cases (motive := fun t' => Behind t'.main ∧ t'.video.EmptyHanded) hheld.video hheld.bus
  case sendAll => exact fun _ hflag _ _ _ => ⟨⟨Or.inl hflag, h.2⟩, not_false, rfl⟩
  case reset =>
      intro _ hshown
      exact ⟨⟨Or.inr fun p q hp hq => Or.inl (hshown p q hp hq), h.2⟩, not_false, rfl⟩
  case pop => exact fun hv _ _ => absurd hv hpop
  case popSize =>
      intro size hv _ _ _
      simp [hv, VideoPc.InPop] at hin
  case popCopy =>
      intro i gone box k hv _ _ _
      simp [hv, VideoPc.InPop] at hin
  case popped =>
      intro i gone box hv _ _
      simp [hv, VideoPc.InPop] at hin
  case sendBox =>
      intro box hv _ _ _ _ _
      simp [hv, VideoPc.inFlight] at hflight
  all_goals
    intros
    exact ⟨h, not_false, rfl⟩

theorem pending_or_shown_of_synced {t : Threads}
    (h : t.main.vbuf.clearFlag = true ∨ Synced t.main.vbuf t.main.screen) {p q : Nat} (hp : p < 240)
    (hq : q < 240) : Pending t p q ∨ Shown t p q := by
  rcases h with hflag | hsynced
  · exact Or.inl (Or.inl hflag)
  · rcases hsynced p q hp hq with hshown | ⟨box, hmem, hcovers⟩
    · exact Or.inr hshown
    · exact Or.inl (Or.inr ⟨box, List.mem_append_right _ hmem, hcovers⟩)

theorem Behind.syncSoFar {s : Main} (h : Behind s) (hpc : s.pc = .loopDelay ∨ s.pc = .floorTest) :
    SyncSoFar s := by
  rcases hpc with hpc | hpc <;> simp only [SyncSoFar, hpc]
  · exact h
  · exact h.1.imp_right fun hsynced => hsynced.announced h.2

/-! ## Along a run -/

/-- What holds of the panel where the two threads stand. -/
structure OnPanel (t : Slept) : Prop where
  frames : Frames t
  untorn : Untorn t.threads
  frame : FrameSoFar t.threads.main
  /-- past `vbuf_clear` and `vbuf_set_flag` the mutex is free -/
  free : t.threads.video ≠ .asleep → t.threads.main.pc ≠ .gravity ∧ t.threads.main.pc ≠ .collides
    ∧ t.threads.main.pc ≠ .paint
  awake : t.threads.main.pc ≠ .delay → SyncSoFar t.threads.main
  settles : t.threads.main.pc = .delay →
    ∀ p q, p < 240 → q < 240 → Pending t.threads p q ∨ Shown t.threads p q
  behind : t.threads.video ≠ .asleep → t.threads.main.pc.Unpainted →
    Behind t.threads.main ∧ t.threads.video.EmptyHanded

/-- When the final delay is over, every pixel is right. -/
theorem OnPanel.shown {t : Slept} (h : OnPanel t) {env : Env} (hk : SleepsLong t (.main env))
    (hpc : t.threads.main.pc = .delay) {p q : Nat} (hp : p < 240) (hq : q < 240) :
    Shown t.threads p q := by
  have hdrained : Drained t.threads := h.frames.wakes hk hpc
  exact (h.settles hpc p q hp hq).resolve_left (hdrained.not_pending p q)

/-- All that is pushed before the score box are strips. -/
theorem pushedSoFar_eq {pc : Pc} (hpresent : pc ≠ .present) (hdelay : pc ≠ .delay) :
    pushedSoFar pc = stripsSoFar pc := by
  cases pc <;> first | rfl | contradiction

/-- Whenever the main thread takes a step, its state keeps the handshake. -/
theorem OnPanel.handshake {t : Slept} (h : OnPanel t) {env : Env} (hk : SleepsLong t (.main env)) :
    Handshake t.threads.main := by
  by_cases hpc : t.threads.main.pc = .delay
  · have hdrained : Drained t.threads := h.frames.wakes hk hpc
    refine ⟨h.frames.held.bus, h.frame, Or.inr ?_, ?_⟩
    · rw [BBoxStack.size, hdrained.stack]
      exact Nat.zero_le _
    · simp only [SyncSoFar, hpc]
      exact Or.inr fun p q hp hq => Or.inl (h.shown hk hpc hp hq)
  · have hsync := h.awake hpc
    have hpresent : t.threads.main.pc ≠ .present := by
      intro hat
      simp [SyncSoFar, hat] at hsync
    refine ⟨h.frames.held.bus, h.frame, Or.inr ?_, hsync⟩
    rw [← pushedSoFar_eq hpresent hpc]
    exact h.frames.room

/-- There is always room for a strip. -/
theorem OnPanel.accepts {t : Slept} (h : OnPanel t) (box : BBox) : t.threads.main.vbuf.Accepts box :=
  Or.inl (lt_of_le_of_lt (le_trans h.frames.room (pushedSoFar_le _)) (by decide))

theorem OnPanel.not_dropsStrip {t : Slept} (h : OnPanel t) (l : Label) :
    ¬DropsStrip t.threads.main l := by
  cases l with
  | video => exact not_false
  | main env =>
      rintro (⟨-, -, hfull⟩ | ⟨-, -, -, hfull⟩)
      · exact hfull (h.accepts _)
      · exact hfull (h.accepts _)

/-! ### Steps of the main thread -/

theorem OnPanel.free_mainStep {t : Slept} (h : OnPanel t) (env : Env)
    (hfree : ¬t.threads.Waits stm32Config) (hheld : t.threads.video ≠ .asleep) :
    (mainStep stm32Config t.threads.main env).pc ≠ .gravity
      ∧ (mainStep stm32Config t.threads.main env).pc ≠ .collides
      ∧ (mainStep stm32Config t.threads.main env).pc ≠ .paint := by
  have hpast := h.free hheld
  apply step_cases (motive := fun s' => s'.pc ≠ .gravity ∧ s'.pc ≠ .collides ∧ s'.pc ≠ .paint)
    stm32Config t.threads.main (.main env)
  case floorMiss =>
      intro env' _ hpc hfloor
      exact absurd ⟨hheld, Or.inl ⟨hpc, hfloor⟩⟩ hfree
  case fall | stay =>
      intro env' _ hpc _
      exact absurd hpc hpast.1
  case miss =>
      intro env' _ hpc _
      exact absurd hpc hpast.2.1
  case clear =>
      intro env' _ hpc
      exact absurd ⟨hheld, Or.inr (Or.inl ⟨hpc, rfl⟩)⟩ hfree
  case video => exact fun hlabel => absurd hlabel (by simp)
  case quiet => exact fun hlabel => absurd hlabel (by simp)
  all_goals
    intros
    simp [stm32Config]

theorem OnPanel.behind_mainStep {t : Slept} (h : OnPanel t) {env : Env} (hk : SleepsLong t (.main env))
    (hsync : SyncSoFar (mainStep stm32Config t.threads.main env)) (hheld : t.threads.video ≠ .asleep) :
    (mainStep stm32Config t.threads.main env).pc.Unpainted →
      Behind (mainStep stm32Config t.threads.main env) ∧ t.threads.video.EmptyHanded := by
  revert hsync
  apply step_cases (motive := fun s' => SyncSoFar s' → s'.pc.Unpainted →
    Behind s' ∧ t.threads.video.EmptyHanded) stm32Config t.threads.main (.main env)
  case moved =>
      intro env' _ hpc _ hsync _
      exact ⟨hsync, (h.behind hheld (Or.inl hpc)).2⟩
  case idle =>
      intro env' _ hpc hidle _ _
      rw [buttonsDoAction_idle t.threads.main.blk env'.buttons hidle]
      exact h.behind hheld (Or.inl hpc)
  case wake =>
      intro env' _ hpc _ _
      exact h.behind hheld (Or.inr (Or.inl hpc))
  case again =>
      intro env' _ hpc _ _
      have hframe := h.frame
      simp only [FrameSoFar, hpc] at hframe
      refine ⟨⟨Or.inr fun p q hp hq => Or.inl (h.shown hk hpc hp hq), hframe.ahead⟩, ?_⟩
      have hdrained : Drained t.threads := h.frames.wakes hk hpc
      exact hdrained.emptyHanded h.frames.held
  case video => exact fun hlabel => absurd hlabel (by simp)
  case quiet => exact fun hlabel => absurd hlabel (by simp)
  all_goals
    intros
    simp_all [Pc.Unpainted, stm32Config]

/-- When the main thread pushes a move, no pop is under way. -/
theorem OnPanel.not_pushesInPop {t : Slept} (h : OnPanel t) (env : Env) :
    ¬PushesInPop t.threads (.main env) := by
  rintro ⟨hin, hpc, -⟩
  have hheld : t.threads.video ≠ .asleep := by
    intro hasleep
    simp [hasleep, VideoPc.InPop] at hin
  exact (h.behind hheld (Or.inl hpc)).2.1 hin

theorem OnPanel.main {t : Slept} (h : OnPanel t) {env : Env} (hk : SleepsLong t (.main env))
    (hlock : ¬LocksStale t.threads (.main env)) : OnPanel (sleptStep stm32Config t (.main env)) := by
  have hframes : Frames (sleptStep stm32Config t (.main env)) := h.frames.step t (.main env) hk
  by_cases hwaits : t.threads.Waits stm32Config
  · have hstill : (sleptStep stm32Config t (.main env)).threads = t.threads := by
      rw [sleptStep, threadStep, if_pos hwaits]
    refine ⟨hframes, ?_, ?_, ?_, ?_, ?_, ?_⟩ <;> rw [hstill]
    exacts [h.untorn, h.frame, h.free, h.awake, h.settles, h.behind]
  · have hhand : Handshake (mainStep stm32Config t.threads.main env) :=
      (h.handshake hk).step t.threads.main (.main env) ⟨not_false, h.not_dropsStrip _, hlock⟩
    have huntorn : Untorn { t.threads with main := mainStep stm32Config t.threads.main env } :=
      h.untorn.main h.frames.held hwaits (h.not_pushesInPop env)
    have hnext : (sleptStep stm32Config t (.main env)).threads
        = { t.threads with main := mainStep stm32Config t.threads.main env } := by
      rw [sleptStep, threadStep, if_neg hwaits]
    refine ⟨hframes, ?_, ?_, ?_, ?_, ?_, ?_⟩ <;> rw [hnext]
    · exact huntorn
    · exact hhand.frame
    · exact h.free_mainStep env hwaits
    · exact fun _ => hhand.sync
    · intro (hpc : (mainStep stm32Config t.threads.main env).pc = .delay) p q hp hq
      have hsync := hhand.sync
      simp only [SyncSoFar, hpc] at hsync
      exact pending_or_shown_of_synced hsync hp hq
    · exact h.behind_mainStep hk hhand.sync

/-! ### Steps of the video thread -/

/-- Outside the final delay the video thread runs in the delay of `loop_stm32`, and while the main thread
    waits in front of `vbuf_clear` or of `vbuf_set_flag`. -/
theorem OnPanel.runs {t : Slept} (h : OnPanel t)
    (hruns : t.threads.main.Sleeps ∨ t.threads.Waits stm32Config) (hpc : t.threads.main.pc ≠ .delay) :
    t.threads.main.pc = .loopDelay
      ∨ (t.threads.main.pc = .floorTest ∧ ¬atFloor t.threads.main ∧ t.threads.video ≠ .asleep)
      ∨ t.threads.main.pc = .clearRows := by
  rcases hruns with (hloop | hdelay) | ⟨hheld, hfloor | hclear | hpaint⟩
  · exact Or.inl hloop
  · exact absurd hdelay hpc
  · exact Or.inr (Or.inl ⟨hfloor.1, hfloor.2, hheld⟩)
  · exact Or.inr (Or.inr hclear.1)
  · exact absurd hpaint (h.free hheld).2.2

theorem OnPanel.behind_thdVideo {t : Slept} (h : OnPanel t)
    (hruns : t.threads.main.Sleeps ∨ t.threads.Waits stm32Config) (hpop : ¬PopsEarly t.threads .video)
    (hpc : t.threads.main.pc.Unpainted) :
    (t.threads.main.pc = .loopDelay ∨ t.threads.main.pc = .floorTest)
      ∧ Behind (thdVideo stm32Config t.threads).main
      ∧ (thdVideo stm32Config t.threads).video.EmptyHanded := by
  have hnot : t.threads.main.pc ≠ .delay := by
    rcases hpc with hpc | hpc | hpc <;> simp [hpc]
  have hearly : t.threads.main.pc = .loopDelay
      ∨ (t.threads.main.pc = .floorTest ∧ ¬atFloor t.threads.main ∧ t.threads.video ≠ .asleep) := by
    rcases h.runs hruns hnot with hat | hat | hat
    · exact Or.inl hat
    · exact Or.inr hat
    · rcases hpc with hpc | hpc | hpc <;> simp [hat] at hpc
  have hbehind : Behind t.threads.main ∧ t.threads.video.EmptyHanded := by
    by_cases hasleep : t.threads.video = .asleep
    · rcases hearly with hat | ⟨-, -, hheld⟩
      · have hsync := h.awake hnot
        simp only [SyncSoFar, hat] at hsync
        rw [hasleep]
        exact ⟨hsync, not_false, rfl⟩
      · exact absurd hasleep hheld
    · exact h.behind hasleep hpc
  have hkeeps : t.threads.video ≠ .pop := by
    intro hvideo
    exact hpop ⟨hvideo, hearly.imp_right fun hat => ⟨hat.1, hat.2.1⟩⟩
  exact ⟨hearly.imp_right And.left, hbehind.1.thdVideo h.frames.held hkeeps hbehind.2⟩

theorem OnPanel.video {t : Slept} (h : OnPanel t) (hpop : ¬PopsEarly t.threads .video) :
    OnPanel (sleptStep stm32Config t .video) := by
  have hframes : Frames (sleptStep stm32Config t .video) := h.frames.step t .video trivial
  by_cases hruns : t.threads.main.Sleeps ∨ t.threads.Waits stm32Config
  · have hnext : (sleptStep stm32Config t .video).threads = thdVideo stm32Config t.threads := by
      rw [sleptStep, threadStep, if_pos hruns]
    have hpc := thdVideo_pc stm32Config t.threads
    have hheld := h.frames.held
    refine ⟨hframes, ?_, ?_, ?_, ?_, ?_, ?_⟩ <;> rw [hnext] <;> (try rw [hpc])
    · exact h.untorn.thdVideo hheld.video hheld.bus
    · exact h.frame.thdVideo stm32Config
    · intro _
      by_cases hdelay : t.threads.main.pc = .delay
      · simp [hdelay]
      · rcases h.runs hruns hdelay with hat | ⟨hat, -⟩ | hat <;> simp [hat]
    · intro hdelay
      rcases h.runs hruns hdelay with hat | ⟨hat, -⟩ | hat
      · obtain ⟨hat', hbehind, -⟩ := h.behind_thdVideo hruns hpop (Or.inr (Or.inl hat))
        exact hbehind.syncSoFar (by rw [hpc]; exact hat')
      · obtain ⟨hat', hbehind, -⟩ := h.behind_thdVideo hruns hpop (Or.inr (Or.inr hat))
        exact hbehind.syncSoFar (by rw [hpc]; exact hat')
      · -- a redraw of the whole screen is about to be requested
        simp only [SyncSoFar, hpc, hat]
    · intro hdelay p q hp hq
      exact hheld.pending_or_shown_thdVideo h.untorn hp hq (h.settles hdelay p q hp hq)
    · intro _ hunpainted
      exact (h.behind_thdVideo hruns hpop hunpainted).2
  · have hstill : (sleptStep stm32Config t .video).threads = t.threads := by
      rw [sleptStep, threadStep, if_neg hruns]
    refine ⟨hframes, ?_, ?_, ?_, ?_, ?_, ?_⟩ <;> rw [hstill]
    exacts [h.untorn, h.frame, h.free, h.awake, h.settles, h.behind]

theorem OnPanel.step (t : Slept) (k : ThreadLabel) (h : OnPanel t)
    (hk : SleepsLong t k ∧ ¬PopsEarly t.threads k ∧ ¬LocksStale t.threads k) :
    OnPanel (sleptStep stm32Config t k) := by
  cases k with
  | main env => exact h.main hk.1 hk.2.2
  | video => exact h.video hk.2.1

theorem onPanel_start (t0 : BitVec 32) {screen : Screen} (hbuf : screen.stm32.buf.size = 0) :
    OnPanel ⟨threadStart t0 screen, 0⟩ := by
  have hhand := handshake_start t0 hbuf
  have hasleep : (threadStart t0 screen).video = .asleep := rfl
  have hpc : (threadStart t0 screen).main.pc = .loop := rfl
  exact ⟨frames_start t0 hbuf, trivial, hhand.frame, fun hheld => absurd hasleep hheld,
    fun _ => hhand.sync, fun hdelay => absurd (hpc.symm.trans hdelay) (by simp),
    fun hheld => absurd hasleep hheld⟩

/-- **The panel shows the game.** With `SHIFT_CLEAR` on, in every interleaving in which each final delay
    lasts thirty-two steps of the video thread, no pop begins before what it announces is painted and no
    lock at the floor leaves stale pixels: whenever a final delay is over, a pixel of the panel is on exactly
    if it belongs to the block, to a locked cell or to a digit of the score. -/
theorem panel_shows_picture (t0 : BitVec 32) (screen : Screen) (hbuf : screen.stm32.buf.size = 0)
    (ks : List ThreadLabel)
    (hks : AllSteps (sleptStep stm32Config)
      (fun t k => SleepsLong t k ∧ ¬PopsEarly t.threads k ∧ ¬LocksStale t.threads k)
      ⟨threadStart t0 screen, 0⟩ ks) :
    AllSteps (sleptStep stm32Config) PanelShows ⟨threadStart t0 screen, 0⟩ ks := by
  refine AllSteps.of_invariant OnPanel.step (fun t k h hk => ?_) (onPanel_start t0 hbuf) hks
  cases k with
  | video => trivial
  | main env =>
      intro hpc p q hp hq
      have hframe := h.frame
      simp only [FrameSoFar, hpc] at hframe
      exact (h.shown hk.1 hpc hp hq).trans (if_congr (hframe p q hp hq) rfl rfl)

theorem panel_shows_picture_fallThenMove :
    AllSteps (sleptStep stm32Config) PanelShows ⟨threadStart 0 .blank, 0⟩ fallThenMove :=
  panel_shows_picture 0 .blank rfl fallThenMove (by decide +kernel)

end Katetris
