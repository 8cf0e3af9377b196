import Katetris.Board
import Katetris.Proofs.Video
import Katetris.Proofs.Debounce

set_option autoImplicit false

/-! # From the pins to the game

The interrupts touch nothing but their own line, so each line goes through the states it would go through
alone and the threads through a run of theirs in which the buttons are what was read
(`board_refines`). The five reads of a call are no snapshot: a line can change between the read of its
state and the call of `buttons_do_action`. But a level that lasts is acted on. If every edge comes
while its line has events enabled, the stored states are the pin levels; then, over any stretch in which
a pin keeps its level, at most one call acts on another one, and once the main thread has taken nineteen
steps a call has acted on this one (`level_acted`): at most five steps of a call that read the state
before, eight until the next call and six in it. -/

namespace Katetris

open Lib

/-! ## What a step of the board can do -/

/-- **Everything a step of the board can do.** -/
theorem boardStep_cases {motive : Board → Prop} (cfg : Config) (t : Board) (l : BoardLabel)
    (read : ∀ env b, l = .main env → t.threads.main.pc = .loop → buttons[t.i]? = some b →
      motive { t with states := Function.update t.states b (t.lines b).state, i := t.i + 1 })
    (call : ∀ env, l = .main env → t.threads.main.pc = .loop → buttons[t.i]? = none →
      motive { t with
        threads := { t.threads with main := hwLoop cfg t.threads.main t.states }
        i := 0 })
    (other : ∀ env, l = .main env → t.threads.main.pc ≠ .loop → ¬t.threads.Waits cfg →
      motive { t with threads := { t.threads with main := mainStep cfg t.threads.main env } })
    (held : ∀ env, l = .main env → t.threads.Waits cfg → motive t)
    (video : l = .video → motive { t with threads := threadStep cfg t.threads .video })
    (line : ∀ b e, l = .line b e →
      motive { t with lines := Function.update t.lines b (lineStep (t.lines b) e) }) :
    motive (boardStep cfg t l) := by
  cases l with
  | video => exact video rfl
  | line b e => exact line b e rfl
  | main env =>
      by_cases hpc : t.threads.main.pc = .loop
      · have hfree : ¬t.threads.Waits cfg := by simp [Threads.Waits, TakesMutex, hpc]
        rw [boardStep, if_pos hpc, loopStm32]
        cases hb : buttons[t.i]? with
        | some b => exact read env b rfl hpc hb
        | none =>
            have hcall := call env rfl hpc hb
            rw [threadStep, if_neg hfree]
            simpa only [mainStep, hpc] using hcall
      · rw [boardStep, if_neg hpc, threadStep]
        split_ifs with hwaits
        · exact held env rfl hwaits
        · exact other env rfl hpc hwaits

/-! ## The lines and the threads by themselves -/

/-- The events of line `b`. -/
def Board.lineEvents (b : Button) (_ : Board) : BoardLabel → List LineEvent
  | .line b' e => if b' = b then [e] else []
  | _ => []

/-- The steps of the threads: a call of `loop_stm32` is one step, with the states it has read. -/
def Board.threadLabels (t : Board) : BoardLabel → List ThreadLabel
  | .main env =>
      if t.threads.main.pc = .loop then
        match buttons[t.i]? with
        | some _ => []
        | none => [.main { env with buttons := t.states }]
      else [.main env]
  | .video => [.video]
  | .line _ _ => []

theorem boardStep_lines (cfg : Config) (b : Button) (t : Board) (l : BoardLabel) :
    (boardStep cfg t l).lines b = exec lineStep (t.lines b) (t.lineEvents b l) := by
  cases l with
  | video => rfl
  | line b' e =>
      by_cases hb : b' = b
      · subst hb
        simp [boardStep, Board.lineEvents]
      · simp [boardStep, Board.lineEvents, hb, Function.update_of_ne (Ne.symm hb)]
  | main env =>
      simp only [boardStep, loopStm32, Board.lineEvents]
      split_ifs
      · split <;> rfl
      · rfl

theorem boardStep_threads (cfg : Config) (t : Board) (l : BoardLabel) :
    (boardStep cfg t l).threads = exec (threadStep cfg) t.threads (t.threadLabels l) := by
  cases l with
  | video => rfl
  | line b e => rfl
  | main env =>
      simp only [boardStep, loopStm32, Board.threadLabels]
      split_ifs
      · cases buttons[t.i]? <;> rfl
      · rfl

/-- What a step of the board gives to the game: a call of `buttons_do_action` gets the states read. -/
def Board.inputs (t : Board) : BoardLabel → List Input
  | .main env =>
      if t.threads.main.pc = .loop then
        match buttons[t.i]? with
        | some _ => []
        | none => [.buttons t.states]
      else t.threads.main.reads (.main env)
  | _ => []

theorem boardStep_inputs (cfg : Config) (t : Board) (l : BoardLabel) :
    projected (threadStep cfg) Threads.reads t.threads (t.threadLabels l) = t.inputs l := by
  cases l with
  | video => rfl
  | line b e => rfl
  | main env =>
      simp only [Board.threadLabels, Board.inputs]
      split_ifs with hpc
      · cases buttons[t.i]? with
        | some b => rfl
        | none => simp [projected, Threads.reads, Main.reads, hpc]
      · exact List.append_nil _

/-- **The board refines the game loop.** In every interleaving of edges, expiries and the two threads,
    the game is where the game loop gets to with the same clock readings and the buttons that were read.
    The whole state is, up to the bus, when the video thread does not hold the mutex and no push has fallen
    into a pop. Each line is in step with its pin, whenever its events are enabled, exactly if each of its
    own blind windows loses an even number of edges. -/
theorem board_refines (shiftClear : Bool) (t0 : BitVec 32) (screen : Screen)
    (hbuf : screen.stm32.buf.size = 0) (ls : List BoardLabel) :
    (exec (boardStep ⟨false, shiftClear⟩) (boardStart t0 screen) ls).threads
        = exec (threadStep ⟨false, shiftClear⟩) (threadStart t0 screen)
          (projected (boardStep ⟨false, shiftClear⟩) Board.threadLabels (boardStart t0 screen) ls)
    ∧ (∃ ms, (start t0 screen).readings ⟨false, shiftClear⟩ ms
          = projected (boardStep ⟨false, shiftClear⟩) Board.inputs (boardStart t0 screen) ls
        ∧ SameGame (exec (boardStep ⟨false, shiftClear⟩) (boardStart t0 screen) ls).threads.main
          (exec (step ⟨false, shiftClear⟩) (start t0 screen) ms)
        ∧ (AllSteps (threadStep ⟨false, shiftClear⟩) (fun t k => ¬PushesInPop t k) (threadStart t0 screen)
            (projected (boardStep ⟨false, shiftClear⟩) Board.threadLabels (boardStart t0 screen) ls) →
          (exec (boardStep ⟨false, shiftClear⟩) (boardStart t0 screen) ls).threads.video = .asleep →
          SameButBus (exec (boardStep ⟨false, shiftClear⟩) (boardStart t0 screen) ls).threads.main
            (exec (step ⟨false, shiftClear⟩) (start t0 screen) ms)))
    ∧ ∀ b, AllStates (boardStep ⟨false, shiftClear⟩) (fun t => FollowsPin (t.lines b))
          (boardStart t0 screen) ls ↔
        EvenWindows 0
          (projected (boardStep ⟨false, shiftClear⟩) (Board.lineEvents b) (boardStart t0 screen) ls) := by
  have hthreads : (exec (boardStep ⟨false, shiftClear⟩) (boardStart t0 screen) ls).threads = _ :=
    exec_projected (boardStep_threads ⟨false, shiftClear⟩) (boardStart t0 screen) ls
  refine ⟨hthreads, ?_, fun b => ?_⟩
  · obtain ⟨ms, h⟩ := exists_standsFor shiftClear t0 hbuf
      (projected (boardStep ⟨false, shiftClear⟩) Board.threadLabels (boardStart t0 screen) ls)
    have hinputs := projected_projected (π := Board.threads) (boardStep_threads ⟨false, shiftClear⟩)
      (boardStep_inputs ⟨false, shiftClear⟩) (boardStart t0 screen) ls
    rw [hthreads]
    exact ⟨ms, h.reads.trans hinputs, h.game, h.rest⟩
  · have hone : ∀ (t : Board) l, (t.lineEvents b l).length ≤ 1 := by
      intro t l
      cases l <;> simp only [Board.lineEvents] <;> (try split_ifs) <;> simp
    rw [allStates_projected (π := fun t : Board => t.lines b)
      (boardStep_lines ⟨false, shiftClear⟩ b) hone]
    exact followsPin_run _ 0 lineInit ⟨rfl, rfl, by simp [lineInit]⟩

/-- The main thread on the board, with the clock at zero. -/
def boardSteps (n : Nat) : List BoardLabel :=
  List.replicate n (.main ⟨ButtonStates.none, 0, fun _ => 0⟩)

/-- RIGHT is pressed, one call reads it, and it is let go after the blind window. -/
def tapRight : List BoardLabel :=
  [.line .right .edge] ++ boardSteps 6 ++ [.line .right .expire, .line .right .edge, .line .right .expire]

theorem board_refines_tapRight :
    (exec (boardStep ⟨false, true⟩) (boardStart 0 .blank) tapRight).threads.main.blk.y = 1
      ∧ (∃ ms, SameGame (exec (boardStep ⟨false, true⟩) (boardStart 0 .blank) tapRight).threads.main
            (exec (step ⟨false, true⟩) (start 0 .blank) ms)
          ∧ SameButBus (exec (boardStep ⟨false, true⟩) (boardStart 0 .blank) tapRight).threads.main
            (exec (step ⟨false, true⟩) (start 0 .blank) ms))
      ∧ AllStates (boardStep ⟨false, true⟩) (fun t => FollowsPin (t.lines .right)) (boardStart 0 .blank)
          tapRight := by
  obtain ⟨-, ⟨ms, -, hgame, hsame⟩, hfollows⟩ := board_refines true 0 .blank rfl tapRight
  have hevents : projected (boardStep ⟨false, true⟩) (Board.lineEvents .right) (boardStart 0 .blank) tapRight
      = [.edge, .expire, .edge, .expire] := by
    decide +kernel
  refine ⟨by decide +kernel, ⟨ms, hgame, hsame (by decide +kernel) (by decide +kernel)⟩,
    (hfollows .right).2 ?_⟩
  rw [hevents]
  simp [EvenWindows]

/-! ## Clean edges -/

/-- An edge comes while its line has events enabled. -/
def CleanEdge (t : Board) : BoardLabel → Prop
  | .line b .edge => (t.lines b).enabled = true
  | _ => True

instance (t : Board) : (l : BoardLabel) → Decidable (CleanEdge t l)
  | .line _ .edge => inferInstanceAs (Decidable (_ = _))
  | .line _ .expire => inferInstanceAs (Decidable True)
  | .main _ => inferInstanceAs (Decidable True)
  | .video => inferInstanceAs (Decidable True)

/-- The stored states are the pin levels, whether events are enabled or not. -/
def StatesAreLevels (t : Board) : Prop := ∀ b, (t.lines b).state = (t.lines b).level

theorem lineStep_state {line : ButtonLine} (h : line.state = line.level) {e : LineEvent}
    (hclean : e = .edge → line.enabled = true) : (lineStep line e).state = (lineStep line e).level := by
  cases e with
  | edge => simp [lineStep, buttonCb, hclean rfl, h]
  | expire =>
      simp only [lineStep, vtCb]
      split_ifs <;> exact h

theorem StatesAreLevels.step (cfg : Config) (t : Board) (l : BoardLabel) (h : StatesAreLevels t)
    (hclean : CleanEdge t l) : StatesAreLevels (boardStep cfg t l) := by
  intro b
  rw [boardStep_lines]
  cases l with
  | main env => exact h b
  | video => exact h b
  | line b' e =>
      rw [Board.lineEvents]
      split_ifs with hb
      · subst hb
        refine lineStep_state (h b') fun hedge => ?_
        subst hedge
        exact hclean
      · exact h b

/-! ## The reads of a call -/

/-- The values of `button_e`. -/
def Button.index : Button → Nat
  | .left => 0
  | .up => 1
  | .down => 2
  | .right => 3
  | .enter => 4

theorem getElem?_buttons {i : Nat} {b : Button} : buttons[i]? = some b ↔ i = b.index := by
  rcases i with _ | _ | _ | _ | _ | i <;> cases b <;> simp [buttons, Button.index]

theorem getElem?_buttons_none {i : Nat} : buttons[i]? = none ↔ 5 ≤ i := by
  simp [buttons]

/-- The state of `b` that this call will act on is `v`, or has not been read yet. -/
def Fresh (b : Button) (v : Bool) (t : Board) : Prop := t.i ≤ b.index ∨ t.states b = v

instance (b : Button) (v : Bool) (t : Board) : Decidable (Fresh b v t) :=
  inferInstanceAs (Decidable (_ ∨ _))

/-- A call of `loop_stm32` gets to `buttons_do_action` with `v` for the state of `b`. -/
def ActsOn (b : Button) (v : Bool) (t : Board) : BoardLabel → Prop
  | .main _ => t.threads.main.pc = .loop ∧ t.i = 5 ∧ t.states b = v
  | _ => False

instance (b : Button) (v : Bool) (t : Board) : (l : BoardLabel) → Decidable (ActsOn b v t l)
  | .main _ => inferInstanceAs (Decidable (_ ∧ _ ∧ _))
  | .video => inferInstanceAs (Decidable False)
  | .line _ _ => inferInstanceAs (Decidable False)

/-- The main thread takes a step, and does not wait for the mutex. -/
def MainRuns (cfg : Config) (t : Board) : BoardLabel → Prop
  | .main _ => ¬t.threads.Waits cfg
  | _ => False

instance (cfg : Config) (t : Board) : (l : BoardLabel) → Decidable (MainRuns cfg t l)
  | .main _ => inferInstanceAs (Decidable (¬_))
  | .video => inferInstanceAs (Decidable False)
  | .line _ _ => inferInstanceAs (Decidable False)

/-- The loop variable is that of a call, and zero outside. -/
structure Reading (t : Board) : Prop where
  i_le : t.i ≤ 5
  outside : t.threads.main.pc ≠ .loop → t.i = 0

/-- Steps of the main thread of the STM32 build from here to its next call of `hw->loop`. -/
def stepsToLoop : Pc → Nat
  | .loop => 0
  | .delay => 1
  | .paint | .present => 2
  | .clearRows => 3
  | .lock => 4
  | .collides => 5
  | .gravity => 6
  | .floorTest => 7
  | .loopDelay => 8

theorem stepsToLoop_mainStep {cfg : Config} (hsitl : cfg.sitl = false) {s : Main} (hpc : s.pc ≠ .loop)
    (env : Env) : stepsToLoop (mainStep cfg s env).pc + 1 ≤ stepsToLoop s.pc := by
  unfold mainStep
  cases hs : s.pc with
  | loop => exact absurd hs hpc
  | paint => simp [stepsToLoop, hsitl]
  | floorTest =>
      simp only
      split_ifs <;> simp [stepsToLoop]
  | gravity =>
      simp only
      split_ifs <;> simp [stepsToLoop]
  | collides =>
      simp only
      split_ifs <;> simp [stepsToLoop]
  | _ => simp [stepsToLoop]

theorem hwLoop_pc (cfg : Config) (s : Main) (pressed : ButtonStates) :
    (hwLoop cfg s pressed).pc = .floorTest ∨ (hwLoop cfg s pressed).pc = .loopDelay := by
  simp only [hwLoop]
  split_ifs <;> simp

theorem Reading.step (cfg : Config) (t : Board) (l : BoardLabel) (h : Reading t) :
    Reading (boardStep cfg t l) := by
  apply boardStep_cases cfg t l
  case read =>
      intro env b _ hpc hb
      have hindex : t.i < 5 := by
        by_contra hge
        rw [getElem?_buttons_none.2 (by omega)] at hb
        simp at hb
      exact ⟨by simpa using hindex, fun hne => absurd hpc hne⟩
  case call => exact fun _ _ _ _ => ⟨by simp, fun _ => rfl⟩
  case other =>
      intro env _ hpc _
      have hi := h.outside hpc
      exact ⟨h.i_le, fun _ => hi⟩
  case held => exact fun _ _ _ => h
  case video =>
      intro _
      refine ⟨h.i_le, fun hpc => h.outside ?_⟩
      rwa [threadStep_video_pc] at hpc
  case line => exact fun _ _ _ => ⟨h.i_le, h.outside⟩

/-- A call that has not read anything else yet goes on so as long as the line keeps its state, and the
    next call starts so. -/
def Board.Ready (b : Button) (v : Bool) (t : Board) : Prop := t.threads.main.pc = .loop → Fresh b v t

instance (b : Button) (v : Bool) (t : Board) : Decidable (t.Ready b v) :=
  inferInstanceAs (Decidable (_ → _))

theorem Fresh.read {b : Button} {v : Bool} {t : Board} (hstate : (t.lines b).state = v) {b' : Button}
    (hb : buttons[t.i]? = some b') (threads : Threads) (lines : Button → ButtonLine) :
    Fresh b v ⟨threads, lines, t.i + 1, Function.update t.states b' (t.lines b').state⟩ ↔
      Fresh b v t := by
  have hindex := getElem?_buttons.1 hb
  by_cases hbb : b = b'
  · subst hbb
    simp [Fresh, hstate, hindex]
  · have hne : t.i ≠ b.index := by
      intro heq
      rw [getElem?_buttons.2 heq] at hb
      exact hbb (Option.some.inj hb)
    simp only [Fresh, Function.update_of_ne hbb]
    refine or_congr_left ?_
    omega

theorem Board.Ready.step (cfg : Config) {b : Button} {v : Bool} {t : Board} (l : BoardLabel)
    (h : t.Ready b v) (hreading : Reading t) (hstate : (t.lines b).state = v) :
    (boardStep cfg t l).Ready b v := by
  apply boardStep_cases cfg t l
  case read => exact fun env b' _ hpc hb _ => (Fresh.read hstate hb _ _).2 (h hpc)
  case call => exact fun _ _ _ _ _ => Or.inl (Nat.zero_le _)
  case other =>
      intro env _ hpc _ _
      refine Or.inl ?_
      show t.i ≤ b.index
      rw [hreading.outside hpc]
      exact Nat.zero_le _
  case held => exact fun _ _ _ => h
  case video =>
      intro _ hpc
      rw [threadStep_video_pc] at hpc
      exact h hpc
  case line => exact fun _ _ _ => h

/-- Steps of the main thread up to and including a call that acts on `v`, if the line keeps that state. -/
def stepsToAct (b : Button) (v : Bool) (t : Board) : Nat :=
  if t.threads.main.pc = .loop then 6 - t.i + (if Fresh b v t then 0 else 14)
  else stepsToLoop t.threads.main.pc + 6

theorem stepsToAct_bounds (b : Button) (v : Bool) {t : Board} (h : Reading t) :
    1 ≤ stepsToAct b v t ∧ stepsToAct b v t ≤ 19 := by
  have hi := h.i_le
  unfold stepsToAct
  split_ifs with hpc hfresh
  · omega
  · have hread : ¬t.i ≤ b.index := fun hle => hfresh (Or.inl hle)
    omega
  · cases t.threads.main.pc <;> simp [stepsToLoop]

theorem ActsOn.hwLoop {b : Button} {v : Bool} {t : Board} {env : Env} (h : ActsOn b v t (.main env))
    (cfg : Config) :
    (boardStep cfg t (.main env)).threads.main = hwLoop cfg t.threads.main t.states := by
  obtain ⟨hpc, hi, -⟩ := h
  have hnone : buttons[t.i]? = none := getElem?_buttons_none.2 (by omega)
  have hfree : ¬t.threads.Waits cfg := by simp [Threads.Waits, TakesMutex, hpc]
  simp [boardStep, hpc, loopStm32, hnone, threadStep, hfree, mainStep]

/-- A step of the main thread that is not yet such a call is one less to it. -/
theorem stepsToAct_step (cfg : Config) (hsitl : cfg.sitl = false) {b : Button} {v : Bool} {t : Board}
    (l : BoardLabel) (h : Reading t) (hstate : (t.lines b).state = v) (hno : ¬ActsOn b v t l) :
    stepsToAct b v (boardStep cfg t l) + (if MainRuns cfg t l then 1 else 0) ≤ stepsToAct b v t := by
  have hi := h.i_le
  apply boardStep_cases (motive := fun t' => stepsToAct b v t' + (if MainRuns cfg t l then 1 else 0)
    ≤ stepsToAct b v t) cfg t l
  case read =>
      intro env b' hlabel hpc hb
      have hindex : t.i < 5 := by
        by_contra hge
        rw [getElem?_buttons_none.2 (by omega)] at hb
        simp at hb
      simp only [stepsToAct, hpc, if_true, Fresh.read hstate hb]
      split_ifs <;> omega
  case call =>
      intro env hlabel hpc hb
      subst hlabel
      have hi5 : t.i = 5 := by
        have hge := getElem?_buttons_none.1 hb
        omega
      -- the state was read before the line had this one
      have hstale : ¬Fresh b v t := by
        intro hfresh
        rcases hfresh with hle | hread
        · cases b <;> simp [Button.index] at hle <;> omega
        · exact hno ⟨hpc, hi5, hread⟩
      have hafter := hwLoop_pc cfg t.threads.main t.states
      have hone : (if MainRuns cfg t (.main env) then 1 else 0) ≤ 1 := by split_ifs <;> simp
      simp only [stepsToAct, hpc, hi5, hstale, if_true, if_false]
      rcases hafter with hpc' | hpc' <;> simp only [hpc', reduceCtorEq, if_false, stepsToLoop] <;> omega
  case other =>
      intro env hlabel hpc _
      have hsteps := stepsToLoop_mainStep hsitl hpc env
      have hi0 := h.outside hpc
      have hone : (if MainRuns cfg t l then 1 else 0) ≤ 1 := by split_ifs <;> simp
      simp only [stepsToAct, hpc, if_false, Fresh, hi0, Nat.zero_le, true_or, if_true]
      split_ifs <;> omega
  case held =>
      intro env hlabel hwaits
      subst hlabel
      have hno : ¬MainRuns cfg t (.main env) := fun hruns => hruns hwaits
      rw [if_neg hno]
      exact le_refl _
  case video =>
      intro hlabel
      subst hlabel
      simp only [stepsToAct, threadStep_video_pc, Fresh]
      exact le_refl _
  case line =>
      intro b' e hlabel
      subst hlabel
      exact le_refl _

/-! ## Along a run -/

/-- A call that acts on something else read it before the stretch. -/
theorem countSteps_actsOn_le {cfg : Config} {b : Button} {v : Bool} {t : Board} {ls : List BoardLabel}
    (h : Reading t) (hstate : AllSteps (boardStep cfg) (fun t _ => (t.lines b).state = v) t ls) :
    countSteps (boardStep cfg) (ActsOn b (!v)) t ls ≤ 1 := by
  suffices hrank : countSteps (boardStep cfg) (ActsOn b (!v)) t ls
      + (if (exec (boardStep cfg) t ls).Ready b v then 0 else 1) ≤ if t.Ready b v then 0 else 1 by
    split_ifs at hrank <;> omega
  refine countSteps_add_rank_le (I := Reading) (L := fun t _ => (t.lines b).state = v)
    (ρ := fun t => if t.Ready b v then 0 else 1) (fun t l h _ => h.step cfg t l) ?_ ?_ h hstate
  · intro t l h _ hacts
    cases l with
    | video => exact hacts.elim
    | line b' e => exact hacts.elim
    | main env =>
        have hstale : ¬t.Ready b v := by
          intro hready
          obtain ⟨hpc, hi, hread⟩ := hacts
          rcases hready hpc with hle | hread'
          · cases b <;> simp [Button.index] at hle <;> omega
          · rw [hread] at hread'
            simp at hread'
        have hleft : (boardStep cfg t (.main env)).Ready b v := by
          intro hpc
          rw [ActsOn.hwLoop hacts] at hpc
          rcases hwLoop_pc cfg t.threads.main t.states with hpc' | hpc' <;> simp [hpc'] at hpc
        simp [hstale, hleft]
  · intro t l h hstate _
    by_cases hready : t.Ready b v
    · simp [hready, hready.step cfg l h hstate]
    · simp only [hready, if_false]
      split_ifs <;> omega

/-- **A level that lasts is acted on.** In every interleaving in which each edge comes while its line has
    events enabled: over any stretch of the run in which the pin of `b` keeps its level, at most one call
    of `buttons_do_action` is given another one, and if the main thread takes nineteen steps in it, not
    counting those it waits for the mutex, one call is given this one. -/
theorem level_acted (shiftClear : Bool) (t0 : BitVec 32) (screen : Screen) (ls ls' : List BoardLabel)
    (hclean : AllSteps (boardStep ⟨false, shiftClear⟩) CleanEdge (boardStart t0 screen) (ls ++ ls'))
    (b : Button) (v : Bool)
    (hlevel : AllStates (boardStep ⟨false, shiftClear⟩) (fun t => (t.lines b).level = v)
      (exec (boardStep ⟨false, shiftClear⟩) (boardStart t0 screen) ls) ls') :
    countSteps (boardStep ⟨false, shiftClear⟩) (ActsOn b (!v))
        (exec (boardStep ⟨false, shiftClear⟩) (boardStart t0 screen) ls) ls' ≤ 1
    ∧ (19 ≤ countSteps (boardStep ⟨false, shiftClear⟩) (MainRuns ⟨false, shiftClear⟩)
          (exec (boardStep ⟨false, shiftClear⟩) (boardStart t0 screen) ls) ls' →
        ∃ ls₁ env ls₂ pressed, ls' = ls₁ ++ .main env :: ls₂ ∧ pressed b = v
          ∧ (exec (boardStep ⟨false, shiftClear⟩) (boardStart t0 screen)
              (ls ++ ls₁)).threads.main.pc = .loop
          ∧ (exec (boardStep ⟨false, shiftClear⟩) (boardStart t0 screen)
              (ls ++ ls₁ ++ [.main env])).threads.main
            = hwLoop ⟨false, shiftClear⟩ (exec (boardStep ⟨false, shiftClear⟩) (boardStart t0 screen)
                (ls ++ ls₁)).threads.main pressed) := by
  have hlevels := (AllStates.of_invariant (StatesAreLevels.step ⟨false, shiftClear⟩)
    (fun _ => rfl : StatesAreLevels (boardStart t0 screen)) hclean).append
  have hreading := (AllStates.of_invariant' (Reading.step ⟨false, shiftClear⟩)
    (⟨by simp [boardStart], by simp [boardStart, threadStart, start]⟩ : Reading (boardStart t0 screen))
    ls).last
  have hstate : AllSteps (boardStep ⟨false, shiftClear⟩) (fun t _ => (t.lines b).state = v) _ ls' :=
    (hlevels.allSteps.and hlevel.allSteps).mono fun t _ ht => (ht.1.1 b).trans ht.2.1
  refine ⟨countSteps_actsOn_le hreading hstate, fun hmany => ?_⟩
  suffices hacts : ¬AllSteps (boardStep ⟨false, shiftClear⟩) (fun t l => ¬ActsOn b v t l)
      (exec (boardStep ⟨false, shiftClear⟩) (boardStart t0 screen) ls) ls' by
    obtain ⟨ls₁, l, ls₂, rfl, hact⟩ := exists_of_not_allSteps hacts
    rw [← exec_append] at hact
    cases l with
    | video => exact hact.elim
    | line b' e => exact hact.elim
    | main env =>
        refine ⟨ls₁, env, ls₂, _, rfl, hact.2.2, hact.1, ?_⟩
        rw [exec_append, exec_cons, exec_nil]
        exact hact.hwLoop ⟨false, shiftClear⟩
  intro hnone
  have hrank := countSteps_add_rank_le (C := MainRuns ⟨false, shiftClear⟩) (I := Reading)
    (L := fun t l => (t.lines b).state = v ∧ ¬ActsOn b v t l) (ρ := stepsToAct b v)
    (fun t l h _ => h.step ⟨false, shiftClear⟩ t l) ?_ ?_ hreading (hstate.and hnone)
  · have hfirst := (stepsToAct_bounds b v hreading).2
    have hlast := (stepsToAct_bounds b v ((AllStates.of_invariant' (Reading.step ⟨false, shiftClear⟩)
      hreading ls').last)).1
    omega
  · intro t l h hl hruns
    have hstep := stepsToAct_step ⟨false, shiftClear⟩ rfl l h hl.1 hl.2
    rw [if_pos hruns] at hstep
    exact hstep
  · intro t l h hl hruns
    have hstep := stepsToAct_step ⟨false, shiftClear⟩ rfl l h hl.1 hl.2
    rw [if_neg hruns] at hstep
    exact hstep

/-- The pin of RIGHT goes high just after the first call has read it. -/
def pressAfterRead : List BoardLabel := boardSteps 4 ++ [.line .right .edge]

/-- The first call acts on the state before; the second one moves the piece. -/
theorem level_acted_pressAfterRead :
    countSteps (boardStep stm32Config) (ActsOn .right false)
        (exec (boardStep stm32Config) (boardStart 0 .blank) pressAfterRead) (boardSteps 19) ≤ 1
      ∧ ∃ ls₁ env ls₂ pressed, boardSteps 19 = ls₁ ++ .main env :: ls₂ ∧ pressed .right = true
        ∧ (exec (boardStep stm32Config) (boardStart 0 .blank)
            (pressAfterRead ++ ls₁)).threads.main.pc = .loop
        ∧ (exec (boardStep stm32Config) (boardStart 0 .blank)
            (pressAfterRead ++ ls₁ ++ [.main env])).threads.main
          = hwLoop stm32Config (exec (boardStep stm32Config) (boardStart 0 .blank)
              (pressAfterRead ++ ls₁)).threads.main pressed := by
  obtain ⟨hmost, hacts⟩ := level_acted true 0 .blank pressAfterRead (boardSteps 19)
    (by decide +kernel) .right true (by decide +kernel)
  exact ⟨hmost, hacts (by decide +kernel)⟩

end Katetris
