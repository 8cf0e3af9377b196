import Katetris.Lib.Simulation
import Katetris.Sitl
import Katetris.Proofs.Frame

set_option autoImplicit false

/-! # The SITL build at the level of its events

A run of the SITL build on a sequence of key events is a run of the game loop in which the buttons read
in an iteration are those held down if that iteration polled a key event, and none otherwise
(`sitl_refines`); a button is held if its key went down and has not come up since. Unlike the panel of
the STM32 build, the window is never out of date: at the end of every iteration it shows the frame
buffer, each bit as a square of `ZOOM` by `ZOOM` pixels (`sitl_windowExact`). -/

namespace Katetris

open Lib

/-! ## The keys held down -/

/-- The event is a press of a key of button `b`. -/
def Event.Presses (evt : Event) (b : Button) : Prop := ∃ sym, evt = .keyDown sym ∧ mapButton sym = some b

/-- The event is a release of a key of button `b`. -/
def Event.Releases (evt : Event) (b : Button) : Prop := ∃ sym, evt = .keyUp sym ∧ mapButton sym = some b

/-- A key of `b` has been pressed, and none released since. -/
def HeldAfter (evts : List Event) (b : Button) : Prop :=
  ∃ before evt after, evts = before ++ evt :: after ∧ evt.Presses b ∧ ∀ evt' ∈ after, ¬evt'.Releases b

theorem keyEvent_iff (states : ButtonStates) (evt : Event) (b : Button) :
    keyEvent states evt b = true ↔ evt.Presses b ∨ (states b = true ∧ ¬evt.Releases b) := by
  cases evt with
  | quit => simp [keyEvent, Event.Presses, Event.Releases]
  | other => simp [keyEvent, Event.Presses, Event.Releases]
  | keyDown sym =>
      simp only [keyEvent, Event.Presses, Event.Releases, Event.keyDown.injEq, exists_eq_left',
        reduceCtorEq, false_and, exists_false, not_false_eq_true, and_true]
      cases hmap : mapButton sym with
      | none => simp
      | some b' =>
          by_cases hb : b = b'
          · subst hb
            simp
          · simp [Function.update_of_ne hb, Ne.symm hb]
  | keyUp sym =>
      simp only [keyEvent, Event.Presses, Event.Releases, Event.keyUp.injEq, exists_eq_left',
        reduceCtorEq, false_and, exists_false, false_or]
      cases hmap : mapButton sym with
      | none => simp
      | some b' =>
          by_cases hb : b = b'
          · subst hb
            simp
          · simp [Function.update_of_ne hb, Ne.symm hb]

theorem heldAfter_append_singleton (evts : List Event) (evt : Event) (b : Button) :
    HeldAfter (evts ++ [evt]) b ↔ evt.Presses b ∨ (HeldAfter evts b ∧ ¬evt.Releases b) := by
  refine ⟨fun hheld => ?_, fun hor => ?_⟩
  · obtain ⟨before, press, after, heq, hpress, hafter⟩ := hheld
    rcases List.eq_nil_or_concat after with rfl | ⟨after, last, rfl⟩
    · obtain ⟨-, hlast⟩ := List.append_inj' heq rfl
      rw [List.cons.injEq] at hlast
      exact Or.inl (hlast.1 ▸ hpress)
    · rw [List.concat_eq_append] at heq hafter
      have heq' : evts ++ [evt] = (before ++ press :: after) ++ [last] := by simpa using heq
      obtain ⟨hevts, hlast⟩ := List.append_inj' heq' rfl
      rw [List.cons.injEq] at hlast
      refine Or.inr ⟨⟨before, press, after, hevts, hpress, fun evt' hevt' => ?_⟩, ?_⟩
      · exact hafter evt' (List.mem_append_left _ hevt')
      · rw [hlast.1]
        exact hafter last (by simp)
  · rcases hor with hpress | ⟨⟨before, press, after, rfl, hpress, hafter⟩, hrelease⟩
    · exact ⟨evts, evt, [], rfl, hpress, by simp⟩
    · refine ⟨before, press, after ++ [evt], by simp, hpress, fun evt' hevt' => ?_⟩
      rcases List.mem_append.1 hevt' with hmem | hmem
      · exact hafter evt' hmem
      · rw [List.mem_singleton.1 hmem]
        exact hrelease

/-- `button_states` after a sequence of events. -/
theorem foldl_keyEvent_iff (evts : List Event) (b : Button) :
    evts.foldl keyEvent .none b = true ↔ HeldAfter evts b := by
  induction evts using List.reverseRecOn with
  | nil => simp [HeldAfter, ButtonStates.none]
  | append_singleton evts evt ih =>
      rw [List.foldl_append, List.foldl_cons, List.foldl_nil, keyEvent_iff, ih,
        heldAfter_append_singleton]

/-! ## The events of a run and the steps it stands for -/

/-- The event the step polls. -/
def Sitl.polls (t : Sitl) (i : SitlEnv) : List Event :=
  if t.exited = false ∧ t.main.pc = .loop then [i.evt] else []

/-- The step of the game loop: on a key event it reads the buttons held, otherwise none. -/
def Sitl.answer (t : Sitl) (i : SitlEnv) : List Label :=
  if t.exited then []
  else match t.main.pc, i.evt with
    | .loop, .quit => []
    | .loop, .keyDown sym => [.main ⟨keyEvent t.states (.keyDown sym), i.millis, i.oob⟩]
    | .loop, .keyUp sym => [.main ⟨keyEvent t.states (.keyUp sym), i.millis, i.oob⟩]
    | _, _ => [.main ⟨.none, i.millis, i.oob⟩]

theorem buttonsDoAction_none (blk : Block) : buttonsDoAction blk .none = (blk, false) := by
  simp [buttonsDoAction, pressEnter, pressDown, pressRight, pressLeft, ButtonStates.none]

/-- `hw->loop` of the SITL build. -/
theorem hwLoop_sitl {cfg : Config} (hcfg : cfg.sitl = true) (s : Main) (buttons : ButtonStates) :
    hwLoop cfg s buttons
      = { s with
          blk := (buttonsDoAction s.blk buttons).1
          vbuf := if (buttonsDoAction s.blk buttons).2
            then updateBlock s.vbuf (buttonsDoAction s.blk buttons).1 else s.vbuf
          pc := .floorTest } := by
  unfold hwLoop
  cases hret : (buttonsDoAction s.blk buttons).2 <;> simp [hcfg, hret]

section Step

variable {cfg : Config} (hcfg : cfg.sitl = true)

include hcfg

theorem loopSitl_main (t : Sitl) (hpc : t.main.pc = .loop) (i : SitlEnv) (hrun : t.exited = false) :
    (loopSitl t i.evt).main = exec (step cfg) t.main (t.answer i) := by
  unfold Sitl.answer loopSitl
  cases hevt : i.evt with
  | quit => simp [hrun, hpc]
  | other => simp [hrun, hpc, step, mainStep, hwLoop, buttonsDoAction_none]
  | keyDown sym => simp [hrun, hpc, step, mainStep, keyAction, hwLoop_sitl hcfg]
  | keyUp sym => simp [hrun, hpc, step, mainStep, keyAction, hwLoop_sitl hcfg]

theorem sitlStep_main (t : Sitl) (i : SitlEnv) :
    (sitlStep cfg t i).main = exec (step cfg) t.main (t.answer i) := by
  unfold sitlStep
  cases hrun : t.exited with
  | true => simp [Sitl.answer, hrun]
  | false =>
      cases hpc : t.main.pc with
      | loop => simpa [hrun, hpc] using loopSitl_main hcfg t hpc i hrun
      | _ => simp [Sitl.answer, hrun, hpc, step]

end Step

theorem sitlStep_states (cfg : Config) (t : Sitl) (i : SitlEnv) :
    (sitlStep cfg t i).states = exec keyEvent t.states (t.polls i) := by
  unfold sitlStep
  cases hrun : t.exited with
  | true => simp [Sitl.polls, hrun]
  | false =>
      cases hpc : t.main.pc with
      | loop =>
          simp only [Sitl.polls, hrun, hpc, and_self, if_true, Bool.false_eq_true, if_false]
          cases hevt : i.evt <;> simp [loopSitl, keyAction, keyEvent]
      | _ => simp [Sitl.polls, hrun, hpc]

/-- **The event loop refines the game loop.** After every sequence of events a button is held exactly if
    its key went down and has not come up since, and the game is where the game loop gets to by reading
    the held buttons in the iterations that polled a key event. -/
theorem sitl_refines (shiftClear : Bool) (t0 : BitVec 32) (screen : Screen) (is : List SitlEnv) :
    (∀ b, (exec (sitlStep ⟨true, shiftClear⟩) (sitlStart t0 screen) is).states b = true ↔
      HeldAfter (projected (sitlStep ⟨true, shiftClear⟩) Sitl.polls (sitlStart t0 screen) is) b)
    ∧ (exec (sitlStep ⟨true, shiftClear⟩) (sitlStart t0 screen) is).main
      = exec (step ⟨true, shiftClear⟩) (start t0 screen)
          (projected (sitlStep ⟨true, shiftClear⟩) Sitl.answer (sitlStart t0 screen) is) := by
  refine ⟨fun b => ?_, exec_projected (fun t i => sitlStep_main rfl t i) _ is⟩
  have hstates : (exec (sitlStep ⟨true, shiftClear⟩) (sitlStart t0 screen) is).states = _ :=
    exec_projected (sitlStep_states ⟨true, shiftClear⟩) _ is
  rw [hstates, ← foldl_keyEvent_iff]
  rfl

/-! ## The window -/

/-- The window shows the buffer: what is across in the window runs along a column of the buffer. -/
def ShowsBuffer (window : Render) (vbuf : VBuf) : Prop :=
  ∀ X Y, window X Y = vbuf.pixel (Y / zoom) (X / zoom)

/-- One bit of the buffer is one square of the picture. -/
theorem drawPixel_fills (vbuf : VBuf) (x y k : Nat) :
    Fills (fun (r : Render) XY => r XY.1 XY.2) (fun r => drawPixel r (k + 8 * y) x (vbuf.bitAt x y k))
      (fun XY : Nat × Nat => XY.1 / zoom = k + 8 * y ∧ XY.2 / zoom = x)
      (fun XY => vbuf.pixel (XY.2 / zoom) (XY.1 / zoom)) := by
  intro r XY
  have hsquare : ((k + 8 * y) * zoom ≤ XY.1 ∧ XY.1 < (k + 8 * y) * zoom + zoom
      ∧ x * zoom ≤ XY.2 ∧ XY.2 < x * zoom + zoom) ↔ XY.1 / zoom = k + 8 * y ∧ XY.2 / zoom = x := by
    simp only [zoom]
    omega
  have hbit : vbuf.bitAt x y k = vbuf.pixel x (k + 8 * y) := by
    rw [VBuf.bitAt]
    congr 1
    omega
  simp only [drawPixel, renderFillRect, hsquare, hbit]
  refine ⟨fun hin => ?_, fun hout => ?_⟩
  · rw [if_pos hin, hin.1, hin.2]
  · rw [if_neg hout]

/-- **The squares tile the window.** -/
theorem updateRectSitl_shows (vbuf : VBuf) (bbox : BBox) (window : Render) :
    ShowsBuffer (updateRectSitl vbuf bbox window) vbuf := by
  intro X Y
  obtain ⟨hin, hout⟩ := Fills.foldl (l := List.range dispCols) (fun x _ =>
    Fills.foldl (l := List.range dispRows) fun y _ =>
      Fills.foldl (l := List.range 8) fun k _ => drawPixel_fills vbuf x y k) (renderClear window) (X, Y)
  by_cases hscreen : Y / zoom < 240 ∧ X / zoom < 240
  · refine hin ⟨Y / zoom, List.mem_range.2 hscreen.1, X / zoom / 8, List.mem_range.2 ?_, X / zoom % 8,
      List.mem_range.2 (Nat.mod_lt _ (by norm_num)), ?_, rfl⟩
    · have hacross := hscreen.2
      simp only [dispRows]
      omega
    · exact (Nat.mod_add_div _ _).symm
  · rw [VBuf.pixel_of_ge hscreen]
    refine hout fun hsome => hscreen ?_
    obtain ⟨x, hx, y, hy, k, hk, hX, hY⟩ := hsome
    rw [List.mem_range] at hx hy hk
    simp only [dispRows] at hy
    rw [hX, hY]
    exact ⟨hx, by omega⟩

theorem ShowsBuffer.congr {window : Render} {vbuf vbuf' : VBuf} (h : ShowsBuffer window vbuf)
    (hbuf : ∀ p q, vbuf'.pixel p q = vbuf.pixel p q) : ShowsBuffer window vbuf' :=
  fun X Y => (h X Y).trans (hbuf _ _).symm

section Draw

variable {cfg : Config} (hcfg : cfg.sitl = true)

include hcfg

theorem displayUpdateRect_shows (vbuf : VBuf) (bbox : BBox) (screen : Screen) :
    ShowsBuffer (displayUpdateRect cfg vbuf bbox screen).window vbuf := by
  simp only [displayUpdateRect, hcfg, if_true]
  exact updateRectSitl_shows vbuf bbox screen.window

/-- The boxes are taken one after the other; the first already brings the window up to date. -/
theorem drawLoop_shows (vbuf : VBuf) (screen : Screen)
    (h : vbuf.updStack.arr ≠ [] ∨ ShowsBuffer screen.window vbuf) :
    ShowsBuffer (drawLoop cfg vbuf screen).2.window vbuf := by
  induction vbuf, screen using drawLoop.induct cfg with
  | case1 vbuf screen hnil =>
      rw [drawLoop_nil cfg screen hnil]
      exact h.resolve_left (not_not.2 hnil)
  | case2 vbuf screen bbox rest hcons vbuf' ih =>
      rw [drawLoop_cons cfg screen hcons]
      exact (ih (Or.inr (displayUpdateRect_shows hcfg vbuf' bbox screen))).congr fun p q => rfl

/-- A draw with the flag set or a box on the stack brings the window up to date. -/
theorem draw_shows {vbuf : VBuf} (h : vbuf.clearFlag = true ∨ vbuf.updStack.arr ≠ []) (screen : Screen) :
    ShowsBuffer (draw cfg vbuf screen).2.window (draw cfg vbuf screen).1 := by
  refine ShowsBuffer.congr ?_ (draw_pixel cfg vbuf screen)
  unfold draw
  split_ifs with hflag
  · simp only [displayUpdate, hcfg, if_true]
    exact updateRectSitl_shows vbuf _ screen.window
  · exact drawLoop_shows hcfg vbuf screen (Or.inl (h.resolve_left hflag))

end Draw

/-- What holds of the window where the main thread stands. -/
structure WindowSoFar (t : Sitl) : Prop where
  requested : t.main.pc = .present → t.main.vbuf.updStack.arr ≠ []
  shown : t.main.pc = .delay → ShowsBuffer t.main.screen.window t.main.vbuf

theorem VBuf.push_arr_ne_nil (vbuf : VBuf) (box : BBox) : (vbuf.push box).updStack.arr ≠ [] := by
  rw [VBuf.push_arr]
  split_ifs with hroom
  · exact List.cons_ne_nil _ _
  · intro hnil
    rw [BBoxStack.size, hnil] at hroom
    exact hroom (by decide)

theorem WindowSoFar.step (shiftClear : Bool) (t : Sitl) (i : SitlEnv) (h : WindowSoFar t) :
    WindowSoFar (sitlStep ⟨true, shiftClear⟩ t i) := by
  have hother : ∀ t' : Sitl, t'.main.pc ≠ .present → t'.main.pc ≠ .delay → WindowSoFar t' :=
    fun t' hpresent hdelay => ⟨fun hpc => absurd hpc hpresent, fun hpc => absurd hpc hdelay⟩
  unfold sitlStep
  cases hrun : t.exited with
  | true => simpa [hrun] using h
  | false =>
      simp only [Bool.false_eq_true, if_false]
      cases hpc : t.main.pc with
      | loop =>
          cases hevt : i.evt <;> refine hother _ ?_ ?_ <;> simp [loopSitl, keyAction, hpc]
      | paint =>
          have hnext : (mainStep ⟨true, shiftClear⟩ t.main ⟨.none, i.millis, i.oob⟩).pc = .present := by
            simp [mainStep, hpc]
          refine ⟨fun _ => ?_, fun hdelay => absurd (hnext.symm.trans hdelay) (by simp)⟩
          simp only [mainStep, hpc]
          exact VBuf.push_arr_ne_nil _ scoreBox
      | present =>
          refine ⟨by simp [mainStep, hpc], fun _ => ?_⟩
          simp only [mainStep, hpc]
          exact draw_shows rfl (Or.inr (h.requested hpc)) t.main.screen
      | floorTest =>
          refine hother _ ?_ ?_ <;> simp only [mainStep, hpc] <;> split_ifs <;> simp
      | gravity =>
          refine hother _ ?_ ?_ <;> simp only [mainStep, hpc] <;> split_ifs <;> simp
      | collides =>
          refine hother _ ?_ ?_ <;> simp only [mainStep, hpc] <;> split_ifs <;> simp
      | _ => refine hother _ ?_ ?_ <;> simp [mainStep, hpc]

/-- At the end of an iteration the window shows the buffer. -/
def WindowExact (t : Sitl) : Prop := t.main.pc = .delay → ShowsBuffer t.main.screen.window t.main.vbuf

/-- **The window is never out of date.** At the final delay of every iteration of every run each pixel
    of the window shows the bit of the frame buffer it belongs to. -/
theorem sitl_windowExact (shiftClear : Bool) (t0 : BitVec 32) (screen : Screen) (is : List SitlEnv) :
    AllStates (sitlStep ⟨true, shiftClear⟩) WindowExact (sitlStart t0 screen) is := by
  have hstart : WindowSoFar (sitlStart t0 screen) :=
    ⟨by simp [sitlStart, start], by simp [sitlStart, start]⟩
  exact (AllStates.of_invariant' (WindowSoFar.step shiftClear) hstart is).mono fun t h => h.shown

end Katetris
