import Katetris.Main

set_option autoImplicit false

/-! # The SITL build: key events (`impl_sitl.c`)

`loop_sitl` polls one event an iteration. A key event updates `button_states` if the key is mapped, and
any key event, mapped or not, makes `buttons_do_action` act on all buttons held at that moment; without
a key event nothing moves. If no event is pending, `evt` is uninitialised and may hold anything, so the
environment chooses the event of every iteration. -/

namespace Katetris

/-! ## Keys -/

/-- What `loop_sitl` reads of an `SDL_Event`. -/
inductive Event where
  | quit
  | keyDown (sym : Int)
  | keyUp (sym : Int)
  | other
  deriving DecidableEq, Repr

/-- `char_map`. -/
def charMap : List (Int × Button) :=
  [(('d'.toNat : Int), .right), (('a'.toNat : Int), .left), (('w'.toNat : Int), .up),
    (('s'.toNat : Int), .down), (('e'.toNat : Int), .enter)]

/-- `_map_button`, `none` for `BUTTON_INVALID`. -/
def mapButton (code : Int) : Option Button :=
  (charMap.find? fun entry => code == entry.1).map Prod.snd

/-- What an event does to `button_states`. -/
def keyEvent (states : ButtonStates) : Event → ButtonStates
  | .keyDown sym =>
      match mapButton sym with
      | some b => Function.update states b true
      | none => states
  | .keyUp sym =>
      match mapButton sym with
      | some b => Function.update states b false
      | none => states
  | .quit | .other => states

/-! ## The machine -/

/-- The machine with `button_states`; `exited` after `exit(0)`. -/
structure Sitl where
  main : Main
  states : ButtonStates
  exited : Bool

/-- What the environment chooses for one step. -/
structure SitlEnv where
  evt : Event
  millis : BitVec 32
  oob : Int → BitVec 32

/-- The part of `loop_sitl` that runs on a key event. -/
def keyAction (t : Sitl) (evt : Event) : Sitl :=
  let states := keyEvent t.states evt
  let r := buttonsDoAction t.main.blk states
  { t with
    states := states
    main := { t.main with
      blk := r.1
      vbuf := if r.2 then updateBlock t.main.vbuf r.1 else t.main.vbuf
      pc := .floorTest } }

/-- `loop_sitl`. -/
def loopSitl (t : Sitl) (evt : Event) : Sitl :=
  match evt with
  | .quit => { t with exited := true }
  | .keyDown _ | .keyUp _ => keyAction t evt
  | .other => { t with main := { t.main with pc := .floorTest } }

/-- One step of the SITL build. -/
def sitlStep (cfg : Config) (t : Sitl) (i : SitlEnv) : Sitl :=
  if t.exited then t
  else match t.main.pc with
    | .loop => loopSitl t i.evt
    | _ => { t with main := mainStep cfg t.main ⟨.none, i.millis, i.oob⟩ }

/-- `while (1)` is entered; `button_states` is zero-initialised. -/
def sitlStart (t0 : BitVec 32) (screen : Screen) : Sitl :=
  ⟨start t0 screen, .none, false⟩

end Katetris
