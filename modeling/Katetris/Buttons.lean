import Katetris.Tetris

set_option autoImplicit false

/-! # Button actions (`buttons.h`)

`buttons_do_action` applies the pressed buttons to the piece, one after the other: LEFT, RIGHT and
DOWN under a guard read off the bounding box of the orientation the call started in, ENTER without
one. -/

namespace Katetris

/-- `button_e`, without `BUTTON_INVALID` and the count. -/
inductive Button where
  | left
  | up
  | down
  | right
  | enter
  deriving DecidableEq, Repr

/-- `bool button_states[]`. -/
abbrev ButtonStates := Button → Bool

/-- No button is pressed. -/
def ButtonStates.none : ButtonStates := fun _ => false

/-- Exactly the listed buttons are pressed. -/
def ButtonStates.only (l : List Button) : ButtonStates := fun b => l.contains b

/-- The LEFT branch; the pair is the piece and `ret`. -/
def pressLeft (bbox : BBox) (pressed : ButtonStates) (s : Block × Bool) : Block × Bool :=
  if pressed .left = true ∧ s.1.y + bbox.y > 0 then ({ s.1 with y := s.1.y - 1 }, true) else s

/-- The RIGHT branch. -/
def pressRight (bbox : BBox) (pressed : ButtonStates) (s : Block × Bool) : Block × Bool :=
  if pressed .right = true ∧ s.1.y + bbox.y < gridCols - bbox.sizey - 1 then
    ({ s.1 with y := s.1.y + 1 }, true)
  else s

/-- The DOWN branch. -/
def pressDown (bbox : BBox) (pressed : ButtonStates) (s : Block × Bool) : Block × Bool :=
  if pressed .down = true ∧ s.1.x + bbox.x < gridRows - bbox.sizex then (s.1.down, true) else s

/-- The ENTER branch. -/
def pressEnter (pressed : ButtonStates) (s : Block × Bool) : Block × Bool :=
  if pressed .enter = true then (blockRotr s.1, true) else s

/-- The values `*blk` and `ret` have after each branch of `buttons_do_action`. -/
def buttonsTrace (blk : Block) (pressed : ButtonStates) : List (Block × Bool) :=
  let bbox := getBbox blk.pattern
  let s1 := pressLeft bbox pressed (blk, false)
  let s2 := pressRight bbox pressed s1
  let s3 := pressDown bbox pressed s2
  [s1, s2, s3, pressEnter pressed s3]

/-- `buttons_do_action`: the piece after the call and the returned flag. -/
def buttonsDoAction (blk : Block) (pressed : ButtonStates) : Block × Bool :=
  let bbox := getBbox blk.pattern
  pressEnter pressed (pressDown bbox pressed (pressRight bbox pressed
    (pressLeft bbox pressed (blk, false))))

end Katetris
