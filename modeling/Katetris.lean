import Katetris.Lib.Loops
import Katetris.Lib.Runs
import Katetris.Lib.Simulation
import Katetris.Lib.ChunkBuf
import Katetris.Lib.Window
import Katetris.Lib.Sweep
import Katetris.Types
import Katetris.Display
import Katetris.Tetris
import Katetris.Text
import Katetris.Buttons
import Katetris.Panel
import Katetris.Main
import Katetris.Video
import Katetris.Sitl
import Katetris.Clock
import Katetris.Debounce
import Katetris.Board
import Katetris.Proofs.LineClear
import Katetris.Proofs.Cells
import Katetris.Proofs.Drawing
import Katetris.Proofs.Motion
import Katetris.Proofs.Bounds
import Katetris.Proofs.Guards
import Katetris.Proofs.Descent
import Katetris.Proofs.Locking
import Katetris.Proofs.Clock
import Katetris.Proofs.Pace
import Katetris.Proofs.Debounce
import Katetris.Proofs.Redraw
import Katetris.Proofs.Transfer
import Katetris.Proofs.Requests
import Katetris.Proofs.Frame
import Katetris.Proofs.Conservation
import Katetris.Proofs.Score
import Katetris.Proofs.Handshake
import Katetris.Proofs.Video
import Katetris.Proofs.Mutex
import Katetris.Proofs.Drain
import Katetris.Proofs.Picture
import Katetris.Proofs.Board
import Katetris.Proofs.Sitl
import Katetris.Proofs.Builds
