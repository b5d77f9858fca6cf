import HalfPlane.Board.Action
import HalfPlane.Board.Picture
import HalfPlane.Debounce
import HalfPlane.Drawing.Backend
import HalfPlane.Main
import HalfPlane.Proofs.Double.Laws
import HalfPlane.Proofs.Board.Activity
import HalfPlane.Proofs.Board.Captions
import HalfPlane.Proofs.Board.Checking
import HalfPlane.Proofs.Board.Controls
import HalfPlane.Proofs.Board.Dragging
import HalfPlane.Proofs.Board.Grading
import HalfPlane.Proofs.Board.Restart
import HalfPlane.Proofs.Board.Statuses
import HalfPlane.Proofs.Board.Verdicts
import HalfPlane.Proofs.Debounce.Delivery
import HalfPlane.Proofs.Debounce.Sections
import HalfPlane.Proofs.Form.Renderings
import HalfPlane.Proofs.Form.RoundTrip
import HalfPlane.Proofs.Form.Same
import HalfPlane.Proofs.Formula.Twice
import HalfPlane.Proofs.Formula.Walk
import HalfPlane.Proofs.Geometry.Account
import HalfPlane.Proofs.Register.Requests
import HalfPlane.Proofs.Scene.Clip
import HalfPlane.Proofs.View.Zooming
import HalfPlane.Proofs.Double.Shapes
import HalfPlane.Proofs.Geometry.Scale
import HalfPlane.Proofs.Geometry.Crossing
import HalfPlane.Proofs.Geometry.Closing
import HalfPlane.Proofs.Board.Pinching
import HalfPlane.Proofs.Geometry.Shading
import HalfPlane.Proofs.Scene.Names
import HalfPlane.Proofs.Command.Attempts
import HalfPlane.Proofs.Scene.Grid
import HalfPlane.Proofs.Board.Outline
import HalfPlane.Proofs.Drawing.Calls
import HalfPlane.Proofs.Register.Recency
import HalfPlane.Proofs.Register.Cycle
import HalfPlane.Proofs.Board.Nearest
