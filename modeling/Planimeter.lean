import Planimeter.Main
import Planimeter.Proofs.Shape.ZeroSigns
import Planimeter.Proofs.Calculation.Batch
import Planimeter.Proofs.Client.Answers
import Planimeter.Proofs.Client.Exhaustion
import Planimeter.Proofs.Client.Pauses
import Planimeter.Proofs.Client.Remote
import Planimeter.Proofs.Client.Statuses
import Planimeter.Proofs.Command.Areas
import Planimeter.Proofs.Command.Output
import Planimeter.Proofs.Config.RoundTrip
import Planimeter.Proofs.Shape.Reading
import Planimeter.Proofs.Client.ZeroSigns
import Planimeter.Proofs.Shape.HalfCircumference
import Planimeter.Proofs.Binary.Bounds
import Planimeter.Proofs.Shape.Triangle
import Planimeter.Proofs.Shape.Range
import Planimeter.Proofs.Wire.Concatenation
import Planimeter.Proofs.Shape.NearestDims
import Planimeter.Proofs.Command.Texts
import Planimeter.Proofs.Client.Limits
import Planimeter.Proofs.Net.Canonical
import Planimeter.Proofs.Log.Verbosity
