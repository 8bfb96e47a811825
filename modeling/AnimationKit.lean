import AnimationKit.Documents.CopyFeedback
import AnimationKit.Documents.Error
import AnimationKit.Export.Operation
import AnimationKit.Preview.Scene
import AnimationKit.Preview.Sheet
import AnimationKit.Proofs.Config.Constraints
import AnimationKit.Proofs.Config.Relevance
import AnimationKit.Proofs.Documents.Alike
import AnimationKit.Proofs.Documents.Errors
import AnimationKit.Proofs.Documents.Verdicts
import AnimationKit.Proofs.Easing.Grammar
import AnimationKit.Proofs.Easing.Rereading
import AnimationKit.Proofs.Export.Copies
import AnimationKit.Proofs.Export.Curves
import AnimationKit.Proofs.Export.Naming
import AnimationKit.Proofs.Export.Playback
import AnimationKit.Proofs.Export.Separation
import AnimationKit.Proofs.Export.Visible
import AnimationKit.Proofs.Measure.Precision
import AnimationKit.Proofs.Preview.Flushing
import AnimationKit.Proofs.Preview.LastWriter
import AnimationKit.Proofs.Preview.Restarts
import AnimationKit.Proofs.Preview.SecondHop
import AnimationKit.Proofs.Studio.Promises
import AnimationKit.Samples
import AnimationKit.Studio.Operation
