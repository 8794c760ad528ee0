import MotionScene.Drawing.Figure
import MotionScene.Main
import MotionScene.Proofs.Compile
import MotionScene.Proofs.Curve.Trim
import MotionScene.Proofs.Element.Pivot
import MotionScene.Proofs.Layer.Assembly
import MotionScene.Proofs.Layer.Parents
import MotionScene.Proofs.Migration.Conversion
import MotionScene.Proofs.Migration.Sharing
import MotionScene.Proofs.Delay.Document
import MotionScene.Proofs.Delay.Property
import MotionScene.Proofs.Delay.Shape
import MotionScene.Proofs.Delay.Layers
import MotionScene.Proofs.Timeline.Animated
import MotionScene.Proofs.Element.Written
import MotionScene.Proofs.Shape.Written
import MotionScene.Proofs.Element.Anchored
import MotionScene.Proofs.Element.Reading
import MotionScene.Proofs.Layer.Parts
import MotionScene.Proofs.Scene.Target
import MotionScene.Proofs.Scene.Sources
import MotionScene.Proofs.Fault.Ends
import MotionScene.Proofs.Fault.Flaw
import MotionScene.Proofs.Fault.Encodings
import MotionScene.Proofs.Fault.Migration
import MotionScene.Proofs.Fault.Property
import MotionScene.Proofs.Fault.Shape
import MotionScene.Proofs.Fault.Layer
import MotionScene.Proofs.Fault.Compile
import MotionScene.Proofs.Curve.Stretches
import MotionScene.Proofs.Presentation.Erasure
import MotionScene.Proofs.Presentation.Shape
import MotionScene.Proofs.Presentation.Layers
import MotionScene.Proofs.Migration.Steps
import MotionScene.Proofs.Presentation.Compile
import MotionScene.Proofs.Migration.Places
import MotionScene.Proofs.Migration.Walks
import MotionScene.Proofs.Migration.Named
import MotionScene.Proofs.Migration.LayerPlaces
import MotionScene.Proofs.Migration.Untouched
import MotionScene.Proofs.Layer.Shown
import MotionScene.Proofs.Migration.Lockstep
import MotionScene.Proofs.Migration.Passing
import MotionScene.Proofs.Migration.Repeating
import MotionScene.Proofs.Migration.Settled
import MotionScene.Proofs.Migration.Rewording
import MotionScene.Proofs.Migration.Rest
import MotionScene.Proofs.Scene.Again
import MotionScene.Proofs.Shape.Nearest
import MotionScene.Proofs.Shape.Drawn
import MotionScene.Proofs.Timeline.Dropped
import MotionScene.Proofs.Shape.Hidden
import MotionScene.Proofs.Migration.Recolored
import MotionScene.Proofs.Migration.Colors
import MotionScene.Proofs.Drawing.Reused
import MotionScene.Proofs.Drawing.Knots
import MotionScene.Proofs.Drawing.Copies
import MotionScene.Proofs.Drawing.Neutral
import MotionScene.Proofs.Drawing.Replay
import MotionScene.Proofs.Curve.Whole
import MotionScene.Proofs.Property.Axes
import MotionScene.Proofs.Property.ColorText
import MotionScene.Proofs.Element.Position
import MotionScene.Proofs.Curve.Readable
import MotionScene.Proofs.Binary64
import MotionScene.Proofs.Curve.Ways
import MotionScene.Proofs.Drawing.PathData
import MotionScene.Proofs.Drawing.Joins
import MotionScene.Proofs.Drawing.Rectangle
import MotionScene.Proofs.Cli.Delivery
import MotionScene.Proofs.Config.Winner
import MotionScene.Proofs.Config.Refused
import MotionScene.Proofs.Cli.Configured
import MotionScene.Proofs.Curve.Split
import MotionScene.Proofs.Layer.Search
import MotionScene.Proofs.Binary64.Whole
import MotionScene.Proofs.Text.Canonical
import MotionScene.Proofs.Config.BuiltIn
import MotionScene.Proofs.Cli.Migrated
import MotionScene.Proofs.Element.Draft
