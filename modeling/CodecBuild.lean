import CodecBuild.Main
import CodecBuild.Proofs.Name.ByteOrder
import CodecBuild.Proofs.Flag.Coercion
import CodecBuild.Proofs.Resolution.Overlay
import CodecBuild.Proofs.Resolution.Outcome
import CodecBuild.Proofs.Resolution.Reconfiguration
import CodecBuild.Proofs.Json.RoundTrip
import CodecBuild.Proofs.Resolution.Saving
import CodecBuild.Proofs.Order.Least
import CodecBuild.Proofs.Order.Part
import CodecBuild.Proofs.Order.Failure
import CodecBuild.Proofs.Plan.Members
import CodecBuild.Proofs.Step.Commands
import CodecBuild.Proofs.Step.Elevation
import CodecBuild.Proofs.Step.Kinds
import CodecBuild.Proofs.Step.Options
import CodecBuild.Proofs.Step.Calls
import CodecBuild.Proofs.Plan.Agreement
import CodecBuild.Proofs.Resolution.Editing
import CodecBuild.Proofs.Plan.Reading
import CodecBuild.Proofs.Plan.Ignored
import CodecBuild.Proofs.Plan.EmptyPath
import CodecBuild.Proofs.Step.CacheReading
import CodecBuild.Proofs.Plan.WellFormed
import CodecBuild.Proofs.Plan.Monotone
import CodecBuild.Proofs.Resolution.Spelling
import CodecBuild.Proofs.Command.Answers
import CodecBuild.Proofs.Command.Precedence
import CodecBuild.Proofs.Command.UsualPair
import CodecBuild.Proofs.Resolution.Matrix
import CodecBuild.Proofs.Command.SavedDocuments
import CodecBuild.Proofs.Overrides.Grammar
import CodecBuild.Proofs.Settings.Layering
import CodecBuild.Proofs.Overrides.History
import CodecBuild.Proofs.Flag.Difference
import CodecBuild.Proofs.Target.Listing
import CodecBuild.Proofs.Command.PrintedPlan
import CodecBuild.Proofs.Order.Tally
import CodecBuild.Proofs.Text.Separated
import CodecBuild.Proofs.Step.Display
import CodecBuild.Proofs.Flag.Suggestion
import CodecBuild.Proofs.Diagnostic.Layout
