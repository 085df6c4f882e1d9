import FormattedOutput.Argument
import FormattedOutput.Buffer
import FormattedOutput.Bytes
import FormattedOutput.Call
import FormattedOutput.Directive
import FormattedOutput.Engine
import FormattedOutput.EntryPoint
import FormattedOutput.Errno
import FormattedOutput.Field
import FormattedOutput.Freestanding.Conversion
import FormattedOutput.Freestanding.Format
import FormattedOutput.Freestanding.Spec
import FormattedOutput.Hosted.Conversion
import FormattedOutput.Hosted.Floating
import FormattedOutput.Hosted.Format
import FormattedOutput.Hosted.Integer
import FormattedOutput.Hosted.Spec
import FormattedOutput.Hosted.Text
import FormattedOutput.Number.Binary64
import FormattedOutput.Number.Decimal
import FormattedOutput.Number.Fraction
import FormattedOutput.Outcome
import FormattedOutput.Proofs.BoundedWrite
import FormattedOutput.Proofs.Choice
import FormattedOutput.Proofs.Interchange
import FormattedOutput.Proofs.Sink
import FormattedOutput.Rope
import FormattedOutput.Selection.Choice
import FormattedOutput.Selection.Environment
import FormattedOutput.Selection.Parts
import FormattedOutput.Selection.Program
import FormattedOutput.Selection.Rule
import FormattedOutput.Selection.Script
import FormattedOutput.Selection.Target
import FormattedOutput.Session
import FormattedOutput.Sink
import FormattedOutput.Template
import FormattedOutput.Text.Hidden
import FormattedOutput.Text.Quoted
import FormattedOutput.Text.Utf8
import FormattedOutput.Proofs.Configuration
import FormattedOutput.Proofs.Template
import FormattedOutput.Proofs.Conversions
import FormattedOutput.Proofs.CommonFragment
import FormattedOutput.Proofs.Policy
import FormattedOutput.Proofs.Stages
import FormattedOutput.Proofs.Moves
import FormattedOutput.Proofs.Supply
import FormattedOutput.Proofs.Scanning
import FormattedOutput.Proofs.FailingWrite
import FormattedOutput.Proofs.Framing
import FormattedOutput.Proofs.Append
import FormattedOutput.Proofs.Utf8
import FormattedOutput.Proofs.StandIn
import FormattedOutput.Proofs.Attempts
import FormattedOutput.Proofs.Matching
import FormattedOutput.Proofs.Refusals
import FormattedOutput.Proofs.TextIntegrity
import FormattedOutput.Proofs.Returning
import FormattedOutput.Proofs.RuleTables
import FormattedOutput.Proofs.Observation
import FormattedOutput.Proofs.Respelling
import FormattedOutput.Proofs.Families
import FormattedOutput.Proofs.Digits
import FormattedOutput.Proofs.Messages
import FormattedOutput.Proofs.Printing
import FormattedOutput.Proofs.TextFields
import FormattedOutput.Proofs.IntegerFields
import FormattedOutput.Proofs.Rounding
import FormattedOutput.Proofs.DecimalTexts
import FormattedOutput.Proofs.Doubles
import FormattedOutput.Proofs.SinkRuns
