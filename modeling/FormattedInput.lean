import FormattedInput.Arguments
import FormattedInput.CodePage
import FormattedInput.CodeUnit
import FormattedInput.EntryPoint
import FormattedInput.Format.Directive
import FormattedInput.Format.Printing
import FormattedInput.Format.Reading
import FormattedInput.Format.Requirement
import FormattedInput.Format.Walk
import FormattedInput.Halt
import FormattedInput.Literal.Expansion
import FormattedInput.Literal.Placeholder
import FormattedInput.Locale
import FormattedInput.Number.Binary
import FormattedInput.Number.Decimal
import FormattedInput.Options
import FormattedInput.Policy
import FormattedInput.Proofs.CleanStop
import FormattedInput.Proofs.Demands
import FormattedInput.Proofs.Destination
import FormattedInput.Proofs.Echo
import FormattedInput.Proofs.Encoding
import FormattedInput.Proofs.EventTrace
import FormattedInput.Proofs.ExactCount
import FormattedInput.Proofs.FormatAppend
import FormattedInput.Proofs.Headway
import FormattedInput.Proofs.InputConservation
import FormattedInput.Proofs.LiteralAgreement
import FormattedInput.Proofs.LiteralCalls
import FormattedInput.Proofs.Lockstep
import FormattedInput.Proofs.LongerInput
import FormattedInput.Proofs.LongestPrefix
import FormattedInput.Proofs.Lookahead
import FormattedInput.Proofs.PrintedClass
import FormattedInput.Proofs.PrintedFields
import FormattedInput.Proofs.PrintedFormat
import FormattedInput.Proofs.PrintedMarks
import FormattedInput.Proofs.PrintedNumber
import FormattedInput.Proofs.Recording
import FormattedInput.Proofs.Refusal
import FormattedInput.Proofs.Running
import FormattedInput.Proofs.SecureScan
import FormattedInput.Proofs.Simulation
import FormattedInput.Proofs.SlotAgreement
import FormattedInput.Proofs.SourceKinds
import FormattedInput.Proofs.SplitScan
import FormattedInput.Proofs.StarredFormat
import FormattedInput.Proofs.StoredPlaces
import FormattedInput.Proofs.Storing
import FormattedInput.Proofs.StreamDelivery
import FormattedInput.Proofs.Succession
import FormattedInput.Proofs.SuppressedScan
import FormattedInput.Proofs.Takings
import FormattedInput.Proofs.TextReading
import FormattedInput.Proofs.TextScan
import FormattedInput.Proofs.WidenedReading
import FormattedInput.Proofs.Widening
import FormattedInput.Proofs.WidthAgreement
import FormattedInput.Scan.Content
import FormattedInput.Scan.Counted
import FormattedInput.Scan.Destination
import FormattedInput.Scan.Float
import FormattedInput.Scan.Integer
import FormattedInput.Scan.Log
import FormattedInput.Scan.Progress
import FormattedInput.Scan.Report
import FormattedInput.Scan.Text
import FormattedInput.Slot
import FormattedInput.Source.Basic
import FormattedInput.Source.Console
import FormattedInput.Source.Leftover
import FormattedInput.Source.Parked
import FormattedInput.Source.Script
import FormattedInput.Source.Stream
import FormattedInput.Source.Text
import FormattedInput.StandardInput
import FormattedInput.Proofs.PendingBound
import FormattedInput.Proofs.StreamQueue
import FormattedInput.Proofs.EndOfInput
import FormattedInput.Proofs.LongestInteger
import FormattedInput.Proofs.FormatWalk
import FormattedInput.Proofs.StoredText
import FormattedInput.Proofs.SpelledDecimal
import FormattedInput.Proofs.LongestDecimal
import FormattedInput.Proofs.SpelledClass
import FormattedInput.Proofs.WidthBudget
import FormattedInput.Proofs.PairedBytes
