import SpeechMarkup.CommandLine.Run
import SpeechMarkup.Element.Edit
import SpeechMarkup.Main
import SpeechMarkup.Proofs.Signed
import SpeechMarkup.Proofs.NumberRange
import SpeechMarkup.Proofs.WrittenNumber
import SpeechMarkup.Proofs.Duration
import SpeechMarkup.Proofs.TimeFormat
import SpeechMarkup.Proofs.Domain
import SpeechMarkup.Proofs.Conformance
import SpeechMarkup.Proofs.Verdict
import SpeechMarkup.Proofs.RuleOutcome
import SpeechMarkup.Proofs.Tidy
import SpeechMarkup.Proofs.Occurrence
import SpeechMarkup.Proofs.Repaired
import SpeechMarkup.Proofs.Reported
import SpeechMarkup.Proofs.Losses
import SpeechMarkup.Proofs.ReaderLoop
import SpeechMarkup.Proofs.RecordText
import SpeechMarkup.Proofs.ElementText
import SpeechMarkup.Proofs.Reread
import SpeechMarkup.Proofs.Wrapper
import SpeechMarkup.Proofs.Baseline
import SpeechMarkup.Proofs.Rounds
import SpeechMarkup.Proofs.Chronicle
import SpeechMarkup.Proofs.Relabelling
import SpeechMarkup.Proofs.NodeKinds
import SpeechMarkup.Proofs.MemberOrder
import SpeechMarkup.Proofs.Configuration
import SpeechMarkup.Proofs.Commands
import SpeechMarkup.Proofs.OffsetParts
import SpeechMarkup.Proofs.DurationWords
import SpeechMarkup.Proofs.FrontNumber
import SpeechMarkup.Proofs.ByteOrder
import SpeechMarkup.Proofs.Accounting
import SpeechMarkup.Proofs.NearestNumber
import SpeechMarkup.Proofs.Rounding
import SpeechMarkup.Proofs.SignedQuantity
import SpeechMarkup.Proofs.BoundedNumber
import SpeechMarkup.Proofs.MissingRecord
import SpeechMarkup.Proofs.SlotEdit
import SpeechMarkup.Proofs.TextTree
import SpeechMarkup.Proofs.ScalarText
import SpeechMarkup.Proofs.TreeReaders
import SpeechMarkup.Proofs.PassedTree
import SpeechMarkup.Proofs.TreeRecords
import SpeechMarkup.Proofs.Layout
import SpeechMarkup.Proofs.TimeTokens
import SpeechMarkup.Proofs.ExactRange
import SpeechMarkup.Proofs.ReportText
import SpeechMarkup.Proofs.AttributeValue
import SpeechMarkup.Proofs.ShortestDecimal
import SpeechMarkup.Proofs.NumberForm
import SpeechMarkup.Proofs.NumberReading
import SpeechMarkup.Proofs.LenientAttributes
