import Interchange.Config
import Interchange.ConfigFile
import Interchange.ContentType
import Interchange.Context
import Interchange.DataUri
import Interchange.Endpoint
import Interchange.Entity.Decoding
import Interchange.Entity.Encoding
import Interchange.Entity.Schema
import Interchange.Entity.Table
import Interchange.Entries
import Interchange.Failure
import Interchange.Identifier
import Interchange.Json.Codec
import Interchange.Json.Fault
import Interchange.Json.Printer
import Interchange.Json.Reader
import Interchange.Json.Tree
import Interchange.MessagePack.Fault
import Interchange.MessagePack.Marker
import Interchange.MessagePack.Reader
import Interchange.MessagePack.Writer
import Interchange.Mismatch
import Interchange.Number.Binary64
import Interchange.Number.BinaryFormat
import Interchange.Number.Decimal
import Interchange.Number.Power
import Interchange.Packing
import Interchange.Proofs.CleanReports
import Interchange.Proofs.Conformance
import Interchange.Proofs.ConstructionAgreement
import Interchange.Proofs.DataUriRoundTrip
import Interchange.Proofs.EntityColumns
import Interchange.Proofs.EntityRoundTrip
import Interchange.Proofs.FailurePlaces
import Interchange.Proofs.FieldFindings
import Interchange.Proofs.FieldPaths
import Interchange.Proofs.FieldReads
import Interchange.Proofs.JoinedUnits
import Interchange.Proofs.Json.ContainerReads
import Interchange.Proofs.Json.FloatTexts
import Interchange.Proofs.Json.Images
import Interchange.Proofs.Json.NumberReads
import Interchange.Proofs.Json.QuotedTexts
import Interchange.Proofs.Json.RoundTrip
import Interchange.Proofs.Json.ScalarTexts
import Interchange.Proofs.Json.WrittenIntegers
import Interchange.Proofs.Json.WrittenValues
import Interchange.Proofs.MessagePack.Answers
import Interchange.Proofs.MessagePack.Grammar
import Interchange.Proofs.MessagePack.Images
import Interchange.Proofs.MessagePack.Languages
import Interchange.Proofs.MessagePack.RoundTrip
import Interchange.Proofs.NestedPlaces
import Interchange.Proofs.NormalizedValues
import Interchange.Proofs.RegularRecords
import Interchange.Proofs.ReportEntries
import Interchange.Proofs.ScalarRoundTrip
import Interchange.Proofs.Utf8Reading
import Interchange.Proofs.Utf8RoundTrip
import Interchange.Proofs.ValueParts
import Interchange.Proofs.WellReadFindings
import Interchange.Proofs.WrittenRecords
import Interchange.Report
import Interchange.Scalar.IntegerType
import Interchange.Scalar.ScalarType
import Interchange.Text.Base64
import Interchange.Text.Blank
import Interchange.Text.GraphemeExtend
import Interchange.Text.Hexadecimal
import Interchange.Text.Quoted
import Interchange.Text.Unprintable
import Interchange.Text.Utf8
import Interchange.Toml.Document
import Interchange.Toml.Reader
import Interchange.Validation.Check
import Interchange.Validation.Outcome
import Interchange.Validation.Registry
import Interchange.Validation.Work
import Interchange.Value
import Interchange.WireKey
import Interchange.Proofs.MessagePack.AcceptedBytes
import Interchange.Proofs.QuotedKeys
import Interchange.Proofs.PathReading
import Interchange.Proofs.ReportContents
import Interchange.Proofs.FindingRules
import Interchange.Proofs.ListedFindings
import Interchange.Proofs.FindingPlaces
import Interchange.Proofs.ValidatorCalls
import Interchange.Proofs.Schedules
import Interchange.Proofs.CompletionOrder
import Interchange.Proofs.RetoldValues
import Interchange.Proofs.StrippedNulls
import Interchange.Proofs.Json.FloatFreeValues
import Interchange.Proofs.PackedBytes
import Interchange.Proofs.AggregateFailures
import Interchange.Proofs.ExchangeStages
import Interchange.Proofs.ServedExchanges
import Interchange.Proofs.EnumerationIntegers
import Interchange.Proofs.FailureCulprits
import Interchange.Proofs.RenamedKeys
import Interchange.Proofs.KeylessReports
import Interchange.Proofs.RemappedEntities
import Interchange.Proofs.RoundedQuotients
import Interchange.Proofs.ShortestDecimals
import Interchange.Proofs.Json.DigitReads
import Interchange.Proofs.ReceivedValues
import Interchange.Proofs.Negotiation
import Interchange.Proofs.MessagePack.FurtherBytes
import Interchange.Proofs.CanonicalValues
import Interchange.Proofs.DistinctPaths
import Interchange.Proofs.ReorderedValues
import Interchange.Proofs.MatchingReports
import Interchange.Proofs.ReorderedReports
import Interchange.Proofs.EqualEntities
import Interchange.Proofs.KeyOrder
import Interchange.Proofs.MessagePack.ShortestForms
import Interchange.Proofs.Json.TreeConversion
import Interchange.Proofs.DraftRuns
import Interchange.Proofs.LeadingDigits
import Interchange.Proofs.NearestPatterns
import Interchange.Proofs.RoundingErrors
import Interchange.Proofs.Json.LayoutReads
import Interchange.Proofs.Json.RereadFloats
import Interchange.Proofs.DataUriTexts
import Interchange.Proofs.Registrations
import Interchange.Proofs.MessagePack.CursorBounds
import Interchange.Proofs.MessagePack.Refusals
import Interchange.Proofs.CombinedReports
import Interchange.Proofs.FailureViews
import Interchange.Proofs.IntegerResidues
import Interchange.Proofs.ReusedCodecs
