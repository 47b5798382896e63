import ChipConfig.AccessMode
import ChipConfig.BitMap
import ChipConfig.BitRange
import ChipConfig.BitSource
import ChipConfig.CommandLine.Command
import ChipConfig.CommandLine.Directory
import ChipConfig.CommandLine.Grammar
import ChipConfig.CommandLine.Report
import ChipConfig.Decimal.Notation
import ChipConfig.Decimal.Shortest
import ChipConfig.Description
import ChipConfig.Device
import ChipConfig.Device.Board
import ChipConfig.Device.Commit
import ChipConfig.Device.EepromStream
import ChipConfig.Device.Memory
import ChipConfig.Device.Programming
import ChipConfig.Document.BitMap
import ChipConfig.Document.Description
import ChipConfig.Document.Interpretation
import ChipConfig.Document.Record
import ChipConfig.Double
import ChipConfig.Field
import ChipConfig.FieldDraft
import ChipConfig.FieldName
import ChipConfig.Image
import ChipConfig.Interpretation
import ChipConfig.Json.Number
import ChipConfig.Json.Text
import ChipConfig.Json.Token
import ChipConfig.Json.Value
import ChipConfig.Layout.Decode
import ChipConfig.Layout.Encode
import ChipConfig.Layout.Error
import ChipConfig.Listing
import ChipConfig.Main
import ChipConfig.Proofs.Agreement
import ChipConfig.Proofs.Bench
import ChipConfig.Proofs.BitMap.Order
import ChipConfig.Proofs.BitMap.Placement
import ChipConfig.Proofs.BitMap.Representation
import ChipConfig.Proofs.BitMap.Table
import ChipConfig.Proofs.BitMap.WellFormed
import ChipConfig.Proofs.BitRange
import ChipConfig.Proofs.BitSource
import ChipConfig.Proofs.CommandLine.Difference
import ChipConfig.Proofs.CommandLine.Report
import ChipConfig.Proofs.Device.Board
import ChipConfig.Proofs.Device.Calls
import ChipConfig.Proofs.Device.Commit
import ChipConfig.Proofs.Device.EepromStream
import ChipConfig.Proofs.Device.Invariant
import ChipConfig.Proofs.Device.Programming
import ChipConfig.Proofs.Device.Readback
import ChipConfig.Proofs.Device.Stages
import ChipConfig.Proofs.Device.Streaming
import ChipConfig.Proofs.Device.Verification
import ChipConfig.Proofs.Document.BitMap
import ChipConfig.Proofs.Document.Description
import ChipConfig.Proofs.Document.Interpretation
import ChipConfig.Proofs.Document.Member
import ChipConfig.Proofs.Document.Record
import ChipConfig.Proofs.Document.Respelling
import ChipConfig.Proofs.Document.Spelling
import ChipConfig.Proofs.Fallible
import ChipConfig.Proofs.Field.Lens
import ChipConfig.Proofs.Field.Raw
import ChipConfig.Proofs.Field.Staging
import ChipConfig.Proofs.FieldDraft
import ChipConfig.Proofs.FieldName
import ChipConfig.Proofs.Image
import ChipConfig.Proofs.Image.Difference
import ChipConfig.Proofs.Image.Representation
import ChipConfig.Proofs.InPlace
import ChipConfig.Proofs.Interpretation
import ChipConfig.Proofs.Interpretation.Inversion
import ChipConfig.Proofs.Json.Text
import ChipConfig.Proofs.Json.Token
import ChipConfig.Proofs.Json.Value
import ChipConfig.Proofs.Layout.Accumulate
import ChipConfig.Proofs.Layout.Decode
import ChipConfig.Proofs.Layout.Encode
import ChipConfig.Proofs.Layout.Readback
import ChipConfig.Proofs.Layout.Refusal
import ChipConfig.Proofs.Layout.RoundTrip
import ChipConfig.Proofs.Layout.Warnings
import ChipConfig.Proofs.Listing
import ChipConfig.Proofs.Listing.Lines
import ChipConfig.Proofs.Listing.Outcome
import ChipConfig.Proofs.Lockstep
import ChipConfig.Proofs.Paired
import ChipConfig.Proofs.RegisterFile
import ChipConfig.Proofs.RegisterFile.Configuration
import ChipConfig.Proofs.RegisterMap.Acceptance
import ChipConfig.Proofs.RegisterMap.Access
import ChipConfig.Proofs.RegisterMap.Building
import ChipConfig.Proofs.RegisterMap.Compile
import ChipConfig.Proofs.RegisterMap.Document
import ChipConfig.Proofs.RegisterMap.Order
import ChipConfig.Proofs.RegisterMap.Outcome
import ChipConfig.Proofs.RegisterMap.Pieces
import ChipConfig.Proofs.RegisterMap.Reading
import ChipConfig.Proofs.RegisterMap.Refusal
import ChipConfig.Proofs.SortedMap
import ChipConfig.Proofs.Text.ByteOrder
import ChipConfig.Proofs.Text.Line
import ChipConfig.Proofs.Text.NumberToken
import ChipConfig.Proofs.Text.Numeral
import ChipConfig.Proofs.Text.Padding
import ChipConfig.Proofs.Text.Spelling
import ChipConfig.Proofs.Text.Splitting
import ChipConfig.Proofs.Word
import ChipConfig.RegisterFile
import ChipConfig.RegisterMap
import ChipConfig.SortedMap
import ChipConfig.Text.Blank
import ChipConfig.Text.Combining
import ChipConfig.Text.Line
import ChipConfig.Text.Numeral
import ChipConfig.Text.Quoted
import ChipConfig.Text.Unprintable
import ChipConfig.Width
import ChipConfig.Word
