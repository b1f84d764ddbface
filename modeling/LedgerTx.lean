import LedgerTx.Address
import LedgerTx.Bytes
import LedgerTx.Cipher.Aes
import LedgerTx.Cipher.Sealed
import LedgerTx.Coded
import LedgerTx.Curve.Limbs
import LedgerTx.Curve.Point
import LedgerTx.Curve.Scalar
import LedgerTx.Deadline
import LedgerTx.Document.Basic
import LedgerTx.Document.Layout
import LedgerTx.Document.Operation
import LedgerTx.Document.Transaction
import LedgerTx.Document.Value
import LedgerTx.Draft.Account
import LedgerTx.Draft.Asset
import LedgerTx.Draft.Basic
import LedgerTx.Draft.Chain
import LedgerTx.Draft.Contract
import LedgerTx.Draft.Distinct
import LedgerTx.Draft.Drive
import LedgerTx.Draft.Exchange
import LedgerTx.Draft.Fault
import LedgerTx.Draft.Limits
import LedgerTx.Draft.Lock
import LedgerTx.Draft.Metadata
import LedgerTx.Draft.Naming
import LedgerTx.Fault
import LedgerTx.Fee
import LedgerTx.Hash.Commitment
import LedgerTx.Hash.Keccak
import LedgerTx.Hash.Ripemd160
import LedgerTx.Hash.Sha256
import LedgerTx.Json.Basic
import LedgerTx.Json.Form
import LedgerTx.Json.Parser
import LedgerTx.Json.Printer
import LedgerTx.Json.Settings
import LedgerTx.Json.Signed
import LedgerTx.Key.Agreement
import LedgerTx.Key.Basic
import LedgerTx.Key.Signature
import LedgerTx.Kind
import LedgerTx.Layout.FieldSet
import LedgerTx.Layout.Flat
import LedgerTx.Layout.Schema
import LedgerTx.Layout.Table
import LedgerTx.Logging
import LedgerTx.Message
import LedgerTx.Mosaic
import LedgerTx.Namespace
import LedgerTx.Network
import LedgerTx.Operation.Account
import LedgerTx.Operation.Asset
import LedgerTx.Operation.Basic
import LedgerTx.Operation.Chain
import LedgerTx.Operation.Change
import LedgerTx.Operation.Content
import LedgerTx.Operation.Contract
import LedgerTx.Operation.Drive
import LedgerTx.Operation.Exchange
import LedgerTx.Operation.Lock
import LedgerTx.Operation.Metadata
import LedgerTx.Operation.Naming
import LedgerTx.Operation.Transfer
import LedgerTx.Recipient
import LedgerTx.Settings
import LedgerTx.Text.Base32
import LedgerTx.Text.Blank
import LedgerTx.Text.Hex
import LedgerTx.Text.Utf8
import LedgerTx.Transaction.Basic
import LedgerTx.Transaction.Payload
import LedgerTx.Transaction.Signed
import LedgerTx.Word64
import LedgerTx.Proofs.Bytes
import LedgerTx.Proofs.Cipher.Aes
import LedgerTx.Proofs.Cipher.Sealed
import LedgerTx.Proofs.Curve.Carry
import LedgerTx.Proofs.Curve.Checked
import LedgerTx.Proofs.Curve.Compressed
import LedgerTx.Proofs.Curve.Computation
import LedgerTx.Proofs.Curve.Edwards
import LedgerTx.Proofs.Curve.Field
import LedgerTx.Proofs.Curve.Group
import LedgerTx.Proofs.Curve.Order
import LedgerTx.Proofs.Curve.Prime
import LedgerTx.Proofs.Curve.Quotient
import LedgerTx.Proofs.Curve.Reachable
import LedgerTx.Proofs.Curve.Root
import LedgerTx.Proofs.Draft.Asset
import LedgerTx.Proofs.Draft.Build
import LedgerTx.Proofs.Draft.Checks
import LedgerTx.Proofs.Draft.Fee
import LedgerTx.Proofs.Draft.Listing
import LedgerTx.Proofs.Draft.Lock
import LedgerTx.Proofs.Draft.Metadata
import LedgerTx.Proofs.Draft.Naming
import LedgerTx.Proofs.Draft.Path
import LedgerTx.Proofs.Draft.Refusal
import LedgerTx.Proofs.Key.Agreement
import LedgerTx.Proofs.Key.Bytewise
import LedgerTx.Proofs.Key.Signature
import LedgerTx.Proofs.Key.Unique
import LedgerTx.Proofs.Layout.Contents
import LedgerTx.Proofs.Layout.Encoder
import LedgerTx.Proofs.Layout.FieldSet
import LedgerTx.Proofs.Layout.Fits
import LedgerTx.Proofs.Layout.Flat
import LedgerTx.Proofs.Layout.Parse
import LedgerTx.Proofs.Layout.Placement
import LedgerTx.Proofs.Layout.Position
import LedgerTx.Proofs.Layout.Prefix
import LedgerTx.Proofs.Layout.Refusal
import LedgerTx.Proofs.Layout.RoundTrip
import LedgerTx.Proofs.Layout.Select
import LedgerTx.Proofs.Layout.Shape
import LedgerTx.Proofs.Layout.Size
import LedgerTx.Proofs.Layout.Table
import LedgerTx.Proofs.Layout.Write
import LedgerTx.Proofs.Name.Address
import LedgerTx.Proofs.Name.Mosaic
import LedgerTx.Proofs.Name.Namespace
import LedgerTx.Proofs.Operation.Body
import LedgerTx.Proofs.Operation.Content
import LedgerTx.Proofs.Operation.Entry
import LedgerTx.Proofs.Operation.Holds
import LedgerTx.Proofs.Operation.Kind
import LedgerTx.Proofs.Operation.Oversized
import LedgerTx.Proofs.Operation.Sized
import LedgerTx.Proofs.Result
import LedgerTx.Proofs.Text.Base32
import LedgerTx.Proofs.Text.Digits
import LedgerTx.Proofs.Text.Hex
import LedgerTx.Proofs.Transaction.Assemble
import LedgerTx.Proofs.Transaction.Binding
import LedgerTx.Proofs.Transaction.Embedded
import LedgerTx.Proofs.Transaction.Embedding
import LedgerTx.Proofs.Transaction.Frame
import LedgerTx.Proofs.Transaction.Header
import LedgerTx.Proofs.Transaction.Outcome
import LedgerTx.Proofs.Transaction.Oversized
import LedgerTx.Proofs.Transaction.Payload
import LedgerTx.Proofs.Transaction.Position
import LedgerTx.Proofs.Transaction.Regions
import LedgerTx.Proofs.Transaction.Resign
import LedgerTx.Proofs.Transaction.Sequence
import LedgerTx.Proofs.Transaction.Signed
import LedgerTx.Proofs.Transaction.Sized
import LedgerTx.Proofs.Transaction.Target
import LedgerTx.Proofs.Transaction.Verify
