import Provenance.Fault
import Provenance.Octets
import Provenance.Text.Utf8
import Provenance.Text.Quoted
import Provenance.Text.Base64
import Provenance.Text.Json
import Provenance.Binary64.Shortest
import Provenance.Calendar.Timestamp
import Provenance.Asn1.Time
import Provenance.Asn1.Oid
import Provenance.Asn1.Scan
import Provenance.Cbor.Reader
import Provenance.Cbor.Record
import Provenance.Cbor.Cursor
import Provenance.Key.Signature
import Provenance.Envelope
import Provenance.Envelope.Signer
import Provenance.Certificate.Pem
import Provenance.SecurityObject
import Provenance.IssuerAuth
import Provenance.IssuerList.Signed
import Provenance.Trust.AnchorList
import Provenance.Trust.Verdict
import Provenance.Main
import Provenance.Proofs.Trust.Checks
import Provenance.Proofs.Trust.Stores
import Provenance.Proofs.Trust.Verdicts
import Provenance.Proofs.Trust.Ascent
import Provenance.Proofs.Trust.Histories
import Provenance.Proofs.Faults
import Provenance.Proofs.Cbor.Fields
import Provenance.Proofs.Envelope.Signers
import Provenance.Proofs.Octets
import Provenance.Proofs.Text
import Provenance.Proofs.Cbor.Grammar
import Provenance.Proofs.Cbor.Heads
import Provenance.Proofs.Cbor.Strings
import Provenance.Proofs.Cbor.Containers
import Provenance.Proofs.Cbor.Reading
import Provenance.Proofs.Cbor.Parts
import Provenance.Proofs.Cbor.Writing
import Provenance.Proofs.Cbor.Language
import Provenance.Proofs.Binary64
import Provenance.Proofs.Cbor.RoundTrip
import Provenance.Proofs.IssuerList.Authenticity
import Provenance.Proofs.Envelope.RoundTrip
import Provenance.Proofs.IssuerList.RoundTrip
import Provenance.Proofs.Cbor.Prefixes
import Provenance.Proofs.Envelope.Binding
import Provenance.Proofs.Envelope.Signing
import Provenance.Proofs.Cbor.Records
import Provenance.Proofs.SecurityObject.Schema
import Provenance.Proofs.Cbor.Rearranging
import Provenance.Proofs.SecurityObject.Order
import Provenance.Proofs.IssuerAuth.Authenticity
import Provenance.Proofs.Cbor.Unambiguity
import Provenance.Proofs.Cbor.Shortest
import Provenance.Proofs.Cbor.Canonical
import Provenance.Proofs.Text.Utf8
import Provenance.Proofs.Text.Lines
import Provenance.Proofs.Cbor.Truncation
import Provenance.Proofs.Cbor.Cursor
import Provenance.Proofs.SecurityObject.Digests
import Provenance.Proofs.Trust.Precedence
import Provenance.Proofs.Trust.Stability
import Provenance.Proofs.Cbor.WellFormed
import Provenance.Proofs.Envelope.Reencoding
import Provenance.Asn1.TimeBounded
import Provenance.Proofs.Text.Ascii
import Provenance.Proofs.Asn1.Time
import Provenance.Proofs.Asn1.TimeBounded
import Provenance.Proofs.Asn1.TimeRoundTrip
import Provenance.Proofs.Key.Maps
import Provenance.Proofs.IssuerList.Schema
import Provenance.Proofs.IssuerList.Order
import Provenance.Proofs.Cbor.Dates
import Provenance.Proofs.Key.Framing
import Provenance.Proofs.Calendar.Order
import Provenance.Proofs.Certificate.Validity
import Provenance.Proofs.Command.Reports
import Provenance.Proofs.Command.Verification
import Provenance.Proofs.Command.Answers
import Provenance.Proofs.Trust.Appended
import Provenance.Proofs.Trust.Locality
import Provenance.Proofs.Key.Conversion
import Provenance.Proofs.Cbor.Alike
import Provenance.Proofs.Cbor.Merging
import Provenance.Proofs.Key.Merging
import Provenance.Proofs.Cbor.Magnitudes
import Provenance.Proofs.IssuerList.Serials
import Provenance.Proofs.Cbor.Nodes
import Provenance.Proofs.Cbor.Steps
import Provenance.Proofs.Cbor.Bounds
