import WalletApi.Auth.Credential
import WalletApi.Auth.Error
import WalletApi.Auth.Headers
import WalletApi.Auth.Message
import WalletApi.Auth.Payload
import WalletApi.Bytes
import WalletApi.Calendar.Date
import WalletApi.Calendar.Timestamp
import WalletApi.Client.Basic
import WalletApi.Client.Config
import WalletApi.Client.Error
import WalletApi.Client.Status
import WalletApi.Curve.Modular
import WalletApi.Curve.Point
import WalletApi.Curve.Signature
import WalletApi.Decimal.Binary64
import WalletApi.Decimal.Shortest
import WalletApi.Hash.Hmac
import WalletApi.Hash.Padding
import WalletApi.Hash.Ripemd160
import WalletApi.Hash.Sha256
import WalletApi.Hash.Sha512
import WalletApi.Inspect
import WalletApi.Json.Document
import WalletApi.Json.Error
import WalletApi.Json.Number
import WalletApi.Json.Reader
import WalletApi.Json.Value
import WalletApi.Key.Child
import WalletApi.Key.Extended
import WalletApi.Key.Secret
import WalletApi.Log
import WalletApi.Query
import WalletApi.Settings.Basic
import WalletApi.Settings.Fault
import WalletApi.Settings.Flat
import WalletApi.Settings.Toml
import WalletApi.Settings.Value
import WalletApi.SortedMap
import WalletApi.Text.Base58
import WalletApi.Text.Base64
import WalletApi.Text.Blank
import WalletApi.Text.Hex
import WalletApi.Text.Printable
import WalletApi.Text.Quoted
import WalletApi.Text.Utf8
import WalletApi.Url.Basic
import WalletApi.Url.Form
import WalletApi.Url.Host
import WalletApi.Url.Percent
import WalletApi.Url.Reading
import WalletApi.Wallet.Reading
import WalletApi.Wallet.Record
import WalletApi.Wallet.Showing
import WalletApi.Wallet.Writing
import WalletApi.Proofs.Curve.Modular
import WalletApi.Proofs.Curve.Primality
import WalletApi.Proofs.Curve.Group
import WalletApi.Proofs.Curve.Compressed
import WalletApi.Proofs.Curve.Order
import WalletApi.Proofs.Key.Derivation
import WalletApi.Proofs.Key.Text
import WalletApi.Proofs.Auth.Headers
import WalletApi.Proofs.Curve.Signature
import WalletApi.Proofs.Auth.HeaderValues
import WalletApi.Proofs.Auth.Message
import WalletApi.Proofs.Auth.Verification
import WalletApi.Proofs.Url.Relative
import WalletApi.Proofs.Client.Requests
import WalletApi.Proofs.Client.Runs
import WalletApi.Proofs.Auth.SignedText
import WalletApi.Proofs.Client.Freshness
import WalletApi.Proofs.Url.Paths
import WalletApi.Proofs.Url.Segment
import WalletApi.Proofs.Client.Resources
import WalletApi.Proofs.Url.Form
import WalletApi.Proofs.Text.Utf8Order
import WalletApi.Proofs.Url.Closing
import WalletApi.Proofs.Client.Listing
import WalletApi.Proofs.Auth.Failures
import WalletApi.Proofs.Client.Redaction
import WalletApi.Proofs.Client.Secrets
import WalletApi.Proofs.Query.Names
import WalletApi.Proofs.Auth.Causes
import WalletApi.Proofs.Text.Digits
import WalletApi.Proofs.Json.Scalars
import WalletApi.Proofs.Json.Documents
import WalletApi.Proofs.Json.Restoring
import WalletApi.Proofs.Json.Records
import WalletApi.Proofs.Calendar.Timestamps
import WalletApi.Proofs.Wallet.RoundTrip
import WalletApi.Proofs.Client.Decoding
import WalletApi.Proofs.Auth.Binding
import WalletApi.Proofs.Text.Hex
import WalletApi.Proofs.Key.Secret
import WalletApi.Proofs.Key.SharedPaths
import WalletApi.Proofs.Key.Steps
import WalletApi.Proofs.Key.Extended
import WalletApi.Proofs.Client.Identity
import WalletApi.Proofs.Url.Parts
import WalletApi.Proofs.Url.TrailingSlash
import WalletApi.Proofs.Client.Endpoints
import WalletApi.Proofs.Query.Places
import WalletApi.Proofs.Query.Depth
import WalletApi.Proofs.Client.Builder
import WalletApi.Proofs.Settings.Layers
import WalletApi.Proofs.Json.Members
import WalletApi.Proofs.Json.Rearranging
import WalletApi.Proofs.Json.Revising
import WalletApi.Proofs.Json.Shuffling
import WalletApi.Proofs.Json.Repeating
import WalletApi.Proofs.Wallet.Responses
import WalletApi.Proofs.Key.Descent
