import WalletApi.Auth.Error
import WalletApi.Client.Status
import WalletApi.Json.Reader
import WalletApi.Query
import WalletApi.Settings.Fault
import WalletApi.Url.Reading

/-!
# Errors of the client

What a call of the client can end in, other than its value. An error status of the server becomes an
`api` error when the body of the response tells a code and a message, whatever else it holds.
-/

namespace WalletApi

/-- **Why a call failed.** -/
inductive ClientError
  | auth (error : AuthError)
  /-- The exchange with the server failed. -/
  | transport
  /-- The server answered with an error. -/
  | api (status : Nat) (code message : String)
  /-- The body of a response could not be read. -/
  | reading (error : Json.ReadError)
  | url (fault : Url.ReadFault)
  /-- The server answered with an error whose body could not be read. -/
  | invalidResponse (status : Nat) (error : Json.ReadError)
  | settings (fault : SettingsFault)
  | query (fault : QueryFault)

/-- The code and the message of an error that the server reports. -/
structure ReportedError where
  code : String
  message : String

/-- An error that the server reports; both parts may be missing. -/
def ReportedError.reader : Json.Reader ReportedError :=
  Json.Fields.record "ResponseError"
    (Json.Fields.pure ReportedError.mk
      |>.and (Json.Fields.withDefault "code" Json.Reader.string "")
      |>.and (Json.Fields.withDefault "message" Json.Reader.string ""))

/-- The wording of a fault of a text that is no JSON, which does not tell the place. -/
def Json.ReadError.message : Json.ReadError → String
  | .fault .malformed => "malformed text"
  | .fault .truncated => "text ends too early"
  | .mismatch m => m.message

namespace ClientError

/-- The wording of an error. -/
def message : ClientError → String
  | .auth error => "Authentication error: " ++ error.message
  | .transport => "HTTP request failed"
  | .api status code message =>
    "API error (status " ++ toString status ++ ", code " ++ code ++ "): " ++ message
  | .reading error => "Serialization error: " ++ error.message
  | .url fault => "Invalid URL: " ++ fault.message
  | .invalidResponse status error =>
    "Invalid response: status " ++ Status.text status ++ " with undecodable error body: "
      ++ error.message
  | .settings fault => "Configuration error: " ++ fault.message
  | .query fault => "Query build error: " ++ fault.message

/-- The sender was not recognised, by the library or by the server. -/
def isAuthError : ClientError → Bool
  | .auth _ => true
  | .api status _ _ => status == Status.unauthorized
  | _ => false

/-- The status of an error that the server reports. -/
def status? : ClientError → Option Nat
  | .api status _ _ => some status
  | _ => none

/-- The error of a response with an error status. -/
def ofResponse (status : Nat) (body : Bytes) : ClientError :=
  match Json.read ReportedError.reader body with
  | .ok e => .api status e.code e.message
  | .error e => .invalidResponse status e

end ClientError

end WalletApi
