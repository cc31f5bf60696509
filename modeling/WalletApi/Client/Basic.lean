import WalletApi.Auth.Headers
import WalletApi.Client.Config
import WalletApi.Client.Error
import WalletApi.Wallet.Reading
import WalletApi.Wallet.Writing

/-!
# The client

A client resolves endpoints below the address of its server, authenticates every request over
exactly the bytes of its body, hands it to a transport and reads the response. A request that cannot
be authenticated is not handed over. A call reports its result, what it logged and the request that
it handed over, if any.

The transport is given and answers at once. Building one is left out, and with it what the two times
of a configuration do and the fault of a transport that cannot be built; so are redirects, which a
transport follows by itself.
-/

namespace WalletApi

/-- **A client.** -/
structure Client where
  baseUrl : Url
  auth : Authenticator

/-- What a request asks the server to do with a resource. -/
inductive Method
  | get
  | post
  | patch
deriving DecidableEq

/-- The name of a method. -/
def Method.name : Method → String
  | .get => "GET"
  | .post => "POST"
  | .patch => "PATCH"

/-- **A request.** -/
structure Request where
  method : Method
  url : Url
  headers : HeaderMap
  /-- The bytes that follow the headers; a request without a body has none. -/
  body : Option Bytes

/-- A response. -/
structure Response where
  status : Nat
  body : Bytes

/-- What becomes of a request that is handed over. -/
inductive Delivery
  /-- The request does not reach the server. -/
  | unreachable
  /-- The server gets the request and does not answer. -/
  | unanswered
  | answered (response : Response)

/-- What becomes of each request. -/
abbrev Transport := Request → Delivery

/-- **The outcome of a call.** -/
structure Outcome (α : Type) where
  result : Except ClientError α
  log : List LogEvent
  /-- The requests that were handed to the transport. -/
  sent : List Request

namespace Outcome

variable {α β : Type}

/-- The outcome of a call that fails before a request is handed over. -/
def failed (e : ClientError) : Outcome α := ⟨.error e, [], []⟩

/-- The outcome of a call that goes on with the value of another one. -/
def bind (o : Outcome α) (f : α → Outcome β) : Outcome β :=
  match o.result with
  | .error e => ⟨.error e, o.log, o.sent⟩
  | .ok a => let p := f a; ⟨p.result, o.log ++ p.log, o.sent ++ p.sent⟩

/-- The outcome with another value. -/
def map (f : α → β) (o : Outcome α) : Outcome β := ⟨o.result.map f, o.log, o.sent⟩

/-- The requests of a call that reached the server. -/
def received (o : Outcome α) (transport : Transport) : List Request :=
  o.sent.filter fun r =>
    match transport r with
    | .unreachable => false
    | _ => true

end Outcome

namespace Client

/-! ### Making a client -/

/-- The address of a server, with its path closed by a slash so that endpoints are found below it.
-/
def readBaseUrl (s : String) : Except ClientError Url :=
  ((Url.ofText s).mapError ClientError.url).map Url.closePath

/-- **The client of a configuration.** The key is read before the address. -/
def ofConfig (config : ClientConfig) : Except ClientError Client × List LogEvent :=
  match Authenticator.ofCredential config.credential with
  | .error e => (.error (.auth e), [])
  | .ok auth =>
    match readBaseUrl config.baseUrl with
    | .error e => (.error e, [])
    | .ok url =>
      (.ok ⟨url, auth⟩,
        [{ level := .info
           message := "spv wallet client created"
           fields := [("base_url", url.text), ("mode", auth.mode.name)] }])

/-- The client that a builder has collected. -/
def ofBuilder (b : ClientBuilder) : Except ClientError Client × List LogEvent :=
  let (config, selected) := b.resolve
  let (client, log) := ofConfig config
  (client, selected ++ log)

/-! ### Requests -/

/-- The address of an endpoint below that of the server. -/
def url (c : Client) (endpoint : String) : Except ClientError Url :=
  (Url.resolve (some c.baseUrl) (String.ofList (endpoint.toList.dropWhile (· == '/')))).mapError
    ClientError.url

/-- The headers of every request before authentication. -/
def plainHeaders : HeaderMap := HeaderMap.empty.insert "content-type" "application/json"

/-- An authenticated request, whose headers cover the body. No bytes are no body. -/
def request (c : Client) (method : Method) (url : Url) (body : Bytes) (moment : Moment) :
    Except ClientError Request :=
  match c.auth.append plainHeaders body moment with
  | .error e => .error (.auth e)
  | .ok headers => .ok ⟨method, url, headers, if body = [] then none else some body⟩

/-- What is logged when a request is handed over. -/
def sendingEvent (c : Client) (method : Method) (url : Url) (body : Bytes) : LogEvent where
  level := .debug
  message := "sending request"
  fields :=
    [("method", method.name), ("url", url.text), ("mode", c.auth.mode.name),
      ("body_len", toString body.length)]

/-- **A request authenticated and handed over.** -/
def send (c : Client) (transport : Transport) (method : Method) (url : Url) (body : Bytes)
    (moment : Moment) : Outcome Response :=
  match c.request method url body moment with
  | .error e => .failed e
  | .ok r =>
    let result :=
      match transport r with
      | .answered response => .ok response
      | _ => .error .transport
    ⟨result, [c.sendingEvent method url body], [r]⟩

/-! ### Responses -/

/-- **The value of a response**, whose error statuses are told before its body is read as a value.
-/
def decode {α : Type} (r : Json.Reader α) (response : Response) : Outcome α :=
  if Status.isError response.status then
    { result := .error (.ofResponse response.status response.body)
      log :=
        [{ level := .debug
           message := "api error response"
           fields := [("status", Status.text response.status)] }]
      sent := [] }
  else ⟨(Json.read r response.body).mapError ClientError.reading, [], []⟩

/-- The bytes of a body. -/
def bodyOf (v : Json.Value) : Bytes := Utf8.encode v.chars

/-- The value that a request is answered with. -/
def exchange {α : Type} (c : Client) (transport : Transport) (r : Json.Reader α) (method : Method)
    (url : Url) (body : Bytes) (moment : Moment) : Outcome α :=
  (c.send transport method url body moment).bind (decode r)

/-- The value that a request to an endpoint is answered with. -/
def exchangeAt {α : Type} (c : Client) (transport : Transport) (r : Json.Reader α)
    (method : Method) (endpoint : String) (body : Bytes) (moment : Moment) : Outcome α :=
  match c.url endpoint with
  | .error e => .failed e
  | .ok url => c.exchange transport r method url body moment

/-- The response to a request to an endpoint, as it comes. -/
def rawAt (c : Client) (transport : Transport) (method : Method) (endpoint : String)
    (body : Bytes) (moment : Moment) : Outcome Response :=
  match c.url endpoint with
  | .error e => .failed e
  | .ok url => c.send transport method url body moment

/-! ### Calls -/

/-- The endpoint of transactions. -/
def transactionsEndpoint : String := "transactions"

/-- The endpoint of one transaction. -/
def transactionEndpoint (id : String) : String := transactionsEndpoint ++ "/" ++ id

/-- **One transaction.** -/
def transaction (c : Client) (transport : Transport) (id : String) (moment : Moment) :
    Outcome Transaction :=
  c.exchangeAt transport Transaction.reader .get (transactionEndpoint id) [] moment

/-- The address of a listing. -/
def listingUrl (c : Client) (q : TransactionsQuery) : Except ClientError Url := do
  let url ← c.url transactionsEndpoint
  let query ← q.encode.mapError ClientError.query
  if query = "" then pure url else pure (url.withQuery query.toList)

/-- **The transactions that a query asks for.** -/
def transactions (c : Client) (transport : Transport) (q : TransactionsQuery) (moment : Moment) :
    Outcome (List Transaction) :=
  match c.listingUrl q with
  | .error e => .failed e
  | .ok url =>
    (c.exchange transport (PageModel.reader Transaction.reader) .get url [] moment).map
      PageModel.content

/-- **A new draft.** -/
def draftTransaction (c : Client) (transport : Transport) (r : DraftTransactionRequest)
    (moment : Moment) : Outcome DraftTransaction :=
  c.exchangeAt transport DraftTransaction.reader .post (transactionsEndpoint ++ "/drafts")
    (bodyOf r.toValue) moment

/-- **A transaction recorded.** -/
def recordTransaction (c : Client) (transport : Transport) (r : RecordTransactionRequest)
    (moment : Moment) : Outcome Transaction :=
  c.exchangeAt transport Transaction.reader .post transactionsEndpoint (bodyOf r.toValue) moment

/-- **A transaction with new metadata.** -/
def updateTransactionMetadata (c : Client) (transport : Transport)
    (r : UpdateTransactionMetadataRequest) (moment : Moment) : Outcome Transaction :=
  c.exchangeAt transport Transaction.reader .patch (transactionEndpoint r.id) (bodyOf r.toValue)
    moment

/-- **The settings that the server shares.** -/
def sharedConfig (c : Client) (transport : Transport) (moment : Moment) : Outcome SharedConfig :=
  c.exchangeAt transport SharedConfig.reader .get "configs/shared" [] moment

end Client

end WalletApi
