import WalletApi.Auth.Credential

/-!
# The configuration of a client

A client is configured with the address of its server, how long it waits, and at most one
credential. A builder collects these one by one; of the credentials that are given to the builder
itself the one that wins replaces that of its configuration.

Times are whole milliseconds. Spans with a part below that are left out: a configuration here cannot
hold one, and how one would be shown is not described.
-/

namespace WalletApi

/-- A span of time in whole milliseconds. -/
abbrev Duration := Nat

/-- How a span of time is shown: in seconds, or in milliseconds below one. -/
def Duration.shown (d : Duration) : Shown :=
  let fraction := d % 1000
  let digits := (toString (1000 + fraction)).toList.drop 1
  let trimmed := (digits.reverse.dropWhile (· == '0')).reverse
  if d = 0 then .atom "0ns"
  else if d < 1000 then .atom (toString d ++ "ms")
  else if fraction = 0 then .atom (toString (d / 1000) ++ "s")
  else .atom (toString (d / 1000) ++ "." ++ String.ofList trimmed ++ "s")

/-- **The configuration of a client.** -/
structure ClientConfig where
  baseUrl : String
  timeout : Duration
  connectTimeout : Duration
  credential : Option Credential
deriving DecidableEq

/-- The configuration without any setting. -/
def ClientConfig.default : ClientConfig := ⟨"http://localhost:3003/api/v1", 60000, 10000, none⟩

/-- How a configuration is shown. -/
def ClientConfig.shown (c : ClientConfig) : Shown :=
  .record "ClientConfig"
    [("base_url", .quoted c.baseUrl), ("timeout", Duration.shown c.timeout),
      ("connect_timeout", Duration.shown c.connectTimeout),
      ("credential", .option Credential.shown c.credential)]

/-- **What a builder has collected.** -/
structure ClientBuilder where
  config : ClientConfig
  xpriv : Option String
  xpub : Option String
  accessKey : Option String
deriving DecidableEq

namespace ClientBuilder

/-- A builder that has collected nothing. -/
def empty : ClientBuilder := ⟨.default, none, none, none⟩

/-- One call of a builder. -/
inductive Step
  | config (config : ClientConfig)
  | baseUrl (url : String)
  | timeout (d : Duration)
  | connectTimeout (d : Duration)
  | xpriv (text : String)
  | xpub (text : String)
  | accessKey (text : String)
deriving DecidableEq

/-- The builder after a call. -/
def apply (b : ClientBuilder) : Step → ClientBuilder
  | .config config => { b with config := config }
  | .baseUrl url => { b with config.baseUrl := url }
  | .timeout d => { b with config.timeout := d }
  | .connectTimeout d => { b with config.connectTimeout := d }
  | .xpriv text => { b with xpriv := some text }
  | .xpub text => { b with xpub := some text }
  | .accessKey text => { b with accessKey := some text }

/-- The configuration that a builder has collected. -/
def resolve (b : ClientBuilder) : ClientConfig × List LogEvent :=
  let (selected, log) := Credential.select b.xpriv b.xpub b.accessKey
  match selected with
  | some c => ({ b.config with credential := some c }, log)
  | none => (b.config, log)

/-- How a builder is shown. -/
def shown (b : ClientBuilder) : Shown :=
  .record "ClientBuilder"
    [("config", b.config.shown), ("xpriv", Credential.shownSecret b.xpriv),
      ("xpub", .option .quoted b.xpub), ("access_key", Credential.shownSecret b.accessKey)]

end ClientBuilder

end WalletApi
