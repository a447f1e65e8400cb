import PeerLink.Span
import PeerLink.Text.Blank
/-!
# Configuration

## Main definitions

* `Config`: all settings, each with a default.
* `Config.validate`: the settings that are refused.
* `ConfigError`: why a configuration cannot be used.
-/

namespace PeerLink

open Number

/-- Where the server is and how to keep the connection. -/
structure ConnectionConfig where
  /-- The address of the server; blank means that there is none. -/
  url : String := ""
  user : String := ""
  password : String := ""
  verifySsl : Bool := true
  /-- The number of bytes that a line of the event stream may have. -/
  bufferSize : Nat := 524288
  minBackoffMs : Nat := 1000
  maxBackoffMs : Nat := 32000
  backoffFactor : Binary64 := .finite false (twoPow 52) (-51)
  /-- Whether a status of 400 or more on the first probe means that the server is not ready. -/
  expectSuccessOnProbe : Bool := true
  deriving DecidableEq, Repr

namespace ConnectionConfig

/-- Whether there is a server to connect to. -/
def isConfigured (c : ConnectionConfig) : Bool := !(Text.trim c.url).isEmpty

/-- Whether a user or a password is given. -/
def hasCredentials (c : ConnectionConfig) : Bool := !c.user.isEmpty || !c.password.isEmpty

/-- The address without slashes at its end. -/
def baseUrl (c : ConnectionConfig) : String := Text.trimEndOf '/' (Text.trim c.url)

/-- The first delay before an attempt to connect. -/
def minBackoff (c : ConnectionConfig) : Span := .ofMillis c.minBackoffMs

/-- The longest delay before an attempt to connect. -/
def maxBackoff (c : ConnectionConfig) : Span := .ofMillis c.maxBackoffMs

end ConnectionConfig

/-- General settings. -/
structure GeneralConfig where
  /-- Whether nothing may be changed at the server. -/
  listenOnly : Bool := false
  deriving DecidableEq, Repr

/-- Settings for running callbacks. -/
structure ExecutorConfig where
  workerThreads : Nat := 10
  /-- How long a callback may wait for a worker before a warning. -/
  slowStartMs : Nat := 50
  /-- How long a callback may run before a warning. -/
  slowExecMs : Nat := 800
  deriving DecidableEq, Repr

namespace ExecutorConfig

/-- How long a callback may wait for a worker before a warning. -/
def slowStart (c : ExecutorConfig) : Span := .ofMillis c.slowStartMs

/-- How long a callback may run before a warning. -/
def slowExec (c : ExecutorConfig) : Span := .ofMillis c.slowExecMs

end ExecutorConfig

/-- Settings for measuring round trips. -/
structure PingConfig where
  enabled : Bool := true
  item : String := "HABApp_Ping"
  intervalSecs : Nat := 10
  deriving DecidableEq, Repr

/-- All settings. -/
structure Config where
  connection : ConnectionConfig := {}
  general : GeneralConfig := {}
  executor : ExecutorConfig := {}
  ping : PingConfig := {}
  deriving DecidableEq, Repr

/-! ## Validation -/

/-- A setting that is refused. -/
inductive InvalidSetting where
  | noWorkers
  | minAboveMax (minMs maxMs : Nat)
  | factorBelowOne
  | noBuffer
  deriving DecidableEq, Repr

/-- The wording of a refused setting. -/
def InvalidSetting.message : InvalidSetting → String
  | noWorkers => "executor.worker_threads must be greater than 0"
  | minAboveMax minMs maxMs =>
    "connection.min_backoff_ms (" ++ toString minMs ++ ") exceeds max_backoff_ms (" ++
      toString maxMs ++ ")"
  | factorBelowOne => "connection.backoff_factor must be at least 1.0"
  | noBuffer => "connection.buffer_size must be greater than 0"

/-- The first setting that is refused. -/
def Config.validate (c : Config) : Except InvalidSetting Unit :=
  if c.executor.workerThreads = 0 then .error .noWorkers
  else if c.connection.maxBackoffMs < c.connection.minBackoffMs then
    .error (.minAboveMax c.connection.minBackoffMs c.connection.maxBackoffMs)
  else if c.connection.backoffFactor = .nan ∨ c.connection.backoffFactor.ltNat 1 then
    .error .factorBelowOne
  else if c.connection.bufferSize = 0 then .error .noBuffer
  else .ok ()

end PeerLink
