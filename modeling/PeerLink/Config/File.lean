import PeerLink.Config.Basic
import PeerLink.Json.Shape
import PeerLink.Text.Utf8
/-!
# Configuration files

A file is one JSON document that names the settings that differ from the defaults.

## Main definitions

* `Config.reader`: the settings of a document.
* `Config.json`: the document of all settings.
* `Config.ofFile`: the configuration of a file with some content, or why there is none.
-/

namespace PeerLink

open Json RecordShape

/-- How the settings of a connection are written. -/
def ConnectionConfig.shape : RecordShape ConnectionConfig where
  name := "ConnectionConfig"
  fields := [
    field "url" false Reader.text fun v s => { s with url := v },
    field "user" false Reader.text fun v s => { s with user := v },
    field "password" false Reader.text fun v s => { s with password := v },
    field "verify_ssl" false Reader.bool fun v s => { s with verifySsl := v },
    field "buffer_size" false (Reader.natural "usize") fun v s => { s with bufferSize := v },
    field "min_backoff_ms" false (Reader.natural "u64") fun v s => { s with minBackoffMs := v },
    field "max_backoff_ms" false (Reader.natural "u64") fun v s => { s with maxBackoffMs := v },
    field "backoff_factor" false Reader.float fun v s => { s with backoffFactor := v },
    field "expect_success_on_probe" false Reader.bool fun v s =>
      { s with expectSuccessOnProbe := v }]
  blank := {}

/-- How general settings are written. -/
def GeneralConfig.shape : RecordShape GeneralConfig where
  name := "GeneralConfig"
  fields := [field "listen_only" false Reader.bool fun v s => { s with listenOnly := v }]
  blank := {}

/-- How the settings for callbacks are written. -/
def ExecutorConfig.shape : RecordShape ExecutorConfig where
  name := "ExecutorConfig"
  fields := [
    field "worker_threads" false (Reader.natural "usize") fun v s => { s with workerThreads := v },
    field "slow_start_ms" false (Reader.natural "u64") fun v s => { s with slowStartMs := v },
    field "slow_exec_ms" false (Reader.natural "u64") fun v s => { s with slowExecMs := v }]
  blank := {}

/-- How the settings for measuring are written. -/
def PingConfig.shape : RecordShape PingConfig where
  name := "PingConfig"
  fields := [
    field "enabled" false Reader.bool fun v s => { s with enabled := v },
    field "item" false Reader.text fun v s => { s with item := v },
    field "interval_secs" false (Reader.natural "u64") fun v s => { s with intervalSecs := v }]
  blank := {}

/-- How all settings are written. -/
def Config.shape : RecordShape Config where
  name := "Config"
  fields := [
    field "connection" false (Reader.recordText ConnectionConfig.shape) fun v s =>
      { s with connection := v },
    field "general" false (Reader.recordText GeneralConfig.shape) fun v s =>
      { s with general := v },
    field "executor" false (Reader.recordText ExecutorConfig.shape) fun v s =>
      { s with executor := v },
    field "ping" false (Reader.recordText PingConfig.shape) fun v s => { s with ping := v }]
  blank := {}

/-- The settings of a document. -/
def Config.reader : Reader Config := Reader.recordText Config.shape

/-! ## Writing -/

/-- An integer as a value. -/
def natJson (n : Nat) : Json := .number (.int n)

/-- The document of the settings of a connection. -/
def ConnectionConfig.json (c : ConnectionConfig) : Json := .ofMembers [
  ("url", .text c.url), ("user", .text c.user), ("password", .text c.password),
  ("verify_ssl", .bool c.verifySsl), ("buffer_size", natJson c.bufferSize),
  ("min_backoff_ms", natJson c.minBackoffMs), ("max_backoff_ms", natJson c.maxBackoffMs),
  ("backoff_factor", .number (.float c.backoffFactor)),
  ("expect_success_on_probe", .bool c.expectSuccessOnProbe)]

/-- The document of general settings. -/
def GeneralConfig.json (c : GeneralConfig) : Json :=
  .ofMembers [("listen_only", .bool c.listenOnly)]

/-- The document of the settings for callbacks. -/
def ExecutorConfig.json (c : ExecutorConfig) : Json := .ofMembers [
  ("worker_threads", natJson c.workerThreads), ("slow_start_ms", natJson c.slowStartMs),
  ("slow_exec_ms", natJson c.slowExecMs)]

/-- The document of the settings for measuring. -/
def PingConfig.json (c : PingConfig) : Json := .ofMembers [
  ("enabled", .bool c.enabled), ("item", .text c.item), ("interval_secs", natJson c.intervalSecs)]

/-- The document of all settings. -/
def Config.json (c : Config) : Json := .ofMembers [
  ("connection", c.connection.json), ("general", c.general.json), ("executor", c.executor.json),
  ("ping", c.ping.json)]

/-! ## Files -/

/-- Why a file gives no configuration. -/
inductive ConfigError where
  /-- There is no file. -/
  | notFound (path : String)
  /-- The file cannot be read as a text. -/
  | unreadable (path cause : String)
  /-- The text has not the expected shape. -/
  | parse (path : String) (m : Mismatch)
  /-- A setting is refused. -/
  | invalid (s : InvalidSetting)
  deriving DecidableEq, Repr

/-- The wording of a fault. -/
def ConfigError.message : ConfigError → String
  | notFound path => "configuration file not found: " ++ path
  | unreadable path cause => "failed to read " ++ path ++ ": " ++ cause
  | parse path m => "failed to parse " ++ path ++ ": " ++ m.message
  | invalid s => "invalid configuration: " ++ s.message

/-- What there is under a path. -/
inductive FileContent where
  | missing
  /-- Something that cannot be read. -/
  | unreadable (cause : String)
  | bytes (content : Text.Utf8.Bytes)
  deriving DecidableEq, Repr

/-- What is wrong with a file that is no text. -/
def notUtf8 : String := "stream did not contain valid UTF-8"

/-- The configuration that a text gives. -/
def Config.ofText (path s : String) : Except ConfigError Config :=
  match readText Config.reader s with
  | .error m => .error (.parse path m)
  | .ok c => (c.validate.mapError .invalid).map fun _ => c

/-- The configuration that a file gives. -/
def Config.ofFile (path : String) : FileContent → Except ConfigError Config
  | .missing => .error (.notFound path)
  | .unreadable cause => .error (.unreadable path cause)
  | .bytes content => match Text.Utf8.decode? content with
    | none => .error (.unreadable path notUtf8)
    | some s => Config.ofText path s

/-- Whether a configuration is read back unchanged from the document of all its settings. -/
def Config.roundTrips (c : Config) : Bool :=
  match readText Config.reader c.json.compact with
  | .ok c' => c' = c
  | .error _ => false

end PeerLink
