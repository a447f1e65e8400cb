import PeerLink.Config.File
import PeerLink.Proofs.Json.Numbers
import PeerLink.Proofs.Json.Settings
import PeerLink.Proofs.Text.Utf8
/-!
# Configuration files

A configuration is read from every file that names the settings in which it differs from the
defaults. The file may name other settings too, with the values of the configuration, and unknown
keys are skipped. The document of all settings is such a file.

## Main definitions

* `Config.settings`: the settings of a configuration with their readers and writers.
* `Config.FitsWords`: the integers of a configuration fit 64 bits.

## Main statements

* `Config.ofFile_of_names`: a configuration is read from every file that names what differs.
* `Config.readsBack_json`: the document of all settings is read back.
* `Config.files_of_validate`: both of these.
-/

namespace PeerLink

open Json

/-! ## Settings -/

/-- The settings of a connection. -/
def ConnectionConfig.settings : Settings ConnectionConfig.shape where
  places := [
    .text "url" (·.url) (fun v s => { s with url := v }) fun _ _ => rfl,
    .text "user" (·.user) (fun v s => { s with user := v }) fun _ _ => rfl,
    .text "password" (·.password) (fun v s => { s with password := v }) fun _ _ => rfl,
    .bool "verify_ssl" (·.verifySsl) (fun v s => { s with verifySsl := v }) fun _ _ => rfl,
    .natural "buffer_size" "usize" (·.bufferSize) (fun v s => { s with bufferSize := v })
      fun _ _ => rfl,
    .natural "min_backoff_ms" "u64" (·.minBackoffMs) (fun v s => { s with minBackoffMs := v })
      fun _ _ => rfl,
    .natural "max_backoff_ms" "u64" (·.maxBackoffMs) (fun v s => { s with maxBackoffMs := v })
      fun _ _ => rfl,
    .float "backoff_factor" (·.backoffFactor) (fun v s => { s with backoffFactor := v })
      fun _ _ => rfl,
    .bool "expect_success_on_probe" (·.expectSuccessOnProbe)
      (fun v s => { s with expectSuccessOnProbe := v }) fun _ _ => rfl]
  fields_eq := rfl
  apart := by simp [Place.apart_iff, Place.text, Place.bool, Place.natural, Place.float]
  ext s s' h := by
    cases s
    cases s'
    simpa [Place.text, Place.bool, Place.natural, Place.float] using h

/-- General settings. -/
def GeneralConfig.settings : Settings GeneralConfig.shape where
  places := [
    .bool "listen_only" (·.listenOnly) (fun v s => { s with listenOnly := v }) fun _ _ => rfl]
  fields_eq := rfl
  apart := List.pairwise_singleton _ _
  ext s s' h := by
    cases s
    cases s'
    simpa [Place.bool] using h

/-- The settings for callbacks. -/
def ExecutorConfig.settings : Settings ExecutorConfig.shape where
  places := [
    .natural "worker_threads" "usize" (·.workerThreads) (fun v s => { s with workerThreads := v })
      fun _ _ => rfl,
    .natural "slow_start_ms" "u64" (·.slowStartMs) (fun v s => { s with slowStartMs := v })
      fun _ _ => rfl,
    .natural "slow_exec_ms" "u64" (·.slowExecMs) (fun v s => { s with slowExecMs := v })
      fun _ _ => rfl]
  fields_eq := rfl
  apart := by simp [Place.apart_iff, Place.natural]
  ext s s' h := by
    cases s
    cases s'
    simpa [Place.natural] using h

/-- The settings for measuring. -/
def PingConfig.settings : Settings PingConfig.shape where
  places := [
    .bool "enabled" (·.enabled) (fun v s => { s with enabled := v }) fun _ _ => rfl,
    .text "item" (·.item) (fun v s => { s with item := v }) fun _ _ => rfl,
    .natural "interval_secs" "u64" (·.intervalSecs) (fun v s => { s with intervalSecs := v })
      fun _ _ => rfl]
  fields_eq := rfl
  apart := by simp [Place.apart_iff, Place.bool, Place.text, Place.natural]
  ext s s' h := by
    cases s
    cases s'
    simpa [Place.bool, Place.text, Place.natural] using h

/-- All settings, at two levels. -/
def Config.settings : Settings Config.shape where
  places := [
    .record "connection" ConnectionConfig.settings (·.connection)
      (fun v s => { s with connection := v }) fun _ _ => rfl,
    .record "general" GeneralConfig.settings (·.general) (fun v s => { s with general := v })
      fun _ _ => rfl,
    .record "executor" ExecutorConfig.settings (·.executor) (fun v s => { s with executor := v })
      fun _ _ => rfl,
    .record "ping" PingConfig.settings (·.ping) (fun v s => { s with ping := v }) fun _ _ => rfl]
  fields_eq := rfl
  apart := by simp [Place.apart_iff, Place.record]
  ext s s' h := by
    cases s
    cases s'
    simpa [Place.record] using h

/-! ## Reading -/

namespace Config

variable {c : Config} {s : String} {d : Draft}

/-- A valid configuration is read from every file that names what differs. -/
theorem ofFile_of_names (hvalid : c.validate = .ok ()) (hs : d.Spells s) (hd : settings.Names c d)
    (path : String) : Config.ofFile path (.bytes (Text.Utf8.encode s)) = .ok c := by
  have hread : readText reader s = .ok c :=
    (hs.readText reader).trans (settings.read_of_names hd hs.isWhole)
  simp only [ofFile, Text.Utf8.decode?_encode, ofText, hread, hvalid]
  rfl

/-! ## Writing -/

/-- The integers of a configuration fit 64 bits. -/
structure FitsWords (c : Config) : Prop where
  bufferSize : c.connection.bufferSize < 2 ^ 64
  minBackoffMs : c.connection.minBackoffMs < 2 ^ 64
  maxBackoffMs : c.connection.maxBackoffMs < 2 ^ 64
  workerThreads : c.executor.workerThreads < 2 ^ 64
  slowStartMs : c.executor.slowStartMs < 2 ^ 64
  slowExecMs : c.executor.slowExecMs < 2 ^ 64
  intervalSecs : c.ping.intervalSecs < 2 ^ 64

/-- The factor of a configuration is finite, and its text is read as the factor. -/
structure FactorReadsBack (c : Config) : Prop where
  finite : ∃ negative m e, c.connection.backoffFactor = .finite negative m e
  read : readText Reader.float (Json.Number.float c.connection.backoffFactor).compact =
    .ok c.connection.backoffFactor

theorem json_eq (c : Config) : c.json = settings.json c := by
  with_unfolding_all rfl

/-- The document of all settings is read back. -/
theorem readsBack_json (hfits : c.FitsWords) (hfactor : c.FactorReadsBack) : c.json.ReadsBack := by
  have hfloat := Number.readsBack_float hfactor.finite hfactor.read
  have hconnection : (ConnectionConfig.settings.json c.connection).ReadsBack :=
    Settings.readsBack_json (by
      simp [ConnectionConfig.settings, Place.text, Place.bool, Place.natural, Place.float,
        ReadsBack, hfloat, Number.readsBack_int hfits.bufferSize,
        Number.readsBack_int hfits.minBackoffMs, Number.readsBack_int hfits.maxBackoffMs])
  have hgeneral : (GeneralConfig.settings.json c.general).ReadsBack :=
    Settings.readsBack_json (by simp [GeneralConfig.settings, Place.bool, ReadsBack])
  have hexecutor : (ExecutorConfig.settings.json c.executor).ReadsBack :=
    Settings.readsBack_json (by
      simp [ExecutorConfig.settings, Place.natural, ReadsBack,
        Number.readsBack_int hfits.workerThreads, Number.readsBack_int hfits.slowStartMs,
        Number.readsBack_int hfits.slowExecMs])
  have hping : (PingConfig.settings.json c.ping).ReadsBack :=
    Settings.readsBack_json (by
      simp [PingConfig.settings, Place.bool, Place.text, Place.natural, ReadsBack,
        Number.readsBack_int hfits.intervalSecs])
  rw [json_eq]
  refine Settings.readsBack_json ?_
  simp only [settings, List.forall_mem_cons]
  exact ⟨hconnection, hgeneral, hexecutor, hping, List.forall_mem_nil _⟩

/-- A valid configuration is read from every spelling of an object that names settings with its
values, each at most once at its level, in any order and among unknown keys, and at least the
settings in which it differs from the defaults. In particular it is read from the document of all
its settings, if its integers fit 64 bits and its factor is finite and read from its text. -/
theorem files_of_validate (c : Config) (hvalid : c.validate = .ok ()) :
    (∀ (path s : String) (d : Draft), d.Spells s → settings.Names c d →
      Config.ofFile path (.bytes (Text.Utf8.encode s)) = .ok c) ∧
    settings.Names c c.json.draft ∧
    (c.FitsWords → c.FactorReadsBack →
      c.json.draft.Spells c.json.compact ∧
      ∀ path, Config.ofFile path (.bytes (Text.Utf8.encode c.json.compact)) = .ok c) := by
  have hnames : settings.Names c c.json.draft := json_eq c ▸ settings.names_json c
  refine ⟨fun path s d hs hd => ofFile_of_names hvalid hs hd path, hnames,
    fun hfits hfactor => ?_⟩
  have hspells := spells_compact c.json (readsBack_json hfits hfactor)
  exact ⟨hspells, ofFile_of_names hvalid hspells hnames⟩

/-- A file that names the address only, after an unknown key, and the document of all settings. -/
theorem files_of_validate_demo :
    let c : Config := { connection := { url := "http://demo" } }
    let partly : Json := .object
      [("extra", .array []), ("connection", .object [("url", .text "http://demo")])]
    ∀ path, Config.ofFile path (.bytes (Text.Utf8.encode partly.compact)) = .ok c ∧
      Config.ofFile path (.bytes (Text.Utf8.encode c.json.compact)) = .ok c := by
  intro c partly path
  obtain ⟨hload, -, hall⟩ := files_of_validate c rfl
  have hfits : c.FitsWords := by constructor <;> decide
  have hfactor : c.FactorReadsBack := by
    refine ⟨⟨_, _, _, rfl⟩, ?_⟩
    have htext : (Json.Number.float c.connection.backoffFactor).compact = "2.0" := by
      decide +kernel
    rw [htext]
    decide +kernel
  have hconnection : ConnectionConfig.settings.Names c.connection
      (.object (keyed [("url", .text (some "http://demo"))]) true) := by
    refine ⟨_, rfl, ?_⟩
    simp [ConnectionConfig.settings, Place.named_iff, Place.text, Place.bool, Place.natural,
      Place.float, c, ConnectionConfig.shape]
  have hpartly : partly.ReadsBack := ⟨trivial, ⟨trivial, trivial⟩, trivial⟩
  have hnames : settings.Names c partly.draft := by
    refine ⟨[("extra", .array [] true), ("connection",
      .object (keyed [("url", .text (some "http://demo"))]) true)], rfl, ?_⟩
    simp [settings, Place.named_iff, Place.record, c, shape, hconnection]
  exact ⟨hload path _ _ (spells_compact partly hpartly) hnames, (hall hfits hfactor).2 path⟩

end Config

end PeerLink
