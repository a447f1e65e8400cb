import PeerLink.Proofs.Bridge.Pacing
import PeerLink.Proofs.Connection.Endurance
/-!
# The end of the supervisor

The supervisor draws a delay for every attempt, and it dies if the delay overflows. The checks of
the configuration do not prevent this, since the factor has no upper bound. If the timers of all
configurations last, only `shutdown` ends the supervisor.

## Main statements

* `Handled.Regular.endures`: a command preserves that the timer lasts.
* `World.alive_iff_of_course`: how the supervisor ends on a course with such configurations.
* `World.endurance_of_ofFile`: the configurations of files whose timers last.
-/

namespace PeerLink.Bridge

open Transport Connection

/-- A regular command preserves that the timer lasts, if each configuration that a session is opened
with has such a timer, and its delay does not overflow. -/
theorem Handled.Regular.endures {d : Handled} (h : d.Regular)
    (hb : d.before.supervisor.backoff.Endures) (hopen : ∀ c, d.opens? = some c → c.Lasts) :
    ¬d.Overflows ∧ d.after.supervisor.backoff.Endures := by
  have hgrown : ∀ b, d.before.supervisor.grown? d.before.opened d.command = some b → b.Endures := by
    intro b hg
    rw [h.grown?_eq, Option.or_eq_some_iff, Option.map_eq_some_iff] at hg
    rcases hg with ⟨c, hc, rfl⟩ | ⟨-, hg⟩
    · exact Backoff.endures_ofConfig (hopen c hc)
    · exact Option.some.inj (Option.ite_none_right_eq_some.1 hg).2 ▸ hb
  constructor
  · rintro ⟨b, hg, hnext⟩
    have hsome := (hgrown b hg).isSome_next?
    rw [hnext] at hsome
    cases hsome
  · have hpace := h.pace_eq
    cases hg : d.before.supervisor.grown? d.before.opened d.command with
    | some b =>
      rw [hg] at hpace
      rw [show d.after.supervisor.backoff = b.draw.2 from congrArg Prod.snd hpace]
      exact (hgrown b hg).draw
    | none =>
      obtain ⟨-, hafter⟩ := h.rests hg
      rw [hafter]
      split
      · exact hb.reset
      · exact hb

namespace World

variable {w w' : World} {log : List Handled}

/-- On a run on which each configuration that a session is opened with lasts, no delay overflows. -/
theorem endures_of_run (h : w.Sound) (hb : w.supervisor.backoff.Endures) (g : Run w log w')
    (hlog : ∀ d ∈ log, ∀ c, d.opens? = some c → c.Lasts) :
    w'.supervisor.backoff.Endures ∧ ∀ d ∈ log, ¬d.Overflows := by
  induction g with
  | start => exact ⟨hb, List.forall_mem_nil _⟩
  | step g hm ih =>
    rw [List.forall_mem_append] at hlog
    obtain ⟨hbefore, hpast⟩ := ih hlog.1
    rcases (h.run g).regular_or hm with ⟨rfl, heq⟩ | ⟨d, rfl, hd, rfl, rfl⟩
    · rw [heq, List.append_nil]
      exact ⟨hbefore, hpast⟩
    · obtain ⟨hover, hafter⟩ := hd.endures hbefore (hlog.2 d (List.mem_singleton_self d))
      exact ⟨hafter, List.forall_mem_append.2 ⟨hpast, List.forall_mem_singleton.2 hover⟩⟩

section

variable (config : Config) (script : Peer.Script) (plugins : List Plugin) (pingStart : Span)

/-- On a course of a bridge whose configurations last, the supervisor is dead exactly if it has
taken `shutdown`. -/
theorem alive_iff_of_course (hconfig : config.connection.Lasts) (os : List Occurrence)
    (hos : ∀ d ∈ (launch config script plugins pingStart).taken os,
      ∀ c, d.opens? = some c → c.Lasts) :
    let start := launch config script plugins pingStart
    (start.course os).supervisor.alive ↔ ∀ d ∈ start.taken os, d.command.isShutdown = false := by
  intro start
  obtain ⟨_, _, _, hlaunch⟩ := launch_spec config script plugins pingStart
  have hsound : start.Sound := sound_launch
  have hrun : Run start (start.taken os) (start.course os) := run_course hsound.tidy os
  have halive : start.supervisor.alive := by
    rw [show start = _ from hlaunch]
    rfl
  have hb : start.supervisor.backoff.Endures := by
    rw [show start = _ from hlaunch]
    exact Backoff.endures_ofConfig hconfig
  obtain ⟨-, hover⟩ := endures_of_run hsound hb hrun hos
  rw [hsound.alive_iff_of_run hrun]
  exact ⟨fun hlog d hd => (hlog.2 d hd).1,
    fun hlog => ⟨halive, fun d hd => ⟨hlog d hd, hover d hd⟩⟩⟩

end

/-- The timer of a configuration from a file endures all operations exactly if its delays never end.
They never end if the maximum delay can be multiplied by the factor, which holds for every factor
below one thousand. The supervisor of a bridge with such a configuration, and with such
configurations for all later sessions, is alive until it takes `shutdown`. -/
theorem endurance_of_ofFile {path : String} {content : FileContent} {config : Config}
    (h : Config.ofFile path content = .ok config) :
    let c := config.connection
    ((∀ us, ((Backoff.ofConfig c).uses? us).isSome) ↔ c.Lasts) ∧
    ((c.maxBackoff.grow? c.backoffFactor).isSome → c.Lasts) ∧
    (c.backoffFactor.ltNat 1000 → (c.maxBackoff.grow? c.backoffFactor).isSome) ∧
    (c.Lasts → ∀ script plugins pingStart os,
      let start := launch config script plugins pingStart
      (∀ d ∈ start.taken os, ∀ c', d.opens? = some c' → c'.Lasts) →
      ((start.course os).supervisor.alive ↔
        ∀ d ∈ start.taken os, d.command.isShutdown = false)) := by
  intro c
  obtain ⟨hvalid, hrange⟩ := Config.ranges_of_ofFile h
  obtain ⟨hmax, hfactor⟩ := Backoff.ofConfig_of_validate hvalid
  refine ⟨Backoff.isSome_uses_iff c, fun hgrow => ?_,
    ConnectionConfig.isSome_grow?_of_ltNat hvalid hrange,
    fun hc script plugins pingStart os => alive_iff_of_course config script plugins pingStart hc os⟩
  exact ConnectionConfig.lasts_of_grow? (by rwa [hmax, hfactor])

/-- A file that sets the server only. -/
def plainFile : FileContent :=
  .bytes (Text.Utf8.encode "\x7b\"connection\":\x7b\"url\":\"http://demo\"\x7d\x7d")

/-- The configuration of `plainFile`. -/
def plain : Config := { connection := { url := "http://demo" } }

/-- The supervisor of a bridge with `plain` stays alive while attempts fail. -/
theorem endurance_of_ofFile_demo :
    let os := [.go supervisorId, .go 1, .go 1, .go supervisorId, .go supervisorId, .go supervisorId]
    Config.ofFile "peer.json" plainFile = .ok plain ∧ plain.connection.Lasts ∧
    (lonely.course os).supervisor.alive := by
  intro os
  have hfile : Config.ofFile "peer.json" plainFile = .ok plain := by decide +kernel
  obtain ⟨-, hlasts, hgrow, hcourse⟩ := endurance_of_ofFile hfile
  have hlasts := hlasts (hgrow (by decide +kernel))
  have hopened : ∀ d ∈ lonely.taken os, d.opens?.all (· = plain.connection) := by decide +kernel
  have hshut : ∀ d ∈ lonely.taken os, d.command.isShutdown = false := by decide +kernel
  have hlonely : launch plain {} [] ⟨0⟩ = lonely := rfl
  have halive := hcourse hlasts {} [] ⟨0⟩ os
  rw [hlonely] at halive
  refine ⟨hfile, hlasts, (halive fun d hd c hc => ?_).2 hshut⟩
  have hsame := hopened d hd
  rw [hc, Option.all_some, decide_eq_true_eq] at hsame
  exact hsame ▸ hlasts

/-- A file that sets the server and a factor by which every delay overflows. -/
def steepFile : FileContent :=
  .bytes (Text.Utf8.encode
    "\x7b\"connection\":\x7b\"url\":\"http://demo\",\"backoff_factor\":1e300\x7d\x7d")

/-- The configuration of `steepFile`, with the factor `1e300`. -/
def steep : Config :=
  { connection := { url := "http://demo", backoffFactor := .finite false 6724873095247260 944 } }

/-- `steepFile` passes all checks, and the supervisor dies of the first delay it draws. -/
theorem ends_of_steep_factor :
    Config.ofFile "peer.json" steepFile = .ok steep ∧
    (Backoff.ofConfig steep.connection).next? = none ∧
    let start := launch steep {} [] ⟨0⟩
    (start.course [.go supervisorId]).supervisor.alive = false ∧
    ∀ d ∈ start.taken [.go supervisorId], d.command.isShutdown = false := by
  decide +kernel

end World

end PeerLink.Bridge
