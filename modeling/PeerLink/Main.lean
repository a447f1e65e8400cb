import PeerLink.Bridge.Step
import PeerLink.CommandLine.Arguments
import PeerLink.CommandLine.Version
import PeerLink.Config.File
/-!
# Program

The command line of the bridge. The server is a scripted one without answers, so a run shows how the
bridge starts and stops with a configuration.

## Main definitions

* `transcript`: the log of a start and a stop.
* `main`: does what the arguments ask for.
-/

namespace PeerLink

open Bridge

/-- What is logged when the bridge is started with a configuration and stopped again. -/
def transcript (config : Config) : List LogLine :=
  let started := World.start config {} [.ping] Ping.startDelay
  let stopped := (started.run .shutdown).1
  started.trace.log ++ stopped.trace.log

/-- What there is under a path. -/
def readPath (path : String) : IO FileContent := do
  try
    return .bytes (← IO.FS.readBinFile path).toList
  catch
    | .noFileOrDirectory .. => return .missing
    | e => return .unreadable (toString e)

/-- The configuration of a file, or the defaults where none is named. -/
def loadConfig : Option String → IO (Except ConfigError Config)
  | some path => return Config.ofFile path (← readPath path)
  | none => return .ok {}

/-- Reports why the program ends. -/
def giveUp (message : String) : IO UInt32 := do
  IO.eprintln ("Error: " ++ message)
  return 1

/-- Runs with a configuration. -/
def runWith (config : Config) (logging : CommandLine.Logging) : IO UInt32 := do
  if logging ≠ .silent then
    for line in transcript config do
      IO.println (line.level.name ++ ": " ++ line.text)
  return 0

/-- Does what a command asks for. -/
def runCommand : CommandLine.Command → IO UInt32
  | .version => do
    IO.println CommandLine.versionReport
    return 0
  | .help => do
    IO.println CommandLine.usage
    return 0
  | .run path logging => do
    match ← loadConfig path with
    | .error e => giveUp e.message
    | .ok config => runWith config logging

end PeerLink

/-- Does what the arguments ask for. -/
def main (args : List String) : IO UInt32 :=
  match PeerLink.CommandLine.Command.read {} args with
  | .error e => PeerLink.giveUp e.message
  | .ok command => PeerLink.runCommand command
