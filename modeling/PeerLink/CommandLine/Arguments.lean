import PeerLink.Text.Cut
/-!
# Command line arguments

## Main definitions

* `Command`: what the program is asked to do.
* `Command.parse`: the command of some arguments.
* `usage`: how to call the program.
-/

namespace PeerLink.CommandLine

/-- How to call the program. -/
def usage : String :=
  "Usage: rulebridge [--config <path>] [--verbose | --quiet] [--version]"

/-- How much the program tells of what it does. -/
inductive Logging where
  | silent
  | compact
  | verbose
  deriving DecidableEq, Repr

/-- What the program is asked to do. -/
inductive Command where
  | version
  | help
  /-- Run with a configuration file, or with the one at the usual place. -/
  | run (config : Option String) (logging : Logging)
  deriving DecidableEq, Repr

/-- Why some arguments are no command. -/
inductive ArgumentError where
  | missingValue (option : String)
  | unknown (argument : String)
  | conflictingVerbosity
  deriving DecidableEq, Repr

/-- The wording of an error. -/
def ArgumentError.message : ArgumentError → String
  | missingValue option => "missing value for " ++ option
  | unknown argument => "unknown argument: " ++ argument
  | conflictingVerbosity => "--verbose and --quiet are mutually exclusive"

/-- The options read so far. -/
structure Options where
  config : Option String := none
  verbose : Bool := false
  quiet : Bool := false
  deriving DecidableEq, Repr

/-- The command of the options; an error if they ask for both more and less output. -/
def Options.command (o : Options) : Except ArgumentError Command :=
  match o.verbose, o.quiet with
  | true, true => .error .conflictingVerbosity
  | true, false => .ok (.run o.config .verbose)
  | false, true => .ok (.run o.config .silent)
  | false, false => .ok (.run o.config .compact)

/-- Reads arguments in turn. The first that asks for the version or for help decides, and so does
the first that is wrong. -/
def Command.read (o : Options) : List String → Except ArgumentError Command
  | [] => o.command
  | "--version" :: _ | "-V" :: _ => .ok .version
  | "--help" :: _ | "-h" :: _ => .ok .help
  | "--verbose" :: rest | "-v" :: rest => read { o with verbose := true } rest
  | "--quiet" :: rest | "-q" :: rest => read { o with quiet := true } rest
  | ["--config"] => .error (.missingValue "--config")
  | ["-c"] => .error (.missingValue "-c")
  | "--config" :: path :: rest | "-c" :: path :: rest => read { o with config := some path } rest
  | arg :: rest =>
    match Text.dropPrefix? "--config=".toList arg.toList with
    | some path => read { o with config := some (String.ofList path) } rest
    | none => .error (.unknown arg)

/-- The command of some arguments, the first of which is the program's name. -/
def Command.parse (args : List String) : Except ArgumentError Command :=
  Command.read {} (args.drop 1)

end PeerLink.CommandLine
