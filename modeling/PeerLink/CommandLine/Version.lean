import PeerLink.Event.TopicLayout
/-!
# The version report

## Main definitions

* `version`: the version of the program.
* `versionReport`: what is printed for it.
-/

namespace PeerLink.CommandLine

/-- The version of the program. -/
def version : String := "0.1.0"

/-- What is printed for the version: the program, what it does, and the topics that it can subscribe
to. -/
def versionReport : String :=
  "rulebridge " ++ version ++ "\n" ++
    "Rule engine bridge to a home-automation server over HTTP and server-sent events\n" ++
    "peer topics: " ++ TopicLayout.current.root ++ "/* (runtimeInfo peers), " ++
    TopicLayout.legacy.root ++ "/* (older peers)"

end PeerLink.CommandLine
