import PeerLink.Event.Basic
/-!
# Patterns of topics

A pattern without stars accepts exactly itself, and a lone star accepts every topic. In any other
pattern a star matches a run of characters without line feed, and every other character matches
itself.

## Main definitions

* `TopicPattern`: the three kinds of patterns.
* `TopicPattern.ofString`: the pattern of a text.
* `TopicPattern.accepts`: whether a pattern accepts a topic.
-/

namespace PeerLink

/-- A pattern of topics. -/
inductive TopicPattern where
  /-- Every topic. -/
  | any
  /-- One topic. -/
  | exact (topic : String)
  /-- A text with stars. -/
  | glob (source : String)
  deriving DecidableEq, Repr

namespace TopicPattern

/-- The pattern of a text. -/
def ofString (s : String) : TopicPattern :=
  if s = "*" then any
  else if s.toList.contains '*' then glob s
  else exact s

/-- The text of a pattern. -/
def source : TopicPattern → String
  | any => "*"
  | exact topic => topic
  | glob s => s

/-! ## Matching

A pattern is read from left to right. After each of its characters the matcher knows, for every cut
of the topic, whether what has been read of the pattern fits the part before the cut. -/

/-- The cuts that match after another literal character. `before` is the entry of the cut before the
first character. -/
def stepLiteral (c : Char) (before : Bool) : (topic : List Char) → (cuts : List Bool) → List Bool
  | x :: topic, cut :: cuts => (before && x == c) :: stepLiteral c cut topic cuts
  | _, _ => []

/-- The cuts that match after another star. `before` is the entry of the cut before the first
character. -/
def stepStar (before : Bool) : (topic : List Char) → (cuts : List Bool) → List Bool
  | x :: topic, cut :: cuts =>
    let here := cut || (before && x != '\n')
    here :: stepStar here topic cuts
  | _, _ => []

/-- The cut before the topic and those after each of its characters, after another character of the
pattern. -/
def step (topic : List Char) (cuts : Bool × List Bool) (p : Char) : Bool × List Bool :=
  if p = '*' then (cuts.1, stepStar cuts.1 topic cuts.2)
  else (false, stepLiteral p cuts.1 topic cuts.2)

/-- Whether the pattern matches the whole topic. -/
def fits (pattern topic : List Char) : Bool :=
  let (first, rest) := pattern.foldl (step topic) (true, topic.map fun _ => false)
  rest.getLast?.getD first

/-- Whether the pattern accepts a topic. -/
def accepts (p : TopicPattern) (topic : String) : Bool :=
  match p with
  | any => true
  | exact t => t = topic
  | glob s => fits s.toList topic.toList

end TopicPattern

end PeerLink
