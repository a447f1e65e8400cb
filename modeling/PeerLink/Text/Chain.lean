import PeerLink.Text.Cut
/-!
# Chains of causes

A failure and what caused it are written one cause a line, numbered from the outermost.

## Main definitions

* `numbered`: the lines of a chain.
* `chain`: the lines as one text.
-/

namespace PeerLink.Text

/-- The text with blanks before it up to `width` characters. -/
def padLeft (width : Nat) (s : String) : String :=
  String.ofList (List.replicate (width - s.length) ' ') ++ s

/-- The causes, each behind its number; the outermost has number `first`. -/
def numbered (first : Nat) : List String → List String
  | [] => []
  | cause :: rest => (padLeft 3 (toString first) ++ ": " ++ cause) :: numbered (first + 1) rest

/-- A chain of causes as one text, outermost first. -/
def chain (causes : List String) : String :=
  join "\n" (numbered 0 causes)

end PeerLink.Text
