/-! Reports of failures: what could not be done, and why. -/

namespace Wasm

/-- What could not be done, and the causes of that, each the cause of the one before. -/
structure Report where
  message : String
  causes : List String := []
deriving DecidableEq, Repr

namespace Report

/-- A report in one line. -/
def inline (r : Report) : String := ": ".intercalate (r.message :: r.causes)

/-- The lines of a text, the first one after a label and the others below each other. -/
def indented (label margin text : String) : String := label ++ ("\n" ++ margin).intercalate (text.splitOn "\n")

/-- A number to the right of five places. -/
def causeLabel (n : Nat) : String :=
  let digits := toString n
  String.ofList (List.replicate (5 - digits.length) ' ') ++ digits ++ ": "

/-- The causes, which are counted if there are several. -/
def causeLines : List String → List String
  | [cause] => [indented "    " "    " cause]
  | causes => causes.mapIdx fun n cause => indented (causeLabel n) "       " cause

/-- A report with its causes in a paragraph of their own. -/
def detailed (r : Report) : String :=
  if r.causes = [] then r.message
  else "\n".intercalate ((r.message ++ "\n\nCaused by:") :: causeLines r.causes)

end Report
end Wasm
