import Conform.Display.Options
import Conform.Diagnostic.Basic
import Conform.Json.Writer

/-!
The text of a diagnostic: a sentence on what was expected and found, and below each named
expectation, indented, the text of its cause.
-/

namespace Conform.Display

def fullText (v : Value) : List Char :=
  if v.isUndefined then "undefined".toList
  else (Json.chars? v).getD v.kind.name.toList

def truncate (limit : Nat) (cs : List Char) : List Char :=
  if limit < cs.length then cs.take limit ++ ['.', '.', '.'] else cs

def received (o : Options) (v : Value) : String := String.ofList (truncate o.limit (fullText v))

def isShown (room : Nat) (v : Value) : Bool := v.isUndefined || (Json.write v).depth ≤ room

/-- The text of a value, unless the value is too deep for the room that there is for writing it. -/
def received? (room : Nat) (o : Options) (v : Value) : Option String :=
  if isShown room v then some (received o v) else none

def alternatives : List String → String
  | [] => ""
  | [only] => only
  | names => ", ".intercalate names.dropLast ++ " or " ++ names.getLastD ""

def sentence (o : Options) (v : Value) (labels : List String) : String :=
  if labels.isEmpty then "We found " ++ received o v ++ "."
  else "We expected " ++ alternatives labels ++ " but found " ++ received o v ++ " instead."

def indentation (depth : Int) : String := String.ofList (List.replicate (2 * depth.toNat) ' ')

def header (o : Options) (depth : Int) (d : Diagnostic) : String :=
  indentation depth ++ ".".intercalate (o.root :: d.path) ++ " is invalid. " ++
    sentence o d.received (d.expectations.map Expectation.label)

def because (depth : Int) (label : String) : String :=
  indentation depth ++ "it is not " ++ label ++ " because:"

mutual

def lines (o : Options) (depth : Int) : Diagnostic → List String
  | ⟨path, received, expectations⟩ =>
    header o depth ⟨path, received, expectations⟩ :: causeLines o depth expectations
termination_by structural d => d

def causeLines (o : Options) (depth : Int) : List Expectation → List String
  | [] => []
  | ⟨label, cause⟩ :: es => linesBecause o depth label cause ++ causeLines o depth es
termination_by structural es => es

def linesBecause (o : Options) (depth : Int) (label : String) : Option Diagnostic → List String
  | none => []
  | some d => because depth label :: lines o (depth + 1) d
termination_by structural d => d

end

def render (o : Options) (depth : Int) (d : Diagnostic) : String :=
  "\n".intercalate (lines o depth d)

mutual

def allShown (room : Nat) : Diagnostic → Bool
  | ⟨_, received, expectations⟩ => isShown room received && causesShown room expectations
termination_by structural d => d

def causesShown (room : Nat) : List Expectation → Bool
  | [] => true
  | ⟨_, cause⟩ :: es => causeShown room cause && causesShown room es
termination_by structural es => es

def causeShown (room : Nat) : Option Diagnostic → Bool
  | none => true
  | some d => allShown room d
termination_by structural d => d

end

def render? (room : Nat) (o : Options) (depth : Int) (d : Diagnostic) : Option String :=
  if allShown room d then some (render o depth d) else none

end Conform.Display
