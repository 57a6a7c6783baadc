import Conform.Diagnostic.Merge

namespace Conform

inductive Segment
  | name (s : String)
  | index (n : Int)
  deriving DecidableEq, Repr

def Segment.text : Segment → String
  | .name s => s
  | .index n => toString n

structure Issue where
  location : List Segment
  message : String
  input : Option Value

namespace Issue

def leaf (i : Issue) : Diagnostic :=
  i.location.foldr (fun s d => d.under s.text) (.simple (i.input.getD .undefined) i.message)

def under (s : Segment) (i : Issue) : Issue := { i with location := s :: i.location }

end Issue

def Diagnostic.ofIssues (issues : List Issue) (received : Value) : Diagnostic :=
  issues.foldl (fun d i => d.combine i.leaf) (.empty received)

end Conform
