import Conform.Diagnostic.Basic

namespace Conform

def compareSegments : List String → List String → Ordering
  | s :: p, t :: q => if s = t then compareSegments p q else if s < t then .lt else .gt
  | _, _ => .eq

/-- A path is less than another when it is more specific: longer, or of the same length and with a
smaller first differing segment. -/
def comparePaths (p q : List String) : Ordering :=
  if p.length = q.length then compareSegments p q
  else if q.length < p.length then .lt else .gt

namespace Diagnostic

def combine (a b : Diagnostic) : Diagnostic :=
  match comparePaths a.path b.path with
  | .lt => a
  | .gt => b
  | .eq => ⟨a.path, a.received, a.expectations ++ b.expectations⟩

end Diagnostic

end Conform
