import Conform.Value.Basic

namespace Conform

mutual

structure Expectation where
  label : String
  cause : Option Diagnostic

/-- The data at `path` is `received`, which meets none of the expectations. -/
structure Diagnostic where
  path : List String
  received : Value
  expectations : List Expectation

end

instance : Inhabited Diagnostic := ⟨⟨[], .undefined, []⟩⟩

namespace Diagnostic

def empty (received : Value) : Diagnostic := ⟨[], received, []⟩

def simple (received : Value) (expected : String) : Diagnostic := ⟨[], received, [⟨expected, none⟩]⟩

def label (name : String) (cause : Diagnostic) : Diagnostic :=
  ⟨[], cause.received, [⟨name, some cause⟩]⟩

mutual

def under (segment : String) : Diagnostic → Diagnostic
  | ⟨path, received, expectations⟩ =>
    ⟨segment :: path, received, expectationsUnder segment expectations⟩
termination_by structural d => d

def expectationsUnder (segment : String) : List Expectation → List Expectation
  | [] => []
  | ⟨label, cause⟩ :: es => ⟨label, causeUnder segment cause⟩ :: expectationsUnder segment es
termination_by structural es => es

def causeUnder (segment : String) : Option Diagnostic → Option Diagnostic
  | none => none
  | some d => some (under segment d)
termination_by structural d => d

end

mutual

def mapReceived (f : Value → Value) : Diagnostic → Diagnostic
  | ⟨path, received, expectations⟩ => ⟨path, f received, mapExpectations f expectations⟩
termination_by structural d => d

def mapExpectations (f : Value → Value) : List Expectation → List Expectation
  | [] => []
  | ⟨label, cause⟩ :: es => ⟨label, mapCause f cause⟩ :: mapExpectations f es
termination_by structural es => es

def mapCause (f : Value → Value) : Option Diagnostic → Option Diagnostic
  | none => none
  | some d => some (mapReceived f d)
termination_by structural d => d

end

end Diagnostic

end Conform
