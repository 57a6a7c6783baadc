import Conform.Diagnostic.Basic
import Conform.Value.Comparison

namespace Conform.Diagnostic

mutual

def equal : Diagnostic → Diagnostic → Bool
  | ⟨p, r, es⟩, d => p == d.path && r.equal d.received && expectationsEqual es d.expectations
termination_by structural d => d

def expectationsEqual : List Expectation → List Expectation → Bool
  | [], [] => true
  | ⟨l, c⟩ :: es, f :: fs => l == f.label && causesEqual c f.cause && expectationsEqual es fs
  | _, _ => false
termination_by structural es => es

def causesEqual : Option Diagnostic → Option Diagnostic → Bool
  | none, none => true
  | some c, some d => equal c d
  | _, _ => false
termination_by structural c => c

end

mutual

def comparisonError? : Diagnostic → Diagnostic → Option ComparisonError
  | ⟨p, r, es⟩, d =>
    if p = d.path then
      match Value.comparisonError? r d.received with
      | some e => some e
      | none => if r.equal d.received then errorAmong es d.expectations else none
    else none
termination_by structural d => d

def errorAmong : List Expectation → List Expectation → Option ComparisonError
  | ⟨l, c⟩ :: es, f :: fs =>
    if l = f.label then
      match causeError? c f.cause with
      | some e => some e
      | none => if causesEqual c f.cause then errorAmong es fs else none
    else none
  | _, _ => none
termination_by structural es => es

def causeError? : Option Diagnostic → Option Diagnostic → Option ComparisonError
  | some c, some d => comparisonError? c d
  | _, _ => none
termination_by structural c => c

end

end Conform.Diagnostic
