import Conform.Value.Equality

namespace Conform

abbrev Table (α : Type) := List (Value × α)

namespace Table

def lookup? (t : Table α) (k : Value) : Option α := (t.find? fun e => e.1.equal k).map Prod.snd

def insert : Table α → Value → α → Table α
  | [], k, a => [(k, a)]
  | (l, b) :: t, k, a => if l.equal k then (l, a) :: t else (l, b) :: insert t k a

def ofPairs (pairs : List (Value × α)) : Table α := pairs.foldl (fun t e => t.insert e.1 e.2) []

end Table

namespace Value

def field (v k : Value) : Value :=
  match v.held? with
  | some es => (Table.lookup? es k).getD .undefined
  | none => .undefined

def refusal? (v k : Value) : Option String :=
  match v.unrolled with
  | .mapping _ held refusal _ _ => if (Table.lookup? held k).isSome then none else refusal
  | _ => none

end Value

end Conform
