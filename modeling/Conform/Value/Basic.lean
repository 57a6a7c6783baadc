import Conform.Number.Decimal
import Conform.Calendar

namespace Conform

inductive Kind
  | undefined | null | bool | int | float | decimal | str | bytes | date | datetime
  | list | tuple | set | dict | view
  | object (type : String) | mapping (type : String) | record (type : String)
  | again
  deriving DecidableEq, Repr

def Kind.name : Kind → String
  | .undefined => "Undefined"
  | .null => "NoneType"
  | .bool => "bool"
  | .int => "int"
  | .float => "float"
  | .decimal => "Decimal"
  | .str => "str"
  | .bytes => "bytes"
  | .date => "date"
  | .datetime => "datetime"
  | .list => "list"
  | .tuple => "tuple"
  | .set => "set"
  | .dict => "dict"
  | .view => "mappingproxy"
  | .object type => type
  | .mapping type => type
  | .record type => type
  | .again => "..."

/-- Untyped data. A `view` is a dict that cannot be written to. A `mapping` answers lookups of the
keys that it holds and meets others with an error if it has a refusal; a walk through it may end
with an error, too. Containers that contain themselves are the nodes of a `cyclic` value, in which
`again` stands for a node. -/
inductive Value
  | undefined
  | null
  | bool (b : Bool)
  | int (n : Int)
  | float (x : Binary64)
  | decimal (x : Decimal)
  | str (s : String)
  | bytes (bs : List UInt8)
  | date (d : Date)
  | datetime (t : DateTime)
  | object (type : String) (identity : Identity)
  | list (items : List Value)
  | tuple (items : List Value)
  | set (items : List Value)
  | dict (entries : List (Value × Value))
  | view (entries : List (Value × Value))
  | mapping (type : String) (held : List (Value × Value)) (refusal : Option String)
    (walked : List (Value × Value)) (stop : Option String)
  | record (type : String) (fields : List (String × Value))
  | cyclic (identity : Identity) (nodes : List Value) (root : Nat)
  | again (node : Nat)
  deriving Inhabited

namespace Value

def isContainer : Value → Bool
  | .list _ | .tuple _ | .set _ | .dict _ | .view _ | .mapping .. | .record .. => true
  | _ => false

mutual

def tie (i : Identity) (nodes : List Value) : Value → Value
  | .again n => .cyclic i nodes n
  | .list xs => .list (tieAll i nodes xs)
  | .tuple xs => .tuple (tieAll i nodes xs)
  | .set xs => .set (tieAll i nodes xs)
  | .dict es => .dict (tieEntries i nodes es)
  | .view es => .view (tieEntries i nodes es)
  | .mapping type held refusal walked stop =>
    .mapping type (tieEntries i nodes held) refusal (tieEntries i nodes walked) stop
  | .record type fs => .record type (tieFields i nodes fs)
  | v => v
termination_by structural v => v

def tieAll (i : Identity) (nodes : List Value) : List Value → List Value
  | [] => []
  | x :: xs => tie i nodes x :: tieAll i nodes xs
termination_by structural xs => xs

def tieEntries (i : Identity) (nodes : List Value) : List (Value × Value) → List (Value × Value)
  | [] => []
  | (k, v) :: es => (tie i nodes k, tie i nodes v) :: tieEntries i nodes es
termination_by structural es => es

def tieFields (i : Identity) (nodes : List Value) :
    List (String × Value) → List (String × Value)
  | [] => []
  | (k, v) :: fs => (k, tie i nodes v) :: tieFields i nodes fs
termination_by structural fs => fs

end

def unrolled : Value → Value
  | .cyclic i nodes n =>
    match nodes[n]? with
    | some v => if v.isContainer then v.tie i nodes else .again n
    | none => .again n
  | v => v

def kind (v : Value) : Kind :=
  match v.unrolled with
  | .undefined => .undefined
  | .null => .null
  | .bool _ => .bool
  | .int _ => .int
  | .float _ => .float
  | .decimal _ => .decimal
  | .str _ => .str
  | .bytes _ => .bytes
  | .date _ => .date
  | .datetime _ => .datetime
  | .object type _ => .object type
  | .list _ => .list
  | .tuple _ => .tuple
  | .set _ => .set
  | .dict _ => .dict
  | .view _ => .view
  | .mapping type .. => .mapping type
  | .record type _ => .record type
  | .cyclic .. => .again
  | .again _ => .again

def isUndefined : Value → Bool
  | .undefined => true
  | _ => false

def items? (v : Value) : Option (List Value) :=
  match v.unrolled with
  | .list xs => some xs
  | .tuple xs => some xs
  | _ => none

def entries? (v : Value) : Option (List (Value × Value)) :=
  match v.unrolled with
  | .dict es => some es
  | .view es => some es
  | .mapping _ _ _ walked _ => some walked
  | _ => none

def held? (v : Value) : Option (List (Value × Value)) :=
  match v.unrolled with
  | .dict es => some es
  | .view es => some es
  | .mapping _ held .. => some held
  | _ => none

def stop? (v : Value) : Option String :=
  match v.unrolled with
  | .mapping _ _ _ _ stop => stop
  | _ => none

def isArray (v : Value) : Bool := v.items?.isSome

def isMapping (v : Value) : Bool := v.entries?.isSome

end Value

end Conform
