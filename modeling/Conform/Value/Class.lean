import Conform.Value.Basic

namespace Conform

inductive Class
  | bool | int | float | str | null | date | datetime | decimal | list | dict | tuple | set | bytes
  | object | mapping | undefined
  | other (name shown : String) (members : Value → Bool)

namespace Class

def name : Class → String
  | .bool => "bool"
  | .int => "int"
  | .float => "float"
  | .str => "str"
  | .null => "NoneType"
  | .date => "date"
  | .datetime => "datetime"
  | .decimal => "Decimal"
  | .list => "list"
  | .dict => "dict"
  | .tuple => "tuple"
  | .set => "set"
  | .bytes => "bytes"
  | .object => "object"
  | .mapping => "Mapping"
  | .undefined => "Undefined"
  | .other name _ _ => name

def named : List Class :=
  [.bool, .int, .float, .str, .null, .date, .datetime, .decimal, .list, .dict, .tuple, .set, .bytes,
    .object, .mapping, .undefined]

def ofName? (s : String) : Option Class := named.find? (·.name == s)

def literal : Class → String
  | .date => "<class \x27datetime.date\x27>"
  | .datetime => "<class \x27datetime.datetime\x27>"
  | .decimal => "<class \x27decimal.Decimal\x27>"
  | .mapping => "<class \x27collections.abc.Mapping\x27>"
  | .undefined => "<enum \x27Undefined\x27>"
  | .other _ shown _ => shown
  | c => "<class \x27" ++ c.name ++ "\x27>"

def has (c : Class) (v : Value) : Bool :=
  match c with
  | .bool => v.kind = .bool
  | .int => v.kind = .int || v.kind = .bool
  | .float => v.kind = .float
  | .str => v.kind = .str
  | .null => v.kind = .null
  | .date => v.kind = .date || v.kind = .datetime
  | .datetime => v.kind = .datetime
  | .decimal => v.kind = .decimal
  | .list => v.kind = .list
  | .dict => v.kind = .dict
  | .tuple => v.kind = .tuple
  | .set => v.kind = .set
  | .bytes => v.kind = .bytes
  | .object => true
  | .mapping => v.isMapping
  | .undefined => v.isUndefined
  | .other _ _ members => members v

end Class

end Conform
