import Conform.Schema.Basic

namespace Conform

abbrev Definitions := List (String × Schema)

namespace Definitions

def define (defs : Definitions) (name : String) (s : Schema) : Definitions := (name, s) :: defs

def find? (defs : Definitions) (name : String) : Except SchemaError Schema :=
  match defs.lookup name with
  | some s => .ok s
  | none => .error (.undefinedName name)

end Definitions

end Conform
