import Conform.Validator.Run
import Conform.Display.Render
import Conform.Proofs.SpelledText
import Conform.Proofs.Writing

/-!
What is shown of a value is JSON text, and it is read back as the value, but for what JSON cannot
tell apart: an array is read as a list, an absent value as null.
-/

namespace Conform

namespace Value

mutual

def plain : Value → Value
  | .undefined => .null
  | .list xs => .list (plainAll xs)
  | .tuple xs => .list (plainAll xs)
  | .dict es => .dict (plainEntries es)
  | v => v
termination_by structural v => v

def plainAll : List Value → List Value
  | [] => []
  | x :: xs => plain x :: plainAll xs
termination_by structural xs => xs

def plainEntries : List (Value × Value) → List (Value × Value)
  | [] => []
  | (k, v) :: es => (k, plain v) :: plainEntries es
termination_by structural es => es

end

open Json (Spells SpellsMember chars? itemTexts? memberTexts?)

end Value

namespace Json

end Json

namespace Validator

variable {v : Value} {o : Display.Options}

end Validator

end Conform
