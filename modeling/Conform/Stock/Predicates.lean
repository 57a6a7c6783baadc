import Conform.Value.Arithmetic

namespace Conform.Predicate

def nonempty (v : Value) : Option Bool := v.length?.map (0 < ·)

def short (v : Value) : Option Bool := v.length?.map (· ≤ 3)

def positive (v : Value) : Option Bool := v.isPositive?

def even (v : Value) : Option Bool := v.isEven?

def truthy (v : Value) : Option Bool := some v.isTruthy

def always (_ : Value) : Option Bool := some true

def never (_ : Value) : Option Bool := some false

def raises (_ : Value) : Option Bool := none

end Conform.Predicate
