import Conform.Validator.Stock

namespace Conform.RawFunction

def accept : UserFunction := fun _ v => pure v

def seven : UserFunction := fun _ _ => pure (.int 7)

def toUndefined : UserFunction := fun _ _ => pure .undefined

def fail : UserFunction := fun _ v => .reject (.simple v "nothing")

def failEmpty : UserFunction := fun _ v => .reject (.empty v)

def failDeep : UserFunction := fun _ v => .reject ⟨["p", "q"], v, [⟨"deep", none⟩]⟩

def failOther : UserFunction := fun _ _ =>
  .reject ⟨["p"], .str "other", [⟨"e1", none⟩, ⟨"e2", none⟩]⟩

def failCaused : UserFunction := fun _ v =>
  .reject (.label "outer" ((Diagnostic.simple v "inner").under "k"))

def raise : UserFunction := fun _ _ => .raise .badValue

def treeWithin : Nat → Checker
  | 0 => fun _ => .raise .unfinished
  | n + 1 => .dict
    [(.str "name", .test (fun v => some (Class.has .str v)) "a string"),
      (.str "children", .list (treeWithin n))]

def tree : UserFunction := fun _ v =>
  -- a tree is never deeper than the value that holds it
  treeWithin (v.depth + 1) v

end Conform.RawFunction
