import Conform.Value.Table

namespace Conform

inductive ComparisonError
  | signaling
  | endless
  deriving DecidableEq, Repr

def Number.comparisonError? (a b : Number) : Option ComparisonError :=
  if (a.toDecimal.isSignaling || b.toDecimal.isSignaling) && !a.equal b then some .signaling
  else none

namespace Value

def isView : Value → Bool
  | .view _ => true
  | _ => false

def isSameNode : Value → Value → Bool
  | .cyclic i _ n, .cyclic j _ m => i = j && n = m
  | _, _ => false

def firstError (error : Value → Value → Option ComparisonError) :
    List Value → List Value → Option ComparisonError
  | x :: xs, y :: ys =>
    match error x y with
    | some e => some e
    | none => if x.equal y then firstError error xs ys else none
  | _, _ => none

def firstErrorUnder (error : Value → Value → Option ComparisonError) (es fs : Table Value) :
    List Value → Option ComparisonError
  | [] => none
  | k :: ks =>
    match es.lookup? k, fs.lookup? k with
    | some v, some w =>
      match error v w with
      | some e => some e
      | none => if v.equal w then firstErrorUnder error es fs ks else none
    | _, _ => none

/-- Lists and mappings of different lengths are told apart before their parts are compared, tuples
after that. Mappings are gone through in the order of the one on the left, and a view on the right
makes them change sides; `swapped` says that they have. -/
def comparisonErrorWithin : Nat → Bool → Value → Value → Option ComparisonError
  | 0, _, _, _ => some .endless
  | k + 1, swapped, a, b =>
    if a.isSameNode b then none
    else
      match a.unrolled, b.unrolled with
      | .list xs, .list ys =>
        if xs.length = ys.length then firstError (comparisonErrorWithin k swapped) xs ys else none
      | .tuple xs, .tuple ys => firstError (comparisonErrorWithin k swapped) xs ys
      | v, w =>
        match v.entries?, w.entries? with
        | some es, some fs =>
          let byOther := if v.isView then !swapped && w.isView else swapped || w.isView
          if es.length = fs.length then
            firstErrorUnder (comparisonErrorWithin k byOther) es fs
              ((if byOther then fs else es).map Prod.fst)
          else none
        | _, _ =>
          match v.number?, w.number? with
          | some m, some n => m.comparisonError? n
          | _, _ => none

def comparisonError? (a b : Value) : Option ComparisonError :=
  comparisonErrorWithin rounds false a b

end Value

end Conform
