import Conform.Value.Number

namespace Conform.Value

def rounds : Nat := 20000

def isReferenceTo (n : Nat) : Value → Bool
  | .again m => n = m
  | _ => false

mutual

/-- Whether two values are equal, given what equals the nodes of the cyclic value around the first.
A node equals itself, and what is equal to it part by part. -/
def equalVia (known : Nat → Value → Bool) : Value → Value → Bool
  | .undefined, b => b.isUndefined
  | .null, b => match b with | .null => true | _ => false
  | .str s, b => match b with | .str t => s == t | _ => false
  | .bytes s, b => match b with | .bytes t => s == t | _ => false
  | .date d, b => match b with | .date e => d = e | _ => false
  | .datetime d, b => match b with | .datetime e => d.equal e | _ => false
  | .object t i, b => match b with | .object u j => t == u && i = j | _ => false
  | .list xs, b => match b.unrolled with | .list ys => allVia known xs ys | _ => false
  | .tuple xs, b => match b.unrolled with | .tuple ys => allVia known xs ys | _ => false
  | .set xs, b =>
    match b.unrolled with
    | .set ys => xs.length == ys.length && withinVia known xs ys
    | _ => false
  | .dict es, b =>
    match b.entries? with
    | some fs => es.length == fs.length && entriesVia known es fs
    | none => false
  | .view es, b =>
    match b.entries? with
    | some fs => es.length == fs.length && entriesVia known es fs
    | none => false
  | .mapping _ _ _ es _, b =>
    match b.entries? with
    | some fs => es.length == fs.length && entriesVia known es fs
    | none => false
  | .record t fs, b =>
    match b.unrolled with
    | .record u gs => t == u && fieldsVia known fs gs
    | _ => false
  | .cyclic i nodes n, b =>
    let same : Nat → Value → Bool := fun n b =>
      match b with
      | .cyclic j others m =>
        i = j && n = m && nodes.map isContainer == others.map isContainer &&
          allVia (fun n b => b.isReferenceTo n) nodes others
      | _ => false
    Nat.repeat (fun known n b => same n b || nodeVia known nodes n b) rounds (fun _ _ => false) n b
  | .again n, b => known n b
  | a, b =>
    match a.number?, b.number? with
    | some m, some n => m.equal n
    | _, _ => false
termination_by structural a => a

def allVia (known : Nat → Value → Bool) : List Value → List Value → Bool
  | [], [] => true
  | x :: xs, y :: ys => equalVia known x y && allVia known xs ys
  | _, _ => false
termination_by structural a => a

def withinVia (known : Nat → Value → Bool) : List Value → List Value → Bool
  | [], _ => true
  | x :: xs, ys => ys.any (equalVia known x ·) && withinVia known xs ys
termination_by structural a => a

def entriesVia (known : Nat → Value → Bool) :
    List (Value × Value) → List (Value × Value) → Bool
  | [], _ => true
  | (k, v) :: es, fs =>
    fs.any (fun e => equalVia known k e.1 && equalVia known v e.2) && entriesVia known es fs
termination_by structural a => a

def fieldsVia (known : Nat → Value → Bool) :
    List (String × Value) → List (String × Value) → Bool
  | [], [] => true
  | (k, v) :: es, (l, w) :: fs => k == l && equalVia known v w && fieldsVia known es fs
  | _, _ => false
termination_by structural a => a

def nodeVia (known : Nat → Value → Bool) : List Value → Nat → Value → Bool
  | [], _, _ => false
  | v :: _, 0, b => v.isContainer && equalVia known v b
  | _ :: vs, n + 1, b => nodeVia known vs n b
termination_by structural a => a

end

def equal (a b : Value) : Bool := equalVia (fun n b => b.isReferenceTo n) a b

/-- Equality of whole values: what is not a number equals nothing. -/
def equals (a b : Value) : Bool := !a.isNaN && a.equal b

end Conform.Value
