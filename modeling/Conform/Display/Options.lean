namespace Conform.Display

structure Options where
  root : String
  limit : Nat
  deriving DecidableEq, Repr

def Options.default : Options := ⟨"data", 50⟩

instance : Inhabited Options := ⟨.default⟩

structure NegativeLimit where
  limit : Int

def NegativeLimit.message (e : NegativeLimit) : String :=
  "max_received_length must be >= 0, got " ++ toString e.limit

/-- The options in force, and for every open context, the innermost first, those to go back to. -/
structure Contexts where
  current : Options
  saved : List Options
  deriving DecidableEq, Repr

namespace Contexts

def start : Contexts := ⟨.default, []⟩

def depth (c : Contexts) : Nat := c.saved.length

def enter (c : Contexts) (root : Option String) (limit : Option Int) :
    Except NegativeLimit Contexts :=
  -- what is not given is not taken from the outer context
  let limit := limit.getD Options.default.limit
  if limit < 0 then .error ⟨limit⟩
  else .ok ⟨⟨root.getD Options.default.root, limit.toNat⟩, c.current :: c.saved⟩

def leave? {ε : Type} (c : Contexts) (error : Option ε) : Option (Contexts × Option ε) :=
  match c.saved with
  | [] => none
  | o :: outer => some (⟨o, outer⟩, error)

end Contexts

end Conform.Display
