import Conform.Value.Equality
import Conform.Value.Hash

namespace Conform.Value

def distinct (xs : List Value) : List Value :=
  xs.foldl (fun seen x => if seen.any (·.equal x) then seen else seen ++ [x]) []

abbrev Places := Array (Option (UInt64 × Value))

namespace Places

def least : Nat := 8

def empty (size : Nat) : Places := Array.replicate size none

def taken (p : Places) : List (UInt64 × Value) := p.toList.filterMap id

/-- The first free place from `i` on. Ten places in a row are tried, or one where there are not so
many; then the search goes on elsewhere, and the digits of the hash that are left decide where. -/
def free (p : Places) : Nat → Nat → Nat → Nat
  | 0, i, _ => i
  | fuel + 1, i, digits =>
    let row := if i + 9 < p.size then 10 else 1
    match (List.range' i row).find? fun j => p[j]?.join.isNone with
    | some j => j
    | none => free p fuel ((5 * i + 1 + digits / 32) % p.size) (digits / 32)

def put (p : Places) (e : UInt64 × Value) : Places :=
  -- after 13 steps all digits of the hash are used up, and from then on every place is tried
  p.setIfInBounds (p.free (p.size + 13) (e.1.toNat % p.size) e.1.toNat) (some e)

def add (p : Places) (e : UInt64 × Value) : Places :=
  let q := p.put e
  if 5 * q.taken.length < 3 * (q.size - 1) then q else q.taken.foldl put (empty (4 * q.size))

end Places

def arrange (xs : List Value) : List Value :=
  match hashes? xs with
  | some hs => ((hs.zip xs).foldl Places.add (Places.empty Places.least)).taken.map Prod.snd
  | none => xs

def setOf (xs : List Value) : Value := .set (arrange (distinct xs))

end Conform.Value
