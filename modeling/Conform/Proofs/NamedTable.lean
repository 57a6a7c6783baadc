import Conform.Proofs.DistinctKeys

namespace Conform.Table

variable {α : Type} {es : List (String × α)}

def named (es : List (String × α)) : Table α := es.map fun e => (.str e.1, e.2)

theorem distinct_named (h : (es.map Prod.fst).Nodup) : Distinct (named es) := by
  have hkeys : (named es).map Prod.fst = (es.map Prod.fst).map .str := by simp [named]
  rw [Distinct, hkeys, List.pairwise_map]
  apply h.imp
  intro s t hst
  simp [Value.equal, Value.equalVia, hst]

theorem ofPairs_named (h : (es.map Prod.fst).Nodup) : ofPairs (named es) = named es :=
  ofPairs_of_distinct (distinct_named h)

end Conform.Table
