import DocShape.Names

/-!
# Jaccard indexes

A running average of how similar the key sets of unioned documents have been.
Once the average has fallen far enough below its limit the index is unstable,
and a union gives up on precision.
-/

namespace DocShape

/-- Statistics on the key sets met by a document's unions. -/
structure Jaccard where
  /-- Running average similarity. -/
  average : Float
  /-- Number of unions observed, counted modulo `2 ^ 32`. -/
  unions : UInt32
  /-- Average below which the shape counts as unstable. -/
  limit : Float

namespace Jaccard

/-- The limit used unless another is given. -/
def defaultLimit : Float := 0.8

/-- Unions to observe before stability is judged at all. -/
def trialUnions : UInt32 := 5

def fresh (limit : Float) : Jaccard :=
  { average := 1.0, unions := 0, limit }

/-- The count of unions as a float; every 32-bit count is exact. -/
def weight (j : Jaccard) : Float :=
  Float.ofNat j.unions.toNat

def update (j : Jaccard) (similarity : Float) : Jaccard :=
  { j with
    average := (j.average * j.weight + similarity) / (j.weight + 1.0)
    unions := j.unions + 1 }

/-- Whether the observed key sets have drifted below the limit.  The slack of
one over the number of unions shrinks as evidence accumulates. -/
def isUnstable (j : Jaccard) : Bool :=
  if j.unions < trialUnions then false
  else j.average + 1.0 / j.weight < j.limit

/-- Equality of statistics as numbers: a NaN differs from itself. -/
def same : Option Jaccard → Option Jaccard → Bool
  | none, none => true
  | some a, some b => a.average == b.average && a.unions == b.unions && a.limit == b.limit
  | _, _ => false

/-- The joint statistics of two documents, each average weighted by the unions
behind it.  The limit is the first one's. -/
def combine : Option Jaccard → Option Jaccard → Option Jaccard
  | none, b => b
  | a, none => a
  | some a, some b =>
      let total : Jaccard := { average := a.average, unions := a.unions + b.unions, limit := a.limit }
      if total.unions = 0 then some total
      else some { total with
        average := (a.average * a.weight + b.average * b.weight) / total.weight }

/-- Size of the intersection over size of the union, except that a set that
holds the other counts as fully similar. -/
def similarity (a b : NameSet) : Float :=
  if NameSet.subset a b || NameSet.subset b a then 1.0
  else Float.ofNat (NameSet.inter a b).length / Float.ofNat (NameSet.union a b).length

end Jaccard

end DocShape
