/-!
# Verdicts

The three-valued answer to questions of containment: `never`, `may` or `must`.
-/

namespace DocShape

/-- How surely a property holds of every value in question. -/
inductive Verdict where
  | never
  | may
  | must
  deriving DecidableEq

namespace Verdict

/-- Position in the order `never < may < must`. -/
def rank : Verdict → Nat
  | never => 0
  | may => 1
  | must => 2

def ofRank? : Nat → Option Verdict
  | 0 => some never
  | 1 => some may
  | 2 => some must
  | _ => none

def name : Verdict → String
  | never => "Not"
  | may => "May"
  | must => "Must"

/-- The name shown for a position, which may lie outside the order. -/
def nameOfRank (rank : Nat) : String :=
  match ofRank? rank with
  | some v => v.name
  | none => "Unknown"

/-- Evidence from two alternatives: agreeing verdicts stand, others make `may`. -/
def meet (a b : Verdict) : Verdict :=
  if a = b then a else may

/-- Evidence from all alternatives; with none of them the answer is `must`. -/
def meetAll : List Verdict → Verdict
  | [] => must
  | v :: rest => rest.foldl meet v

def stronger (a b : Verdict) : Verdict :=
  if a.rank < b.rank then b else a

/-- The strongest verdict; with none of them the answer is `never`. -/
def strongest (verdicts : List Verdict) : Verdict :=
  verdicts.foldl stronger never

def weaker (a b : Verdict) : Verdict :=
  if b.rank < a.rank then b else a

/-- The weakest verdict; with none of them the answer is `must`. -/
def weakest (verdicts : List Verdict) : Verdict :=
  verdicts.foldl weaker must

end Verdict

end DocShape
