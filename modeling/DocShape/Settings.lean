import DocShape.Jaccard

/-!
# Settings

Limits on conversions, the stability limit of new statistics, and how much of a
schema a summary shows.
-/

namespace DocShape

/-- Settings of conversions, inference and summaries. -/
structure Settings where
  /-- Levels of nesting that conversions accept. -/
  maxDepth : Int
  /-- Limit given to new Jaccard indexes. -/
  stabilityLimit : Float
  /-- Declared fields a summary shows; all of them unless positive. -/
  shownKeys : Int
  /-- Branches a summary shows; all of them unless positive. -/
  shownBranches : Int
  /-- Levels a summary shows. -/
  shownDepth : Int

namespace Settings

/-- The settings used unless others are given. -/
def standard : Settings :=
  { maxDepth := 2048
    stabilityLimit := Jaccard.defaultLimit
    shownKeys := 5
    shownBranches := 3
    shownDepth := 2 }

/-- Settings with every number zero, which stand for the standard ones. -/
def zero : Settings :=
  { maxDepth := 0, stabilityLimit := 0.0, shownKeys := 0, shownBranches := 0, shownDepth := 0 }

def isZero (o : Settings) : Bool :=
  o.maxDepth = 0 && o.stabilityLimit == 0.0 && o.shownKeys = 0 && o.shownBranches = 0
    && o.shownDepth = 0

end Settings

end DocShape
