import DocShape.Schema.Intersection
import DocShape.Schema.Render
import DocShape.Schema.Compares
import DocShape.Main
import DocShape.Proofs.Everywhere
import DocShape.Proofs.Bare
import DocShape.Proofs.Branches
import DocShape.Proofs.Join
import DocShape.Proofs.Canonical
import DocShape.Proofs.Absence
import DocShape.Proofs.Simplify
import DocShape.Proofs.Containment
import DocShape.Proofs.Preorder
import DocShape.Proofs.Semantics
import DocShape.Proofs.Soundness
import DocShape.Proofs.UpperBound
import DocShape.Proofs.Closure
import DocShape.Proofs.LeastUpperBound
import DocShape.Proofs.Ordered
import DocShape.Proofs.Profile
import DocShape.Proofs.Parts
import DocShape.Proofs.Semilattice
import DocShape.Proofs.Leaves
import DocShape.Proofs.Assembly
import DocShape.Proofs.Outcomes
import DocShape.Proofs.Inference
import DocShape.Proofs.Sampling
import DocShape.Proofs.SamplerRuns
import DocShape.Proofs.SamplingOrder
import DocShape.Proofs.Echo
import DocShape.Proofs.RoundTrip
import DocShape.Proofs.BinaryDocuments
import DocShape.Proofs.ValidatorFields
import DocShape.Proofs.ValidatorBytes
import DocShape.Proofs.Meet
import DocShape.Proofs.CommonValues
import DocShape.Proofs.SharedValues
import DocShape.Proofs.SimplifiedValues
import DocShape.Proofs.FieldConflicts
import DocShape.Proofs.ListedPaths
import DocShape.Proofs.Identity
import DocShape.Proofs.ValidatorGrammar
import DocShape.Proofs.Exposure
import DocShape.Proofs.QuotedText
import DocShape.Proofs.Legible
import DocShape.Proofs.Rendering
import DocShape.Proofs.OpenApiForms
import DocShape.Proofs.ValidatorTrees
import DocShape.Proofs.WrittenValidators
import DocShape.Proofs.DiagramRoundTrip
import DocShape.Proofs.FieldVerdicts
import DocShape.Proofs.TruncatedPaths
import DocShape.Proofs.PathValues
import DocShape.Proofs.PathPresence
import DocShape.Proofs.InferredValues
import DocShape.Proofs.VerdictSymmetry
import DocShape.Proofs.IntersectionLaws
import DocShape.Proofs.DiagramMerge
import DocShape.Proofs.JoinParts
import DocShape.Proofs.StableJoins
import DocShape.Proofs.LooserSchemas
import DocShape.Proofs.LooserJoins
import DocShape.Proofs.NullishValues
import DocShape.Schema.Recursion
import DocShape.Proofs.Worklists
import DocShape.Proofs.Gathering
import DocShape.Proofs.Descent
