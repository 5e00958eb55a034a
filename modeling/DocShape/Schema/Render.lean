import DocShape.Schema.Basic
import DocShape.Bytes
import DocShape.Text.Printable
import DocShape.Digest.Sha256

/-!
# Canonical rendering and fingerprints

A schema in full, in a stable and compact form.  Equal schemas have equal
renderings, and the fingerprint of a schema is the digest of its rendering.
Levels beyond the thousand and first are replaced by a marker.
-/

namespace DocShape

/-- The text that stands for a level beyond the limit. -/
def depthMarker : List Char :=
  "\x7b\"$max_depth\":true\x7d".toList

/-- Levels that a rendering shows. -/
def renderedLevels : Nat := 1001

def joinChars (separator : Char) : List (List Char) → List Char
  | [] => []
  | [text] => text
  | text :: rest => text ++ separator :: joinChars separator rest

def Reference.render (field : String) (r : Reference) : List Char :=
  '&' :: (Text.quote field).toList ++ "->".toList ++ r.entity.toList ++ '.' :: r.field.toList
    ++ '/' :: r.cardinality.toList

def renderField (required : NameSet) (field : String) (text : List Char) : List Char :=
  (Text.quote field).toList ++ (if required.contains field then ['!'] else []) ++ ':' :: text

/-- Fields with their texts, and a question mark for each required field that
has none. -/
def renderFields (required : NameSet) (texts : FieldMap (List Char)) : List (List Char) :=
  let names := NameSet.union (FieldMap.names texts) required
  names.map fun field => renderField required field ((FieldMap.find? texts field).getD ['?'])

mutual

/-- The canonical form, `levels` levels deep. -/
def Schema.renderWithin (levels : Nat) (s : Schema) : List Char :=
  match levels with
  | 0 => depthMarker
  | below + 1 =>
      match s with
      | .unsat => "Unsat".toList
      | .missing => "Missing".toList
      | .any => "Any".toList
      | .atomic a => a.name.toList
      | .array items => '[' :: items.renderWithin below ++ [']']
      | .document d => d.renderWithin below
      | .anyOf bs => "anyOf(".toList ++ joinChars '|' (renderBranches below bs) ++ [')']
termination_by structural s

/-- The canonical form of a document, its fields `below` levels deep. -/
def Document.renderWithin (below : Nat) : Document → List Char
  | ⟨keys, required, isOpen, references, _⟩ =>
      let fields := renderFields required (renderKeys below keys)
      '\x7b' :: joinChars ',' (fields ++ if isOpen then ["...".toList] else []) ++ '\x7d'
        :: references.flatMap fun (field, r) => r.render field
termination_by structural d => d

def renderBranches (levels : Nat) : List Schema → List (List Char)
  | [] => []
  | b :: rest => b.renderWithin levels :: renderBranches levels rest
termination_by structural bs => bs

/-- The canonical form of each declared field's schema. -/
def renderKeys (levels : Nat) : List (String × Schema) → List (String × List Char)
  | [] => []
  | (field, s) :: rest => (field, s.renderWithin levels) :: renderKeys levels rest
termination_by structural keys => keys

end

def Schema.render (s : Schema) : String :=
  String.ofList (s.renderWithin renderedLevels)

/-- The digest of the canonical text. -/
def Schema.fingerprint (s : Schema) : String :=
  Sha256.hexDigest (Bytes.ofText s.render)

structure ShapeCounts where
  counts : NameMap Nat

namespace ShapeCounts

def empty : ShapeCounts := ⟨.empty⟩

def count (c : ShapeCounts) (sum : String) : Nat :=
  (c.counts.find? sum).getD 0

def distinct (c : ShapeCounts) : Nat :=
  c.counts.size

/-- The counts after one more observation of the schema, with its fingerprint. -/
def observe (c : ShapeCounts) (s : Schema) : ShapeCounts × String :=
  let sum := s.fingerprint
  (⟨c.counts.insert sum (c.count sum + 1)⟩, sum)

end ShapeCounts

end DocShape
