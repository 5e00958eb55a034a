import DocShape.Failure
import DocShape.Yaml.Node
import DocShape.Yaml.Tokens

/-!
# Reading documents

The first document of a text as a tree.  A text that does not have the form of
a document up to the end of its first one has none.
-/

namespace DocShape.Yaml

/-- What an anchor stands for: a collection that is still open, by its number, or
a node. -/
inductive Anchored where
  | collection (serial : Nat)
  | node (n : Node)

/-- The state of reading: the tokens, the anchors seen, the last first, the tag
handles, the number of anchored collections, and those of them that an alias
inside stands for. -/
structure Reading where
  scan : Scan
  anchors : List (String × Anchored)
  handles : List (String × String)
  serial : Nat
  cyclic : List Nat
  collections : List (Nat × Node)

abbrev Reader := StateT Reading Attempt

namespace Reader

/-- Ends the reading where the text has no more tokens. -/
def exhausted {α : Type} : Reader α :=
  throw ⟨.endOfText, 0⟩

/-- Ends the reading at a token, inside what starts on a line. -/
def refuse {α : Type} (start : Nat) (t : Token) (problem : Problem) : Reader α :=
  throw (.betweenTokens start t.line problem)

def peek : Reader Token := do
  let r ← get
  let s ← r.scan.fetch r.scan.size
  set { r with scan := s }
  match s.waiting with
  | t :: _ => return t
  | [] => exhausted

def skip : Reader Unit :=
  modify fun r => { r with scan := r.scan.drop }

/-- Passes over the next token if it is of the kind. -/
def accept (kind : TokenKind) : Reader Bool := do
  if (← peek).kind = kind then
    skip
    return true
  else return false

/-- Passes over the next token, which has to be of the kind, inside what starts on a
line. -/
def expect (kind : TokenKind) (start : Nat) (problem : Problem) : Reader Unit := do
  if !(← accept kind) then refuse start (← peek) problem

/-- The anchor before a node, and the token of the tag with its handle and its suffix. -/
structure Properties where
  anchor : Option String
  tag : Option (Token × String × String)

def properties : (fuel : Nat) → Properties → Reader Properties
  | 0, p => return p
  | fuel + 1, p => do
      let t ← peek
      match t.kind with
      | .anchor name =>
          if p.anchor.isSome then return p
          skip
          properties fuel { p with anchor := some name }
      | .tag handle suffix =>
          if p.tag.isSome then return p
          skip
          properties fuel { p with tag := some (t, handle, suffix) }
      | _ => return p

/-- The full tag before a node that starts on a line. -/
def Properties.fullTag (p : Properties) (start : Nat) : Reader (Option String) := do
  match p.tag with
  | none => return none
  | some (t, handle, suffix) =>
      if handle = "" then return some suffix
      match (← get).handles.find? fun h => h.1 = handle with
      | some (_, begin) => return some (begin ++ suffix)
      | none => refuse start t .unknownHandle

/-- Binds an anchor to what it stands for. -/
def bindAnchor (name : String) (a : Anchored) : Reader Unit :=
  modify fun r => { r with anchors := (name, a) :: r.anchors }

def referenced (name : String) (line : Nat) : Reader Node := do
  match (← get).anchors.find? fun a => a.1 = name with
  | some (_, .node n) => return .reference line name n
  | some (_, .collection serial) =>
      modify fun r => { r with cyclic := serial :: r.cyclic }
      return .cycle name serial
  | none => throw ⟨.unknownAnchor name, 0⟩

/-- A collection, under its anchor if it has one.  While it is read the anchor
stands for one that is open, and afterwards for the node, unless a node inside
took the name over. -/
def anchored (anchor : Option String) (content : Reader Node) : Reader Node := do
  match anchor with
  | none => content
  | some name =>
      let serial := (← get).serial
      modify fun r => { r with serial := serial + 1 }
      bindAnchor name (.collection serial)
      let n ← content
      let r ← get
      if r.cyclic.contains serial then
        set { r with collections := (serial, n) :: r.collections }
      match r.anchors.find? fun a => a.1 = name with
      | some (_, .collection inner) => if inner = serial then bindAnchor name (.node n)
      | _ => pure ()
      return n

/-- The tag of a node: the one that is written, else the one it has by itself. -/
def tagOf (written : Option String) (otherwise : String) : String :=
  match written with
  | some tag => if tag = "!" then otherwise else shortTag tag
  | none => otherwise

def scalarNode (tag : Option String) (text : String) (plain : Bool) (line : Nat) : Node :=
  let otherwise :=
    if !plain then "!!str" else if text = "<<" then "!!merge" else implicitTag text
  .scalar ⟨tagOf tag otherwise, line, if plain then .usual else .quoted⟩ text

/-- A null that stands for nothing written. -/
def emptyNode (line : Nat) : Node :=
  scalarNode none "" true line

def nextIs (kinds : List TokenKind) : Reader Bool := do
  return kinds.contains (← peek).kind

mutual

/-- A node.  Where `block` holds it may be a block collection, and where
`indentless` holds a sequence in the column of the mapping around it.  An anchor
or a tag with no node after it is that of an empty one. -/
def node (block indentless : Bool) : (fuel : Nat) → Reader Node
  | 0 => exhausted
  | fuel + 1 => do
      let first ← peek
      match first.kind with
      | .reference name =>
          skip
          referenced name (first.line + 1)
      | _ =>
          let written ← properties 3 ⟨none, none⟩
          let anchor := written.anchor
          let tag ← written.fullTag first.line
          let next ← peek
          let single (n : Node) : Reader Node := do
            if let some name := anchor then bindAnchor name (.node n)
            return n
          let info (tagName : String) (style : Style) : Info :=
            ⟨tagOf tag tagName, first.line + 1, style⟩
          match next.kind with
          | .scalar text plain =>
              skip
              single (scalarNode tag text plain (first.line + 1))
          | .flowSequenceStart =>
              skip
              anchored anchor (do
                return .sequence (info "!!seq" .flow) (← flowItems next.line true fuel []))
          | .flowMappingStart =>
              skip
              anchored anchor (do
                return .mapping (info "!!map" .flow) (← flowEntries next.line true fuel []))
          | kind =>
              if kind = .blockEntry && indentless then
                anchored anchor (do
                  return .sequence (info "!!seq" .usual) (← blockItems next.line true fuel []))
              else if kind = .blockSequenceStart && block then
                skip
                anchored anchor (do
                  return .sequence (info "!!seq" .usual) (← blockItems next.line false fuel []))
              else if kind = .blockMappingStart && block then
                skip
                anchored anchor (do
                  return .mapping (info "!!map" .usual) (← blockEntries next.line fuel []))
              else if anchor.isSome || tag.isSome then
                single (scalarNode tag "" true (first.line + 1))
              else refuse first.line next .noContent
termination_by structural fuel => fuel

/-- The items of a block sequence that starts on a line, after those found, the last
of which is first. -/
def blockItems (start : Nat) (indentless : Bool) : (fuel : Nat) → List Node → Reader (List Node)
  | 0, _ => exhausted
  | fuel + 1, found => do
      let t ← peek
      if ← accept .blockEntry then
        let ends := if indentless then [TokenKind.blockEntry, .key, .value, .blockEnd]
          else [.blockEntry, .blockEnd]
        let item ← if ← nextIs ends then pure (emptyNode (t.line + 1)) else node true false fuel
        blockItems start indentless fuel (item :: found)
      else if indentless then return found.reverse
      else
        expect .blockEnd start .noDash
        return found.reverse
termination_by structural fuel => fuel

/-- The entries of a block mapping, after those found. -/
def blockEntries (start : Nat) : (fuel : Nat) → List (Node × Node) → Reader (List (Node × Node))
  | 0, _ => exhausted
  | fuel + 1, found => do
      let t ← peek
      if ← accept .key then
        let ends := [TokenKind.key, .value, .blockEnd]
        let key ← if ← nextIs ends then pure (emptyNode (t.line + 1)) else node true true fuel
        let t ← peek
        let value ←
          if ← accept .value then
            if ← nextIs ends then pure (emptyNode (t.line + 1)) else node true true fuel
          else pure (emptyNode (t.line + 1))
        blockEntries start fuel ((key, value) :: found)
      else
        expect .blockEnd start .noKey
        return found.reverse
termination_by structural fuel => fuel

/-- The items between brackets, after those found, a single entry standing for a
mapping.  An entry without a key takes up the token after its mark. -/
def flowItems (start : Nat) (first : Bool) : (fuel : Nat) → List Node → Reader (List Node)
  | 0, _ => exhausted
  | fuel + 1, found => do
      if ← accept .flowSequenceEnd then return found.reverse
      if !first then expect .flowEntry start .openSequence
      let t ← peek
      if ← accept .key then
        let key ←
          if ← nextIs [.value, .flowEntry, .flowSequenceEnd] then do
            skip
            pure (emptyNode (t.line + 1))
          else node false false fuel
        let value ← flowValue .flowSequenceEnd fuel
        flowItems start false fuel (.mapping ⟨"!!map", t.line + 1, .flow⟩ [(key, value)] :: found)
      else if ← accept .flowSequenceEnd then return found.reverse
      else
        let item ← node false false fuel
        flowItems start false fuel (item :: found)
termination_by structural fuel => fuel

def flowValue (close : TokenKind) : (fuel : Nat) → Reader Node
  | 0 => exhausted
  | fuel + 1 => do
      let t ← peek
      if ← accept .value then
        if ← nextIs [.flowEntry, close] then return emptyNode (t.line + 1)
        else node false false fuel
      else return emptyNode (t.line + 1)
termination_by structural fuel => fuel

def flowEntries (start : Nat) (first : Bool) :
    (fuel : Nat) → List (Node × Node) → Reader (List (Node × Node))
  | 0, _ => exhausted
  | fuel + 1, found => do
      if ← accept .flowMappingEnd then return found.reverse
      if !first then expect .flowEntry start .openMapping
      let t ← peek
      if ← accept .key then
        let key ←
          if ← nextIs [.value, .flowEntry, .flowMappingEnd] then pure (emptyNode (t.line + 1))
          else node false false fuel
        let value ← flowValue .flowMappingEnd fuel
        flowEntries start false fuel ((key, value) :: found)
      else if ← accept .flowMappingEnd then return found.reverse
      else
        let key ← node false false fuel
        flowEntries start false fuel ((key, emptyNode (t.line + 1)) :: found)
termination_by structural fuel => fuel

end

def standardHandles : List (String × String) :=
  [("!", "!"), ("!!", standardTags)]

/-- The directives before a document; a version has to be 1.1 and comes once, and so
does each handle. -/
def directives : (fuel : Nat) → (versioned : Bool) → Reader Unit
  | 0, _ => exhausted
  | fuel + 1, versioned => do
      let t ← peek
      match t.kind with
      | .versionDirective major minor =>
          if versioned then refuse 0 t .twoVersions
          if major ≠ 1 || minor ≠ 1 then refuse 0 t .wrongVersion
          skip
          directives fuel true
      | .tagDirective handle start =>
          if (← get).handles.any fun h => h.1 = handle then refuse 0 t .twoHandles
          modify fun r => { r with handles := (handle, start) :: r.handles }
          skip
          directives fuel versioned
      | _ => return ()

/-- The root of the first document, if there is one. -/
def document (fuel : Nat) : Reader (Option Node) := do
  let first ← peek
  match first.kind with
  | .streamEnd => return none
  | .versionDirective .. | .tagDirective .. | .documentStart =>
      directives fuel false
      modify fun r => { r with handles := r.handles ++ standardHandles }
      expect .documentStart 0 .noDocumentStart
      let t ← peek
      let root ←
        match t.kind with
        | .versionDirective .. | .tagDirective .. | .documentStart | .documentEnd | .streamEnd =>
            pure (emptyNode (t.line + 1))
        | _ => node true false fuel
      let _ ← peek
      return some root
  | _ =>
      modify fun r => { r with handles := standardHandles }
      let root ← node true false fuel
      let _ ← peek
      return some root

end Reader

/-- How often a collection is taken apart again for an alias inside it. -/
def maxUnrolled : Nat := 4

/-- The root of the first document of a text; none when the text holds none. -/
def read (data : List UInt8) : Attempt (Option Node) := do
  let scan := Scan.start (.ofBytes data)
  let (root, r) ← Reader.document (8 * scan.size) ⟨scan, [], [], 0, [], []⟩
  return root.map fun n => if r.cyclic.isEmpty then n else n.unroll r.collections maxUnrolled []

/-- The root of the first document of a text, or the failure of reading it. -/
def root (data : List UInt8) : Outcome (Option Node) :=
  match read data with
  | .ok found => .ok found
  | .error e => .error (.plain e.text)

end DocShape.Yaml
