import DocShape.Yaml.Intake

/-!
# Taking mappings in

A mapping is taken in entry by entry, by the names of the entries.  Afterwards
come the mappings that it merges, of which an entry counts only if no entry of
its name came before.
-/

namespace DocShape.Yaml

/-- What tells one key from another: the kind of its node and its text. -/
def keyMark : Node → Nat × String
  | .scalar _ text => (0, text)
  | .sequence _ _ => (1, "")
  | .mapping _ _ => (2, "")
  | .document _ _ => (3, "")
  | .reference _ name _ => (4, name)
  | .cycle name _ => (4, name)

def distinctKeys : List (Node × Node) → Bool
  | [] => true
  | (key, _) :: rest =>
      let mark := keyMark key
      !rest.any (fun e => keyMark e.1 = mark) && distinctKeys rest

/-- Whether a key asks for the entries of another mapping. -/
def isMerge : Node → Bool
  | .scalar info text =>
      text = "<<" && (info.tag = "" || info.tag = "!" || shortTag info.tag = "!!merge")
  | _ => false

def Node.isMapping : Node → Bool
  | .mapping _ _ => true
  | _ => false

structure Filling (σ : Type) where
  /-- What the value of an entry does, by the name of the entry.  It is told
  whether the entry is merged. -/
  field? : String → Option ((merged : Bool) → Node → σ → Intake σ)
  /-- Whether a name may come once only. -/
  once : Bool
  /-- Whether every name has to be known. -/
  strict : Bool
  /-- What a merged mapping does that is taken in as a whole. -/
  whole? : Option (Node → σ → Intake σ)

namespace Filling

variable {σ : Type}

/-- A filling from known names, each of which may come once. -/
def ofFields (fields : List (String × (Node → σ → Intake σ))) : Filling σ :=
  { field? := fun name => (fields.find? fun f => f.1 = name).map fun f => fun _ => f.2
    once := true
    strict := false
    whole? := none }

/-- The state of filling: what is filled, the names that came in this mapping, and
in merged mappings all names that came before. -/
structure Progress (σ : Type) where
  result : σ
  here : List String
  before : Option (List String)

def entry (f : Filling σ) (p : Progress σ) (e : Node × Node) : Intake (Progress σ) := do
  if isMerge e.1 then return p
  match ← Intake.text e.1 with
  | none => return p
  | some name =>
      if p.before.any (·.contains name) then return p
      let p := { p with before := p.before.map (name :: ·) }
      match f.field? name with
      | some take =>
          if f.once && p.here.contains name then
            Intake.note
            return p
          let result ← take p.before.isSome e.2 p.result
          return { p with result := result, here := name :: p.here }
      | none =>
          if f.strict then
            Intake.note
          return p

/-- Takes in the entries of a mapping, after some names. -/
def entries (f : Filling σ) (before : Option (List String)) (es : List (Node × Node)) (s : σ) :
    Intake (σ × Option (List String)) := do
  let p ← es.foldlM f.entry ⟨s, [], before⟩
  return (p.result, p.before)

/-- The name that a key gives, unless it means something other than a text. -/
def keyName : Node → Intake (Option String) :=
  Intake.visit fun
    | .scalar info text => do
        match ← Intake.meaning info text with
        | .text s => return some s
        | _ => return none
    | .mapping _ es => if distinctKeys es then Intake.abort else Intake.misfit
    | _ => Intake.abort

mutual

/-- Takes in what a mapping merges: a mapping, an alias of one, or a list of such. -/
def merge (f : Filling σ) (inList : Bool) : Node → (before : List String) → σ →
    Intake (σ × List String)
  | .mapping info es, before, s => do
      Intake.count
      match f.whole?, (Node.mapping info []).shortTag == "!!null", distinctKeys es with
      | some take, false, _ => return (← take (.mapping info es) s, before)
      | _, _, true =>
          let (s, names) ← f.entries (some before) es s
          mergeEntries f es (names.getD before) s
      | _, _, false =>
          Intake.note
          return (s, before)
  | .reference _ _ target, before, s => do
      if !target.isMapping then Intake.abort
      Intake.count
      Intake.inAlias (merge f true target before s)
  | .sequence _ items, before, s =>
      if inList then Intake.abort else mergeItems f items before s
  | _, _, _ => Intake.abort
termination_by structural n => n

def mergeEntries (f : Filling σ) : List (Node × Node) → (before : List String) → σ →
    Intake (σ × List String)
  | [], before, s => return (s, before)
  | (key, n) :: rest, before, s =>
      if isMerge key then merge f false n before s else mergeEntries f rest before s
termination_by structural es => es

/-- Takes in merged mappings one after the other. -/
def mergeItems (f : Filling σ) : List Node → (before : List String) → σ →
    Intake (σ × List String)
  | [], before, s => return (s, before)
  | n :: rest, before, s => do
      let (s, before) ← merge f true n before s
      mergeItems f rest before s
termination_by structural items => items

end

/-- Takes in a mapping and what it merges; one with a key that comes twice does not
fit. -/
def mapping (f : Filling σ) (es : List (Node × Node)) (s : σ) : Intake (Option σ) := do
  if !distinctKeys es then Intake.misfit
  else
    let (s, _) ← f.entries none es s
    if es.any fun e => isMerge e.1 then
      let names ← es.filterMapM fun e => keyName e.1
      return some (← mergeEntries f es names s).1
    else return some s

/-- Takes in a node; nothing fills nothing. -/
def node (f : Filling σ) (s : σ) : Node → Intake (Option σ) :=
  Intake.visit fun
    | .mapping _ es => f.mapping es s
    | .scalar info text => do
        match ← Intake.meaning info text with
        | .nothing => return none
        | _ => Intake.misfit
    | _ => Intake.misfit

end Filling

end DocShape.Yaml
