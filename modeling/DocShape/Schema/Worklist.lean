import DocShape.Schema.Measure

/-!
# Traversals with a stack

Schemas nest as deep as their source does, so a traversal may keep the parts
that it has still to visit on a stack of its own.  A loop over such a stack
ends because every part it pushes is lighter than the one it has taken off.
-/

namespace DocShape

inductive Halt where
  /-- The top of an empty stack was taken. -/
  | underflow
  /-- A function called another one, or itself, on arguments that are not smaller. -/
  | notSmaller
  deriving DecidableEq

/-- Parts that are still to be visited, the next one first. -/
structure Stack (α : Type) where
  items : List α

namespace Stack

variable {α : Type}

def empty : Stack α := ⟨[]⟩

def isEmpty (stack : Stack α) : Bool :=
  stack.items.isEmpty

def push (stack : Stack α) (part : α) : Stack α :=
  ⟨part :: stack.items⟩

/-- Puts the parts on top one after another, so that the last is the next to visit. -/
def pushAll (stack : Stack α) (parts : List α) : Stack α :=
  parts.foldl push stack

def pop : Stack α → Except Halt (α × Stack α)
  | ⟨[]⟩ => .error .underflow
  | ⟨top :: rest⟩ => .ok (top, ⟨rest⟩)

theorem items_pushAll (stack : Stack α) (parts : List α) :
    (stack.pushAll parts).items = parts.reverse ++ stack.items := by
  rw [pushAll]
  induction parts generalizing stack with
  | nil => rfl
  | cons part rest ih => rw [List.foldl_cons, ih, push, List.reverse_cons, List.append_assoc]; rfl

theorem items_of_pop {stack rest : Stack α} {top : α} (h : stack.pop = .ok (top, rest)) :
    stack.items = top :: rest.items := by
  obtain ⟨_ | ⟨part, parts⟩⟩ := stack
  · cases h
  · cases h
    rfl

end Stack

/-! ## Depth -/

structure Frame where
  schema : Schema
  level : Nat

def Stack.weight (stack : Stack Frame) : Nat :=
  branchesWeight (stack.items.map Frame.schema)

/-- An order in which to push the fields of documents.  It may differ from one
visit to the next, so it is given the parts that are pending at the visit. -/
structure PushOrder where
  arrange : Stack Frame → List Schema → List Schema
  perm : ∀ pending fields, (arrange pending fields).Perm fields

/-- Fields in the order of their names. -/
instance : Inhabited PushOrder := ⟨fun _ fields => fields, fun _ fields => .refl fields⟩

/-- The parts right below a schema, in the order in which they are pushed. -/
def PushOrder.parts (order : PushOrder) (pending : Stack Frame) : Schema → List Schema
  | .array items => [items]
  | .document d => order.arrange pending (d.keys.map Prod.snd)
  | .anyOf bs => bs
  | _ => []

theorem branchesWeight_perm {as bs : List Schema} (h : as.Perm bs) :
    branchesWeight as = branchesWeight bs := by
  induction h with
  | nil => rfl
  | cons s _ ih => simp only [branchesWeight, ih]
  | swap s t rest => simp only [branchesWeight, Nat.add_left_comm]
  | trans _ _ ih ih' => exact ih.trans ih'

theorem branchesWeight_map_snd_le (keys : List (String × Schema)) :
    branchesWeight (keys.map Prod.snd) ≤ keysWeight keys := by
  induction keys with
  | nil => exact Nat.le_refl 0
  | cons entry rest ih =>
      simp only [List.map_cons, branchesWeight, keysWeight]
      omega

theorem PushOrder.branchesWeight_parts_lt (order : PushOrder) (pending : Stack Frame) (s : Schema) :
    branchesWeight (order.parts pending s) < s.weight := by
  cases s with
  | array items => simp [parts, branchesWeight, Schema.weight]
  | document d =>
      have := branchesWeight_map_snd_le d.keys
      rw [parts, branchesWeight_perm (order.perm pending _), Schema.weight, Document.weight_eq]
      omega
  | anyOf bs => simp [parts, Schema.weight]
  | _ => simp [parts, branchesWeight, Schema.weight]

namespace Schema

/-- The deepest level among the levels seen and the levels of the parts on the stack. -/
def depthLoop (order : PushOrder) (stack : Stack Frame) (deepest : Nat) : Except Halt Nat :=
  if stack.isEmpty then .ok deepest
  else
    match h : stack.pop with
    | .error halt => .error halt
    | .ok (top, rest) =>
        have := Stack.items_of_pop h
        let parts := (order.parts rest top.schema).map fun s => ⟨s, top.level + 1⟩
        depthLoop order (rest.pushAll parts) (max deepest top.level)
termination_by stack.weight
decreasing_by
  have hparts := order.branchesWeight_parts_lt rest top.schema
  simp only [Stack.weight, this, Stack.items_pushAll, List.map_append,
    List.map_reverse, List.map_map, branchesWeight_append, List.map_cons, branchesWeight,
    branchesWeight_perm (List.reverse_perm _), Function.comp_def, List.map_id']
  omega

/-- Levels of the schema, its own included, counted without recursion. -/
def depthByStack (order : PushOrder) (s : Schema) : Except Halt Nat :=
  depthLoop order (Stack.empty.push ⟨s, 1⟩) 0

end Schema

end DocShape
