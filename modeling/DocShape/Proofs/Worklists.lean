import DocShape.Proofs.Echo
import DocShape.Proofs.Gathering

/-!
# Stacks against recursion

A loop over a stack visits what recursion over the schema visits.  The depth is
found whatever the order in which fields are pushed, and the loop that unrolls
nested disjunctions gathers their leaves from left to right.
-/

namespace DocShape

/-- A stack that is not empty has a top. -/
theorem Stack.pop_ne_error {α : Type} {stack : Stack α} (h : ¬ stack.isEmpty = true)
    (halt : Halt) : stack.pop ≠ .error halt := by
  obtain ⟨_ | ⟨part, parts⟩⟩ := stack
  · exact absurd rfl h
  · simp [pop]

namespace Schema

/-! ## Depth -/

theorem branchesDepth_eq (bs : List Schema) :
    branchesDepth bs = (bs.map depth).foldr max 0 := by
  induction bs with
  | nil => rfl
  | cons b rest ih => rw [branchesDepth, ih, List.map_cons, List.foldr_cons]

private theorem keysDepth_eq (keys : List (String × Schema)) :
    keysDepth keys = branchesDepth (keys.map Prod.snd) := by
  induction keys with
  | nil => rfl
  | cons entry rest ih => rw [keysDepth, ih, List.map_cons, branchesDepth]

/-- A schema is one level deeper than the deepest schema right below it. -/
theorem depth_eq (s : Schema) : s.depth = (s.children.map depth).foldr max 0 + 1 := by
  rw [← branchesDepth_eq]
  cases s with
  | array x => simp [depth, branchesDepth]
  | document d =>
      cases d
      exact congrArg (· + 1) (keysDepth_eq _)
  | _ => rfl

private theorem depth_le_iff {s : Schema} {n : Nat} : s.depth ≤ n + 1 ↔ ∀ c ∈ s.children, c.depth ≤ n := by
  rw [depth_eq, ← branchesDepth_eq, Nat.add_le_add_iff_right, branchesDepth_le_iff]

private theorem mem_parts {order : PushOrder} {pending : Stack Frame} {s c : Schema} :
    c ∈ order.parts pending s ↔ c ∈ s.children := by
  cases s with
  | document d => exact (order.perm pending _).mem_iff
  | _ => exact Iff.rfl

section Loop

variable (order : PushOrder)

/-- What one visit adds: the levels of a part are its own and those of the parts below. -/
theorem frame_le_iff (pending : Stack Frame) (top : Frame) (n : Nat) :
    top.level + top.schema.depth ≤ n + 1 ↔
      top.level ≤ n ∧ ∀ s ∈ order.parts pending top.schema, top.level + 1 + s.depth ≤ n + 1 := by
  have hpos := depth_pos top.schema
  by_cases hlevel : top.level ≤ n
  · have hbelow : top.schema.depth ≤ n - top.level + 1 ↔ _ := depth_le_iff
    simp only [mem_parts, hlevel, true_and]
    rw [show top.level + top.schema.depth ≤ n + 1 ↔ top.schema.depth ≤ n - top.level + 1 by omega,
      hbelow]
    exact forall₂_congr fun s _ => by omega
  · exact iff_of_false (by omega) fun h => hlevel h.1

/-- The loop ends with the deepest of the levels seen and of those still on the stack. -/
theorem exists_depthLoop (stack : Stack Frame) (deepest : Nat) :
    ∃ m, depthLoop order stack deepest = .ok m ∧
      ∀ n, m ≤ n ↔ deepest ≤ n ∧ ∀ f ∈ stack.items, f.level + f.schema.depth ≤ n + 1 := by
  fun_induction depthLoop order stack deepest with
  | case1 stack deepest hempty =>
      refine ⟨deepest, rfl, fun n => ?_⟩
      rw [List.isEmpty_iff.1 hempty]
      simp
  | case2 stack deepest hempty halt hpop => exact absurd hpop (Stack.pop_ne_error hempty halt)
  | case3 stack deepest hempty top rest hpop hitems parts ih =>
      obtain ⟨m, hm, hle⟩ := ih
      refine ⟨m, hm, fun n => ?_⟩
      rw [hle, Stack.items_pushAll, hitems]
      simp only [List.forall_mem_append, List.mem_reverse, List.forall_mem_cons, parts,
        List.forall_mem_map, Nat.max_le, frame_le_iff order rest top, and_assoc]

/-- The depth is found whatever the order in which fields are pushed. -/
theorem depthByStack_eq (s : Schema) : s.depthByStack order = .ok s.depth := by
  obtain ⟨m, hm, hle⟩ := exists_depthLoop order (Stack.empty.push ⟨s, 1⟩) 0
  have hdepth (n : Nat) : m ≤ n ↔ s.depth ≤ n := by
    rw [hle]
    simp only [Stack.push, Stack.empty, List.forall_mem_singleton]
    omega
  rw [depthByStack, hm, Nat.le_antisymm ((hdepth s.depth).2 (Nat.le_refl _))
    ((hdepth m).1 (Nat.le_refl _))]

end Loop

/-! ## Unrolled disjunctions -/

/-- The loop gathers the leaves of the stack, unrolled from the top down, and never
takes the top of an empty stack. -/
theorem gatherLoop_eq (call : Callees) (stack : Stack Schema) (g : Gathering) :
    gatherLoop call stack g = gatherLeaves call (branchesUnrolled stack.items) g := by
  fun_induction gatherLoop call stack g with
  | case1 stack g hempty =>
      rw [List.isEmpty_iff.1 hempty]
      rfl
  | case2 stack g hempty halt hpop => exact absurd hpop (Stack.pop_ne_error hempty halt)
  | case3 stack g hempty bs rest hpop hitems ih =>
      simp only [ih, hitems, Stack.items_pushAll, List.reverse_reverse, branchesUnrolled_eq,
        List.flatMap_append, List.flatMap_cons, unrolled]
  | case4 stack g hempty leaf rest hleaf hpop hitems ih =>
      have hkind : leaf.kind ≠ .anyOf := fun h => (kind_eq_anyOf h).elim hleaf
      rw [hitems, branchesUnrolled, unrolled_of_kind_ne hkind, List.singleton_append]
      simp only [ih]
      rfl

theorem simplifyBranches_eq (call : Callees) (bs : List Schema) :
    simplifyBranches call bs = gatherLeaves call (branchesUnrolled bs) .start := by
  have hitems : (Stack.empty.pushAll bs.reverse).items = bs := by
    rw [Stack.items_pushAll, List.reverse_reverse]
    exact List.append_nil bs
  rw [simplifyBranches, gatherLoop_eq, hitems]

/-- Traversals with a stack agree with recursion: the depth of a schema is one more
than that of the deepest schema right below it, whatever the order in which fields
are pushed, and the canonical form of a disjunction is gathered from its unrolled
branches in order, up to the first that is `any`. -/
theorem stack_traversals_agree (order : PushOrder) (s : Schema) (call : Callees)
    (bs : List Schema) :
    s.depthByStack order = .ok s.depth ∧ s.depth = (s.children.map depth).foldr max 0 + 1 ∧
      simplifyBranches call bs = gatherLeaves call (branchesUnrolled bs) .start ∧
      simplifyBranches .library bs = .ok (anyOf bs).simplify := by
  have hlibrary : Serves .library (anyOf bs).nest := ⟨fun _ _ => rfl, fun _ _ _ _ => rfl⟩
  refine ⟨depthByStack_eq order s, depth_eq s, simplifyBranches_eq call bs, ?_⟩
  rw [simplifyBranches_eq, hlibrary.gatherLeaves (fun _ _ => rfl) (Nat.le_refl _)]

end Schema

end DocShape
