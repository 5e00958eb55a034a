import DocShape.Schema.Recursion
import DocShape.Proofs.Closure

/-!
# Joins by calls

One level of a join, as it is written in terms of its calls, gives what the
calls amount to.  The calls are on what containers hold, so a join does not
depend on its level once that exceeds the container nesting.
-/

namespace DocShape

/-- A pass whose steps all succeed. -/
theorem filterMapM_eq_ok {ε α β : Type} {f : α → Except ε (Option β)} {g : α → Option β}
    {xs : List α} (h : ∀ x ∈ xs, f x = .ok (g x)) : xs.filterMapM f = .ok (xs.filterMap g) := by
  induction xs with
  | nil => rfl
  | cons x rest ih =>
      obtain ⟨hx, hrest⟩ := List.forall_mem_cons.1 h
      rw [List.filterMapM_cons, hx, ih hrest]
      cases hgx : g x with
      | none => rw [List.filterMap_cons_none hgx]; rfl
      | some b => rw [List.filterMap_cons_some hgx]; rfl

/-! ## Documents -/

namespace Document

variable {d o : Document} {union : Schema → Schema → Except Halt Schema}
  {join : Schema → Schema → Schema}
  (h : ∀ field, ∀ s ∈ d.declared? field, ∀ t ∈ o.declared? field, union s t = .ok (join s t))

include h

private theorem unionKeyBy_eq (field : String) :
    d.unionKeyBy union o field = .ok (d.unionKey join o field) := by
  rw [unionKeyBy, unionKey]
  cases hd : d.declared? field with
  | none => cases o.declared? field <;> rfl
  | some s =>
      cases ho : o.declared? field with
      | none => rfl
      | some t =>
          dsimp only
          rw [h field s hd t ho]
          split <;> rfl

theorem unionKeysBy_eq : d.unionKeysBy union o = .ok (d.unionKeys join o) := by
  refine filterMapM_eq_ok fun field _ => ?_
  rw [unionKeyBy_eq h field]
  rfl

theorem mergeBy_eq : d.mergeBy union o = .ok (d.mergeWith join o) := by
  rw [mergeBy, unionKeysBy_eq h]
  rfl

theorem unionBy_eq : d.unionBy union o = .ok (d.unionWith join o) := by
  rw [unionBy, unionWith, unionKeysBy_eq h]
  dsimp only
  split <;> rfl

end Document

namespace Schema

/-! ## One level of a join -/

section Level

variable {P : Schema → Prop} (hP : JoinClosed P) {n : Nat}
  {union : Schema → Schema → Except Halt Schema} {join : Schema → Schema → Schema}
  (hjoin : KeepsCanonical join)
  (hparts : ∀ {s t : Schema}, Shallow P n s → Shallow P n t → Shallow P n (join s t))
  (hunion : ∀ {s t : Schema}, Shallow P n s → Shallow P n t → union s t = .ok (join s t))

include hP hunion

theorem Shallow.unionBy {d o : Document} (hd : Shallow P (n + 1) (.document d))
    (ho : Shallow P (n + 1) (.document o)) : d.unionBy union o = .ok (d.unionWith join o) :=
  Document.unionBy_eq fun _ _ hs _ ht => hunion (hd.declared hP hs) (ho.declared hP ht)

theorem ShallowBranches.insertBranchBy {bs : List Schema} {s : Schema}
    (h : ShallowBranches P (n + 1) bs) (hs : Shallow P (n + 1) s) :
    Schema.insertBranchBy union bs s = .ok (Schema.insertBranch join bs s) := by
  cases s with
  | array y =>
      rw [Schema.insertBranchBy, Schema.insertBranch]
      rcases hitems : arrayItems bs with _ | ⟨x, _ | ⟨x', rest⟩⟩
      · rfl
      · have hx := h.each _ (mem_of_arrayItems_eq hitems)
        dsimp only
        rw [hunion hx.item hs.item]
        rfl
      · rfl
  | document e =>
      rw [Schema.insertBranchBy, Schema.insertBranch]
      rcases hdocuments : documents bs with _ | ⟨d, _ | ⟨d', rest⟩⟩
      · rfl
      · have hd := h.each _ (mem_of_documents_eq hdocuments)
        dsimp only [List.foldlM_nil, pure, Except.pure, bind, Except.bind]
        rw [hd.unionBy hP hunion hs]
        rfl
      · have hone := h.collapsible.oneDocument
        simp [hdocuments] at hone
  | _ => rfl

include hjoin hparts

theorem ShallowBranches.foldlM_insertBranchBy {ls rs : List Schema} (hls : ∀ b ∈ ls, b.IsBranch)
    (hshallow : ∀ b ∈ ls, Shallow P (n + 1) b) (hrs : ShallowBranches P (n + 1) rs) :
    ls.foldlM (Schema.insertBranchBy union) rs = .ok (ls.foldl (Schema.insertBranch join) rs) := by
  induction ls generalizing rs with
  | nil => rfl
  | cons l ls ih =>
      obtain ⟨hl, hls⟩ := List.forall_mem_cons.1 hls
      obtain ⟨hlshallow, hshallow⟩ := List.forall_mem_cons.1 hshallow
      rw [List.foldlM_cons, hrs.insertBranchBy hP hunion hlshallow]
      exact ih hls hshallow (hrs.insertBranch hP hjoin hparts hl hlshallow)

end Level

section Join

variable {P : Schema → Prop} (hP : JoinClosed P) {n : Nat}
  {union : Schema → Schema → Except Halt Schema} {s t : Schema}
  (hunion : ∀ {s t : Schema}, Shallow P n s → Shallow P n t → union s t = .ok (joinWithin n s t))

include hP hunion

theorem joinBy_eq_of_ordered (h : s.compare t ≠ .gt) (hs : Shallow P (n + 1) s)
    (ht : Shallow P (n + 1) t) : joinBy union s t = .ok (joinWithin (n + 1) s t) := by
  have hjoin := keepsCanonical_joinWithin n
  have hparts {s t : Schema} := @shallow_joinWithin P hP n s t
  have hrank := rank_le_of_compare_ne_gt h
  rw [joinBy]
  simp only [if_neg h]
  -- The rules are told apart on the side of the calls; the other side then computes.
  split
  all_goals simp only [joinWithin, if_neg h]
  · rename_i hany
    cases t with
    | any => exact absurd rfl hany
    | anyOf rs =>
        have hls := hs.branches
        dsimp only [branches]
        rw [ht.branches.foldlM_insertBranchBy hP hjoin hparts hunion hls.collapsible.branch
          hls.each]
        rfl
    | _ => simp [kind, Kind.rank] at hrank
  · rw [ht.branches.insertBranchBy hP hunion hs]
    rfl
  · rw [hunion hs.item ht.item]
    rfl
  · rw [hs.unionBy hP hunion ht]
    rfl

/-- One level of a join calls the union of what containers hold. -/
theorem joinBy_eq (hs : Shallow P (n + 1) s) (ht : Shallow P (n + 1) t) :
    joinBy union s t = .ok (joinWithin (n + 1) s t) := by
  by_cases h : s.compare t = .gt
  · have hlt : t.compare s ≠ .gt := by
      rw [Std.OrientedCmp.lt_of_gt h]
      nofun
    have hswap : joinBy union s t = joinBy union t s := by
      rw [joinBy, joinBy]
      simp only [if_pos h, if_neg hlt]
    rw [hswap, joinWithin_swap n h]
    exact joinBy_eq_of_ordered hP hunion hlt ht hs
  · exact joinBy_eq_of_ordered hP hunion h hs ht

end Join

/-! ## Independence of the level -/

variable {P : Schema → Prop} {s t : Schema} {n m : Nat}

theorem Shallow.mono (h : Shallow P n s) (hle : n ≤ m) : Shallow P m s :=
  ⟨h.canonical, h.everywhere, Nat.lt_of_lt_of_le h.nest hle⟩

/-- A join does not depend on the level, once that exceeds the nesting. -/
theorem joinWithin_eq (hP : JoinClosed P) (hs : Shallow P n s) (ht : Shallow P n t) (hle : n ≤ m) :
    joinWithin n s t = joinWithin m s t := by
  induction n generalizing m s t with
  | zero => exact absurd hs.nest (Nat.not_lt_zero _)
  | succ n ih =>
      obtain ⟨k, rfl⟩ : ∃ k, m = k + 1 := ⟨m - 1, by omega⟩
      -- The calls of the higher level are right at both levels.
      have hlower :
          joinBy (fun x y => .ok (joinWithin k x y)) s t = .ok (joinWithin (n + 1) s t) :=
        joinBy_eq hP (fun hx hy => by rw [ih hx hy (Nat.le_of_succ_le_succ hle)]) hs ht
      have hhigher :
          joinBy (fun x y => .ok (joinWithin k x y)) s t = .ok (joinWithin (k + 1) s t) :=
        joinBy_eq hP (fun _ _ => rfl) (hs.mono hle) (ht.mono hle)
      exact Except.ok.inj (hlower.symm.trans hhigher)

theorem joinClosed_true : JoinClosed fun _ => True where
  unsat := trivial
  any := trivial
  array _ := trivial
  document _ _ := trivial
  inserted _ _ := trivial
  sorted _ := trivial
  apart _ := trivial

private theorem everywhere_true (s : Schema) : s.Everywhere fun _ => True := by
  induction s using induction_children with
  | step s ih => exact .intro trivial ih

theorem Canonical.shallow (hs : s.Canonical) (hnest : s.nest < n) : Shallow (fun _ => True) n s :=
  ⟨hs, everywhere_true s, hnest⟩

theorem join_eq_joinWithin (hs : Shallow P n s) (ht : Shallow P n t) :
    s.join t = joinWithin n s t := by
  have hle : max s.nest t.nest + 1 ≤ n := Nat.succ_le_of_lt (Nat.max_lt.2 ⟨hs.nest, ht.nest⟩)
  exact joinWithin_eq joinClosed_true (hs.canonical.shallow (by omega))
    (ht.canonical.shallow (by omega)) hle

end Schema

end DocShape
