import DocShape.Proofs.Canonical

/-!
# Classes of schemas closed under joins

A property of single schemas that survives every step of a join holds at every
depth of a join if it does so of both arguments.  Containers nest no deeper in
a join than in its arguments, which is what bounds the recursion of `joinWithin`.
-/

namespace DocShape

namespace Schema

/-! ## Container nesting -/

theorem nest_anyOf_lt_iff {bs : List Schema} {n : Nat} :
    (anyOf bs).nest < n ↔ 0 < n ∧ ∀ b ∈ bs, b.nest < n := by
  show branchesNest bs < n ↔ _
  induction bs with
  | nil => simp [branchesNest]
  | cons b rest ih =>
      rw [branchesNest, Nat.max_lt, ih, List.forall_mem_cons]
      exact and_left_comm

theorem nest_document_lt_iff {d : Document} {n : Nat} :
    (document d).nest < n + 1 ↔ 0 < n ∧ ∀ entry ∈ d.keys, entry.2.nest < n := by
  obtain ⟨keys, required, isOpen, references, jaccard⟩ := d
  show keysNest keys + 1 < n + 1 ↔ 0 < n ∧ ∀ entry ∈ keys, entry.2.nest < n
  rw [Nat.add_lt_add_iff_right]
  induction keys with
  | nil => simp [keysNest]
  | cons entry rest ih =>
      rw [keysNest, Nat.max_lt, ih, List.forall_mem_cons]
      exact and_left_comm

/-! ## Properties that joins keep -/

/-- A property of single schemas that every step of a join keeps. -/
structure JoinClosed (P : Schema → Prop) : Prop where
  unsat : P .unsat
  any : P .any
  array : ∀ items, P (.array items)
  document : ∀ {join d o}, P (.document d) → P (.document o) → P (.document (d.unionWith join o))
  inserted : ∀ {join bs s out}, P (.anyOf bs) → Inserted join bs s out → P (.anyOf out)
  sorted : ∀ {bs}, P (.anyOf bs) → P (.anyOf (sortBranches bs))
  apart : ∀ {s t}, (s.kind = t.kind → s.kind = .atomic) → P (.anyOf [s, t])

theorem JoinClosed.and {P Q : Schema → Prop} (hP : JoinClosed P) (hQ : JoinClosed Q) :
    JoinClosed fun s => P s ∧ Q s where
  unsat := ⟨hP.unsat, hQ.unsat⟩
  any := ⟨hP.any, hQ.any⟩
  array items := ⟨hP.array items, hQ.array items⟩
  document hd ho := ⟨hP.document hd.1 ho.1, hQ.document hd.2 ho.2⟩
  inserted h hinserted := ⟨hP.inserted h.1 hinserted, hQ.inserted h.2 hinserted⟩
  sorted h := ⟨hP.sorted h.1, hQ.sorted h.2⟩
  apart hkind := ⟨hP.apart hkind, hQ.apart hkind⟩

/-- A canonical schema with the property at every depth, whose containers nest
less than `n` deep. -/
structure Shallow (P : Schema → Prop) (n : Nat) (s : Schema) : Prop where
  canonical : s.Canonical
  everywhere : s.Everywhere P
  nest : s.nest < n

/-- Branches of such schemas, on the way to a disjunction of them. -/
structure ShallowBranches (P : Schema → Prop) (n : Nat) (bs : List Schema) : Prop where
  collapsible : Collapsible bs
  holds : P (.anyOf bs)
  each : ∀ b ∈ bs, Shallow P n b

section Shallow

variable {P : Schema → Prop} (hP : JoinClosed P) {n : Nat} {bs : List Schema} {d o : Document}

theorem Shallow.item {x : Schema} (h : Shallow P (n + 1) (.array x)) : Shallow P n x :=
  ⟨canonical_array_iff.1 h.canonical, (Everywhere.array_iff.1 h.everywhere).2,
    Nat.lt_of_succ_lt_succ h.nest⟩

theorem Shallow.branches (h : Shallow P n (.anyOf bs)) : ShallowBranches P n bs where
  collapsible := h.canonical.collapsible
  holds := h.everywhere.here
  each b hb :=
    ⟨h.canonical.inside hb, h.everywhere.inside hb, (nest_anyOf_lt_iff.1 h.nest).2 b hb⟩

theorem ShallowBranches.filter (h : ShallowBranches P n bs) (keep : Schema → Bool) :
    ∀ b ∈ bs.filter keep, Shallow P n b :=
  fun b hb => h.each b (List.mem_of_mem_filter hb)

include hP

theorem shallow_any (hn : 0 < n) : Shallow P n .any :=
  ⟨canonical_any, .leaf hP.any rfl, hn⟩

theorem shallow_array {x : Schema} (h : Shallow P n x) : Shallow P (n + 1) (.array x) :=
  ⟨canonical_array_iff.2 h.canonical, Everywhere.array_iff.2 ⟨hP.array x, h.everywhere⟩,
    Nat.succ_lt_succ h.nest⟩

theorem Shallow.declared (h : Shallow P (n + 1) (.document d)) {field : String} {s : Schema}
    (hs : d.declared? field = some s) : Shallow P n s := by
  obtain ⟨hn, hnest⟩ := nest_document_lt_iff.1 h.nest
  rcases Document.declared?_cases hs with hkey | ⟨-, -, rfl⟩
  · have hmem := Document.mem_of_key? hkey
    exact ⟨(h.canonical.key hkey).2, (Everywhere.document_iff.1 h.everywhere).2 _ hmem,
      hnest _ hmem⟩
  · exact shallow_any hP hn

theorem ShallowBranches.collapse (h : ShallowBranches P (n + 1) bs) :
    Shallow P (n + 1) (collapse bs) := by
  refine ⟨h.collapsible.canonical_collapse, ?_, ?_⟩
  all_goals rw [collapse_eq h.collapsible.branch]
  all_goals have hsorted : ∀ b ∈ sortBranches bs, Shallow P (n + 1) b :=
    fun b hb => h.each b (mem_of_mem_sortBranches hb)
  · split
    · exact .leaf hP.unsat rfl
    · rename_i b hsort
      exact (hsorted b (hsort ▸ List.mem_singleton_self b)).everywhere
    · exact Everywhere.anyOf_iff.2 ⟨hP.sorted h.holds, fun b hb => (hsorted b hb).everywhere⟩
  · split
    · exact Nat.succ_pos n
    · rename_i b hsort
      exact (hsorted b (hsort ▸ List.mem_singleton_self b)).nest
    · exact nest_anyOf_lt_iff.2 ⟨Nat.succ_pos n, fun b hb => (hsorted b hb).nest⟩

variable {join : Schema → Schema → Schema} (hjoin : KeepsCanonical join)
  (hparts : ∀ {s t : Schema}, Shallow P n s → Shallow P n t → Shallow P n (join s t))

include hjoin hparts

theorem Shallow.unionWith (hd : Shallow P (n + 1) (.document d))
    (ho : Shallow P (n + 1) (.document o)) :
    Shallow P (n + 1) (.document (d.unionWith join o)) := by
  have hn : 0 < n := (nest_document_lt_iff.1 hd.nest).1
  have hkeys : ∀ entry ∈ (d.unionWith join o).keys, Shallow P n entry.2 := by
    rcases Document.unionWith_cases join d o with ⟨jaccard, h⟩ | ⟨h, -⟩
    · rw [h]
      nofun
    · rw [h]
      intro entry hmem
      rcases Document.unionKey_cases (Document.unionKey_of_mem_unionKeys hmem) with
        ⟨s, t, hs, ht, heq⟩ | hs | hs | heq
      · rw [heq]
        exact hparts (hd.declared hP hs) (ho.declared hP ht)
      · exact hd.declared hP hs
      · exact ho.declared hP hs
      · rw [heq]
        exact shallow_any hP hn
  refine ⟨hjoin.unionWith hd.canonical ho.canonical, ?_, ?_⟩
  · exact Everywhere.document_iff.2 ⟨hP.document hd.everywhere.here ho.everywhere.here,
      fun entry hmem => (hkeys entry hmem).everywhere⟩
  · exact nest_document_lt_iff.2 ⟨hn, fun entry hmem => (hkeys entry hmem).nest⟩

theorem ShallowBranches.inserted (h : ShallowBranches P (n + 1) bs) {s : Schema}
    {out : List Schema} (hbranch : s.IsBranch) (hs : Shallow P (n + 1) s)
    (hinserted : Inserted join bs s out) : ShallowBranches P (n + 1) out := by
  refine ⟨h.collapsible.inserted hjoin hbranch hs.canonical hinserted,
    hP.inserted h.holds hinserted, ?_⟩
  cases hinserted with
  | beside _ _ => exact List.forall_mem_append.2 ⟨h.each, List.forall_mem_singleton.2 hs⟩
  | @intoArray x y hitems =>
      have hx : Shallow P (n + 1) (.array x) := h.each _ (mem_of_arrayItems_eq hitems)
      refine List.forall_mem_append.2 ⟨h.filter _, List.forall_mem_singleton.2 ?_⟩
      exact shallow_array hP (hparts hx.item hs.item)
  | @intoArrays y _ =>
      refine List.forall_mem_append.2 ⟨h.filter _, List.forall_mem_singleton.2 ?_⟩
      exact shallow_array hP (shallow_any hP (Nat.zero_lt_of_lt hs.item.nest))
  | @intoDocument d e hdocuments =>
      have hd : Shallow P (n + 1) (.document d) := h.each _ (mem_of_documents_eq hdocuments)
      refine List.forall_mem_append.2 ⟨h.filter _, List.forall_mem_singleton.2 ?_⟩
      exact hd.unionWith hP hjoin hparts hs

theorem ShallowBranches.insertBranch (h : ShallowBranches P (n + 1) bs) {s : Schema}
    (hbranch : s.IsBranch) (hs : Shallow P (n + 1) s) :
    ShallowBranches P (n + 1) (insertBranch join bs s) :=
  h.inserted hP hjoin hparts hbranch hs (insertBranch_inserted join s h.collapsible.oneDocument)

theorem ShallowBranches.foldl_insertBranch {ls rs : List Schema} (hls : ∀ b ∈ ls, b.IsBranch)
    (hshallow : ∀ b ∈ ls, Shallow P (n + 1) b) (hrs : ShallowBranches P (n + 1) rs) :
    ShallowBranches P (n + 1) (ls.foldl (Schema.insertBranch join) rs) := by
  induction ls generalizing rs with
  | nil => exact hrs
  | cons l ls ih =>
      obtain ⟨hl, hls⟩ := List.forall_mem_cons.1 hls
      obtain ⟨hlshallow, hshallow⟩ := List.forall_mem_cons.1 hshallow
      exact ih hls hshallow (hrs.insertBranch hP hjoin hparts hl hlshallow)

theorem Shallow.joined {s t r : Schema} (hs : Shallow P (n + 1) s) (ht : Shallow P (n + 1) t)
    (h : Joined join s t r) : Shallow P (n + 1) r := by
  cases h with
  | unsat => exact ht
  | any => exact shallow_any hP (Nat.succ_pos n)
  | fold ls rs =>
      have hls := hs.branches
      have hfolded :=
        ht.branches.foldl_insertBranch hP hjoin hparts hls.collapsible.branch hls.each
      exact hfolded.collapse hP
  | insert hbranch rs => exact (ht.branches.insertBranch hP hjoin hparts hbranch hs).collapse hP
  | array x y => exact shallow_array hP (hparts hs.item ht.item)
  | document d e => exact hs.unionWith hP hjoin hparts ht
  | same => exact hs
  | apart hsb htb hlt hkind =>
      refine ⟨hjoin.joined hs.canonical ht.canonical (.apart hsb htb hlt hkind), ?_, ?_⟩
      · exact Everywhere.anyOf_iff.2 ⟨hP.apart hkind,
          List.forall_mem_cons.2 ⟨hs.everywhere, List.forall_mem_singleton.2 ht.everywhere⟩⟩
      · exact nest_anyOf_lt_iff.2 ⟨Nat.succ_pos n,
          List.forall_mem_cons.2 ⟨hs.nest, List.forall_mem_singleton.2 ht.nest⟩⟩

end Shallow

theorem shallow_joinWithin {P : Schema → Prop} (hP : JoinClosed P) (level : Nat) {s t : Schema}
    (hs : Shallow P level s) (ht : Shallow P level t) :
    Shallow P level (joinWithin level s t) := by
  induction level generalizing s t with
  | zero => exact absurd hs.nest (Nat.not_lt_zero _)
  | succ level ih =>
      have hjoin := keepsCanonical_joinWithin level
      rcases joinWithin_joined level s t with h | h
      · exact hs.joined hP hjoin ih ht h
      · exact ht.joined hP hjoin ih hs h

theorem JoinClosed.everywhere_join {P : Schema → Prop} (hP : JoinClosed P) {s t : Schema}
    (hsc : s.Canonical) (htc : t.Canonical) (hs : s.Everywhere P) (ht : t.Everywhere P) :
    (s.join t).Everywhere P := by
  have hnest : s.nest < max s.nest t.nest + 1 ∧ t.nest < max s.nest t.nest + 1 := by omega
  exact (shallow_joinWithin hP _ ⟨hsc, hs, hnest.1⟩ ⟨htc, ht, hnest.2⟩).everywhere

end Schema

end DocShape
