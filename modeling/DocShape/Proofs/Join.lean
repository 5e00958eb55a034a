import DocShape.Proofs.Branches
import DocShape.Proofs.Lookup

/-!
# The cases of a join

Everything that one level of `joinWithin` can do, and everything that adding a
branch can do, as one inversion each.  Properties of unions are proved over
these cases and never unfold the functions again.
-/

namespace DocShape

namespace Schema

/-- A schema that can stand as a branch of a canonical disjunction. -/
def IsBranch (s : Schema) : Prop :=
  s.kind ≠ .unsat ∧ s.kind ≠ .any ∧ s.kind ≠ .anyOf

instance (s : Schema) : Decidable s.IsBranch :=
  inferInstanceAs (Decidable (_ ∧ _ ∧ _))

theorem IsBranch.not_isAny {s : Schema} (h : s.IsBranch) : s.isAny = false := by
  cases s with
  | any => exact absurd rfl h.2.1
  | _ => rfl

theorem isAny_bare (s : Schema) : s.bare.isAny = s.isAny := by
  cases s <;> rfl

@[simp] theorem isBranch_missing : missing.IsBranch := by decide

@[simp] theorem isBranch_atomic (a : Atomic) : (atomic a).IsBranch := by simp [IsBranch, kind]

@[simp] theorem isBranch_array (items : Schema) : (array items).IsBranch := by
  simp [IsBranch, kind]

@[simp] theorem isBranch_document (d : Document) : (document d).IsBranch := by
  simp [IsBranch, kind]

/-! ## Branches by variant -/

section Variants

variable {b items : Schema} {d : Document} {bs : List Schema}

theorem mem_nonArrays : b ∈ nonArrays bs ↔ b ∈ bs ∧ b.kind ≠ .array := by
  rw [nonArrays, List.mem_filter, bne_iff_ne]

theorem mem_nonDocuments : b ∈ nonDocuments bs ↔ b ∈ bs ∧ b.kind ≠ .document := by
  rw [nonDocuments, List.mem_filter, bne_iff_ne]

theorem mem_arrayItems : items ∈ arrayItems bs ↔ array items ∈ bs := by
  rw [arrayItems, List.mem_filterMap]
  constructor
  · rintro ⟨b, hmem, hb⟩
    cases b with
    | array x =>
        cases hb
        exact hmem
    | _ => cases hb
  · intro hmem
    exact ⟨_, hmem, rfl⟩

theorem mem_documents : d ∈ documents bs ↔ document d ∈ bs := by
  rw [documents, List.mem_filterMap]
  constructor
  · rintro ⟨b, hmem, hb⟩
    cases b with
    | document e =>
        cases hb
        exact hmem
    | _ => cases hb
  · intro hmem
    exact ⟨_, hmem, rfl⟩

theorem mem_of_arrayItems_eq (h : arrayItems bs = [items]) : array items ∈ bs := by
  rw [← mem_arrayItems, h]
  exact List.mem_singleton_self items

theorem mem_of_documents_eq (h : documents bs = [d]) : document d ∈ bs := by
  rw [← mem_documents, h]
  exact List.mem_singleton_self d

private theorem nonArrays_of_arrayItems_eq_nil (h : arrayItems bs = []) : nonArrays bs = bs := by
  rw [nonArrays, List.filter_eq_self]
  intro b hmem
  rw [bne_iff_ne]
  intro hkind
  obtain ⟨items, rfl⟩ := kind_eq_array hkind
  have hitems := mem_arrayItems.2 hmem
  rw [h] at hitems
  cases hitems

private theorem nonDocuments_of_documents_eq_nil (h : documents bs = []) : nonDocuments bs = bs := by
  rw [nonDocuments, List.filter_eq_self]
  intro b hmem
  rw [bne_iff_ne]
  intro hkind
  obtain ⟨d, rfl⟩ := kind_eq_document hkind
  have hd := mem_documents.2 hmem
  rw [h] at hd
  cases hd

theorem length_documents (bs : List Schema) :
    (documents bs).length = bs.countP fun b => b.kind == .document := by
  induction bs with
  | nil => rfl
  | cons b rest ih =>
      rw [documents] at ih ⊢
      cases b <;> simp [kind, ih]

end Variants

/-! ## Adding a branch -/

section Insert

variable {join : Schema → Schema → Schema} {bs : List Schema} {s : Schema}

/-- What adding a branch to branches with at most one document can give: the
branch at the end, or in place of its variant's branches the one it merged into. -/
inductive Inserted (join : Schema → Schema → Schema) (bs : List Schema) :
    Schema → List Schema → Prop where
  | beside {s : Schema} (harray : s.kind = .array → arrayItems bs = [])
      (hdocument : s.kind = .document → documents bs = []) : Inserted join bs s (bs ++ [s])
  | intoArray {x y : Schema} (h : arrayItems bs = [x]) :
      Inserted join bs (.array y) (nonArrays bs ++ [.array (join x y)])
  | intoArrays {y : Schema} (h : 2 ≤ (arrayItems bs).length) :
      Inserted join bs (.array y) (nonArrays bs ++ [anyArray])
  | intoDocument {d e : Document} (h : documents bs = [d]) :
      Inserted join bs (.document e) (nonDocuments bs ++ [.document (d.unionWith join e)])

theorem insertBranch_inserted (join : Schema → Schema → Schema) (s : Schema)
    (hsingle : (documents bs).length ≤ 1) : Inserted join bs s (insertBranch join bs s) := by
  cases s with
  | array y =>
      rw [insertBranch]
      match hitems : arrayItems bs with
      | [] =>
          rw [nonArrays_of_arrayItems_eq_nil hitems]
          exact .beside (fun _ => hitems) nofun
      | [x] => exact .intoArray hitems
      | x :: x' :: rest => exact .intoArrays (by rw [hitems]; simp)
  | document e =>
      rw [insertBranch]
      match hdocs : documents bs with
      | [] =>
          rw [nonDocuments_of_documents_eq_nil hdocs]
          exact .beside nofun (fun _ => hdocs)
      | [d] => exact .intoDocument hdocs
      | d :: d' :: rest =>
          rw [hdocs] at hsingle
          simp at hsingle
  | _ => exact .beside nofun nofun

end Insert

/-! ## One level of a join -/

/-- What the join of two schemas in order can be, where `join` unions what their
containers hold. -/
inductive Joined (join : Schema → Schema → Schema) : Schema → Schema → Schema → Prop where
  | unsat (t : Schema) : Joined join .unsat t t
  | any (s : Schema) : Joined join s .any .any
  | fold (ls rs : List Schema) :
      Joined join (.anyOf ls) (.anyOf rs) (collapse (ls.foldl (insertBranch join) rs))
  | insert {s : Schema} (hs : s.IsBranch) (rs : List Schema) :
      Joined join s (.anyOf rs) (collapse (insertBranch join rs s))
  | array (x y : Schema) : Joined join (.array x) (.array y) (.array (join x y))
  | document (d e : Document) :
      Joined join (.document d) (.document e) (.document (d.unionWith join e))
  | same {s : Schema} (hs : s.IsBranch) : Joined join s s s
  | apart {s t : Schema} (hs : s.IsBranch) (ht : t.IsBranch) (hlt : s.compare t = .lt)
      (hkind : s.kind = t.kind → s.kind = .atomic) : Joined join s t (.anyOf [s, t])

theorem rank_le_of_compare_ne_gt {s t : Schema} (h : s.compare t ≠ .gt) :
    s.kind.rank ≤ t.kind.rank := by
  by_contra hlt
  exact h (Std.OrientedCmp.gt_of_lt (compare_of_rank_lt (Nat.lt_of_not_le hlt)))

private theorem ofBranches_pair {s t : Schema} (h : s.compare t = .lt) :
    ofBranches [s, t] = .anyOf [s, t] := by
  rw [ofBranches, sortBranches_of_ascending]
  exact List.pairwise_pair.2 h

theorem isBranch_of_shape {s : Schema} (hunsat : s ≠ .unsat) (hany : s ≠ .any)
    (hanyOf : ∀ bs, s ≠ .anyOf bs) : s.IsBranch := by
  refine ⟨?_, ?_, ?_⟩
  · intro hkind
    cases s <;> first | exact hunsat rfl | cases hkind
  · intro hkind
    cases s <;> first | exact hany rfl | cases hkind
  · intro hkind
    obtain ⟨bs, rfl⟩ := kind_eq_anyOf hkind
    exact hanyOf bs rfl

private theorem kind_of_unmerged {s t : Schema} (hs : s.IsBranch)
    (harray : ∀ x y, s = .array x → t ≠ .array y)
    (hdocument : ∀ d e, s = .document d → t ≠ .document e) (hkind : s.kind = t.kind) :
    s.kind = .atomic ∨ s = .missing ∧ t = .missing := by
  cases s with
  | atomic a => exact Or.inl rfl
  | missing =>
      cases t <;> cases hkind
      exact Or.inr ⟨rfl, rfl⟩
  | array x =>
      obtain ⟨y, rfl⟩ := kind_eq_array hkind.symm
      exact absurd rfl (harray x y rfl)
  | document d =>
      obtain ⟨e, rfl⟩ := kind_eq_document hkind.symm
      exact absurd rfl (hdocument d e rfl)
  | unsat => exact absurd rfl hs.1
  | any => exact absurd rfl hs.2.1
  | anyOf bs => exact absurd rfl hs.2.2

/-- The last rule of a join: two branches that do not merge. -/
theorem joined_of_unmerged (join : Schema → Schema → Schema) {s t : Schema} (hs : s.IsBranch)
    (ht : t.IsBranch) (h : s.compare t ≠ .gt) (harray : ∀ x y, s = .array x → t ≠ .array y)
    (hdocument : ∀ d e, s = .document d → t ≠ .document e) :
    Joined join s t (if s.same t then s else ofBranches [s, t]) := by
  have hkind := kind_of_unmerged hs harray hdocument
  cases hcompare : s.compare t with
  | gt => exact absurd hcompare h
  | eq =>
      have hkinds : s.kind = t.kind := kind_eq_of_compare_eq hcompare
      have heq : s = t := by
        rcases hkind hkinds with hatomic | ⟨rfl, rfl⟩
        · obtain ⟨a, rfl⟩ := kind_eq_atomic hatomic
          obtain ⟨b, rfl⟩ := kind_eq_atomic (hkinds ▸ hatomic)
          exact bare_eq_of_compare_eq hcompare
        · rfl
      subst heq
      rw [if_pos (by rw [same, hcompare]; rfl)]
      exact .same hs
  | lt =>
      rw [if_neg (by rw [same, hcompare]; decide), ofBranches_pair hcompare]
      refine .apart hs ht hcompare fun hkinds => ?_
      rcases hkind hkinds with hatomic | ⟨rfl, rfl⟩
      · exact hatomic
      · cases hcompare

theorem joinWithin_joined_of_ordered (level : Nat) {s t : Schema} (h : s.compare t ≠ .gt) :
    Joined (joinWithin level) s t (joinWithin (level + 1) s t) := by
  have hrank := rank_le_of_compare_ne_gt h
  rw [joinWithin]
  simp only [if_neg h]
  split
  · exact .unsat t
  · exact .any _
  · rename_i hany
    cases t with
    | anyOf rs => exact .fold _ rs
    | any => exact absurd rfl hany
    | _ => simp [kind, Kind.rank] at hrank
  · rename_i rs hunsat hanyOf
    refine .insert (isBranch_of_shape hunsat ?_ hanyOf) rs
    rintro rfl
    simp [kind, Kind.rank] at hrank
  · exact .array _ _
  · exact .document _ _
  · rename_i hunsat hanyOf hany hanyOf' harray hdocument
    refine joined_of_unmerged _ (isBranch_of_shape hunsat ?_ hanyOf)
      (isBranch_of_shape ?_ hany hanyOf') h harray hdocument
    · rintro rfl
      cases t <;> first | exact hany rfl | simp [kind, Kind.rank] at hrank
    · rintro rfl
      cases s <;> first | exact hunsat rfl | simp [kind, Kind.rank] at hrank

theorem joinWithin_swap (level : Nat) {s t : Schema} (h : s.compare t = .gt) :
    joinWithin (level + 1) s t = joinWithin (level + 1) t s := by
  have hlt : t.compare s ≠ .gt := by
    rw [Std.OrientedCmp.lt_of_gt h]
    nofun
  rw [joinWithin, joinWithin]
  simp only [if_pos h, if_neg hlt]

/-- One level of a join is a case of `Joined`, for the two schemas in order. -/
theorem joinWithin_joined (level : Nat) (s t : Schema) :
    Joined (joinWithin level) s t (joinWithin (level + 1) s t) ∨
      Joined (joinWithin level) t s (joinWithin (level + 1) s t) := by
  by_cases h : s.compare t = .gt
  · right
    rw [joinWithin_swap level h]
    apply joinWithin_joined_of_ordered
    rw [Std.OrientedCmp.lt_of_gt h]
    nofun
  · exact Or.inl (joinWithin_joined_of_ordered level h)

end Schema

end DocShape
