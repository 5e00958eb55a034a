import Mathlib.Data.List.Pairwise
import DocShape.Proofs.Parts

/-!
# Joins of disjunctions with several arrays

A join adds the branches of the lesser schema to those of the greater one.  An
array merges with the one array it meets, and with several it becomes the array
of anything.  So the arrays of the lesser schema become one, and those of the
greater one stay apart only as long as none is added.
-/

namespace DocShape

/-- `v` is what `f` makes of `x` and `y`, in one order or the other. -/
def EitherWay {α : Type} (f : α → α → α) (x y v : α) : Prop :=
  v = f x y ∨ v = f y x

theorem EitherWay.eq_of_comm {α : Type} {f : α → α → α} {x y v : α} (h : EitherWay f x y v)
    (hcomm : f x y = f y x) : v = f x y :=
  h.elim id fun heq => heq.trans hcomm.symm

namespace Schema

variable {join : Schema → Schema → Schema} {bs ls rs out : List Schema}

/-! ## Adding arrays -/

/-- The items of arrays with those of one more array. -/
def gatherArray (join : Schema → Schema → Schema) : List Schema → Schema → List Schema
  | [], y => [y]
  | [x], y => [join x y]
  | _, _ => [.any]

theorem length_gatherArray (xs : List Schema) (y : Schema) : (gatherArray join xs y).length = 1 := by
  unfold gatherArray
  split <;> rfl

theorem length_foldl_gatherArray (xs : List Schema) {ys : List Schema} (h : ys ≠ []) :
    (ys.foldl (gatherArray join) xs).length = 1 := by
  induction ys using List.reverseRecOn with
  | nil => exact absurd rfl h
  | append_singleton ys y _ =>
      rw [List.foldl_append, List.foldl_cons, List.foldl_nil]
      exact length_gatherArray _ _

theorem gatherArray_of_two_le {xs : List Schema} (h : 2 ≤ xs.length) (y : Schema) :
    gatherArray join xs y = [.any] := by
  unfold gatherArray
  split
  · simp at h
  · simp at h
  · rfl

private theorem foldl_gatherArray_any (hany : ∀ s, join .any s = .any) (ys : List Schema) :
    ys.foldl (gatherArray join) [.any] = [.any] := by
  induction ys with
  | nil => rfl
  | cons y ys ih => rw [List.foldl_cons, gatherArray, hany, ih]

/-- Any array added to several leaves the array of anything. -/
theorem foldl_gatherArray_of_two_le (hany : ∀ s, join .any s = .any) {xs ys : List Schema}
    (hxs : 2 ≤ xs.length) (hys : ys ≠ []) : ys.foldl (gatherArray join) xs = [.any] := by
  cases ys with
  | nil => exact absurd rfl hys
  | cons y ys => rw [List.foldl_cons, gatherArray_of_two_le hxs, foldl_gatherArray_any hany]

/-! ## Adding branches -/

/-- `out` is what adding the branches `ls` to the branches `rs` makes. -/
structure Folded (join : Schema → Schema → Schema) (out ls rs : List Schema) : Prop where
  flat : ∀ b : Schema, b.IsFlat → (b ∈ out ↔ b ∈ ls ∨ b ∈ rs)
  arrays : arrayItems out = (arrayItems ls).foldl (gatherArray join) (arrayItems rs)
  document : documentPart out =
    Option.merge (Document.unionWith join) (documentPart rs) (documentPart ls)

theorem documents_eq_nil_of_kind {s : Schema} (h : s.kind ≠ .document) : documents [s] = [] := by
  cases s <;> first | rfl | exact absurd rfl h

theorem documentPart_replaceArrays (f : Document → Document → Document) (bs : List Schema)
    (y z : Schema) :
    documentPart (nonArrays bs ++ [.array z]) =
      Option.merge f (documentPart bs) (documentPart [.array y]) := by
  have hnil (w : Schema) : documents [.array w] = [] := rfl
  rw [documentPart, documentPart, documentPart, documents_append, documents_nonArrays, hnil, hnil,
    List.append_nil, List.head?_nil, Option.merge_none_right]

theorem folded_inserted {s : Schema} (h : Inserted join bs s out) : Folded join out [s] bs := by
  cases h with
  | beside harray hdocument =>
      refine ⟨fun b _ => by rw [List.mem_append, or_comm], ?_, ?_⟩
      · rw [arrayItems_append]
        by_cases hkind : s.kind = .array
        · obtain ⟨y, rfl⟩ := kind_eq_array hkind
          rw [harray rfl]
          rfl
        · rw [arrayItems_eq_nil_of_kind hkind, List.append_nil, List.foldl_nil]
      · rw [documentPart, documentPart, documentPart, documents_append]
        by_cases hkind : s.kind = .document
        · rw [hdocument hkind, List.nil_append, List.head?_nil, Option.merge_none_left]
        · rw [documents_eq_nil_of_kind hkind, List.append_nil, List.head?_nil,
            Option.merge_none_right]
  | @intoArray x y hitems =>
      refine ⟨fun b hb => ?_, ?_, ?_⟩
      · rw [List.mem_append, mem_nonArrays, and_iff_left hb.kind_ne.1]
        simp only [hb.notMem_array, or_false, false_or]
      · rw [arrayItems_append, arrayItems_nonArrays, hitems]
        rfl
      · exact documentPart_replaceArrays _ bs _ _
  | @intoArrays y hitems =>
      refine ⟨fun b hb => ?_, ?_, ?_⟩
      · rw [List.mem_append, mem_nonArrays, and_iff_left hb.kind_ne.1]
        simp only [anyArray, hb.notMem_array, or_false, false_or]
      · rw [arrayItems_append, arrayItems_nonArrays]
        exact (gatherArray_of_two_le hitems y).symm
      · exact documentPart_replaceArrays _ bs _ _
  | @intoDocument d e hdocuments =>
      refine ⟨fun b hb => ?_, ?_, ?_⟩
      · rw [List.mem_append, mem_nonDocuments, and_iff_left hb.kind_ne.2]
        simp only [hb.notMem_document, or_false, false_or]
      · rw [arrayItems_append, arrayItems_nonDocuments, arrayItems_eq_nil_of_kind (fun h => by cases h),
          arrayItems_eq_nil_of_kind (fun h => by cases h), List.append_nil, List.foldl_nil]
      · rw [documentPart, documentPart, documents_append, documents_nonDocuments, hdocuments]
        rfl

theorem Folded.cons {l : Schema} {mid : List Schema} (hdocuments : (documents (l :: ls)).length ≤ 1)
    (hmid : Folded join mid [l] bs) (h : Folded join out ls mid) : Folded join out (l :: ls) bs where
  flat b hb := by
    rw [h.flat b hb, hmid.flat b hb, List.mem_singleton, List.mem_cons, or_left_comm, or_assoc]
  arrays := by
    have hsplit : arrayItems (l :: ls) = arrayItems [l] ++ arrayItems ls := arrayItems_append [l] ls
    rw [h.arrays, hmid.arrays, hsplit, List.foldl_append]
  document := by
    have hsplit : documents (l :: ls) = documents [l] ++ documents ls := documents_append [l] ls
    rw [hsplit] at hdocuments
    rw [h.document, hmid.document, documentPart, documentPart, documentPart, documentPart, hsplit]
    exact merge_head?_append hdocuments _

theorem folded_foldl_insertBranch (hjoin : KeepsCanonical join) (hls : ∀ b ∈ ls, b.IsBranch)
    (hcanonical : ∀ b ∈ ls, b.Canonical) (hone : (documents ls).length ≤ 1) (hrs : Collapsible rs) :
    Folded join (ls.foldl (insertBranch join) rs) ls rs := by
  induction ls generalizing rs with
  | nil =>
      exact ⟨fun b _ => (or_iff_right List.not_mem_nil).symm, rfl, Option.merge_none_right.symm⟩
  | cons l ls ih =>
      obtain ⟨hl, hls⟩ := List.forall_mem_cons.1 hls
      obtain ⟨hlcanonical, hcanonical⟩ := List.forall_mem_cons.1 hcanonical
      have htail : (documents ls).length ≤ 1 :=
        Nat.le_trans ((List.sublist_cons_self l ls).filterMap _).length_le hone
      have hmid := hrs.insertBranch hjoin hl hlcanonical
      exact (folded_inserted (insertBranch_inserted join l hrs.oneDocument)).cons hone
        (ih hls hcanonical htail hmid)

/-! ## Sorting -/

theorem IsFlat.eq_of_compare_eq {b c : Schema} (hb : b.IsFlat) (h : b.compare c = .eq) : b = c := by
  have hkind : b.kind = c.kind := kind_eq_of_compare_eq h
  have hbare := bare_eq_of_compare_eq h
  rcases hb with hb | hb
  · cases b <;> cases hb
    cases c <;> cases hkind
    rfl
  · obtain ⟨a, rfl⟩ := kind_eq_atomic hb
    obtain ⟨a', rfl⟩ := kind_eq_atomic (hkind ▸ hb)
    exact hbare

theorem IsFlat.mem_sortBranches {b : Schema} (hb : b.IsFlat) : b ∈ sortBranches bs ↔ b ∈ bs := by
  refine ⟨mem_of_mem_sortBranches, fun h => ?_⟩
  obtain ⟨c, hc, heq⟩ := exists_mem_sortBranches h
  rwa [hb.eq_of_compare_eq heq]

theorem Ascending.eq_of_compare_eq (h : Ascending bs) {b c : Schema} (hb : b ∈ bs) (hc : c ∈ bs)
    (heq : b.compare c = .eq) : b = c := by
  by_contra hne
  have happart : bs.Pairwise fun a b => a.compare b ≠ .eq := h.imp fun hlt => by rw [hlt]; decide
  have hsymm : Std.Symm fun a b : Schema => a.compare b ≠ .eq :=
    ⟨fun a b hab hba => hab (Std.OrientedCmp.eq_symm hba)⟩
  exact happart.forall hb hc hne heq

/-- Sorting leaves the branches of one kind as they are if they are in order. -/
theorem filter_sortBranches {k : Kind} (h : Ascending (bs.filter fun b => b.kind == k)) :
    (sortBranches bs).filter (fun b => b.kind == k) = bs.filter fun b => b.kind == k := by
  refine Ascending.eq_of_mem_iff ((ascending_sortBranches bs).filter _) h fun b => ?_
  rw [List.mem_filter, List.mem_filter, and_congr_left_iff]
  intro hk
  refine ⟨mem_of_mem_sortBranches, fun hb => ?_⟩
  obtain ⟨c, hc, heq⟩ := exists_mem_sortBranches hb
  have hkind : b.kind = c.kind := kind_eq_of_compare_eq heq
  have hbmem : b ∈ bs.filter fun b => b.kind == k := List.mem_filter.2 ⟨hb, hk⟩
  have hcmem : c ∈ bs.filter fun b => b.kind == k :=
    List.mem_filter.2 ⟨mem_of_mem_sortBranches hc, hkind ▸ hk⟩
  rwa [h.eq_of_compare_eq hbmem hcmem heq]

theorem filter_array (bs : List Schema) :
    bs.filter (fun b => b.kind == .array) = (arrayItems bs).map array := by
  rw [arrayItems, List.map_filterMap, ← List.filterMap_eq_filter]
  refine List.filterMap_congr fun b _ => ?_
  cases b <;> rfl

theorem filter_document (bs : List Schema) :
    bs.filter (fun b => b.kind == .document) = (documents bs).map document := by
  rw [documents, List.map_filterMap, ← List.filterMap_eq_filter]
  refine List.filterMap_congr fun b _ => ?_
  cases b <;> rfl

theorem ascending_of_length_le_one (h : bs.length ≤ 1) : Ascending bs := by
  cases bs with
  | nil => exact List.Pairwise.nil
  | cons b rest =>
      rw [List.eq_nil_of_length_eq_zero (Nat.le_zero.1 (Nat.le_of_succ_le_succ h))]
      exact List.pairwise_singleton _ _

private theorem arrayItems_sortBranches (h : Ascending ((arrayItems bs).map array)) :
    arrayItems (sortBranches bs) = arrayItems bs := by
  have hfilter := filter_sortBranches (k := .array) (filter_array bs ▸ h)
  rw [filter_array, filter_array] at hfilter
  exact List.map_injective_iff.2 (fun _ _ heq => by cases heq; rfl) hfilter

private theorem documents_sortBranches (h : (documents bs).length ≤ 1) :
    documents (sortBranches bs) = documents bs := by
  have hascending : Ascending ((documents bs).map document) :=
    ascending_of_length_le_one (by rwa [List.length_map])
  have hfilter := filter_sortBranches (k := .document) (filter_document bs ▸ hascending)
  rw [filter_document, filter_document] at hfilter
  exact List.map_injective_iff.2 (fun _ _ heq => by cases heq; rfl) hfilter

theorem Folded.sortBranches (h : Folded join out ls rs) (hone : (documents out).length ≤ 1)
    (hrs : Ascending rs) : Folded join (sortBranches out) ls rs where
  flat b hb := hb.mem_sortBranches.trans (h.flat b hb)
  arrays := by
    rw [← h.arrays]
    refine arrayItems_sortBranches ?_
    rw [h.arrays]
    by_cases hls : arrayItems ls = []
    · rw [hls, List.foldl_nil, ← filter_array]
      exact hrs.filter _
    · refine ascending_of_length_le_one ?_
      rw [List.length_map, length_foldl_gatherArray _ hls]
  document := by rw [documentPart, documents_sortBranches hone, ← documentPart, h.document]

/-! ## Joins -/

/-- `r` is what a join makes of `s` and `t`, part by part, where `s` is the lesser. -/
structure JoinParts (join : Schema → Schema → Schema) (s t r : Schema) : Prop where
  ne_any : r ≠ .any
  flat : ∀ b : Schema, b.IsFlat → (b ∈ r.parts ↔ b ∈ s.parts ∨ b ∈ t.parts)
  arrays : arrayItems r.parts =
      (arrayItems s.parts).foldl (gatherArray join) (arrayItems t.parts) ∨
    ∃ x y, arrayItems s.parts = [x] ∧ arrayItems t.parts = [y] ∧ arrayItems r.parts = [join x y]
  document : EitherWay (Option.merge (Document.unionWith join)) (documentPart s.parts)
    (documentPart t.parts) (documentPart r.parts)

theorem Folded.joinParts {s t : Schema} (h : Folded join out s.parts t.parts)
    (hout : Collapsible out) (ht : t.Canonical) : JoinParts join s t (collapse out) := by
  obtain ⟨hany, hparts⟩ := parts_collapse hout.branch
  have hsorted := h.sortBranches hout.oneDocument (ascending_parts ht)
  rw [← hparts] at hsorted
  exact ⟨hany, hsorted.flat, Or.inl hsorted.arrays, Or.inr hsorted.document⟩

theorem joinWithin_arrays_of_ordered (n : Nat) {x y : Schema}
    (h : (array x).compare (array y) ≠ .gt) :
    joinWithin (n + 1) (.array x) (.array y) = .array (joinWithin n x y) := by
  rw [joinWithin]
  simp only [if_neg h]

theorem joinWithin_documents_of_ordered (n : Nat) {d o : Document}
    (h : (document d).compare (document o) ≠ .gt) :
    joinWithin (n + 1) (.document d) (.document o) = .document (d.unionWith (joinWithin n) o) := by
  rw [joinWithin]
  simp only [if_neg h]

theorem joinParts_same {s : Schema} (hs : s.IsFlat) : JoinParts join s s s := by
  have hparts : s.parts = [s] := by
    refine parts_of_isBranch ⟨?_, ?_, ?_⟩ <;> rcases hs with hs | hs <;> rw [hs] <;> decide
  refine ⟨fun heq => ?_, fun b _ => or_self_iff.symm, Or.inl ?_, Or.inl ?_⟩
  · rcases hs with hs | hs <;> rw [heq] at hs <;> cases hs
  · rw [hparts, arrayItems_eq_nil_of_kind hs.kind_ne.1]
    rfl
  · rw [hparts, documentPart, documents_eq_nil_of_kind hs.kind_ne.2]
    rfl

theorem joinParts_apart {s t : Schema} (hs : s.IsBranch) (ht : t.IsBranch)
    (hkind : s.kind = t.kind → s.kind = .atomic) : JoinParts join s t (.anyOf [s, t]) := by
  have harrays : arrayItems [s, t] = arrayItems [s] ++ arrayItems [t] := arrayItems_append [s] [t]
  have hdocuments : documents [s, t] = documents [s] ++ documents [t] := documents_append [s] [t]
  have hsplit {k : Kind} (hk : k ≠ .atomic) : s.kind ≠ k ∨ t.kind ≠ k := by
    by_contra hboth
    obtain ⟨hsk, htk⟩ := not_or.1 hboth
    rw [not_not] at hsk htk
    exact hk (hsk ▸ hkind (hsk.trans htk.symm))
  refine ⟨fun heq => (by cases heq), ?_, Or.inl ?_, Or.inl ?_⟩
  all_goals rw [parts_of_isBranch hs, parts_of_isBranch ht, parts]
  · exact fun b _ => List.mem_append (s := [s]) (t := [t])
  · rw [harrays]
    rcases hsplit (k := .array) (by decide) with hk | hk
    · rw [arrayItems_eq_nil_of_kind hk]
      rfl
    · rw [arrayItems_eq_nil_of_kind hk, List.append_nil]
      cases s <;> rfl
  · rw [documentPart, hdocuments, documentPart, documentPart]
    rcases hsplit (k := .document) (by decide) with hk | hk
    · rw [documents_eq_nil_of_kind hk, List.nil_append, List.head?_nil, Option.merge_none_left]
    · rw [documents_eq_nil_of_kind hk, List.append_nil, List.head?_nil, Option.merge_none_right]

theorem joinParts_joinWithin (n : Nat) {s t : Schema} (hs : s.Canonical) (ht : t.Canonical)
    (hsany : s ≠ .any) (htany : t ≠ .any) (hle : s.compare t ≠ .gt) :
    JoinParts (joinWithin n) s t (joinWithin (n + 1) s t) := by
  have hjoin := keepsCanonical_joinWithin n
  have hjoined := joinWithin_joined_of_ordered n hle
  generalize hr : joinWithin (n + 1) s t = r at hjoined
  cases hjoined with
  | unsat =>
      exact ⟨htany, fun b _ => (or_iff_right List.not_mem_nil).symm, Or.inl rfl,
        Or.inl Option.merge_none_left.symm⟩
  | any => exact absurd rfl htany
  | fold ls rs =>
      have hls := hs.collapsible
      have hrs := ht.collapsible
      exact (folded_foldl_insertBranch hjoin hls.branch hls.canonical hls.oneDocument hrs).joinParts
        (.foldl_insertBranch hjoin hls.branch hls.canonical hrs) ht
  | insert hbranch rs =>
      have hrs := ht.collapsible
      have hfolded := folded_inserted (insertBranch_inserted (joinWithin n) s hrs.oneDocument)
      rw [← parts_of_isBranch hbranch] at hfolded
      exact hfolded.joinParts (hrs.insertBranch hjoin hbranch hs) ht
  | array x y =>
      refine ⟨fun heq => (by cases heq), fun b hb => ?_, Or.inr ⟨x, y, rfl, rfl, rfl⟩, Or.inl rfl⟩
      simp only [parts, hb.notMem_array, or_self]
  | document d e =>
      refine ⟨fun heq => (by cases heq), fun b hb => ?_, Or.inl rfl, Or.inl rfl⟩
      simp only [parts, hb.notMem_document, or_self]
  | same hbranch =>
      -- The rule is meant for flat schemas; of others it says that the merged schema is the same.
      cases s with
      | array x =>
          rw [joinWithin_arrays_of_ordered n hle] at hr
          have hitems : x = joinWithin n x x := (array.inj hr).symm
          exact ⟨hsany, fun b _ => or_self_iff.symm,
            Or.inr ⟨x, x, rfl, rfl, congrArg ([·]) hitems⟩, Or.inl rfl⟩
      | document d =>
          rw [joinWithin_documents_of_ordered n hle] at hr
          have hmerged : d = d.unionWith (joinWithin n) d := (document.inj hr).symm
          exact ⟨hsany, fun b _ => or_self_iff.symm, Or.inl rfl, Or.inl (congrArg some hmerged)⟩
      | missing => exact joinParts_same (Or.inl rfl)
      | atomic a => exact joinParts_same (Or.inr rfl)
      | unsat => exact absurd rfl hbranch.1
      | any => exact absurd rfl hbranch.2.1
      | anyOf bs => exact absurd rfl hbranch.2.2
  | apart hsb htb _ hkind => exact joinParts_apart hsb htb hkind

namespace JoinParts

variable {s t r : Schema}

theorem arrays_of_le_one (h : JoinParts join s t r) (hs : (arrayItems s.parts).length ≤ 1)
    (ht : (arrayItems t.parts).length ≤ 1) :
    (arrayItems r.parts).length ≤ 1 ∧
      EitherWay (Option.merge join) (arrayPart s.parts) (arrayPart t.parts) (arrayPart r.parts) := by
  rw [arrayPart, arrayPart, arrayPart]
  rcases h.arrays with harrays | ⟨x, y, hx, hy, hr⟩
  · rw [harrays]
    cases hx : arrayItems s.parts with
    | nil => exact ⟨ht, Or.inl Option.merge_none_left.symm⟩
    | cons x rest =>
        have hrest : rest = [] := by simpa [hx] using hs
        rw [hrest]
        refine ⟨Nat.le_of_eq (length_gatherArray _ _), Or.inr ?_⟩
        cases hy : arrayItems t.parts with
        | nil => rfl
        | cons y rest' =>
            have hrest' : rest' = [] := by simpa [hy] using ht
            rw [hrest']
            rfl
  · rw [hx, hy, hr]
    exact ⟨Nat.le_refl 1, Or.inl rfl⟩

theorem arrays_of_several_left (h : JoinParts join s t r)
    (hs : 2 ≤ (arrayItems s.parts).length) :
    arrayItems r.parts = (arrayItems s.parts).foldl (gatherArray join) (arrayItems t.parts) := by
  rcases h.arrays with harrays | ⟨x, y, hx, -, -⟩
  · exact harrays
  · simp [hx] at hs

theorem arrays_of_several_right (h : JoinParts join s t r) (hany : ∀ s, join .any s = .any)
    (ht : 2 ≤ (arrayItems t.parts).length) :
    arrayItems r.parts = if arrayItems s.parts = [] then arrayItems t.parts else [.any] := by
  rcases h.arrays with harrays | ⟨x, y, -, hy, -⟩
  · rw [harrays]
    split
    · rename_i hnil
      rw [hnil, List.foldl_nil]
    · rename_i hne
      exact foldl_gatherArray_of_two_le hany ht hne
  · simp [hy] at ht

end JoinParts

/-- `r` is what a join makes of `s` and `t`, part by part, in whichever order they stand. -/
def JoinsTo (n : Nat) (s t r : Schema) : Prop :=
  (s.compare t ≠ .gt ∧ JoinParts (joinWithin n) s t r) ∨
    (t.compare s ≠ .gt ∧ JoinParts (joinWithin n) t s r)

namespace JoinsTo

variable {n : Nat} {s t r : Schema}

theorem of_eitherWay (h : EitherWay (joinWithin (n + 1)) s t r) (hs : s.Canonical)
    (ht : t.Canonical) (hsany : s ≠ .any) (htany : t ≠ .any) : JoinsTo n s t r := by
  have hle {a b : Schema} (hgt : a.compare b = .gt) : b.compare a ≠ .gt := by
    rw [Std.OrientedCmp.lt_of_gt hgt]
    decide
  rcases h with rfl | rfl
  · by_cases hgt : s.compare t = .gt
    · rw [joinWithin_swap n hgt]
      exact Or.inr ⟨hle hgt, joinParts_joinWithin n ht hs htany hsany (hle hgt)⟩
    · exact Or.inl ⟨hgt, joinParts_joinWithin n hs ht hsany htany hgt⟩
  · by_cases hgt : t.compare s = .gt
    · rw [joinWithin_swap n hgt]
      exact Or.inl ⟨hle hgt, joinParts_joinWithin n hs ht hsany htany (hle hgt)⟩
    · exact Or.inr ⟨hgt, joinParts_joinWithin n ht hs htany hsany hgt⟩

theorem ne_any (h : JoinsTo n s t r) : r ≠ .any :=
  h.elim (fun h => h.2.ne_any) fun h => h.2.ne_any

theorem flat (h : JoinsTo n s t r) (b : Schema) (hb : b.IsFlat) :
    b ∈ r.parts ↔ b ∈ s.parts ∨ b ∈ t.parts :=
  h.elim (fun h => h.2.flat b hb) fun h => (h.2.flat b hb).trans or_comm

theorem document (h : JoinsTo n s t r) :
    EitherWay (Option.merge (Document.unionWith (joinWithin n))) (documentPart s.parts)
      (documentPart t.parts) (documentPart r.parts) :=
  h.elim (fun h => h.2.document) fun h => h.2.document.symm

theorem arrays_of_le_one (h : JoinsTo n s t r) (hs : (arrayItems s.parts).length ≤ 1)
    (ht : (arrayItems t.parts).length ≤ 1) :
    (arrayItems r.parts).length ≤ 1 ∧ EitherWay (Option.merge (joinWithin n))
      (arrayPart s.parts) (arrayPart t.parts) (arrayPart r.parts) :=
  h.elim (fun h => h.2.arrays_of_le_one hs ht) fun h =>
    (h.2.arrays_of_le_one ht hs).imp_right Or.symm

end JoinsTo

end Schema

end DocShape
