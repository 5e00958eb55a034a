import DocShape.Proofs.ListedPaths

/-!
# Truncated listings

A bound on the length of field paths only cuts them off.  The listing with a bound
never looks below it, while the one without goes on and drops or adds a path where
a field has none of its own; both agree on the names before the bound, one level of
fields at a time.
-/

namespace DocShape

/-! ## Listings cut off -/

namespace PathListing

variable {n : Nat} {full cut : PathListing} {field : String} {s : Schema}

/-- `cut` has exactly the paths of `full`, up to so many names each. -/
def Truncates (n : Nat) (full cut : PathListing) : Prop :=
  ∀ p, p ∈ cut.paths ↔ ∃ q ∈ full.paths, q.take n = p

theorem truncates_none : Truncates n none none := by
  simp [Truncates, none]

theorem truncates_leaf : Truncates n leaf leaf := by
  simp [Truncates, leaf, eq_comm]

/-- Below the bound nothing is looked at: the field is listed, whatever paths it has. -/
theorem truncates_under_leaf (hs : s.absence ≠ .must) :
    Truncates 1 (full.under field s) (leaf.under field s) := by
  intro p
  simp only [mem_under hs]
  have hleaf : leaf.paths = [[]] := rfl
  constructor
  · rintro (⟨hnil, -⟩ | ⟨q, hq, rfl⟩)
    · simp [hleaf] at hnil
    · rw [hleaf, List.mem_singleton] at hq
      cases hpaths : full.paths with
      | nil => exact ⟨[field], Or.inl ⟨rfl, rfl⟩, by simp [hq]⟩
      | cons r rest => exact ⟨field :: r, Or.inr ⟨r, List.mem_cons_self, rfl⟩, by simp [hq]⟩
  · rintro ⟨q, hq, rfl⟩
    right
    refine ⟨[], List.mem_singleton_self _, ?_⟩
    rcases hq with ⟨-, rfl⟩ | ⟨r, -, rfl⟩
    · rfl
    · rfl

theorem Truncates.under (h : Truncates n full cut) (hs : s.absence ≠ .must) :
    Truncates (n + 1) (full.under field s) (cut.under field s) := by
  -- A field without paths has none in either listing, and is then a path itself.
  have hnil : cut.paths = [] ↔ full.paths = [] := by
    simp only [List.eq_nil_iff_forall_not_mem, h _]
    constructor
    · intro hnone q hq
      exact hnone _ ⟨q, hq, rfl⟩
    · rintro hnone p ⟨q, hq, -⟩
      exact hnone q hq
  intro p
  simp only [mem_under hs, hnil, h _]
  constructor
  · rintro (⟨hfull, rfl⟩ | ⟨_, ⟨q, hq, rfl⟩, rfl⟩)
    · exact ⟨[field], Or.inl ⟨hfull, rfl⟩, by simp⟩
    · exact ⟨field :: q, Or.inr ⟨q, hq, rfl⟩, by simp⟩
  · rintro ⟨r, ⟨hfull, rfl⟩ | ⟨q, hq, rfl⟩, rfl⟩
    · exact Or.inl ⟨hfull, by simp⟩
    · exact Or.inr ⟨q.take n, ⟨q, hq, rfl⟩, by simp⟩

end PathListing

open PathListing (Truncates)

/-! ## Listings of one schema -/

namespace Schema

variable {s : Schema} {n : Nat} {d : Document} {whole part : Schema → Outcome PathListing}

/-- Both ways of listing the schema succeed, and the second lists the paths of the first up
to so many names. -/
def CutsOff (n : Nat) (whole part : Schema → Outcome PathListing) (s : Schema) : Prop :=
  ∃ full cut, whole s = .ok full ∧ part s = .ok cut ∧ Truncates n full cut

theorem exists_pathsBy_of_branches {descend : Schema → Outcome PathListing} (hs : s.Canonical)
    (h : ∀ b ∈ s.branches, ∃ sub, b.pathsBy descend = .ok sub) :
    ∃ listing, s.pathsBy descend = .ok listing := by
  have hnever : (s.pathsBy descend).FailsIff .cannotEnumerateAllFieldPaths
      (∃ b ∈ s.branches, False) := by
    refine failsIff_pathsBy_branches hs fun b hb => ?_
    obtain ⟨sub, hsub⟩ := h b hb
    rw [hsub]
    exact not_false
  exact hnever.exists_ok (by simp)

/-- A canonical schema is cut off branch by branch. -/
theorem cutsOff_of_branches (hs : s.Canonical)
    (h : ∀ b ∈ s.branches, b.CutsOff n (pathsBy whole) (pathsBy part)) :
    s.CutsOff n (pathsBy whole) (pathsBy part) := by
  obtain ⟨full, hfull⟩ := exists_pathsBy_of_branches hs fun b hb => by
    obtain ⟨own, -, hown, -⟩ := h b hb
    exact ⟨own, hown⟩
  obtain ⟨cut, hcut⟩ := exists_pathsBy_of_branches hs fun b hb => by
    obtain ⟨-, sub, -, hsub, -⟩ := h b hb
    exact ⟨sub, hsub⟩
  refine ⟨full, cut, hfull, hcut, fun p => ?_⟩
  simp only [mem_pathsBy_branches hs hfull, mem_pathsBy_branches hs hcut]
  constructor
  · rintro ⟨b, hb, sub, hsub, hp⟩
    obtain ⟨own, _, hown, hsub', htruncates⟩ := h b hb
    cases hsub.symm.trans hsub'
    obtain ⟨q, hq, rfl⟩ := (htruncates p).1 hp
    exact ⟨q, ⟨b, hb, own, hown, hq⟩, rfl⟩
  · rintro ⟨q, ⟨b, hb, own, hown, hq⟩, rfl⟩
    obtain ⟨_, sub, hown', hsub, htruncates⟩ := h b hb
    cases hown.symm.trans hown'
    exact ⟨b, hb, sub, hsub, (htruncates _).2 ⟨q, hq, rfl⟩⟩

theorem cutsOff_document (hopen : d.isOpen = false)
    (h : ∀ entry ∈ d.keys, ∃ full cut, whole entry.2 = .ok full ∧ part entry.2 = .ok cut ∧
      Truncates n (full.under entry.1 entry.2) (cut.under entry.1 entry.2)) :
    (document d).CutsOff n (pathsBy whole) (pathsBy part) := by
  have hkeys : ∃ full cut, keyPaths whole d.keys = .ok full ∧ keyPaths part d.keys = .ok cut ∧
      Truncates n full cut := by
    generalize d.keys = keys at h
    induction keys with
    | nil => exact ⟨.none, .none, rfl, rfl, PathListing.truncates_none⟩
    | cons entry rest ih =>
        obtain ⟨hentry, hrest⟩ := List.forall_mem_cons.1 h
        obtain ⟨full, cut, hfull, hcut, htruncates⟩ := hentry
        obtain ⟨others, othersCut, hothers, hothersCut, hrestTruncates⟩ := ih hrest
        refine ⟨(full.under entry.1 entry.2).append others,
          (cut.under entry.1 entry.2).append othersCut, ?_, ?_, fun p => ?_⟩
        · rw [keyPaths, hfull, hothers]
          rfl
        · rw [keyPaths, hcut, hothersCut]
          rfl
        · simp only [PathListing.append, List.mem_append, htruncates p, hrestTruncates p,
            or_and_right, exists_or]
  obtain ⟨full, cut, hfull, hcut, htruncates⟩ := hkeys
  refine ⟨full, cut, ?_, ?_, htruncates⟩
  · rw [pathsBy, Document.paths, hopen]
    exact hfull
  · rw [pathsBy, Document.paths, hopen]
    exact hcut

/-! ## Listings of every level -/

/-- A smaller bound meets no more. -/
theorem MeetsUnknown.mono {bound wider : Int} (h : s.MeetsUnknown bound) (hbound : 0 ≤ bound)
    (hle : wider < 0 ∨ bound ≤ wider) : s.MeetsUnknown wider := by
  obtain ⟨count, t, hreaches, hunknown, hcount⟩ := h
  exact ⟨count, t, hreaches, hunknown, by omega⟩

private theorem boundBelow_succ (n : Nat) : boundBelow ((n + 1 : Nat) : Int) = n := by
  rw [boundBelow, if_pos (by omega)]
  omega

/-- Where no unknown field is met at all, a bound cuts off the paths that are listed
without it. -/
theorem cutsOff_pathsWithin {level : Nat} (hs : s.Canonical) (hlevel : s.nest < level)
    (hknown : ¬ s.MeetsUnknown (-1)) :
    s.CutsOff (n + 1) (pathsWithin level (-1)) (pathsWithin level ((n + 1 : Nat) : Int)) := by
  induction level generalizing s n with
  | zero => cases hlevel
  | succ level ih =>
      have hbranches : s.CutsOff (n + 1) (pathsBy (pathsWithin level (-1)))
          (pathsBy (pathsWithin level n)) := by
        refine cutsOff_of_branches hs fun b hb => ?_
        have hbknown : ¬ b.MeetsUnknown (-1) := fun h =>
          hknown (meetsUnknown_iff_branch.2 ⟨b, hb, h⟩)
        cases b with
        | anyOf bs => exact absurd rfl (hs.kind_ne_anyOf hb)
        | any => exact absurd (meetsUnknown_any (by decide)) hbknown
        | unsat | missing => exact ⟨.none, .none, rfl, rfl, PathListing.truncates_none⟩
        | atomic | array => exact ⟨.leaf, .leaf, rfl, rfl, PathListing.truncates_leaf⟩
        | document d =>
            have hd : (document d).Canonical := hs.of_mem_branches hb
            rw [meetsUnknown_document_iff (by decide), not_or, Bool.not_eq_true, not_exists]
              at hbknown
            refine cutsOff_document hbknown.1 fun entry hmem => ?_
            have hentry := (canonical_document_iff.1 hd entry hmem).2
            have hpresent := hd.keys_absence_ne_must entry hmem
            have hnest := nest_key_lt hb hmem
            have hentryKnown : ¬ entry.2.MeetsUnknown (-1) := fun h => hbknown.2 entry ⟨hmem, h⟩
            cases n with
            | zero =>
                obtain ⟨full, hfull⟩ := (failsIff_pathsWithin hentry
                  (show entry.2.nest < level by omega)).exists_ok hentryKnown
                refine ⟨full, .leaf, hfull, ?_, PathListing.truncates_under_leaf hpresent⟩
                obtain ⟨below, rfl⟩ := Nat.exists_eq_succ_of_ne_zero (show level ≠ 0 by omega)
                rfl
            | succ n =>
                obtain ⟨full, cut, hfull, hcut, htruncates⟩ := ih hentry (by omega) hentryKnown
                exact ⟨full, cut, hfull, hcut, htruncates.under hpresent⟩
      obtain ⟨full, cut, hfull, hcut, htruncates⟩ := hbranches
      refine ⟨full, cut, hfull, ?_, htruncates⟩
      rw [pathsWithin, if_neg (by omega), boundBelow_succ]
      exact hcut

theorem exists_fieldPaths_iff {bound : Int} (hs : s.Canonical) :
    (∃ listing, s.fieldPaths bound = .ok listing) ↔ ¬ s.MeetsUnknown bound :=
  ((failsIff_pathsWithin hs (Nat.lt_succ_self s.nest)).bind_pure _).exists_ok_iff

/-- A bound on the length only truncates the paths of a canonical schema.  If they can be
listed without a bound, then they can with one, and the listing has, in order and without
repetition, exactly the unbounded paths up to so many names each; a listing under one bound
gives a listing under any smaller one. -/
theorem fieldPaths_truncates (hs : s.Canonical) :
    (∀ full, s.fieldPaths (-1) = .ok full → ∀ n : Nat, 1 ≤ n →
      ∃ cut, s.fieldPaths n = .ok cut ∧ FieldPath.Ascending cut.paths ∧
        ∀ p, p ∈ cut.paths ↔ ∃ q ∈ full.paths, q.take n = p) ∧
      ∀ n m : Nat, 1 ≤ n → n ≤ m → (∃ listing, s.fieldPaths m = .ok listing) →
        ∃ listing, s.fieldPaths n = .ok listing := by
  constructor
  · intro full hfull n hn
    obtain ⟨n, rfl⟩ := Nat.exists_eq_succ_of_ne_zero (Nat.one_le_iff_ne_zero.1 hn)
    have hknown := (exists_fieldPaths_iff hs).1 ⟨full, hfull⟩
    obtain ⟨whole, part, hwhole, hpart, htruncates⟩ :=
      cutsOff_pathsWithin (n := n) hs (Nat.lt_succ_self s.nest) hknown
    rw [fieldPaths, hwhole] at hfull
    cases hfull
    refine ⟨{ part with paths := FieldPath.sorted part.paths }, ?_,
      FieldPath.ascending_sorted _, fun p => ?_⟩
    · rw [fieldPaths, hpart]
      rfl
    · simp only [FieldPath.mem_sorted]
      exact htruncates p
  · intro n m _ hle hm
    rw [exists_fieldPaths_iff hs] at hm ⊢
    exact fun h => hm (h.mono (by omega) (by omega))

/-- Orders with an address: two paths below it become one, and a field that holds the empty
document stays.  With a field that holds anything two levels down, a bound of two names
suffices for a listing, and so does one name. -/
theorem fieldPaths_truncates_order :
    let address : Schema :=
      .document (.ofFields [("city", .atomic .string), ("geo", .document .empty)] ["city"] false)
    let order : Schema := .anyOf [.atomic .null,
      .document (.ofFields [("lines", .array .any), ("to", address)] ["lines"] false)]
    let parcel : Schema := .document (.ofFields
      [("to", .document (.ofFields [("extra", .any)] [] false))] [] false)
    let full : PathListing := ⟨[[], ["lines"], ["to", "city"], ["to", "geo"]], true⟩
    order.Canonical ∧ parcel.Canonical ∧ order.fieldPaths (-1) = .ok full ∧
      (∃ cut, order.fieldPaths 1 = .ok cut ∧ FieldPath.Ascending cut.paths ∧
        ∀ p, p ∈ cut.paths ↔ ∃ q ∈ full.paths, q.take 1 = p) ∧
      (∃ listing, parcel.fieldPaths 2 = .ok listing) ∧
      ∃ listing, parcel.fieldPaths 1 = .ok listing := by
  intro address order parcel full
  have horder : order.Canonical := by decide +kernel
  have hparcel : parcel.Canonical := by decide +kernel
  have hfull : order.fieldPaths (-1) = .ok full := rfl
  have htwo : ∃ listing, parcel.fieldPaths 2 = .ok listing := ⟨⟨[["to", "extra"]], true⟩, rfl⟩
  exact ⟨horder, hparcel, hfull, (fieldPaths_truncates horder).1 full hfull 1 (by decide), htwo,
    (fieldPaths_truncates hparcel).2 1 2 (by decide) (by decide) htwo⟩

end Schema

end DocShape
