import Mathlib.Data.List.Dedup
import DocShape.Proofs.Sampling
import DocShape.Proofs.Semilattice

/-!
# Runs of a sampler

Calls of `add` on a new sampler, some of them refused.  As long as the shapes
count as stable the running type is closed and says of each field whether some
and whether all documents have it; once they do not, it is open, requires
nothing and leaves every field free.  The flag tells the two apart.
-/

namespace DocShape

/-! ## Unions that keep statistics -/

namespace Document

def untracked (d : Document) : Document :=
  { d with jaccard := none }

def tracked (d : Document) (j : Jaccard) : Document :=
  { d with jaccard := some j }

/-- With statistics on one side, a union is that of the types without them, or
it gives up. -/
theorem unionWith_tracked (join : Schema → Schema → Schema) {d o : Document} {j : Jaccard}
    (hd : d.jaccard = some j) (ho : o.jaccard = none) :
    d.unionWith join o =
      if (j.update (Jaccard.similarity d.keyNames o.keyNames)).isUnstable then
        unconstrained.tracked (j.update (Jaccard.similarity d.keyNames o.keyNames))
      else
        (d.untracked.unionWith join o).tracked
          (j.update (Jaccard.similarity d.keyNames o.keyNames)) := by
  simp only [unionWith, hd, ho, Jaccard.combine, Option.map_some, Option.any_some, untracked,
    Option.map_none, Option.any_none]
  split <;> rfl

theorem not_same_unconstrained {d : Document} (h : d.isOpen = false) :
    d.same .unconstrained = false := by
  rw [same, decide_eq_false_iff_not]
  intro hcompare
  have hbare : (Schema.document d).bare = (Schema.document .unconstrained).bare :=
    Schema.bare_eq_of_compare_eq hcompare
  simp only [Schema.bare_document, Schema.document.injEq] at hbare
  have hopen := congrArg Document.isOpen hbare
  rw [bare_isOpen, bare_isOpen, h] at hopen
  cases hopen

theorem mentions_eq_hasKey {d : Document}
    (h : ∀ field, d.requires field = true → d.hasKey field = true) (field : String) :
    d.mentions field = d.hasKey field := by
  rw [mentions]
  cases hrequires : d.requires field with
  | true => simp [h field hrequires]
  | false => simp

end Document

theorem Jaccard.trialUnions_le_of_isUnstable {j : Jaccard} (h : j.isUnstable = true) :
    5 ≤ j.unions.toNat := by
  unfold Jaccard.isUnstable at h
  split at h
  · cases h
  · rename_i hle
    exact UInt32.le_iff_toNat_le.1 (UInt32.not_lt.1 hle)

/-! ## The running type -/

namespace Document

/-- A type as inference gives it: closed, requiring what it declares. -/
def IsInferred (t : Document) : Prop :=
  t = .ofFields t.keys t.keyNames false

theorem IsInferred.requires {t : Document} (h : t.IsInferred) (field : String) :
    t.requires field = t.hasKey field := by
  have hrequired : t.required = t.keyNames := congrArg Document.required h
  rw [Bool.eq_iff_iff, requires_iff, hrequired, mem_keyNames]

/-- The type is closed, declares what some of the types declare and requires
what all of them declare. -/
structure IsExact (types : List Document) (d : Document) : Prop where
  isOpen : d.isOpen = false
  hasKey : ∀ field, d.hasKey field = true ↔ ∃ t ∈ types, t.hasKey field = true
  requires : ∀ field, d.requires field = true ↔ ∀ t ∈ types, t.hasKey field = true

/-- The type is open, requires nothing and leaves the fields it declares free. -/
structure IsLoose (d : Document) : Prop where
  isOpen : d.isOpen = true
  required : d.required = []
  keys : ∀ entry ∈ d.keys, entry.2 = .any

theorem IsExact.union {types : List Document} {d t : Document} (hne : types ≠ [])
    (h : IsExact types d) (ht : t.IsInferred) :
    IsExact (types ++ [t]) (d.untracked.unionWith Schema.union t) := by
  have htjaccard : t.jaccard = none := congrArg Document.jaccard ht
  have htopen : t.isOpen = false := congrArg Document.isOpen ht
  have hfuses := fuses_unionWith Schema.union (d := d.untracked) (o := t) rfl htjaccard
  have hdmentions (field : String) : d.untracked.mentions field = d.hasKey field := by
    refine mentions_eq_hasKey (d := d) (fun field hfield => ?_) field
    obtain ⟨first, hfirst⟩ := List.exists_mem_of_ne_nil types hne
    exact (h.hasKey field).2 ⟨first, hfirst, (h.requires field).1 hfield first hfirst⟩
  have htmentions (field : String) : t.mentions field = t.hasKey field :=
    mentions_eq_hasKey (fun field hfield => (ht.requires field).symm.trans hfield) field
  have hdkey (field : String) : d.untracked.hasKey field = d.hasKey field := rfl
  have hdrequires (field : String) : d.untracked.requires field = d.requires field := rfl
  refine ⟨?_, fun field => ?_, fun field => ?_⟩
  · rw [hfuses.isOpen, htopen, Bool.or_false]
    exact h.isOpen
  · rw [hfuses.hasKey, hdmentions, htmentions, hdkey]
    have hor : (d.hasKey field || t.hasKey field || (d.hasKey field != t.hasKey field)) =
        (d.hasKey field || t.hasKey field) := by
      cases d.hasKey field <;> cases t.hasKey field <;> rfl
    rw [hor, Bool.or_eq_true, h.hasKey]
    simp [or_and_right, exists_or]
  · rw [hfuses.requires, hdrequires, ht.requires, Bool.and_eq_true, h.requires]
    simp [or_imp, forall_and]

theorem IsLoose.union {d t : Document} (h : IsLoose d) (ht : t.IsInferred) :
    IsLoose (d.untracked.unionWith Schema.union t) := by
  have htjaccard : t.jaccard = none := congrArg Document.jaccard ht
  have hunion : IsUnion Schema.union (d.untracked.unionWith Schema.union t) d.untracked t :=
    unionWith_of_jaccard_none rfl htjaccard
  have hopen : d.untracked.isOpen = true := h.isOpen
  have hrequires (field : String) : d.untracked.requires field = false := by
    have hnil : d.untracked.required = [] := h.required
    rw [requires, hnil]
    rfl
  have hdeclared {field : String} {s : Schema} (hs : d.untracked.declared? field = some s) :
      s = .any := by
    rcases declared?_cases hs with hkey | ⟨-, -, hany⟩
    · exact h.keys (field, s) (mem_of_key? hkey)
    · exact hany
  refine ⟨?_, ?_, ?_⟩
  · rw [hunion.isOpen, hopen, Bool.true_or]
  · rw [List.eq_nil_iff_forall_not_mem]
    intro field hmem
    have hfield := requires_iff.2 hmem
    rw [hunion.requires, hrequires] at hfield
    cases hfield
  · rintro ⟨field, s⟩ hmem
    have hkey := hunion.entry field s hmem
    rw [hunion.key, unionKey] at hkey
    cases hd : d.untracked.declared? field with
    | some x =>
        rw [hd, hdeclared hd] at hkey
        cases ho : t.declared? field with
        | some y =>
            simp only [ho, Schema.joinLaws_union.any_join, Option.ite_none_right_eq_some,
              Option.some.injEq] at hkey
            exact hkey.2.symm
        | none =>
            simp only [ho, ite_self, Option.some.injEq] at hkey
            exact hkey.symm
    | none =>
        cases ho : t.declared? field with
        | some y =>
            simp only [hd, ho, hopen, if_true, Option.some.injEq] at hkey
            exact hkey.symm
        | none =>
            rw [hd, ho] at hkey
            cases hkey

/-- What the running type is after the document types, and whether it has been
given up. -/
structure Tracks (types : List Document) (collapsed : Bool) (d : Document) : Prop where
  ne_nil : types ≠ []
  unions : ∃ j, d.jaccard = some j ∧ j.unions.toNat = (types.length - 1) % 2 ^ 32
  isExact : collapsed = false → IsExact types d
  isLoose : collapsed = true → IsLoose d ∧ 5 < types.length

theorem tracks_first {t : Document} (ht : t.IsInferred) (limit : Float) :
    Tracks [t] false (t.tracked (.fresh limit)) where
  ne_nil := by simp
  unions := ⟨_, rfl, rfl⟩
  isExact _ := by
    refine ⟨congrArg Document.isOpen ht, fun field => ?_, fun field => ?_⟩
    · have hkey : (t.tracked (.fresh limit)).hasKey field = t.hasKey field := rfl
      simp [hkey]
    · have hrequires : (t.tracked (.fresh limit)).requires field = t.requires field := rfl
      simp [hrequires, ht.requires]
  isLoose h := by cases h

theorem Tracks.union {types : List Document} {collapsed : Bool} {d t : Document}
    (h : Tracks types collapsed d) (ht : t.IsInferred) :
    Tracks (types ++ [t]) (collapsed || (d.union t).same .unconstrained) (d.union t) := by
  have htjaccard : t.jaccard = none := congrArg Document.jaccard ht
  obtain ⟨j, hj, hunions⟩ := h.unions
  have hlength : types.length ≠ 0 := by simpa using h.ne_nil
  have hunion := unionWith_tracked Schema.union hj htjaccard
  generalize hnext : j.update (Jaccard.similarity d.keyNames t.keyNames) = next at hunion
  have hcount : next.unions.toNat = ((types ++ [t]).length - 1) % 2 ^ 32 := by
    have hadd : next.unions.toNat = (j.unions.toNat + 1) % 2 ^ 32 := by
      rw [← hnext]
      exact UInt32.toNat_add j.unions 1
    rw [hadd, hunions, List.length_append, List.length_singleton]
    omega
  rw [Document.union, hunion]
  split
  · rename_i hunstable
    have hmany := Jaccard.trialUnions_le_of_isUnstable hunstable
    have hsame : (unconstrained.tracked next).same .unconstrained = true := rfl
    rw [hsame, Bool.or_true]
    refine ⟨by simp, ⟨next, rfl, hcount⟩, (fun hfalse => by cases hfalse), fun _ => ⟨?_, ?_⟩⟩
    · exact ⟨rfl, rfl, List.forall_mem_nil _⟩
    · omega
  · cases collapsed with
    | true =>
        obtain ⟨hloose, hmany⟩ := h.isLoose rfl
        obtain ⟨hopen, hrequired, hkeys⟩ := hloose.union ht
        refine ⟨by simp, ⟨next, rfl, hcount⟩, (fun hfalse => by cases hfalse), fun _ => ⟨?_, ?_⟩⟩
        · exact ⟨hopen, hrequired, hkeys⟩
        · rw [List.length_append]
          omega
    | false =>
        obtain ⟨hopen, hkey, hrequires⟩ := (h.isExact rfl).union h.ne_nil ht
        have hclosed : ((d.untracked.unionWith Schema.union t).tracked next).isOpen = false := hopen
        rw [not_same_unconstrained hclosed]
        refine ⟨by simp, ⟨next, rfl, hcount⟩, fun _ => ?_, fun htrue => by cases htrue⟩
        exact ⟨hopen, hkey, hrequires⟩

end Document

/-! ## Shapes -/

theorem NameSet.ofList_concat (names : List String) (name : String) :
    NameSet.ofList (names ++ [name]) = NameSet.insert name (NameSet.ofList names) := by
  simp [NameSet.ofList, List.foldl_append]

/-! ## Calls -/

namespace Sampler

/-- A sampler and the documents it has accepted. -/
structure Calls where
  sampler : Sampler
  accepted : List (List UInt8)

/-- One more call of `add`, whether it accepts the document or not. -/
def Calls.next (c : Calls) (data : List UInt8) : Calls :=
  let run := c.sampler.add data
  ⟨run.sampler, if run.failure?.isSome then c.accepted else c.accepted ++ [data]⟩

/-- What a sampler holds after the document types. -/
structure Runs (types : List Document) (s : Sampler) : Prop where
  documents : s.documents = types.length
  shapes : s.shapes.counts.names =
    NameSet.ofList (types.map fun d => (Schema.document d).fingerprint)
  running : (types = [] ∧ s.running = none ∧ s.collapsed = false) ∨
    ∃ d, s.running = some d ∧ d.Tracks types s.collapsed

theorem Runs.fold {types : List Document} {s : Sampler} {t : Document} (h : Runs types s)
    (ht : t.IsInferred) :
    Runs (types ++ [t])
      (({ s with shapes := (s.shapes.observe (.document t)).1 } : Sampler).fold t) := by
  have hshapes : (s.shapes.observe (.document t)).1.counts.names =
      NameSet.ofList ((types ++ [t]).map fun d => (Schema.document d).fingerprint) := by
    rw [List.map_append, List.map_singleton, NameSet.ofList_concat, ← h.shapes]
    exact FieldMap.names_insert _ _ _
  have hdocuments : s.documents + 1 = (types ++ [t]).length := by
    rw [h.documents, List.length_append, List.length_singleton]
  unfold Sampler.fold
  rcases h.running with ⟨rfl, hnone, hcollapsed⟩ | ⟨d, hsome, htracks⟩
  · simp only [hnone]
    refine ⟨hdocuments, hshapes, Or.inr ⟨_, rfl, ?_⟩⟩
    rw [hcollapsed]
    exact Document.tracks_first ht _
  · simp only [hsome]
    exact ⟨hdocuments, hshapes, Or.inr ⟨_, rfl, htracks.union ht⟩⟩

theorem schema_of_running {s : Sampler} {d : Document} (h : s.running = some d) :
    s.schema = .document d := by
  rw [schema, h]

end Sampler

end DocShape
