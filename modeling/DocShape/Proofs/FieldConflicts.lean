import DocShape.Proofs.TopLevelFields

/-!
# Field conflicts

What the check of a flat result says about a field that documents of two sources
carry.  The check tells of the field, or of the two sources if their fields
cannot be listed, unless one of the sources hides the field; a hidden field is
passed over in silence.
-/

namespace DocShape

/-- The fault tells that the two sources share the field, or that the fields they
share cannot be listed. -/
def Fault.Tells (first second field : String) (fault : Fault) : Prop :=
  fault = .unlistedConflict first second ∨
    ∃ overlap, fault = .fieldConflict field first second overlap

section Pairs

variable {first second field : String} {a b : Schema} {fault : Fault}

theorem conflictsBetween_of_ok {mine theirs : List String} (hoverlap : a.sharesField b ≠ .never)
    (ha : a.topLevelFields = .ok mine) (hb : b.topLevelFields = .ok theirs) :
    conflictsBetween first a second b =
      (mine.filter theirs.contains).map fun field =>
        .fieldConflict field first second (a.sharesField b) := by
  simp [conflictsBetween, hoverlap, ha, hb]

private theorem conflictsBetween_of_not_listable (hoverlap : a.sharesField b ≠ .never)
    (h : ¬ (a.Listable ∧ b.Listable)) :
    conflictsBetween first a second b = [.unlistedConflict first second] := by
  simp only [conflictsBetween, hoverlap, if_false]
  split
  · rename_i mine theirs hmine htheirs
    exact absurd ⟨⟨mine, hmine⟩, theirs, htheirs⟩ h
  · rfl

/-- The check of two sources tells of a field that both carry exactly if the
fields cannot be listed or both show it. -/
theorem exists_tells_conflictsBetween_iff (ha : a.Carries field) (hb : b.Carries field) :
    (∃ fault ∈ conflictsBetween first a second b, fault.Tells first second field) ↔
      (a.Listable ∧ b.Listable → a.Shows field ∧ b.Shows field) := by
  have hoverlap := Schema.sharesField_ne_never_of_carries ha hb
  by_cases hlistable : a.Listable ∧ b.Listable
  · obtain ⟨⟨mine, hmine⟩, theirs, htheirs⟩ := hlistable
    have hshown : field ∈ mine.filter theirs.contains ↔ a.Shows field ∧ b.Shows field := by
      rw [List.mem_filter, List.contains_iff_mem, Schema.mem_topLevelFields_iff hmine,
        Schema.mem_topLevelFields_iff htheirs]
    rw [conflictsBetween_of_ok hoverlap hmine htheirs, ← hshown]
    constructor
    · rintro ⟨fault, hfault, htells⟩ -
      obtain ⟨other, hother, rfl⟩ := List.mem_map.1 hfault
      rcases htells with htells | ⟨overlap, htells⟩
      · cases htells
      · cases htells
        exact hother
    · intro h
      exact ⟨_, List.mem_map.2 ⟨field, h ⟨⟨mine, hmine⟩, theirs, htheirs⟩, rfl⟩, Or.inr ⟨_, rfl⟩⟩
  · rw [conflictsBetween_of_not_listable hoverlap hlistable]
    simp [Fault.Tells, hlistable]

/-- A fault of two sources names both. -/
theorem names_of_mem_conflictsBetween {name other : String}
    (h : fault ∈ conflictsBetween name a other b) (htells : fault.Tells first second field) :
    name = first ∧ other = second := by
  unfold conflictsBetween at h
  dsimp only at h
  split at h
  · cases h
  · split at h
    · obtain ⟨f, -, rfl⟩ := List.mem_map.1 h
      rcases htells with htells | ⟨overlap, htells⟩
      · cases htells
      · cases htells
        exact ⟨rfl, rfl⟩
    · cases List.mem_singleton.1 h
      rcases htells with htells | ⟨overlap, htells⟩
      · cases htells
        exact ⟨rfl, rfl⟩
      · cases htells

end Pairs

section Sources

variable {listed : FieldMap Schema} {sources : NameMap Schema} {first second field : String} {a b : Schema} {fault : Fault}

private theorem exists_of_mem_conflictsAmong (h : fault ∈ conflictsAmong listed) :
    ∃ x ∈ listed, ∃ y ∈ listed, fault ∈ conflictsBetween x.1 x.2 y.1 y.2 := by
  induction listed with
  | nil => cases h
  | cons x rest ih =>
      rw [conflictsAmong, List.mem_append, List.mem_flatMap] at h
      rcases h with ⟨y, hy, hfault⟩ | h
      · exact ⟨x, List.mem_cons_self, y, List.mem_cons_of_mem _ hy, hfault⟩
      · obtain ⟨y, hy, z, hz, hfault⟩ := ih h
        exact ⟨y, List.mem_cons_of_mem _ hy, z, List.mem_cons_of_mem _ hz, hfault⟩

private theorem conflictsBetween_subset_conflictsAmong (hnames : (FieldMap.names listed).Ordered)
    (ha : (first, a) ∈ listed) (hb : (second, b) ∈ listed) (hlt : first < second)
    (h : fault ∈ conflictsBetween first a second b) : fault ∈ conflictsAmong listed := by
  induction listed with
  | nil => cases ha
  | cons x rest ih =>
      have hcons : ∀ name ∈ FieldMap.names rest, x.1 < name := (List.pairwise_cons.1 hnames).1
      rw [conflictsAmong, List.mem_append, List.mem_flatMap]
      rcases List.mem_cons.1 hb with rfl | hbrest
      · -- nothing stands before the head
        rcases List.mem_cons.1 ha with heq | harest
        · cases heq
          exact absurd hlt (lt_irrefl _)
        · exact absurd hlt (lt_asymm (hcons first (List.mem_map_of_mem harest)))
      · rcases List.mem_cons.1 ha with rfl | harest
        · exact Or.inl ⟨(second, b), hbrest, h⟩
        · exact Or.inr (ih (List.pairwise_cons.1 hnames).2 harest hbrest)

/-- The check of all sources tells of two of them what the check of these two
tells. -/
theorem exists_tells_fieldConflicts_iff (ha : (first, a) ∈ sources.entries)
    (hb : (second, b) ∈ sources.entries) (hlt : first < second) :
    (∃ fault ∈ fieldConflicts sources, fault.Tells first second field) ↔
      ∃ fault ∈ conflictsBetween first a second b, fault.Tells first second field := by
  constructor
  · rintro ⟨fault, hfault, htells⟩
    obtain ⟨⟨name, c⟩, hc, ⟨other, e⟩, he, hfault⟩ := exists_of_mem_conflictsAmong hfault
    obtain ⟨rfl, rfl⟩ := names_of_mem_conflictsBetween hfault htells
    have hfind {name : String} {s : Schema} (h : (name, s) ∈ sources.entries) :
        sources.find? name = some s := FieldMap.find?_of_mem sources.ordered h
    have hac := (hfind ha).symm.trans (hfind hc)
    have hbe := (hfind hb).symm.trans (hfind he)
    cases hac
    cases hbe
    exact ⟨fault, hfault, htells⟩
  · rintro ⟨fault, hfault, htells⟩
    refine ⟨fault, ?_, htells⟩
    exact conflictsBetween_subset_conflictsAmong sources.ordered ha hb hlt hfault

/-- A check without faults leaves two sources, in the order of their names, a
common field only if one of them hides it.  This is exact: a fault tells of the
field or of the two sources unless their fields can be listed and one of them
hides it. -/
theorem shared_field_reported_unless_hidden (ha : (first, a) ∈ sources.entries)
    (hb : (second, b) ∈ sources.entries) (hlt : first < second) (hacarries : a.Carries field) (hbcarries : b.Carries field) :
    (fieldConflicts sources = [] → a.Hides field ∨ b.Hides field) ∧
      ((∃ fault ∈ fieldConflicts sources, fault.Tells first second field) ↔
        ¬ (a.Listable ∧ b.Listable ∧ (a.Hides field ∨ b.Hides field))) := by
  have hreported : (∃ fault ∈ fieldConflicts sources, fault.Tells first second field) ↔
      ¬ (a.Listable ∧ b.Listable ∧ (a.Hides field ∨ b.Hides field)) := by
    rw [exists_tells_fieldConflicts_iff ha hb hlt,
      exists_tells_conflictsBetween_iff hacarries hbcarries]
    by_cases hlistable : a.Listable ∧ b.Listable
    · rw [hacarries.hides_iff hlistable.1, hbcarries.hides_iff hlistable.2, ← not_and_or]
      simp [hlistable]
    · exact iff_of_true (fun h => absurd h hlistable) fun h => hlistable ⟨h.1, h.2.1⟩
  refine ⟨fun hsilent => ?_, hreported⟩
  by_contra hhides
  obtain ⟨fault, hfault, -⟩ := hreported.2 fun h => hhides h.2.2
  rw [hsilent] at hfault
  cases hfault

theorem shared_field_reported_unless_hidden_tag :
    let labels : Schema := .document (.ofFields [("tag", .atomic .string)] [] false)
    let orders : Schema := .anyOf [.atomic .null, .anyOf [
      .document (.ofFields [("id", .atomic .int)] ["id", "tag"] false),
      .document (.ofFields [("total", .atomic .double)] ["tag"] false)]]
    let sources : NameMap Schema := ⟨[("labels", labels), ("orders", orders)], by decide +kernel⟩
    labels.Carries "tag" ∧ orders.Carries "tag" ∧
      fieldConflicts sources = [] ∧ (labels.Hides "tag" ∨ orders.Hides "tag") := by
  intro labels orders sources
  have hlabels : labels.Carries "tag" := by
    refine ⟨[("tag", .string "new")], .string "new", ?_, List.mem_cons_self⟩
    apply Schema.document_matches_of_entries
    · decide
    · rw [List.forall_mem_singleton]
      rintro _ ⟨⟩
      exact .atomic rfl
    · decide +kernel
  have horders : orders.Carries "tag" := by
    refine ⟨[("tag", .string "new")], .string "new", ?_, List.mem_cons_self⟩
    apply Schema.Matches.anyOf (List.mem_cons_of_mem _ List.mem_cons_self)
    apply Schema.Matches.anyOf (List.mem_cons_of_mem _ List.mem_cons_self)
    apply Schema.document_matches_of_entries
    · decide
    · rw [List.forall_mem_singleton]
      rintro _ ⟨⟩
    · decide +kernel
  have hlisted : labels.topLevelFields = .ok ["tag"] ∧
      orders.topLevelFields = .ok ["id", "total"] := ⟨rfl, rfl⟩
  have hsilent : fieldConflicts sources = [] := by
    simp [sources, fieldConflicts, conflictsAmong, conflictsBetween_of_ok
      (Schema.sharesField_ne_never_of_carries hlabels horders) hlisted.1 hlisted.2]
  refine ⟨hlabels, horders, hsilent, ?_⟩
  exact (shared_field_reported_unless_hidden List.mem_cons_self
    (List.mem_cons_of_mem _ List.mem_cons_self) (by decide) hlabels horders).1 hsilent

/-- Every document of the two sources has the field, and the check is silent. -/
theorem required_field_conflict_unreported :
    let s : Schema := .document (.ofFields [] ["x"] false)
    s.Carries "x" ∧ fieldConflicts ⟨[("a", s), ("b", s)], by decide +kernel⟩ = [] := by
  intro s
  have hcarries : s.Carries "x" := by
    refine ⟨[("x", .null)], .null, ?_, List.mem_cons_self⟩
    apply Schema.document_matches_of_entries
    · decide
    · rw [List.forall_mem_singleton]
      rintro _ ⟨⟩
    · decide +kernel
  have hlisted : s.topLevelFields = .ok [] := rfl
  refine ⟨hcarries, ?_⟩
  simp [fieldConflicts, conflictsAmong, conflictsBetween_of_ok
    (Schema.sharesField_ne_never_of_carries hcarries hcarries) hlisted hlisted]

end Sources

end DocShape
