import DocShape.Verdict

/-!
# Folds of verdicts

When the folds over verdicts answer `must` or `never`, in terms of the verdicts
they fold.
-/

namespace DocShape.Verdict

variable {verdicts : List Verdict}

private theorem meet_eq_must {a b : Verdict} : meet a b = must ↔ a = must ∧ b = must := by
  cases a <;> cases b <;> decide

private theorem meet_eq_never {a b : Verdict} : meet a b = never ↔ a = never ∧ b = never := by
  cases a <;> cases b <;> decide

theorem stronger_eq_must {a b : Verdict} : stronger a b = must ↔ a = must ∨ b = must := by
  cases a <;> cases b <;> decide

theorem stronger_eq_never {a b : Verdict} : stronger a b = never ↔ a = never ∧ b = never := by
  cases a <;> cases b <;> decide

theorem weaker_eq_must {a b : Verdict} : weaker a b = must ↔ a = must ∧ b = must := by
  cases a <;> cases b <;> decide

theorem weaker_eq_never {a b : Verdict} : weaker a b = never ↔ a = never ∨ b = never := by
  cases a <;> cases b <;> decide

/-- A fold reaches a verdict by all of its operands, if the operation does. -/
theorem foldl_eq_iff_forall {op : Verdict → Verdict → Verdict} {target : Verdict}
    (hop : ∀ {a b}, op a b = target ↔ a = target ∧ b = target) (v : Verdict) :
    verdicts.foldl op v = target ↔ v = target ∧ ∀ w ∈ verdicts, w = target := by
  induction verdicts generalizing v with
  | nil => simp
  | cons w rest ih => rw [List.foldl_cons, ih, hop, List.forall_mem_cons, and_assoc]

/-- A fold reaches a verdict by any of its operands, if the operation does. -/
theorem foldl_eq_iff_exists {op : Verdict → Verdict → Verdict} {target : Verdict}
    (hop : ∀ {a b}, op a b = target ↔ a = target ∨ b = target) (v : Verdict) :
    verdicts.foldl op v = target ↔ v = target ∨ target ∈ verdicts := by
  induction verdicts generalizing v with
  | nil => simp
  | cons w rest ih => rw [List.foldl_cons, ih, hop, List.mem_cons, or_assoc, eq_comm (a := w)]

theorem meetAll_eq_must : meetAll verdicts = must ↔ ∀ v ∈ verdicts, v = must := by
  cases verdicts with
  | nil => simp [meetAll]
  | cons v rest => rw [meetAll, foldl_eq_iff_forall meet_eq_must, List.forall_mem_cons]

theorem meetAll_eq_never :
    meetAll verdicts = never ↔ verdicts ≠ [] ∧ ∀ v ∈ verdicts, v = never := by
  cases verdicts with
  | nil => simp [meetAll]
  | cons v rest =>
      rw [meetAll, foldl_eq_iff_forall meet_eq_never, List.forall_mem_cons]
      exact (and_iff_right (List.cons_ne_nil v rest)).symm

/-- Alternatives that make a sure verdict have it one by one. -/
theorem eq_of_meetAll {verdict : Verdict} (h : meetAll verdicts = verdict)
    (hsure : verdict ≠ may) : ∀ v ∈ verdicts, v = verdict := by
  cases verdict with
  | never => exact (meetAll_eq_never.1 h).2
  | may => exact absurd rfl hsure
  | must => exact meetAll_eq_must.1 h

/-- A verdict is known by when it is sure. -/
theorem eq_of_sure_iff {a b : Verdict} (hmust : a = must ↔ b = must)
    (hnever : a = never ↔ b = never) : a = b := by
  cases a <;> cases b <;> simp_all

/-- Alternatives on two sides can be taken in either order, also where one side has none. -/
theorem meetAll_map_comm {α β : Type} (v : α → β → Verdict) (as : List α) (bs : List β) :
    meetAll (as.map fun a => meetAll (bs.map (v a))) =
      meetAll (bs.map fun b => meetAll (as.map fun a => v a b)) := by
  apply eq_of_sure_iff
  · simp only [meetAll_eq_must, List.forall_mem_map]
    exact ⟨fun h b hb a ha => h a ha b hb, fun h a ha b hb => h b hb a ha⟩
  · have hswap {γ δ : Type} {w : γ → δ → Verdict} {cs : List γ} {ds : List δ}
        (h : cs ≠ [] ∧ ∀ c ∈ cs, ds ≠ [] ∧ ∀ d ∈ ds, w c d = never) :
        ds ≠ [] ∧ ∀ d ∈ ds, cs ≠ [] ∧ ∀ c ∈ cs, w c d = never := by
      obtain ⟨c, hc⟩ := List.exists_mem_of_ne_nil cs h.1
      exact ⟨(h.2 c hc).1, fun d hd => ⟨h.1, fun c hc => (h.2 c hc).2 d hd⟩⟩
    simp only [meetAll_eq_never, List.forall_mem_map, ne_eq, List.map_eq_nil_iff]
    exact ⟨hswap, hswap⟩

theorem strongest_eq_must : strongest verdicts = must ↔ must ∈ verdicts := by
  rw [strongest, foldl_eq_iff_exists stronger_eq_must]
  exact or_iff_right nofun

theorem strongest_eq_never : strongest verdicts = never ↔ ∀ v ∈ verdicts, v = never := by
  rw [strongest, foldl_eq_iff_forall stronger_eq_never]
  exact and_iff_right rfl

theorem weakest_eq_must : weakest verdicts = must ↔ ∀ v ∈ verdicts, v = must := by
  rw [weakest, foldl_eq_iff_forall weaker_eq_must]
  exact and_iff_right rfl

theorem weakest_eq_never : weakest verdicts = never ↔ never ∈ verdicts := by
  rw [weakest, foldl_eq_iff_exists weaker_eq_never]
  exact or_iff_right nofun

end DocShape.Verdict
