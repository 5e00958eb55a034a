import DocShape.Failure

/-!
# Outcomes

When a sequence of steps that can fail succeeds, and what then holds at its end;
when it fails, and with which kind of fault.
-/

namespace DocShape

theorem Failure.eq_of_isKind {f : Failure} {kind other : FaultKind} (h : f.isKind kind = true)
    (hother : f.isKind other = true) : kind = other := by
  unfold Failure.isKind at h hother
  split at h
  · rename_i hreport
    rw [hreport] at hother
    exact (of_decide_eq_true h).symm.trans (of_decide_eq_true hother)
  · cases h

theorem Failure.combine?_eq_none {fs : List Failure} : Failure.combine? fs = none ↔ fs = [] := by
  cases fs with
  | nil => simp [Failure.combine?]
  | cons f rest => cases rest <;> simp [Failure.combine?]

/-- Putting failures together loses none of their faults. -/
theorem Failure.reports_of_combine? {fs : List Failure} {f : Failure}
    (h : Failure.combine? fs = some f) : f.reports = Failure.reportsOf fs := by
  unfold Failure.combine? at h
  split at h
  · cases h
  · cases h
    simp only [Failure.reportsOf, List.append_nil]
  · cases h
    rw [Failure.reports]

theorem Failure.reportsOf_faults (faults : List Fault) :
    Failure.reportsOf (faults.map .fault) =
      faults.map fun f => ⟨f.kind, f.message, f.field, f.schema?⟩ := by
  induction faults with
  | nil => rfl
  | cons f rest ih => rw [List.map_cons, Failure.reportsOf, ih, Failure.reports]; rfl

namespace Outcome

variable {α β γ : Type}

@[simp] theorem bind_eq_ok {x : Outcome α} {f : α → Outcome β} {b : β} :
    x >>= f = .ok b ↔ ∃ a, x = .ok a ∧ f a = .ok b := by
  cases x <;> simp [bind, Except.bind]

@[simp] theorem pure_eq_ok {a b : α} : (pure a : Outcome α) = .ok b ↔ a = b := by
  simp [pure, Except.pure]

@[simp] theorem map_eq_ok {f : α → β} {x : Outcome α} {b : β} :
    f <$> x = .ok b ↔ ∃ a, x = .ok a ∧ f a = b := by
  cases x <;> simp [Functor.map, Except.map]

@[simp] theorem inContext_eq_ok {context : String} {x : Outcome α} {a : α} :
    inContext context x = .ok a ↔ x = .ok a := by
  cases x <;> simp [inContext]

/-- What is made of a result does not decide whether there is one. -/
theorem exists_bind_pure_iff {x : Outcome α} {f : α → β} :
    (∃ b, (x >>= fun a => pure (f a)) = .ok b) ↔ ∃ a, x = .ok a := by
  simp only [bind_eq_ok, pure_eq_ok]
  constructor
  · rintro ⟨_, a, ha, -⟩
    exact ⟨a, ha⟩
  · rintro ⟨a, ha⟩
    exact ⟨f a, a, ha, rfl⟩

/-- What every accepted step keeps, for one more input each time, holds of all
inputs at the end of the run. -/
theorem foldlM_history {step : β → α → Outcome β} (Inv : List α → β → Prop)
    (hstep : ∀ seen state input next, Inv seen state → step state input = .ok next →
      Inv (seen ++ [input]) next)
    {inputs : List α} {start last : β} (seen : List α) (hstart : Inv seen start)
    (h : inputs.foldlM step start = .ok last) : Inv (seen ++ inputs) last := by
  induction inputs generalizing seen start with
  | nil =>
      rw [List.foldlM_nil, pure_eq_ok] at h
      rw [List.append_nil, ← h]
      exact hstart
  | cons input rest ih =>
      rw [List.foldlM_cons, bind_eq_ok] at h
      obtain ⟨next, hnext, hrest⟩ := h
      have hkept := ih (seen ++ [input]) (hstep seen start input next hstart hnext) hrest
      rwa [List.append_assoc] at hkept

theorem foldlM_invariant {step : β → α → Outcome β} (Inv : β → Prop)
    (hstep : ∀ state input next, Inv state → step state input = .ok next → Inv next)
    {inputs : List α} {start last : β} (hstart : Inv start)
    (h : inputs.foldlM step start = .ok last) : Inv last :=
  foldlM_history (fun _ => Inv) (fun _ => hstep) [] hstart h

/-- A run whose steps are accepted or refused by their input alone accepts all inputs or none. -/
theorem exists_foldlM_iff {step : β → α → Outcome β} {good : α → Prop}
    (hstep : ∀ state input, (∃ next, step state input = .ok next) ↔ good input)
    {inputs : List α} {start : β} :
    (∃ last, inputs.foldlM step start = .ok last) ↔ ∀ input ∈ inputs, good input := by
  induction inputs generalizing start with
  | nil => simp
  | cons input rest ih =>
      rw [List.forall_mem_cons, ← hstep start input]
      simp only [List.foldlM_cons, bind_eq_ok]
      constructor
      · rintro ⟨last, next, hnext, hlast⟩
        exact ⟨⟨next, hnext⟩, ih.1 ⟨last, hlast⟩⟩
      · rintro ⟨⟨next, hnext⟩, hrest⟩
        obtain ⟨last, hlast⟩ := ih.2 hrest
        exact ⟨last, next, hnext, hlast⟩

/-! ## One pass after another -/

theorem mapM_of_mapM {f : α → Outcome β} {g : β → Outcome γ} {h : α → γ} {xs : List α}
    {ys : List β} (hstep : ∀ x ∈ xs, ∀ y, f x = .ok y → g y = .ok (h x))
    (hf : xs.mapM f = .ok ys) : ys.mapM g = .ok (xs.map h) := by
  induction xs generalizing ys with
  | nil =>
      rw [List.mapM_nil, pure_eq_ok] at hf
      rw [← hf]
      rfl
  | cons x xs ih =>
      obtain ⟨hx, hxs⟩ := List.forall_mem_cons.1 hstep
      simp only [List.mapM_cons, bind_eq_ok, pure_eq_ok] at hf
      obtain ⟨y, hy, ys, hys, rfl⟩ := hf
      rw [List.mapM_cons, hx y hy, ih hxs hys]
      rfl

theorem mapM_congr {f g : α → Outcome β} {xs : List α} (h : ∀ x ∈ xs, f x = g x) :
    xs.mapM f = xs.mapM g := by
  induction xs with
  | nil => rfl
  | cons x xs ih =>
      obtain ⟨hx, hxs⟩ := List.forall_mem_cons.1 h
      rw [List.mapM_cons, List.mapM_cons, hx, ih hxs]

theorem mem_iff_of_mapM {f : α → Outcome β} {xs : List α} {ys : List β}
    (hf : xs.mapM f = .ok ys) {y : β} : y ∈ ys ↔ ∃ x ∈ xs, f x = .ok y := by
  induction xs generalizing ys with
  | nil =>
      rw [List.mapM_nil, pure_eq_ok] at hf
      simp [← hf]
  | cons x xs ih =>
      simp only [List.mapM_cons, bind_eq_ok, pure_eq_ok] at hf
      obtain ⟨z, hz, zs, hzs, rfl⟩ := hf
      simp [ih hzs, hz, eq_comm]

/-- A run that folds what its inputs give folds the results of a pass over them. -/
theorem foldlM_eq_ok_iff {f : α → Outcome β} {g : γ → β → γ} {xs : List α} {start last : γ} :
    xs.foldlM (fun state x => do return g state (← f x)) start = .ok last ↔
      ∃ ys, xs.mapM f = .ok ys ∧ ys.foldl g start = last := by
  induction xs generalizing start with
  | nil => simp
  | cons x xs ih =>
      simp only [List.foldlM_cons, List.mapM_cons, bind_eq_ok, pure_eq_ok]
      constructor
      · rintro ⟨_, ⟨y, hy, rfl⟩, hlast⟩
        obtain ⟨ys, hys, hfold⟩ := ih.1 hlast
        exact ⟨y :: ys, ⟨y, hy, ys, hys, rfl⟩, hfold⟩
      · rintro ⟨_, ⟨y, hy, ys, hys, rfl⟩, hfold⟩
        exact ⟨g start y, ⟨y, hy, rfl⟩, ih.2 ⟨ys, hys, hfold⟩⟩

theorem exists_mapM_iff {f : α → Outcome β} {xs : List α} :
    (∃ ys, xs.mapM f = .ok ys) ↔ ∀ x ∈ xs, ∃ y, f x = .ok y := by
  induction xs with
  | nil => simp
  | cons x xs ih =>
      rw [List.forall_mem_cons, ← ih]
      simp only [List.mapM_cons, bind_eq_ok, pure_eq_ok]
      constructor
      · rintro ⟨_, y, hy, ys, hys, -⟩
        exact ⟨⟨y, hy⟩, ys, hys⟩
      · rintro ⟨⟨y, hy⟩, ys, hys⟩
        exact ⟨y :: ys, y, hy, ys, hys, rfl⟩

/-- A view of the results that the inputs determine. -/
theorem map_of_mapM {f : α → Outcome β} {g : β → γ} {h : α → γ} {xs : List α} {ys : List β}
    (hstep : ∀ x ∈ xs, ∀ y, f x = .ok y → g y = h x) (hf : xs.mapM f = .ok ys) :
    ys.map g = xs.map h := by
  induction xs generalizing ys with
  | nil =>
      rw [List.mapM_nil, pure_eq_ok] at hf
      rw [← hf]
      rfl
  | cons x xs ih =>
      obtain ⟨hx, hxs⟩ := List.forall_mem_cons.1 hstep
      simp only [List.mapM_cons, bind_eq_ok, pure_eq_ok] at hf
      obtain ⟨y, hy, ys, hys, rfl⟩ := hf
      rw [List.map_cons, List.map_cons, hx y hy, ih hxs hys]

theorem length_of_mapM {f : α → Outcome β} {xs : List α} {ys : List β}
    (hf : xs.mapM f = .ok ys) : ys.length = xs.length := by
  have hmap : ys.map (fun _ => ()) = xs.map fun _ => () := map_of_mapM (fun _ _ _ _ => rfl) hf
  simpa using congrArg List.length hmap

/-- A view of the inputs that equal results determine. -/
theorem map_eq_of_mapM_eq {f : α → Outcome β} {g : α → γ} {xs ys : List α} {zs : List β}
    (hstep : ∀ x ∈ xs, ∀ y ∈ ys, ∀ z, f x = .ok z → f y = .ok z → g x = g y)
    (hxs : xs.mapM f = .ok zs) (hys : ys.mapM f = .ok zs) : xs.map g = ys.map g := by
  induction xs generalizing ys zs with
  | nil =>
      have hlength := (length_of_mapM hys).symm.trans (length_of_mapM hxs)
      rw [List.eq_nil_of_length_eq_zero hlength]
  | cons x xs ih =>
      simp only [List.mapM_cons, bind_eq_ok, pure_eq_ok] at hxs
      obtain ⟨z, hz, zs, hzs, rfl⟩ := hxs
      cases ys with
      | nil =>
          rw [List.mapM_nil, pure_eq_ok] at hys
          cases hys
      | cons y ys =>
          simp only [List.mapM_cons, bind_eq_ok, pure_eq_ok] at hys
          obtain ⟨w, hw, ws, hws, heq⟩ := hys
          cases heq
          have hrest := ih (fun x hx y hy => hstep x (List.mem_cons_of_mem _ hx) y
            (List.mem_cons_of_mem _ hy)) hzs hws
          rw [List.map_cons, List.map_cons, hrest,
            hstep x List.mem_cons_self y List.mem_cons_self z hz hw]

theorem mapM_of_filterMapM {f : α → Outcome (Option β)} {g : β → Outcome γ} {h : α → Option γ}
    {xs : List α} {ys : List β} (hnone : ∀ x ∈ xs, f x = .ok none → h x = none)
    (hsome : ∀ x ∈ xs, ∀ y, f x = .ok (some y) → ∃ z, h x = some z ∧ g y = .ok z)
    (hf : xs.filterMapM f = .ok ys) : ys.mapM g = .ok (xs.filterMap h) := by
  induction xs generalizing ys with
  | nil =>
      rw [List.filterMapM_nil, pure_eq_ok] at hf
      rw [← hf]
      rfl
  | cons x xs ih =>
      obtain ⟨hxnone, hnone⟩ := List.forall_mem_cons.1 hnone
      obtain ⟨hxsome, hsome⟩ := List.forall_mem_cons.1 hsome
      rw [List.filterMapM_cons, bind_eq_ok] at hf
      obtain ⟨found, hfound, hf⟩ := hf
      cases found with
      | none =>
          rw [List.filterMap_cons_none (hxnone hfound)]
          exact ih hnone hsome hf
      | some y =>
          simp only [bind_eq_ok, pure_eq_ok] at hf
          obtain ⟨ys, hys, rfl⟩ := hf
          obtain ⟨z, hz, hg⟩ := hxsome y hfound
          rw [List.filterMap_cons_some hz, List.mapM_cons, hg, ih hnone hsome hys]
          rfl

theorem mapM_of_ite {f : α → Outcome β} {g : α → β} {good : α → Prop} [DecidablePred good]
    {failure : Failure} {xs : List α}
    (h : ∀ x ∈ xs, f x = if good x then .ok (g x) else .error failure) :
    xs.mapM f = if ∀ x ∈ xs, good x then .ok (xs.map g) else .error failure := by
  induction xs with
  | nil => rfl
  | cons x xs ih =>
      obtain ⟨hx, hxs⟩ := List.forall_mem_cons.1 h
      rw [List.mapM_cons, hx, ih hxs]
      by_cases hgood : good x
      · by_cases hrest : ∀ y ∈ xs, good y
        · rw [if_pos hgood, if_pos hrest, if_pos (List.forall_mem_cons.2 ⟨hgood, hrest⟩)]
          rfl
        · rw [if_pos hgood, if_neg hrest, if_neg fun hall => hrest (List.forall_mem_cons.1 hall).2]
          rfl
      · rw [if_neg hgood, if_neg fun hall => hgood (List.forall_mem_cons.1 hall).1]
        rfl

theorem exists_of_mem_filterMapM {f : α → Outcome (Option β)} {xs : List α} {ys : List β} {y : β}
    (hf : xs.filterMapM f = .ok ys) (hy : y ∈ ys) : ∃ x ∈ xs, f x = .ok (some y) := by
  induction xs generalizing ys with
  | nil =>
      rw [List.filterMapM_nil, pure_eq_ok] at hf
      rw [← hf] at hy
      cases hy
  | cons x xs ih =>
      rw [List.filterMapM_cons, bind_eq_ok] at hf
      obtain ⟨found, hfound, hf⟩ := hf
      cases found with
      | none =>
          obtain ⟨z, hz, hzy⟩ := ih hf hy
          exact ⟨z, List.mem_cons_of_mem x hz, hzy⟩
      | some w =>
          simp only [bind_eq_ok, pure_eq_ok] at hf
          obtain ⟨ws, hws, rfl⟩ := hf
          rcases List.mem_cons.1 hy with rfl | hrest
          · exact ⟨x, List.mem_cons_self, hfound⟩
          · obtain ⟨z, hz, hzy⟩ := ih hws hrest
            exact ⟨z, List.mem_cons_of_mem x hz, hzy⟩

theorem filterMapM_map_congr {f : α → Outcome (Option β)} {g : α → α} {xs : List α}
    (h : ∀ x ∈ xs, f (g x) = f x) : (xs.map g).filterMapM f = xs.filterMapM f := by
  induction xs with
  | nil => rfl
  | cons x xs ih =>
      obtain ⟨hx, hxs⟩ := List.forall_mem_cons.1 h
      rw [List.map_cons, List.filterMapM_cons, List.filterMapM_cons, hx, ih hxs]

/-! ## Failing exactly if -/

/-- The outcome is a fault of the kind if the condition holds, and a result if not. -/
def FailsIff (kind : FaultKind) (p : Prop) : Outcome α → Prop
  | .ok _ => ¬ p
  | .error f => p ∧ f.isKind kind = true

namespace FailsIff

variable {kind : FaultKind} {p q : Prop} {x : Outcome α}

theorem congr (h : FailsIff kind p x) (hpq : p ↔ q) : FailsIff kind q x := by
  rwa [← propext hpq]

theorem exists_error_iff (h : FailsIff kind p x) :
    (∃ f, x = .error f ∧ f.isKind kind = true) ↔ p := by
  cases x with
  | ok a => exact iff_of_false (by simp) h
  | error f => exact iff_of_true ⟨f, rfl, h.2⟩ h.1

theorem exists_ok (h : FailsIff kind p x) (hp : ¬ p) : ∃ a, x = .ok a := by
  cases x with
  | ok a => exact ⟨a, rfl⟩
  | error f => exact absurd h.1 hp

theorem exists_ok_iff (h : FailsIff kind p x) : (∃ a, x = .ok a) ↔ ¬ p := by
  refine ⟨?_, h.exists_ok⟩
  rintro ⟨a, rfl⟩
  exact h

theorem isKind_of_error {f : Failure} (h : FailsIff kind p x) (hx : x = .error f) :
    f.isKind kind = true := by
  rw [hx] at h
  exact h.2

theorem bind_pure (h : FailsIff kind p x) (f : α → β) :
    FailsIff kind p (x >>= fun a => pure (f a)) := by
  cases x with
  | ok a => exact h
  | error g => exact h

/-- Of two steps, either can fail. -/
theorem bind {f : α → Outcome β} (hx : FailsIff kind p x)
    (hf : ∀ a, x = .ok a → FailsIff kind q (f a)) : FailsIff kind (p ∨ q) (x >>= f) := by
  cases x with
  | error g => exact ⟨Or.inl hx.1, hx.2⟩
  | ok a => exact (hf a rfl).congr (or_iff_right hx).symm

theorem inContext (h : FailsIff kind p x) (context : String) :
    FailsIff kind p (Outcome.inContext context x) := by
  cases x with
  | ok a => exact h
  | error f => exact h

/-- A pass over a list fails exactly if one of its steps does. -/
theorem filterMapM {f : α → Outcome (Option β)} {bad : α → Prop} {xs : List α}
    (h : ∀ x ∈ xs, FailsIff kind (bad x) (f x)) :
    FailsIff kind (∃ x ∈ xs, bad x) (xs.filterMapM f) := by
  induction xs with
  | nil => exact fun ⟨_, hx, _⟩ => List.not_mem_nil hx
  | cons x xs ih =>
      obtain ⟨hx, hxs⟩ := List.forall_mem_cons.1 h
      have hrest := ih hxs
      rw [List.filterMapM_cons]
      cases hfx : f x with
      | error g =>
          rw [hfx] at hx
          exact ⟨⟨x, List.mem_cons_self, hx.1⟩, hx.2⟩
      | ok found =>
          rw [hfx] at hx
          have hgood : ¬ bad x := hx
          have hbad : (∃ y ∈ xs, bad y) ↔ ∃ y ∈ x :: xs, bad y := by simp [hgood]
          cases found with
          | none => exact hrest.congr hbad
          | some y => exact (hrest.congr hbad).bind_pure (y :: ·)

theorem mapM {f : α → Outcome β} {bad : α → Prop} {xs : List α}
    (h : ∀ x ∈ xs, FailsIff kind (bad x) (f x)) :
    FailsIff kind (∃ x ∈ xs, bad x) (xs.mapM f) := by
  have hsome : xs.mapM f = xs.filterMapM fun x => do return some (← f x) := by
    clear h
    induction xs with
    | nil => rfl
    | cons x xs ih =>
        rw [List.mapM_cons, List.filterMapM_cons, ih]
        cases f x <;> rfl
  rw [hsome]
  exact filterMapM fun x hx => (h x hx).bind_pure some

end FailsIff

end Outcome

end DocShape
