import Mathlib.Logic.Function.Basic

/-! Runs of a system whose steps are named by actions: an action determines the step, and is refused where
    the system cannot take it. What the environment decides is part of the action. -/

namespace Reiver

variable {σ ι : Type}

def exec (step : σ → ι → Option σ) : σ → List ι → Option σ
  | s, [] => some s
  | s, i :: run => (step s i).bind fun s' => exec step s' run

/-- Every step the run takes meets `cond` in the state before it. -/
def Meets (step : σ → ι → Option σ) (cond : σ → ι → Prop) : σ → List ι → Prop
  | _, [] => True
  | s, i :: run => ∀ s' ∈ step s i, cond s i ∧ Meets step cond s' run

instance Meets.decidable (step : σ → ι → Option σ) (cond : σ → ι → Prop) [∀ s i, Decidable (cond s i)] :
    ∀ s run, Decidable (Meets step cond s run)
  | _, [] => inferInstanceAs (Decidable True)
  | s, i :: run =>
    have (s' : σ) : Decidable (Meets step cond s' run) := Meets.decidable step cond s' run
    inferInstanceAs (Decidable (∀ s' ∈ step s i, cond s i ∧ Meets step cond s' run))

/-- Every state of the run, the first one included, has `inv`. -/
def Always (step : σ → ι → Option σ) (inv : σ → Prop) : σ → List ι → Prop
  | s, [] => inv s
  | s, i :: run => inv s ∧ ∀ s' ∈ step s i, Always step inv s' run

section Run
variable {step : σ → ι → Option σ} {cond : σ → ι → Prop} {s s' t : σ} {run run' : List ι}

theorem Meets.cons {i : ι} (hi : step s i = some s') (hcond : cond s i) (hrest : Meets step cond s' run) :
    Meets step cond s (i :: run) := by
  intro t ht
  cases hi.symm.trans ht
  exact ⟨hcond, hrest⟩

theorem exec_append : exec step s (run ++ run') = (exec step s run).bind fun s' => exec step s' run' := by
  induction run generalizing s with
  | nil => rfl
  | cons i run ih =>
    rw [List.cons_append, exec, exec]
    cases step s i with
    | none => rfl
    | some s' => exact ih

theorem invariant_of_step {inv : σ → Prop} (hstep : ∀ s i s', inv s → cond s i → step s i = some s' → inv s')
    (hs : inv s) (hmeets : Meets step cond s run) (hrun : exec step s run = some t) : inv t := by
  induction run generalizing s with
  | nil =>
    cases hrun
    exact hs
  | cons i run ih =>
    obtain ⟨s', hi, hrest⟩ := Option.bind_eq_some_iff.mp hrun
    obtain ⟨hcond, hmeets⟩ := hmeets s' hi
    exact ih (hstep s i s' hs hcond hi) hmeets hrest

theorem Meets.imp {inv : σ → Prop} {cond' : σ → ι → Prop} (hstep : ∀ s i s', inv s → step s i = some s' → inv s')
    (himp : ∀ s i, inv s → cond s i → cond' s i) (hs : inv s) (h : Meets step cond s run) :
    Meets step cond' s run := by
  induction run generalizing s with
  | nil => trivial
  | cons i run ih =>
    intro s' hs'
    obtain ⟨hcond, hrest⟩ := h s' hs'
    exact ⟨himp s i hs hcond, ih (hstep s i s' hs hs') hrest⟩

theorem meets_congr {cond' : σ → ι → Prop} (h : ∀ s i, cond s i ↔ cond' s i) :
    Meets step cond s run ↔ Meets step cond' s run := by
  induction run generalizing s with
  | nil => exact Iff.rfl
  | cons i run ih => exact forall₂_congr fun s' _ => and_congr (h s i) ih

theorem meets_iff_of_inv {inv : σ → Prop} {cond' : σ → ι → Prop}
    (hkeep : ∀ s i s', inv s → cond' s i → step s i = some s' → inv s')
    (hiff : ∀ s i s', inv s → step s i = some s' → (cond s i ↔ cond' s i)) (hs : inv s) :
    Meets step cond s run ↔ Meets step cond' s run := by
  induction run generalizing s with
  | nil => exact Iff.rfl
  | cons i run ih =>
    refine forall₂_congr fun s' hi => ?_
    rw [hiff s i s' hs hi]
    exact and_congr_right fun hcond => ih (hkeep s i s' hs hcond hi)

theorem meets_append (hrun : exec step s run = some t) :
    Meets step cond s (run ++ run') ↔ Meets step cond s run ∧ Meets step cond t run' := by
  induction run generalizing s with
  | nil =>
    cases hrun
    exact (iff_of_eq (true_and _)).symm
  | cons i run ih =>
    obtain ⟨s', hi, hrest⟩ := Option.bind_eq_some_iff.mp hrun
    have hall : ∀ P : σ → Prop, (∀ x ∈ step s i, P x) ↔ P s' := fun P => by simp [hi]
    rw [List.cons_append, Meets, Meets, hall, hall, ih hrest, and_assoc]

theorem Always.of_exec {inv : σ → Prop} (h : Always step inv s run) (hrun : exec step s run = some t) : inv t := by
  induction run generalizing s with
  | nil =>
    cases hrun
    exact h
  | cons i run ih =>
    obtain ⟨s', hi, hrest⟩ := Option.bind_eq_some_iff.mp hrun
    exact ih (h.2 s' hi) hrest

theorem Always.start {inv : σ → Prop} (h : Always step inv s run) : inv s := by
  cases run with
  | nil => exact h
  | cons i run => exact h.1

theorem Always.imp {inv inv' : σ → Prop} (himp : ∀ s, inv s → inv' s) (h : Always step inv s run) :
    Always step inv' s run := by
  induction run generalizing s with
  | nil => exact himp s h
  | cons i run ih => exact ⟨himp s h.1, fun s' hi => ih (h.2 s' hi)⟩

theorem always_iff_prefix {inv : σ → Prop} :
    Always step inv s run ↔ ∀ seen, seen <+: run → ∀ t ∈ exec step s seen, inv t := by
  induction run generalizing s with
  | nil =>
    constructor
    · intro h seen hseen t ht
      rw [List.prefix_nil.mp hseen] at ht
      exact Option.some.inj ht ▸ h
    · exact fun h => h [] List.prefix_rfl s rfl
  | cons i run ih =>
    constructor
    · rintro ⟨hs, hrest⟩ seen hseen t ht
      rcases List.prefix_cons_iff.mp hseen with rfl | ⟨seen, rfl, hprefix⟩
      · exact Option.some.inj ht ▸ hs
      · obtain ⟨s', hi, ht⟩ := Option.bind_eq_some_iff.mp ht
        exact ih.mp (hrest s' hi) seen hprefix t ht
    · intro h
      refine ⟨h [] List.nil_prefix s rfl, fun s' hi => ih.mpr fun seen hseen t ht => ?_⟩
      exact h (i :: seen) (List.cons_prefix_cons.mpr ⟨rfl, hseen⟩) t (Option.bind_eq_some_iff.mpr ⟨s', hi, ht⟩)

theorem Always.of_prefix {inv : σ → Prop} {seen : List ι} (h : Always step inv s run) (hseen : seen <+: run) :
    Always step inv s seen :=
  always_iff_prefix.mpr fun seen' hseen' => always_iff_prefix.mp h seen' (hseen'.trans hseen)

theorem Always.of_step {inv : σ → Prop} (hstep : ∀ s i s', inv s → cond s i → step s i = some s' → inv s')
    (hs : inv s) (hmeets : Meets step cond s run) : Always step inv s run := by
  induction run generalizing s with
  | nil => exact hs
  | cons i run ih =>
    refine ⟨hs, fun s' hi => ?_⟩
    obtain ⟨hcond, hmeets⟩ := hmeets s' hi
    exact ih (hstep s i s' hs hcond hi) hmeets

/-- When a step keeps `inv` exactly under its condition, a run has `inv` throughout exactly if all its steps meet
    their conditions. What every step keeps may be used. -/
theorem always_iff_meets_of_inv {kept inv : σ → Prop} (hkept : ∀ s i s', kept s → step s i = some s' → kept s')
    (hstep : ∀ s i s', kept s → inv s → step s i = some s' → (inv s' ↔ cond s i)) (hk : kept s) (hs : inv s) :
    Always step inv s run ↔ Meets step cond s run := by
  induction run generalizing s with
  | nil => exact iff_of_true hs trivial
  | cons i run ih =>
    rw [Always, Meets, and_iff_right hs]
    refine forall₂_congr fun s' hi => ?_
    have hk' := hkept s i s' hk hi
    rw [← hstep s i s' hk hs hi]
    exact ⟨fun h => ⟨h.start, (ih hk' h.start).mp h⟩, fun h => (ih hk' h.1).mpr h.2⟩

theorem always_iff_meets_of_strong {inv strong : σ → Prop} (himp : ∀ s, strong s → inv s)
    (hcond : ∀ s i s', strong s → step s i = some s' → inv s' → cond s i)
    (hstep : ∀ s i s', strong s → cond s i → step s i = some s' → strong s') (hs : strong s) :
    Always step inv s run ↔ Meets step cond s run := by
  induction run generalizing s with
  | nil => exact iff_of_true (himp s hs) trivial
  | cons i run ih =>
    rw [Always, Meets, and_iff_right (himp s hs)]
    refine forall₂_congr fun s' hi => ?_
    constructor
    · intro h
      have hi' := hcond s i s' hs hi h.start
      exact ⟨hi', (ih (hstep s i s' hs hi' hi)).mp h⟩
    · rintro ⟨hi', h⟩
      exact (ih (hstep s i s' hs hi' hi)).mpr h

theorem always_iff_meets {inv : σ → Prop} (hstep : ∀ s i s', inv s → step s i = some s' → (inv s' ↔ cond s i))
    (hs : inv s) : Always step inv s run ↔ Meets step cond s run :=
  have hkept : ∀ s i s', True → step s i = some s' → True := fun _ _ _ _ _ => trivial
  always_iff_meets_of_inv hkept (fun s i s' _ => hstep s i s') trivial hs

end Run

theorem foldlM_update {κ α : Type} [DecidableEq κ] {key : ι → κ} {f : ι → α → Option α} {s s' : κ → α} {run : List ι}
    (hnd : (run.map key).Nodup)
    (hrun : run.foldlM (fun s i => (f i (s (key i))).map (Function.update s (key i))) s = some s') :
    (∀ i ∈ run, f i (s (key i)) = some (s' (key i))) ∧ ∀ k ∉ run.map key, s' k = s k := by
  induction run generalizing s with
  | nil =>
    cases hrun
    exact ⟨fun _ hi => (nomatch hi), fun _ _ => rfl⟩
  | cons i run ih =>
    obtain ⟨hnot, hnd⟩ := List.nodup_cons.mp hnd
    rw [List.foldlM_cons] at hrun
    obtain ⟨mid, hmid, hrun⟩ := Option.bind_eq_some_iff.mp hrun
    obtain ⟨a, ha, rfl⟩ := Option.map_eq_some_iff.mp hmid
    obtain ⟨hsteps, hframe⟩ := ih hnd hrun
    refine ⟨fun j hj => ?_, fun k hk => ?_⟩
    · rcases List.mem_cons.mp hj with rfl | hj
      · rw [hframe _ hnot, Function.update_self]
        exact ha
      · have hne : key j ≠ key i := fun heq => hnot (heq ▸ List.mem_map_of_mem hj)
        have hstep := hsteps j hj
        rwa [Function.update_of_ne hne] at hstep
    · rw [List.map_cons, List.mem_cons, not_or] at hk
      rw [hframe k hk.2, Function.update_of_ne hk.1]

end Reiver
