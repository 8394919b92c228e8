import Mathlib.Data.List.Basic
import Mathlib.Data.List.Forall2

/-! Computations that may fail, and passes over a list of them. -/

namespace Reiver

/-- A loop that ends at the first failure and keeps what was done before it. -/
def attempt {σ α ε : Type} (step : σ → α → σ × Option ε) : List α → σ → σ × Option ε
  | [], s => (s, none)
  | a :: l, s =>
    match step s a with
    | (s, none) => attempt step l s
    | (s, some e) => (s, some e)

theorem attempt_inv {σ α ε : Type} {step : σ → α → σ × Option ε} {l : List α} {s : σ} (I : List α → σ → Prop)
    (hstart : I [] s)
    (hstep : ∀ before a after s s', l = before ++ a :: after → I before s → step s a = (s', none) →
      I (before ++ [a]) s') :
    (∃ s', attempt step l s = (s', none) ∧ I l s') ∨
      ∃ before a after s₁ s' e, l = before ++ a :: after ∧ I before s₁ ∧ step s₁ a = (s', some e) ∧
        attempt step l s = (s', some e) := by
  suffices hloop : ∀ rest before s, l = before ++ rest → I before s →
      (∃ s', attempt step rest s = (s', none) ∧ I l s') ∨
        ∃ before a after s₁ s' e, l = before ++ a :: after ∧ I before s₁ ∧ step s₁ a = (s', some e) ∧
          attempt step rest s = (s', some e) from hloop l [] s rfl hstart
  intro rest
  induction rest with
  | nil =>
    rintro before s hl hI
    rw [List.append_nil] at hl
    exact .inl ⟨s, rfl, hl ▸ hI⟩
  | cons a rest ih =>
    intro before s hl hI
    rw [attempt]
    rcases hresult : step s a with ⟨s', _ | e⟩
    · refine ih (before ++ [a]) s' ?_ (hstep before a rest s s' hl hI hresult)
      rw [hl, List.append_assoc, List.singleton_append]
    · exact .inr ⟨before, a, rest, s, s', e, hl, hI, hresult, rfl⟩

section Except
variable {ε α β : Type}

theorem mapM_cons_ok {f : α → Except ε β} {a : α} {l : List α} {r : List β} (h : (a :: l).mapM f = .ok r) :
    ∃ b bs, f a = .ok b ∧ l.mapM f = .ok bs ∧ r = b :: bs := by
  rw [List.mapM_cons] at h
  cases ha : f a with
  | error e =>
    rw [ha] at h
    cases h
  | ok b =>
    rw [ha] at h
    cases hl : l.mapM f with
    | error e =>
      simp only [hl, bind, Except.bind] at h
      cases h
    | ok bs =>
      simp only [hl, bind, Except.bind, pure, Except.pure] at h
      exact ⟨b, bs, rfl, rfl, (Except.ok.inj h).symm⟩

theorem mapM_ok {f : α → Except ε β} {l : List α} {r : List β} (h : l.mapM f = .ok r) :
    List.Forall₂ (fun a b => f a = .ok b) l r := by
  induction l generalizing r with
  | nil =>
    rw [List.mapM_nil] at h
    cases h
    exact .nil
  | cons a l ih =>
    obtain ⟨b, bs, ha, hl, rfl⟩ := mapM_cons_ok h
    exact .cons ha (ih hl)

theorem mapM_of_ok {f : α → Except ε β} {g : α → β} {l : List α} (h : ∀ a ∈ l, f a = .ok (g a)) :
    l.mapM f = .ok (l.map g) := by
  induction l with
  | nil => rfl
  | cons a l ih =>
    rw [List.mapM_cons, h a List.mem_cons_self, ih fun b hb => h b (List.mem_cons_of_mem _ hb)]
    rfl

theorem exists_mapM_ok {f : α → Except ε β} {l : List α} : (∃ r, l.mapM f = .ok r) ↔ ∀ a ∈ l, ∃ b, f a = .ok b := by
  induction l with
  | nil => exact iff_of_true ⟨[], rfl⟩ fun _ h => absurd h List.not_mem_nil
  | cons a l ih =>
    rw [List.forall_mem_cons, ← ih]
    constructor
    · rintro ⟨r, h⟩
      obtain ⟨b, bs, ha, hl, -⟩ := mapM_cons_ok h
      exact ⟨⟨b, ha⟩, bs, hl⟩
    · rintro ⟨⟨b, hb⟩, bs, hbs⟩
      exact ⟨b :: bs, by rw [List.mapM_cons, hb, hbs]; rfl⟩

theorem exists_of_forall₂ {R : α → β → Prop} {l : List α} {r : List β} (h : List.Forall₂ R l r) {b : β} (hb : b ∈ r) :
    ∃ a ∈ l, R a b := by
  induction h with
  | nil => exact absurd hb List.not_mem_nil
  | cons hab _ ih =>
    rcases List.mem_cons.mp hb with rfl | hb
    · exact ⟨_, List.mem_cons_self, hab⟩
    · obtain ⟨a, ha, hab⟩ := ih hb
      exact ⟨a, List.mem_cons_of_mem _ ha, hab⟩

theorem forall₂_of_mem {R S : α → β → Prop} {l : List α} {r : List β} (h : List.Forall₂ R l r)
    (himp : ∀ a ∈ l, ∀ b, R a b → S a b) : List.Forall₂ S l r := by
  induction h with
  | nil => exact .nil
  | cons hab _ ih => exact .cons (himp _ List.mem_cons_self _ hab) (ih fun a ha => himp a (List.mem_cons_of_mem _ ha))

theorem bind_ok {x : Except ε α} {f : α → Except ε β} {b : β} (h : x >>= f = .ok b) :
    ∃ a, x = .ok a ∧ f a = .ok b := by
  cases x with
  | error e => cases h
  | ok a => exact ⟨a, rfl, h⟩

theorem map_ok {x : Except ε α} {f : α → β} {b : β} (h : x.map f = .ok b) : ∃ a, x = .ok a ∧ f a = b := by
  cases x with
  | error e => cases h
  | ok a => exact ⟨a, rfl, Except.ok.inj h⟩

theorem ok_of_toOption {r : Except ε α} {a : α} (h : r.toOption = some a) : r = .ok a := by
  cases r with
  | error e => cases h
  | ok b =>
    cases h
    rfl

/-- Whatever a computation fails with is of a kind. -/
def FailsWith (P : ε → Prop) (x : Except ε α) : Prop := ∀ e, x = .error e → P e

namespace FailsWith
variable {P : ε → Prop}

theorem ok (a : α) : FailsWith P (.ok a : Except ε α) := fun _ h => nomatch h

theorem error {e : ε} (h : P e) : FailsWith P (.error e : Except ε α) := by
  rintro _ ⟨⟩
  exact h

theorem bind {x : Except ε α} {f : α → Except ε β} (hx : FailsWith P x)
    (hf : ∀ a, x = .ok a → FailsWith P (f a)) : FailsWith P (x >>= f) := by
  cases x with
  | error e => exact error (hx e rfl)
  | ok a => exact hf a rfl

theorem mapM {f : α → Except ε β} {l : List α} (h : ∀ a ∈ l, FailsWith P (f a)) : FailsWith P (l.mapM f) := by
  induction l with
  | nil => exact ok _
  | cons a l ih =>
    obtain ⟨ha, hl⟩ := List.forall_mem_cons.mp h
    rw [List.mapM_cons]
    exact ha.bind fun _ _ => (ih hl).bind fun _ _ => ok _

theorem foldlM {f : β → α → Except ε β} {l : List α} (h : ∀ b, ∀ a ∈ l, FailsWith P (f b a)) (b : β) :
    FailsWith P (l.foldlM f b) := by
  induction l generalizing b with
  | nil => exact ok _
  | cons a l ih =>
    rw [List.foldlM_cons]
    exact (h b a List.mem_cons_self).bind fun b' _ => ih (fun b a ha => h b a (List.mem_cons_of_mem _ ha)) b'

end FailsWith

theorem forM_ok {f : α → Except ε PUnit} {l : List α} (h : l.forM f = .ok ()) {a : α} (ha : a ∈ l) : f a = .ok () := by
  induction l with
  | nil => cases ha
  | cons b l ih =>
    obtain ⟨_, hb, hl⟩ := bind_ok h
    rcases List.mem_cons.mp ha with rfl | ha
    · exact hb
    · exact ih hl ha

end Except

section Option
variable {α β : Type} {l : List α}

theorem mapM_of_some {f : α → Option β} {g : α → β} (h : ∀ a ∈ l, f a = some (g a)) : l.mapM f = some (l.map g) := by
  induction l with
  | nil => rfl
  | cons a l ih => simp [h a List.mem_cons_self, ih fun b hb => h b (List.mem_cons_of_mem _ hb)]

theorem exists_mapM_some {f : α → Option β} (h : ∀ a ∈ l, ∃ b, f a = some b) : ∃ r, l.mapM f = some r := by
  induction l with
  | nil => exact ⟨[], rfl⟩
  | cons a l ih =>
    obtain ⟨⟨b, hb⟩, hl⟩ := List.forall_mem_cons.mp h
    obtain ⟨r, hr⟩ := ih hl
    exact ⟨b :: r, by rw [List.mapM_cons, hb, hr]; rfl⟩

theorem exists_of_mapM_some {f : α → Option β} {r : List β} (h : l.mapM f = some r) {a : α} (ha : a ∈ l) :
    ∃ b, f a = some b := by
  induction l generalizing r with
  | nil => exact absurd ha List.not_mem_nil
  | cons c l ih =>
    rw [List.mapM_cons] at h
    obtain ⟨b, hb, h⟩ := Option.bind_eq_some_iff.mp h
    obtain ⟨bs, hbs, -⟩ := Option.bind_eq_some_iff.mp h
    rcases List.mem_cons.mp ha with rfl | ha
    · exact ⟨b, hb⟩
    · exact ih hbs ha

theorem mem_of_mapM_some {f : α → Option β} {r : List β} (h : l.mapM f = some r) {b : β} :
    b ∈ r ↔ ∃ a ∈ l, f a = some b := by
  induction l generalizing r with
  | nil =>
    cases h
    simp
  | cons a l ih =>
    rw [List.mapM_cons] at h
    obtain ⟨first, hfirst, h⟩ := Option.bind_eq_some_iff.mp h
    obtain ⟨rest, hrest, h⟩ := Option.bind_eq_some_iff.mp h
    cases h
    rw [List.mem_cons, List.exists_mem_cons_iff, ih hrest, hfirst, Option.some.injEq, eq_comm]

end Option

section Passes
variable {ε α β : Type} {f : β → α → Except ε β} {I : List α → β → Prop} {l : List α} {b r : β}

theorem foldlM_eq_map {γ : Type} {g : α → Except ε γ} {h : β → γ → β} (hf : ∀ b a, f b a = (g a).map (h b))
    (l : List α) (b : β) : l.foldlM f b = (l.mapM g).map fun cs => cs.foldl h b := by
  induction l generalizing b with
  | nil => rfl
  | cons a l ih =>
    rw [List.foldlM_cons, List.mapM_cons, hf]
    cases g a with
    | error e => rfl
    | ok c =>
      show l.foldlM f (h b c) = _
      rw [ih]
      cases l.mapM g with
      | error e => rfl
      | ok cs => rfl

theorem foldlM_inv (hstart : I [] b)
    (hkeep : ∀ done a rest, l = done ++ a :: rest → ∀ b b', I done b → f b a = .ok b' → I (done ++ [a]) b')
    (h : l.foldlM f b = .ok r) : I l r := by
  have key : ∀ (rest done : List α) (b : β), l = done ++ rest → I done b → rest.foldlM f b = .ok r → I l r := by
    intro rest
    induction rest with
    | nil =>
      intro done b hl hb h
      cases h
      rw [List.append_nil] at hl
      exact hl ▸ hb
    | cons a rest ih =>
      intro done b hl hb h
      rw [List.foldlM_cons] at h
      obtain ⟨mid, hmid, h⟩ := bind_ok h
      exact ih (done ++ [a]) mid (by rw [hl, List.append_assoc]; rfl) (hkeep done a rest hl b mid hb hmid) h
  exact key l [] b rfl hstart h

theorem foldlM_ok_iff {G : List α → α → Prop} (hstart : I [] b)
    (hkeep : ∀ done a rest, l = done ++ a :: rest → ∀ b b', I done b → f b a = .ok b' → I (done ++ [a]) b')
    (hstep : ∀ done a rest, l = done ++ a :: rest → ∀ b, I done b → ((∃ b', f b a = .ok b') ↔ G done a)) :
    (∃ r, l.foldlM f b = .ok r) ↔ ∀ done a rest, l = done ++ a :: rest → G done a := by
  have key : ∀ (rest done : List α) (b : β), l = done ++ rest → I done b →
      ((∃ r, rest.foldlM f b = .ok r) ↔ ∀ done' a rest', rest = done' ++ a :: rest' → G (done ++ done') a) := by
    intro rest
    induction rest with
    | nil =>
      intro done b _ _
      refine iff_of_true ⟨b, rfl⟩ fun done' a rest' hl => ?_
      exact absurd hl.symm (List.append_ne_nil_of_right_ne_nil _ (List.cons_ne_nil _ _))
    | cons a rest ih =>
      intro done b hl hb
      have hl' : l = done ++ [a] ++ rest := by rw [hl, List.append_assoc]; rfl
      rw [List.foldlM_cons]
      constructor
      · rintro ⟨r, h⟩ done' a' rest' heq
        obtain ⟨mid, hmid, h⟩ := bind_ok h
        have hrest := (ih (done ++ [a]) mid hl' (hkeep done a rest hl b mid hb hmid)).mp ⟨r, h⟩
        cases done' with
        | nil =>
          obtain ⟨rfl, -⟩ := List.cons.inj heq
          rw [List.append_nil]
          exact (hstep done a rest hl b hb).mp ⟨mid, hmid⟩
        | cons d done' =>
          obtain ⟨rfl, htail⟩ := List.cons.inj heq
          have hG := hrest done' a' rest' htail
          rwa [List.append_assoc] at hG
      · intro h
        obtain ⟨mid, hmid⟩ := (hstep done a rest hl b hb).mpr (by simpa using h [] a rest rfl)
        obtain ⟨r, hr⟩ := (ih (done ++ [a]) mid hl' (hkeep done a rest hl b mid hb hmid)).mpr
          fun done' a' rest' heq => by
            have hG := h (a :: done') a' rest' (by rw [heq]; rfl)
            rwa [List.append_assoc]
        exact ⟨r, by rw [hmid]; exact hr⟩
  exact key l [] b rfl hstart

end Passes

end Reiver
