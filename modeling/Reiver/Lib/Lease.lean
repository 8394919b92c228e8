import Mathlib.Data.Option.Basic

/-! Locks held for a time. A lock is granted while nobody holds it, is held until it runs out, and is given back only
    by its holder: a lock that ran out may be another's by then. -/

namespace Reiver

structure Lease (τ : Type) where
  holder : τ
  expires : Nat
deriving DecidableEq, Repr

namespace Lease

variable {τ : Type}

def holderAt (lock : Option (Lease τ)) (now : Nat) : Option τ :=
  (lock.filter fun lease => now < lease.expires).map Lease.holder

/-- The lock after a request for it, and whether it was granted. -/
def acquire (lock : Option (Lease τ)) (now ttl : Nat) (token : τ) : Option (Lease τ) × Bool :=
  if (holderAt lock now).isNone then (some { holder := token, expires := now + ttl }, true) else (lock, false)

def release [DecidableEq τ] (lock : Option (Lease τ)) (now : Nat) (token : τ) : Option (Lease τ) :=
  if holderAt lock now = some token then none else lock

theorem holderAt_eq_some {lock : Option (Lease τ)} {now : Nat} {token : τ} :
    holderAt lock now = some token ↔ ∃ lease, lock = some lease ∧ lease.holder = token ∧ now < lease.expires := by
  cases lock with
  | none => simp [holderAt]
  | some lease =>
    simp only [holderAt, Option.map_eq_some_iff, Option.filter_eq_some_iff, decide_eq_true_eq, Option.some.injEq]
    constructor
    · rintro ⟨lease, ⟨hlease, hnow⟩, hholder⟩
      exact ⟨lease, hlease, hholder, hnow⟩
    · rintro ⟨lease, hlease, hholder, hnow⟩
      exact ⟨lease, ⟨hlease, hnow⟩, hholder⟩

theorem holderAt_mono {lock : Option (Lease τ)} {now later : Nat} {token : τ} (hle : now ≤ later)
    (h : holderAt lock later = some token) : holderAt lock now = some token := by
  obtain ⟨lease, hlock, hholder, hlater⟩ := holderAt_eq_some.mp h
  exact holderAt_eq_some.mpr ⟨lease, hlock, hholder, Nat.lt_of_le_of_lt hle hlater⟩

theorem acquire_granted {lock lock' : Option (Lease τ)} {now ttl : Nat} {token : τ}
    (h : acquire lock now ttl token = (lock', true)) :
    holderAt lock now = none ∧ lock' = some { holder := token, expires := now + ttl } := by
  unfold acquire at h
  split at h
  next hfree =>
    cases h
    exact ⟨Option.isNone_iff_eq_none.mp hfree, rfl⟩
  next => cases h

theorem acquire_refused {lock lock' : Option (Lease τ)} {now ttl : Nat} {token : τ}
    (h : acquire lock now ttl token = (lock', false)) : lock' = lock := by
  unfold acquire at h
  split at h
  next => cases h
  next =>
    cases h
    rfl

theorem holderAt_release [DecidableEq τ] {lock : Option (Lease τ)} {now : Nat} {token other : τ} :
    holderAt (release lock now token) now = some other ↔ holderAt lock now = some other ∧ other ≠ token := by
  unfold release
  split
  next h =>
    constructor
    · intro hother
      cases hother
    · rintro ⟨hother, hne⟩
      exact absurd (Option.some.inj (hother.symm.trans h)) hne
  next h => exact ⟨fun hother => ⟨hother, fun heq => h (heq ▸ hother)⟩, And.left⟩

end Lease

end Reiver
