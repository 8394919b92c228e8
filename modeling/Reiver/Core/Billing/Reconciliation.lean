import Reiver.Core.Billing.Credits
import Reiver.Lib.Dict

/-! # Reconciliation

`reconcile_all` reads all wallets at once and then, organization by organization, the counter, which it overwrites with
the wallet it has read where the counter is higher. The counters and the wallets move on meanwhile. A counter set so
is right if it is no lower than what the organization owns by then and no higher than the counter is by then. -/

namespace Reiver.Core

def driftThreshold : Nat := 1000000

/-- Where a `reconcile_all` stands, with the wallets it has read and still to compare. -/
inductive ReconcilePhase where
  | idle
  | comparing (orgs : List (Uuid × Nat))
  | setting (organizationId : Uuid) (pgBalance : Nat) (rest : List (Uuid × Nat))
deriving DecidableEq

structure CreditSystem where
  accounts : Uuid → CreditAccount
  reconcilers : Nat → ReconcilePhase := fun _ => .idle

inductive CreditAction where
  | account (organizationId : Uuid) (action : AccountAction)
  | fetchAll (r : Nat) (orgs : List (Uuid × Nat))
  | compare (r : Nat)
  | setBalanceRedis (r : Nat)

namespace CreditSystem

def setReconciler (s : CreditSystem) (r : Nat) (phase : ReconcilePhase) : CreditSystem :=
  { s with reconcilers := Function.update s.reconcilers r phase }

/-- The counter is overwritten where it is higher than the wallet by more than a cent. -/
def compareBalances (organizationId : Uuid) (pgBalance redisBalance : Nat) (rest : List (Uuid × Nat)) :
    ReconcilePhase :=
  if pgBalance + driftThreshold < redisBalance then .setting organizationId pgBalance rest else .comparing rest

def step (s : CreditSystem) : CreditAction → Option CreditSystem
  | .account organizationId action =>
    ((s.accounts organizationId).step action).map fun account =>
      { s with accounts := Function.update s.accounts organizationId account }
  | .fetchAll r orgs =>
    match s.reconcilers r with
    | .idle =>
      if orgs.all fun e => (s.accounts e.1).balanceUsd = some e.2 then some (s.setReconciler r (.comparing orgs))
        else none
    | _ => none
  | .compare r =>
    match s.reconcilers r with
    | .comparing [] => some (s.setReconciler r .idle)
    | .comparing ((organizationId, pgBalance) :: rest) =>
      match (s.accounts organizationId).redis with
      | none => some (s.setReconciler r (compareBalances organizationId pgBalance 0 rest))
      | some (.integer redisBalance) =>
        some (s.setReconciler r (compareBalances organizationId pgBalance redisBalance rest))
      -- The value does not parse, and the call ends.
      | some (.scientific _) => some (s.setReconciler r .idle)
    | _ => none
  | .setBalanceRedis r =>
    match s.reconcilers r with
    | .setting organizationId pgBalance rest =>
      let account := { s.accounts organizationId with redis := some (.integer (scaled pgBalance)) }
      some { s.setReconciler r (.comparing rest) with
        accounts := Function.update s.accounts organizationId account }
    | _ => none

/-- From one state to the other no counter has come to hold more than is owned, or what it held of it less: nothing was
    given back, and a counter that was right is right. -/
def Kept (s t : CreditSystem) : Prop :=
  ∀ organizationId, (t.accounts organizationId).drift ≤ (s.accounts organizationId).drift ∧
    min (s.accounts organizationId).drift 0 ≤ (t.accounts organizationId).drift

/-- The phase sets no counter, or sets it between what is owned and what the counter holds. -/
def ReconcilePhase.Sets (accounts : Uuid → CreditAccount) : ReconcilePhase → Prop
  | .setting organizationId pgBalance _ =>
    min ((accounts organizationId).counter : Int) (accounts organizationId).owned ≤ scaled pgBalance ∧
      scaled pgBalance ≤ (accounts organizationId).counter
  | _ => True

instance : ∀ accounts phase, Decidable (ReconcilePhase.Sets accounts phase)
  | _, .idle | _, .comparing _ => inferInstanceAs (Decidable True)
  | accounts, .setting organizationId pgBalance _ => inferInstanceAs (Decidable
    (min ((accounts organizationId).counter : Int) (accounts organizationId).owned ≤ scaled pgBalance ∧
      scaled pgBalance ≤ (accounts organizationId).counter))

def Harmless (s : CreditSystem) : CreditAction → Prop
  | .account organizationId action => (s.accounts organizationId).Exact action
  | .setBalanceRedis r => ReconcilePhase.Sets s.accounts (s.reconcilers r)
  | _ => True

instance : ∀ s action, Decidable (Harmless s action)
  | s, .account organizationId action => inferInstanceAs (Decidable ((s.accounts organizationId).Exact action))
  | s, .setBalanceRedis r => inferInstanceAs (Decidable (ReconcilePhase.Sets s.accounts (s.reconcilers r)))
  | _, .fetchAll _ _ | _, .compare _ => inferInstanceAs (Decidable True)

section Step
variable {s s' t : CreditSystem} {action : CreditAction}

theorem Kept.refl (s : CreditSystem) : Kept s s := fun _ => ⟨Int.le_refl _, Int.min_le_left _ _⟩

theorem Kept.trans {u : CreditSystem} (h : Kept s t) (h' : Kept t u) : Kept s u := fun organizationId => by
  have hst := h organizationId
  have htu := h' organizationId
  omega

theorem Kept.update {organizationId : Uuid} {account : CreditAccount} {reconcilers : Nat → ReconcilePhase}
    (hle : account.drift ≤ (s.accounts organizationId).drift)
    (hmin : min (s.accounts organizationId).drift 0 ≤ account.drift) :
    Kept s { accounts := Function.update s.accounts organizationId account, reconcilers } := by
  intro other
  by_cases heq : other = organizationId
  · subst heq
    dsimp only
    rw [Function.update_self]
    exact ⟨hle, hmin⟩
  · dsimp only
    rw [Function.update_of_ne heq]
    exact Kept.refl s other

theorem drift_set {a : CreditAccount} {n : Nat} :
    (min (a.counter : Int) a.owned ≤ n ∧ n ≤ a.counter) ↔
      ({ a with redis := some (.integer n) } : CreditAccount).drift ≤ a.drift ∧
        min a.drift 0 ≤ ({ a with redis := some (.integer n) } : CreditAccount).drift := by
  have hdrift : ({ a with redis := some (.integer n) } : CreditAccount).drift = n - a.owned := rfl
  rw [hdrift, CreditAccount.drift]
  omega

theorem kept_step (h : s.Harmless action) (hstep : s.step action = some s') : Kept s s' := by
  cases action with
  | account organizationId action =>
    obtain ⟨account, haction, rfl⟩ := Option.map_eq_some_iff.mp hstep
    refine Kept.update ?_ ?_
    all_goals
      rcases CreditAccount.drift_step h haction with heq | ⟨hnonneg, hle⟩
      · omega
      · omega
  | fetchAll r orgs =>
    rw [step] at hstep
    split at hstep
    · split at hstep
      · cases hstep
        exact Kept.refl s
      · cases hstep
    · cases hstep
  | compare r =>
    rw [step] at hstep
    split at hstep
    · cases hstep
      exact Kept.refl s
    · split at hstep
      all_goals
        cases hstep
        exact Kept.refl s
    · cases hstep
  | setBalanceRedis r =>
    rw [step] at hstep
    split at hstep
    · next organizationId pgBalance rest hphase =>
      cases hstep
      rw [Harmless, hphase] at h
      obtain ⟨hle, hmin⟩ := drift_set.mp h
      exact Kept.update hle hmin
    · cases hstep

end Step

/-- From any state and in any interleaving, if every counter that is set is set between what its organization owns and
    what it holds by then, no counter falls below what is owned that was not below it, and no deduction is given
    back. -/
theorem reconciliation_kept {s : CreditSystem} {run : List CreditAction} (h : Meets step Harmless s run) :
    Always step (Kept s) s run :=
  Always.of_step (fun _ _ _ hkept hharmless hstep => hkept.trans (kept_step hharmless hstep)) (Kept.refl s) h

/-! ### A top-up or a deduction after the wallets were read -/

/-- Ten dollars in the wallet and in the counter. -/
def tenDollars : CreditSystem where
  accounts := fun _ => { balanceUsd := some 1000000000, redis := some (.integer 1000000000) }

/-- Twenty dollars in the counter of a wallet of ten. -/
def driftedUp : CreditSystem where
  accounts := fun _ => { balanceUsd := some 1000000000, redis := some (.integer 2000000000) }

def reconciledDown : List CreditAction :=
  [.fetchAll 0 [(1, 1000000000)], .compare 0, .setBalanceRedis 0, .account 1 (.deductCreditsRedis 300000000),
    .compare 0]

theorem reconciledDown_kept : Always step (Kept driftedUp) driftedUp reconciledDown :=
  reconciliation_kept (by decide +kernel)

def toppedUpMeanwhile : List CreditAction :=
  [.fetchAll 0 [(1, 1000000000)], .account 1 (.addCredits 500000000), .account 1 (.incrBalanceRedis 0), .compare 0,
    .setBalanceRedis 0]

def chargedMeanwhile : List CreditAction :=
  [.fetchAll 0 [(1, 1000000000)], .account 1 (.addCredits 200000000), .account 1 (.incrBalanceRedis 0), .compare 0,
    .account 1 (.deductCreditsRedis 500000000), .setBalanceRedis 0]

theorem reconciliation_not_kept :
    ¬Always step (Kept tenDollars) tenDollars toppedUpMeanwhile ∧
    ¬Always step (Kept tenDollars) tenDollars chargedMeanwhile := by
  refine ⟨fun h => ?_, fun h => ?_⟩
  · have hdrift : (exec step tenDollars toppedUpMeanwhile).map (fun t => (t.accounts 1).drift) = some (-500000000) := by
      decide +kernel
    obtain ⟨t, ht, hdrift⟩ := Option.map_eq_some_iff.mp hdrift
    have hkept := h.of_exec ht 1
    rw [hdrift] at hkept
    exact absurd hkept.2 (by decide)
  · have hdrift : (exec step tenDollars chargedMeanwhile).map (fun t => (t.accounts 1).drift) = some 300000000 := by
      decide +kernel
    obtain ⟨t, ht, hdrift⟩ := Option.map_eq_some_iff.mp hdrift
    have hkept := h.of_exec ht 1
    rw [hdrift] at hkept
    exact absurd hkept.1 (by decide)

end CreditSystem

end Reiver.Core
