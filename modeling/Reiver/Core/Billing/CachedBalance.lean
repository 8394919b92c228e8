import Reiver.Core.Billing.Credits

/-! # The balance in Redis as a cache

`get_balance` fills an absent key from the wallet in three steps, while top-ups, deductions and evictions go on. The
key is right as long as it holds what the wallet holds less what is in flight: an increment must not create it, and a
fill must not put a balance that is out of date by then. -/

namespace Reiver.Core

/-- Where a `get_balance` that missed the key stands. -/
inductive BalanceRead where
  | missed
  | loaded (balanceUsd : Nat)
deriving DecidableEq

def BalanceRead.Puts (owned : Int) : BalanceRead → Prop
  | .missed => True
  | .loaded balanceUsd => scaled balanceUsd = owned

structure CachedBalance where
  account : CreditAccount
  reads : List BalanceRead := []
deriving DecidableEq

inductive BalanceAction where
  | account (action : AccountAction)
  | getBalanceRedis
  | getBalancePostgres (i : Nat)
  | setBalanceRedisIfAbsent (i : Nat)
  | evict
deriving DecidableEq

namespace CachedBalance

def step (s : CachedBalance) : BalanceAction → Option CachedBalance
  | .account action => (s.account.step action).map fun account => { s with account }
  -- A value is the answer, and one that is no integer fails the call.
  | .getBalanceRedis => some (if s.account.redis.isSome then s else { s with reads := .missed :: s.reads })
  | .getBalancePostgres i =>
    match s.reads[i]? with
    | some .missed => some { s with reads := s.reads.set i (.loaded s.account.wallet) }
    | _ => none
  | .setBalanceRedisIfAbsent i =>
    match s.reads[i]? with
    | some (.loaded balanceUsd) =>
      let redis := s.account.redis.getD (.integer (scaled balanceUsd))
      some { account := { s.account with redis := some redis }, reads := s.reads.eraseIdx i }
    | _ => none
  | .evict => some { s with account := { s.account with redis := none } }

/-- A wallet within its column, and the key holding it or evicted. -/
def start (balanceUsd : Option (Fin numericLimit)) (cached : Bool) : CachedBalance where
  account :=
    { balanceUsd := balanceUsd.map Fin.val
      redis := if cached then some (.integer ((balanceUsd.map Fin.val).getD 0)) else none }

structure Quiescent (s : CachedBalance) : Prop where
  toppingUp : s.account.toppingUp = []
  unrecorded : s.account.unrecorded = []
  reads : s.reads = []

/-- With nothing in flight the key, if present, holds the wallet. -/
def Agrees (s : CachedBalance) : Prop :=
  s.Quiescent → ∀ value ∈ s.account.redis, value = .integer s.account.wallet

/-- An increment meets the key, unless the wallet holds nothing but what is in flight; a fill meets the key, or puts
    what the wallet holds less what is in flight; a deduction is exact. -/
def Harmless (s : CachedBalance) : BalanceAction → Prop
  | .account (.incrBalanceRedis _) => s.account.redis = none → s.account.owned = 0
  | .account (.deductCreditsRedis costUsd) => s.account.Exact (.deductCreditsRedis costUsd)
  | .setBalanceRedisIfAbsent i => ∀ read ∈ s.reads[i]?, s.account.redis = none →
      read.Puts s.account.owned
  | _ => True

instance : ∀ owned read, Decidable (BalanceRead.Puts owned read)
  | _, .missed => inferInstanceAs (Decidable True)
  | owned, .loaded balanceUsd => inferInstanceAs (Decidable ((scaled balanceUsd : Int) = owned))

instance : ∀ s call, Decidable (Harmless s call)
  | s, .account (.incrBalanceRedis _) => inferInstanceAs (Decidable (s.account.redis = none → s.account.owned = 0))
  | s, .account (.deductCreditsRedis costUsd) =>
    inferInstanceAs (Decidable (s.account.Exact (.deductCreditsRedis costUsd)))
  | s, .setBalanceRedisIfAbsent i => inferInstanceAs (Decidable (∀ read ∈ s.reads[i]?, s.account.redis = none →
      read.Puts s.account.owned))
  | _, .account (.addCredits _) | _, .account (.recordDeductionPostgres _) | _, .getBalanceRedis
  | _, .getBalancePostgres _ | _, .evict => inferInstanceAs (Decidable True)

/-- What is in flight is covered by the wallet, and the key, if present, holds the rest. -/
structure Covered (a : CreditAccount) : Prop where
  fits : a.wallet < numericLimit
  owned : 0 ≤ a.owned
  counter : ∀ value ∈ a.redis, value = .integer a.owned.toNat

section Step
variable {s s' : CachedBalance} {a a' : CreditAccount} {action : AccountAction} {call : BalanceAction}

theorem Covered.drift (h : Covered a) {value : RedisValue} (hvalue : a.redis = some value) : a.drift = 0 := by
  have hcounter : a.counter = a.owned.toNat := by
    rw [CreditAccount.counter, hvalue, h.counter value hvalue]
    rfl
  have howned := h.owned
  rw [CreditAccount.drift]
  omega

theorem Covered.counter_eq (h : Covered a) (howned : a.redis = none → a.owned = 0) : (a.counter : Int) = a.owned := by
  have hnonneg := h.owned
  cases hredis : a.redis with
  | none =>
    rw [howned hredis, CreditAccount.counter, hredis]
    rfl
  | some value =>
    have hdrift := h.drift hredis
    rw [CreditAccount.drift] at hdrift
    omega

theorem Covered.addCredits (h : Covered a) (amountUsd : Int) : Covered (a.addCredits amountUsd) := by
  obtain ⟨hfits, howned, hcounter⟩ := h
  rw [CreditAccount.addCredits]
  split
  · exact ⟨hfits, howned, hcounter⟩
  · split
    · next hlimit =>
      have heq : ({ a with
          balanceUsd := some (a.wallet + amountUsd.toNat)
          toppingUp := amountUsd.toNat :: a.toppingUp } : CreditAccount).owned = a.owned := by
        simp only [CreditAccount.owned, CreditAccount.wallet, Option.getD_some, List.sum_cons]
        omega
      exact ⟨hlimit, heq ▸ howned, heq ▸ hcounter⟩
    · exact ⟨hfits, howned, hcounter⟩

theorem Covered.incrBalanceRedis (h : Covered a) {i amount : Nat} (hi : a.toppingUp[i]? = some amount)
    (hpresent : a.redis = none → a.owned = 0) : Covered (a.incrBalanceRedis i amount) := by
  have hcounter := h.counter_eq hpresent
  have hsum := CreditAccount.sum_eraseIdx_add hi
  have hfits := h.fits
  have hwallet : (a.counter : Int) + amount ≤ a.wallet := by
    rw [hcounter, CreditAccount.owned]
    omega
  have hexact : a.Exact (.incrBalanceRedis i) := by
    intro amount' hi'
    cases hi.symm.trans hi'
    have hlimit : numericLimit ≤ i64Max := by decide
    refine ⟨by omega, fun value hvalue => ⟨?_, by omega⟩⟩
    rw [h.counter value hvalue, ← hcounter, Int.toNat_natCast]
  have howned : (a.incrBalanceRedis i amount).owned = a.owned + amount := by
    simp only [CreditAccount.owned, CreditAccount.wallet, CreditAccount.incrBalanceRedis]
    omega
  refine ⟨hfits, by rw [howned]; exact Int.add_nonneg h.owned (Int.natCast_nonneg _), fun value hvalue => ?_⟩
  rw [CreditAccount.incrBalanceRedis_counter hi hexact] at hvalue
  cases hvalue
  rw [howned, ← hcounter]
  rfl

theorem Covered.deductCreditsRedis (h : Covered a) {costUsd : Int} (hexact : a.Exact (.deductCreditsRedis costUsd)) :
    Covered (a.deductCreditsRedis costUsd) := by
  rcases CreditAccount.deductCreditsRedis_cases hexact with heq | ⟨hpos, hle, heq⟩
  · rw [heq]
    exact h
  · have hpresent : a.redis = none → a.owned = 0 := by
      intro hnone
      rw [CreditAccount.counter, hnone, storedBalance, Option.elim_none] at hle
      omega
    have hcounter := h.counter_eq hpresent
    have howned : (a.deductCreditsRedis costUsd).owned = a.owned - costUsd := by
      rw [heq]
      simp only [CreditAccount.owned, CreditAccount.wallet, List.sum_cons]
      omega
    refine ⟨by rw [heq]; exact h.fits, by omega, fun value hvalue => ?_⟩
    rw [heq] at hvalue
    cases hvalue
    refine congrArg RedisValue.integer ?_
    omega

theorem Covered.recordDeductionPostgres (h : Covered a) {i cost : Nat} (hi : a.unrecorded[i]? = some cost) :
    Covered (a.recordDeductionPostgres i cost) := by
  have hsum := CreditAccount.sum_eraseIdx_add hi
  by_cases hcost : cost < numericLimit
  · have hwallet : (a.recordDeductionPostgres i cost).wallet = a.wallet - cost :=
      CreditAccount.recordDeductionPostgres_wallet hcost
    have hnonneg := h.owned
    have howned : (a.recordDeductionPostgres i cost).owned = a.owned := by
      rw [CreditAccount.owned, hwallet, CreditAccount.recordDeductionPostgres, if_pos hcost]
      rw [CreditAccount.owned] at hnonneg ⊢
      dsimp only
      omega
    have hredis : (a.recordDeductionPostgres i cost).redis = a.redis := by
      rw [CreditAccount.recordDeductionPostgres, if_pos hcost]
    refine ⟨by rw [hwallet]; exact (Nat.sub_le _ _).trans_lt h.fits, by rw [howned]; exact hnonneg, ?_⟩
    rw [hredis, howned]
    exact h.counter
  · rw [CreditAccount.recordDeductionPostgres, if_neg hcost]
    exact h

theorem covered_step (h : Covered s.account) (hharmless : s.Harmless call) (hstep : s.step call = some s') :
    Covered s'.account := by
  cases call with
  | account action =>
    obtain ⟨a, haction, rfl⟩ := Option.map_eq_some_iff.mp hstep
    cases action with
    | addCredits amountUsd =>
      cases haction
      exact h.addCredits amountUsd
    | incrBalanceRedis i =>
      obtain ⟨amount, hi, rfl⟩ := Option.map_eq_some_iff.mp haction
      exact h.incrBalanceRedis hi hharmless
    | deductCreditsRedis costUsd =>
      cases haction
      exact h.deductCreditsRedis hharmless
    | recordDeductionPostgres i =>
      obtain ⟨cost, hi, rfl⟩ := Option.map_eq_some_iff.mp haction
      exact h.recordDeductionPostgres hi
  | getBalanceRedis =>
    cases hstep
    split
    · exact h
    · exact h
  | getBalancePostgres i =>
    rw [step] at hstep
    split at hstep
    · cases hstep
      exact h
    · cases hstep
  | setBalanceRedisIfAbsent i =>
    rw [step] at hstep
    split at hstep
    · next balanceUsd hloaded =>
      cases hstep
      refine ⟨h.fits, h.owned, fun value hvalue => ?_⟩
      cases hredis : s.account.redis with
      | none =>
        have hputs : (scaled balanceUsd : Int) = s.account.owned := hharmless _ hloaded hredis
        rw [hredis] at hvalue
        cases hvalue
        refine congrArg RedisValue.integer ?_
        exact Int.ofNat.inj (hputs.trans (Int.toNat_of_nonneg h.owned).symm)
      | some held =>
        rw [hredis] at hvalue
        cases hvalue
        exact h.counter held hredis
    · cases hstep
  | evict =>
    cases hstep
    exact ⟨h.fits, h.owned, fun _ hvalue => by cases hvalue⟩

theorem Covered.agrees (h : Covered s.account) : s.Agrees := fun hquiescent value hvalue => by
  rw [h.counter value hvalue, CreditAccount.owned, hquiescent.toppingUp, hquiescent.unrecorded]
  rfl

end Step

theorem covered_start (balanceUsd : Option (Fin numericLimit)) (cached : Bool) :
    Covered (start balanceUsd cached).account := by
  have howned : (start balanceUsd cached).account.owned = ((balanceUsd.map Fin.val).getD 0 : Nat) := by
    rw [CreditAccount.owned]
    exact Int.sub_zero _
  refine ⟨?_, by rw [howned]; exact Int.natCast_nonneg _, fun value hvalue => ?_⟩
  · cases balanceUsd with
    | none => exact (by decide : 0 < numericLimit)
    | some balance => exact balance.isLt
  · rw [howned]
    cases cached with
    | false => cases hvalue
    | true =>
      cases hvalue
      rfl

/-- Whatever the interleaving, if every increment, fill and deduction is harmless where it falls, the key and the wallet
    agree whenever nothing is in flight. -/
theorem balances_agree {balanceUsd : Option (Fin numericLimit)} {cached : Bool} {calls : List BalanceAction}
    (h : Meets step Harmless (start balanceUsd cached) calls) : Always step Agrees (start balanceUsd cached) calls :=
  have hcovered : Always step (fun s => Covered s.account) (start balanceUsd cached) calls :=
    Always.of_step (fun _ _ _ => covered_step) (covered_start balanceUsd cached) h
  hcovered.imp fun _ => Covered.agrees

/-! ### An evicted key, filled and topped up -/

def walletOf (balanceUsd : Nat) (h : balanceUsd < numericLimit) : Option (Fin numericLimit) := some ⟨balanceUsd, h⟩

def filledThenCharged : List BalanceAction :=
  [.getBalanceRedis, .getBalancePostgres 0, .setBalanceRedisIfAbsent 0, .account (.addCredits 500),
    .account (.incrBalanceRedis 0), .account (.deductCreditsRedis 300), .account (.recordDeductionPostgres 0)]

theorem filledThenCharged_agrees :
    Always step Agrees (start (walletOf 1000 (by decide)) false) filledThenCharged :=
  balances_agree (by decide +kernel)

/-- The key is evicted when a top-up is added to it. -/
def toppedUpAbsent : List BalanceAction := [.account (.addCredits 500), .account (.incrBalanceRedis 0)]

/-- The key is filled between the two halves of a top-up. -/
def filledBetween : List BalanceAction :=
  [.account (.addCredits 500), .getBalanceRedis, .getBalancePostgres 0, .setBalanceRedisIfAbsent 0,
    .account (.incrBalanceRedis 0)]

/-- A deduction from two million dollars leaves a number in exponent notation. -/
def deductedFromMillions : List BalanceAction :=
  [.account (.deductCreditsRedis 1), .account (.recordDeductionPostgres 0)]

theorem balances_disagree :
    ¬Always step Agrees (start (walletOf 1000 (by decide)) false) toppedUpAbsent ∧
    ¬Always step Agrees (start (walletOf 1000 (by decide)) false) filledBetween ∧
    ¬Always step Agrees (start (walletOf 200000000000000 (by decide)) true) deductedFromMillions := by
  refine ⟨?_, ?_, ?_⟩
  · have hexec : exec step (start (walletOf 1000 (by decide)) false) toppedUpAbsent =
        some { account := { balanceUsd := some 1500, redis := some (.integer 500) } } := by decide +kernel
    exact fun h => absurd ((h.of_exec hexec) ⟨rfl, rfl, rfl⟩ (.integer 500) rfl) (by decide)
  · have hexec : exec step (start (walletOf 1000 (by decide)) false) filledBetween =
        some { account := { balanceUsd := some 1500, redis := some (.integer 2000) } } := by decide +kernel
    exact fun h => absurd ((h.of_exec hexec) ⟨rfl, rfl, rfl⟩ (.integer 2000) rfl) (by decide)
  · have hexec : exec step (start (walletOf 200000000000000 (by decide)) true) deductedFromMillions =
        some { account := { balanceUsd := some 199999999999999, redis := some (.scientific 200000000000000) } } := by
      decide +kernel
    exact fun h => absurd ((h.of_exec hexec) ⟨rfl, rfl, rfl⟩ (.scientific 200000000000000) rfl) (by decide)

end CachedBalance

end Reiver.Core
