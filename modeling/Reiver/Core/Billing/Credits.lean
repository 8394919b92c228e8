import Mathlib.Algebra.Order.BigOperators.Group.List
import Mathlib.Algebra.Order.Ring.Int
import Reiver.Lib.Rounding
import Reiver.Lib.Run

/-! # Credit balances

The two copies of an organization's balance in `credits.rs`: the wallet row in Postgres and the counter in Redis, which
is the one that is charged. Amounts are in units of 10⁻⁸ USD. A step of an account is one statement or one command:
what a call has done to one copy and still owes the other one is part of the state. -/

namespace Reiver.Core

def i64Max : Nat := 9223372036854775807

/-- What a column `NUMERIC(18, 8)` cannot hold any more. -/
def numericLimit : Nat := 1000000000000000000

/-- What the key holds: the text of an integer, or of a number in exponent notation. -/
inductive RedisValue where
  | integer (n : Nat)
  | scientific (n : Nat)
deriving DecidableEq

def RedisValue.amount : RedisValue → Nat
  | .integer n => n
  | .scientific n => n

/-- The balance a key holds, an absent key holding zero. -/
def storedBalance (value : Option RedisValue) : Nat := value.elim 0 (·.amount)

/-- The argument of a command, zero where an `i64` cannot hold it. -/
def scaled (amount : Nat) : Nat := if amount ≤ i64Max then amount else 0

/-- `tostring` prints 14 digits, in exponent notation from there on. -/
def luaToString (n : Nat) : RedisValue := if n < 10 ^ 14 then .integer n else .scientific (toDigits 14 n)

/-- The script `LUA_DEDUCT`, whose numbers are doubles: the new value, or nothing where the balance is too low. -/
def luaDeduct (value : Option RedisValue) (cost : Nat) : Option RedisValue :=
  let bal := toDouble (storedBalance value)
  let cost := toDouble cost
  if bal < cost then none else some (luaToString (toDouble (bal - cost)))

/-- `INCRBY`, which takes an absent key for zero and refuses what is not an integer. -/
def incrBy (value : Option RedisValue) (amount : Nat) : Option RedisValue :=
  match value with
  | none => some (.integer amount)
  | some (.integer n) => if n + amount ≤ i64Max then some (.integer (n + amount)) else value
  | some (.scientific _) => value

/-- The balance of an organization. The top-ups that are in the wallet and still to be added to the counter, and the
    deductions that are taken from the counter and still to be recorded, are tasks in flight. -/
structure CreditAccount where
  balanceUsd : Option Nat
  redis : Option RedisValue
  toppingUp : List Nat := []
  unrecorded : List Nat := []
deriving DecidableEq

inductive AccountAction where
  | addCredits (amountUsd : Int)
  | incrBalanceRedis (i : Nat)
  | deductCreditsRedis (costUsd : Int)
  | recordDeductionPostgres (i : Nat)
deriving DecidableEq

namespace CreditAccount

/-- `get_balance_postgres`. -/
def wallet (s : CreditAccount) : Nat := s.balanceUsd.getD 0

def counter (s : CreditAccount) : Nat := storedBalance s.redis

/-- The transaction of `add_credits`. -/
def addCredits (s : CreditAccount) (amountUsd : Int) : CreditAccount :=
  let amount := amountUsd.toNat
  if amountUsd ≤ 0 then s
  else if s.wallet + amount < numericLimit then
    { s with balanceUsd := some (s.wallet + amount), toppingUp := amount :: s.toppingUp }
  else s

def incrBalanceRedis (s : CreditAccount) (i amount : Nat) : CreditAccount :=
  { s with redis := incrBy s.redis (scaled amount), toppingUp := s.toppingUp.eraseIdx i }

def deductCreditsRedis (s : CreditAccount) (costUsd : Int) : CreditAccount :=
  let cost := costUsd.toNat
  if costUsd ≤ 0 then s
  else
    match luaDeduct s.redis (scaled cost) with
    | some value => { s with redis := some value, unrecorded := cost :: s.unrecorded }
    | none => s

/-- The transaction of `record_deduction_postgres`, which creates a missing wallet without charging it. -/
def recordDeductionPostgres (s : CreditAccount) (i cost : Nat) : CreditAccount :=
  if cost < numericLimit then
    { s with
      balanceUsd := some (s.balanceUsd.elim 0 fun balance => balance - cost)
      unrecorded := s.unrecorded.eraseIdx i }
  else s

def step (s : CreditAccount) : AccountAction → Option CreditAccount
  | .addCredits amountUsd => some (s.addCredits amountUsd)
  | .incrBalanceRedis i => s.toppingUp[i]?.map (s.incrBalanceRedis i)
  | .deductCreditsRedis costUsd => some (s.deductCreditsRedis costUsd)
  | .recordDeductionPostgres i => s.unrecorded[i]?.map (s.recordDeductionPostgres i)

/-! ### Drift -/

/-- What the wallet holds for the organization once the tasks in flight are done. -/
def owned (s : CreditAccount) : Int := s.wallet - s.toppingUp.sum - s.unrecorded.sum

def drift (s : CreditAccount) : Int := s.counter - s.owned

/-- The arithmetic of the commands is exact: an increment meets an integer and stays within 64 bits, a deduction meets
    a balance that doubles and the script's fourteen digits can express. -/
def Exact (s : CreditAccount) : AccountAction → Prop
  | .addCredits _ => True
  | .incrBalanceRedis i => ∀ amount ∈ s.toppingUp[i]?, amount ≤ i64Max ∧
      ∀ value ∈ s.redis, value = .integer s.counter ∧ s.counter + amount ≤ i64Max
  | .deductCreditsRedis costUsd => s.counter < 2 ^ 53 ∧ costUsd.toNat ≤ i64Max ∧
      (costUsd.toNat ≤ s.counter → s.counter - costUsd.toNat < 10 ^ 14)
  | .recordDeductionPostgres _ => True

instance : ∀ s action, Decidable (Exact s action)
  | _, .addCredits _ | _, .recordDeductionPostgres _ => inferInstanceAs (Decidable True)
  | s, .incrBalanceRedis i => inferInstanceAs (Decidable (∀ amount ∈ s.toppingUp[i]?, amount ≤ i64Max ∧
      ∀ value ∈ s.redis, value = .integer s.counter ∧ s.counter + amount ≤ i64Max))
  | s, .deductCreditsRedis costUsd => inferInstanceAs (Decidable (s.counter < 2 ^ 53 ∧ costUsd.toNat ≤ i64Max ∧
      (costUsd.toNat ≤ s.counter → s.counter - costUsd.toNat < 10 ^ 14)))

end CreditAccount

section Exact
variable {value : Option RedisValue} {cost amount : Nat}

theorem scaled_of_le (h : amount ≤ i64Max) : scaled amount = amount := if_pos h

theorem luaToString_of_lt {n : Nat} (h : n < 10 ^ 14) : luaToString n = .integer n := if_pos h

theorem luaDeduct_exact (hbal : storedBalance value < 2 ^ 53)
    (hleft : cost ≤ storedBalance value → storedBalance value - cost < 10 ^ 14) :
    luaDeduct value cost =
      if storedBalance value < cost then none else some (.integer (storedBalance value - cost)) := by
  rw [luaDeduct]
  rw [toDouble_of_lt hbal]
  split
  · next hlow =>
    rcases Nat.lt_or_ge cost (2 ^ 53) with hcost | hcost
    · rw [toDouble_of_lt hcost] at hlow
      rw [if_pos hlow]
    · rw [if_pos (hbal.trans_le hcost)]
  · next hlow =>
    have hcost : cost < 2 ^ 53 := by
      by_contra hcost
      exact hlow (hbal.trans_le (le_toDouble (Nat.not_lt.mp hcost)))
    rw [toDouble_of_lt hcost] at hlow ⊢
    have hle := Nat.not_lt.mp hlow
    rw [if_neg hlow, toDouble_of_lt ((Nat.sub_le _ _).trans_lt hbal), luaToString_of_lt (hleft hle)]

end Exact

namespace CreditAccount

section Step
variable {s s' : CreditAccount} {action : AccountAction} {i amount cost : Nat}

theorem sum_eraseIdx_add {l : List Nat} {a : Nat} (h : l[i]? = some a) : (l.eraseIdx i).sum + a = l.sum := by
  obtain ⟨hi, rfl⟩ := List.getElem?_eq_some_iff.mp h
  rw [Nat.add_comm]
  exact (List.getElem_cons_eraseIdx_perm hi).sum_eq

theorem deductCreditsRedis_cases {costUsd : Int} (h : s.Exact (.deductCreditsRedis costUsd)) :
    s.deductCreditsRedis costUsd = s ∨
      0 < costUsd ∧ costUsd.toNat ≤ s.counter ∧ s.deductCreditsRedis costUsd =
        { s with
          redis := some (.integer (s.counter - costUsd.toNat)), unrecorded := costUsd.toNat :: s.unrecorded } := by
  obtain ⟨hbal, hcost, hleft⟩ := h
  rw [deductCreditsRedis]
  split
  · exact .inl rfl
  · next hpos =>
    rw [scaled_of_le hcost, luaDeduct_exact hbal hleft]
    by_cases hlow : storedBalance s.redis < costUsd.toNat
    · rw [if_pos hlow]
      exact .inl rfl
    · rw [if_neg hlow]
      exact .inr ⟨Int.not_le.mp hpos, Nat.not_lt.mp hlow, rfl⟩

theorem incrBalanceRedis_counter (hi : s.toppingUp[i]? = some amount) (h : s.Exact (.incrBalanceRedis i)) :
    (s.incrBalanceRedis i amount).redis = some (.integer (s.counter + amount)) := by
  obtain ⟨hamount, hvalue⟩ := h amount hi
  rw [incrBalanceRedis, scaled_of_le hamount]
  dsimp only
  rw [counter] at hvalue ⊢
  cases hredis : s.redis with
  | none => exact congrArg (fun n => some (RedisValue.integer n)) (Nat.zero_add amount).symm
  | some value =>
    rw [hredis] at hvalue
    obtain ⟨heq, hfits⟩ := hvalue value rfl
    rw [heq]
    exact if_pos hfits

theorem drift_addCredits (amountUsd : Int) : (s.addCredits amountUsd).drift = s.drift := by
  rw [addCredits]
  split
  · rfl
  · split
    · simp only [drift, owned, counter, wallet, Option.getD_some, List.sum_cons]
      omega
    · rfl

theorem drift_incrBalanceRedis (hi : s.toppingUp[i]? = some amount) (h : s.Exact (.incrBalanceRedis i)) :
    (s.incrBalanceRedis i amount).drift = s.drift := by
  have hcounter : (s.incrBalanceRedis i amount).counter = s.counter + amount := by
    rw [counter, incrBalanceRedis_counter hi h]
    rfl
  have hsum := sum_eraseIdx_add hi
  rw [drift, hcounter, drift]
  simp only [owned, wallet, incrBalanceRedis]
  omega

theorem drift_deductCreditsRedis {costUsd : Int} (h : s.Exact (.deductCreditsRedis costUsd)) :
    (s.deductCreditsRedis costUsd).drift = s.drift := by
  rcases deductCreditsRedis_cases h with heq | ⟨-, hle, heq⟩
  · rw [heq]
  · rw [heq]
    simp only [drift, owned, wallet, List.sum_cons]
    rw [counter, storedBalance, Option.elim_some, RedisValue.amount]
    omega

theorem recordDeductionPostgres_wallet (hcost : cost < numericLimit) :
    (s.recordDeductionPostgres i cost).wallet = s.wallet - cost := by
  rw [recordDeductionPostgres, if_pos hcost, wallet, wallet]
  cases s.balanceUsd with
  | none => exact (Nat.zero_sub cost).symm
  | some balance => rfl

/-- Recording a deduction from a wallet that covers it keeps the drift. From one that does not, it takes some of a
    positive drift away. -/
theorem drift_recordDeductionPostgres (hi : s.unrecorded[i]? = some cost) :
    (s.recordDeductionPostgres i cost).drift = s.drift ∨
      0 ≤ (s.recordDeductionPostgres i cost).drift ∧ (s.recordDeductionPostgres i cost).drift ≤ s.drift := by
  have hsum := sum_eraseIdx_add hi
  by_cases hcost : cost < numericLimit
  · have hwallet := recordDeductionPostgres_wallet (i := i) (s := s) hcost
    rw [drift, owned, hwallet, recordDeductionPostgres, if_pos hcost]
    simp only [drift, owned, counter]
    omega
  · rw [recordDeductionPostgres, if_neg hcost]
    exact .inl rfl

theorem drift_step (h : s.Exact action) (hstep : s.step action = some s') :
    s'.drift = s.drift ∨ 0 ≤ s'.drift ∧ s'.drift ≤ s.drift := by
  cases action with
  | addCredits amountUsd =>
    cases hstep
    exact .inl (drift_addCredits amountUsd)
  | incrBalanceRedis i =>
    obtain ⟨amount, hi, rfl⟩ := Option.map_eq_some_iff.mp hstep
    exact .inl (drift_incrBalanceRedis hi h)
  | deductCreditsRedis costUsd =>
    cases hstep
    exact .inl (drift_deductCreditsRedis h)
  | recordDeductionPostgres i =>
    obtain ⟨cost, hi, rfl⟩ := Option.map_eq_some_iff.mp hstep
    exact drift_recordDeductionPostgres hi

end Step

end CreditAccount

end Reiver.Core
