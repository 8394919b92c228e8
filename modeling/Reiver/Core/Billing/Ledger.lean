import Reiver.Core.Billing.Credits
import Reiver.Lib.Dict

/-! # The wallet and its ledger

The two transactions of `credits.rs`, which change a wallet and write a ledger row. Amounts come as decimals, in units
of 10⁻²⁸ USD, and a `NUMERIC(18, 8)` column rounds them to units of 10⁻⁸ USD, half a unit away from zero.
`add_credits` writes its row first and ends where the session has one; `record_deduction_postgres` charges the wallet
first, whether or not its row is there already. -/

namespace Reiver.Core

def columnUnit : Nat := 100000000000000000000

def toColumn (amount : Nat) : Nat := (2 * amount + columnUnit) / (2 * columnUnit)

inductive CreditTransactionType where
  | topUp
  | usageDeduction
deriving DecidableEq

structure CreditTransaction where
  organizationId : Uuid
  transactionType : CreditTransactionType
  amountUsd : Int
  balanceAfterUsd : Nat
  stripeCheckoutSessionId : Option String := none
  llmRequestId : Option String := none
deriving DecidableEq

structure CreditLedger where
  wallets : Dict Uuid Nat := ∅
  transactions : List CreditTransaction := []
deriving DecidableEq

inductive LedgerCall where
  | addCredits (organizationId : Uuid) (amountUsd : Int) (stripeCheckoutSessionId : String)
  | recordDeductionPostgres (organizationId : Uuid) (costUsd : Int) (llmRequestId : Option String)
deriving DecidableEq

section Column
variable {balance amount cost : Nat}

theorem toColumn_add : toColumn (balance * columnUnit + amount) = balance + toColumn amount := by
  unfold toColumn columnUnit
  omega

theorem toColumn_sub_iff (h : cost ≤ balance * columnUnit) :
    (toColumn (balance * columnUnit - cost) : Int) = balance - toColumn cost ↔
      2 * cost % (2 * columnUnit) ≠ columnUnit := by
  unfold toColumn columnUnit at *
  omega

theorem toColumn_sub_self_iff :
    toColumn (balance * columnUnit - cost) = balance ↔ balance = 0 ∨ 2 * cost ≤ columnUnit := by
  unfold toColumn columnUnit
  omega

end Column

namespace CreditLedger

def wallet (s : CreditLedger) (organizationId : Uuid) : Nat := (s.wallets.lookup organizationId).getD 0

def hasSession (s : CreditLedger) (stripeCheckoutSessionId : String) : Bool :=
  s.transactions.any (·.stripeCheckoutSessionId = some stripeCheckoutSessionId)

def hasRequest (s : CreditLedger) (llmRequestId : Option String) : Bool :=
  llmRequestId.any fun id => s.transactions.any (·.llmRequestId = some id)

/-- A value out of a column's range, and a session that has its row, roll the transaction back. -/
def addCredits (s : CreditLedger) (organizationId : Uuid) (amountUsd : Int) (stripeCheckoutSessionId : String) :
    CreditLedger :=
  let amount := amountUsd.toNat
  if amountUsd ≤ 0 ∨ numericLimit ≤ toColumn amount then s
  else if s.hasSession stripeCheckoutSessionId then s
  else
    let newBalance := (s.wallets.lookup organizationId).elim (toColumn amount) fun balance =>
      toColumn (balance * columnUnit + amount)
    if numericLimit ≤ newBalance then s
    else
      { wallets := s.wallets.insert organizationId newBalance
        transactions :=
          { organizationId, transactionType := .topUp, amountUsd := toColumn amount, balanceAfterUsd := newBalance
            stripeCheckoutSessionId := some stripeCheckoutSessionId } :: s.transactions }

/-- A request that has its row gets no other one, and the wallet is charged all the same. -/
def recordDeductionPostgres (s : CreditLedger) (organizationId : Uuid) (costUsd : Int)
    (llmRequestId : Option String) : CreditLedger :=
  let cost := costUsd.toNat
  if costUsd ≤ 0 ∨ numericLimit ≤ toColumn cost then s
  else
    let newBalance := (s.wallets.lookup organizationId).elim 0 fun balance => toColumn (balance * columnUnit - cost)
    { wallets := s.wallets.insert organizationId newBalance
      transactions :=
        if s.hasRequest llmRequestId then s.transactions
        else
          { organizationId, transactionType := .usageDeduction, amountUsd := -toColumn cost
            balanceAfterUsd := newBalance, llmRequestId } :: s.transactions }

def apply (s : CreditLedger) : LedgerCall → CreditLedger
  | .addCredits organizationId amountUsd stripeCheckoutSessionId =>
    s.addCredits organizationId amountUsd stripeCheckoutSessionId
  | .recordDeductionPostgres organizationId costUsd llmRequestId =>
    s.recordDeductionPostgres organizationId costUsd llmRequestId

def Repeated (s : CreditLedger) : LedgerCall → Prop
  | .addCredits _ _ stripeCheckoutSessionId => s.hasSession stripeCheckoutSessionId
  | .recordDeductionPostgres _ _ llmRequestId => s.hasRequest llmRequestId

instance : ∀ s call, Decidable (Repeated s call)
  | s, .addCredits _ _ stripeCheckoutSessionId =>
    inferInstanceAs (Decidable (s.hasSession stripeCheckoutSessionId = true))
  | s, .recordDeductionPostgres _ _ llmRequestId => inferInstanceAs (Decidable (s.hasRequest llmRequestId = true))

def WithinBalance (s : CreditLedger) : LedgerCall → Prop
  | .addCredits _ _ _ => True
  | .recordDeductionPostgres organizationId costUsd _ => costUsd ≤ s.wallet organizationId * columnUnit

instance : ∀ s call, Decidable (WithinBalance s call)
  | _, .addCredits _ _ _ => inferInstanceAs (Decidable True)
  | s, .recordDeductionPostgres organizationId costUsd _ =>
    inferInstanceAs (Decidable (costUsd ≤ s.wallet organizationId * columnUnit))

/-- The calls considered: a call that repeats another one, or takes no more than there is. -/
def step (s : CreditLedger) (call : LedgerCall) : Option CreditLedger :=
  if s.Repeated call ∨ s.WithinBalance call then some (s.apply call) else none

def total (transactions : List CreditTransaction) (organizationId : Uuid) : Int :=
  ((transactions.filter (·.organizationId = organizationId)).map (·.amountUsd)).sum

def Balanced (s : CreditLedger) : Prop :=
  ∀ organizationId, (s.wallet organizationId : Int) = total s.transactions organizationId

/-- A repeated call changes neither the ledger nor a wallet. -/
def RepeatsNothing (s : CreditLedger) (call : LedgerCall) : Prop :=
  s.Repeated call → (s.apply call).transactions = s.transactions ∧
    ∀ organizationId, (s.apply call).wallet organizationId = s.wallet organizationId

/-- A deduction that repeats one finds an empty wallet, or costs no more than half a unit; any other one does not end
    half way between two units. A cost that no column holds is refused. -/
def Harmless (s : CreditLedger) : LedgerCall → Prop
  | .addCredits _ _ _ => True
  | .recordDeductionPostgres organizationId costUsd llmRequestId =>
    0 < costUsd → toColumn costUsd.toNat < numericLimit →
      if s.hasRequest llmRequestId then s.wallet organizationId = 0 ∨ 2 * costUsd ≤ columnUnit
      else 2 * costUsd % (2 * columnUnit) ≠ columnUnit

section Step
variable {s s' : CreditLedger} {call : LedgerCall} {organizationId : Uuid}

theorem total_cons (row : CreditTransaction) (transactions : List CreditTransaction) :
    total (row :: transactions) organizationId =
      (if row.organizationId = organizationId then row.amountUsd else 0) + total transactions organizationId := by
  rw [total, List.filter_cons]
  split
  · next h => rw [if_pos (of_decide_eq_true h), List.map_cons, List.sum_cons, total]
  · next h => rw [if_neg (fun heq => h (decide_eq_true heq)), Int.zero_add, total]

theorem wallet_insert {balance : Nat} {transactions : List CreditTransaction} (other : Uuid) :
    wallet { wallets := s.wallets.insert organizationId balance, transactions } other =
      if other = organizationId then balance else s.wallet other := by
  rw [wallet, Dict.lookup_insert']
  split
  · rfl
  · rfl

theorem balanced_cons_iff (h : s.Balanced) {balance : Nat} {row : CreditTransaction}
    (hrow : row.organizationId = organizationId) :
    Balanced { wallets := s.wallets.insert organizationId balance, transactions := row :: s.transactions } ↔
      (balance : Int) = s.wallet organizationId + row.amountUsd := by
  subst hrow
  constructor
  · intro hafter
    have hrow := hafter row.organizationId
    rw [wallet_insert, if_pos rfl, total_cons, if_pos rfl, ← h] at hrow
    omega
  · intro hgained other
    rw [wallet_insert, total_cons]
    split
    · next heq => rw [if_pos heq.symm, ← h, heq, hgained, Int.add_comm]
    · next hne => rw [if_neg (Ne.symm hne), Int.zero_add, h]

theorem balanced_insert_iff (h : s.Balanced) {balance : Nat} :
    Balanced { s with wallets := s.wallets.insert organizationId balance } ↔ balance = s.wallet organizationId := by
  constructor
  · intro hafter
    have hrow := hafter organizationId
    rw [wallet_insert, if_pos rfl, ← h] at hrow
    exact Int.ofNat.inj hrow
  · intro heq other
    rw [wallet_insert, ← h other]
    split
    · next hother => rw [heq, hother]
    · rfl

theorem balanced_addCredits (h : s.Balanced) (amountUsd : Int) (stripeCheckoutSessionId : String) :
    (s.addCredits organizationId amountUsd stripeCheckoutSessionId).Balanced := by
  rw [addCredits]
  split
  · exact h
  · split
    · exact h
    · dsimp only
      split
      · exact h
      · refine (balanced_cons_iff h ?_).mpr ?_
        · rfl
        · dsimp only
          rw [wallet]
          cases s.wallets.lookup organizationId with
          | none => rw [Option.elim_none, Option.getD_none, Int.natCast_zero, Int.zero_add]
          | some balance => rw [Option.elim_some, Option.getD_some, toColumn_add, Int.natCast_add]

theorem addCredits_of_hasSession {amountUsd : Int} {stripeCheckoutSessionId : String}
    (h : s.hasSession stripeCheckoutSessionId) : s.addCredits organizationId amountUsd stripeCheckoutSessionId = s := by
  rw [addCredits]
  split
  · rfl
  · rfl

theorem charged_eq {cost : Nat} :
    ((s.wallets.lookup organizationId).elim 0 fun balance => toColumn (balance * columnUnit - cost)) =
      toColumn (s.wallet organizationId * columnUnit - cost) := by
  rw [wallet]
  cases s.wallets.lookup organizationId with
  | none =>
    rw [Option.elim_none, Option.getD_none, toColumn_sub_self_iff.mpr (.inl rfl)]
  | some balance => rw [Option.elim_some, Option.getD_some]

theorem balanced_recordDeductionPostgres_iff (h : s.Balanced) {costUsd : Int} {llmRequestId : Option String}
    (hbalance : s.hasRequest llmRequestId ∨ costUsd ≤ s.wallet organizationId * columnUnit) :
    (s.recordDeductionPostgres organizationId costUsd llmRequestId).Balanced ↔
      s.Harmless (.recordDeductionPostgres organizationId costUsd llmRequestId) := by
  rw [recordDeductionPostgres, Harmless]
  dsimp only
  by_cases hrefused : costUsd ≤ 0 ∨ numericLimit ≤ toColumn costUsd.toNat
  · rw [if_pos hrefused]
    exact iff_of_true h fun hpos hfits => by omega
  · obtain ⟨hpos, hfits⟩ := not_or.mp hrefused
    have hcost : (costUsd.toNat : Int) = costUsd := Int.toNat_of_nonneg (by omega)
    rw [if_neg hrefused, forall_prop_of_true (Int.not_le.mp hpos), forall_prop_of_true (Nat.not_le.mp hfits),
      charged_eq]
    by_cases hrequest : s.hasRequest llmRequestId = true
    · rw [if_pos hrequest, if_pos hrequest, balanced_insert_iff h, toColumn_sub_self_iff]
      omega
    · rw [if_neg hrequest, if_neg hrequest]
      have hcovered := hbalance.resolve_left hrequest
      refine (balanced_cons_iff h ?_).trans ?_
      · rfl
      · dsimp only
        rw [← Int.sub_eq_add_neg, toColumn_sub_iff (by omega)]
        unfold columnUnit
        omega

theorem balanced_step (h : s.Balanced) (hstep : s.step call = some s') : s'.Balanced ↔ s.Harmless call := by
  rw [step] at hstep
  split at hstep
  · next hconsidered =>
    cases hstep
    cases call with
    | addCredits organizationId amountUsd stripeCheckoutSessionId =>
      exact iff_of_true (balanced_addCredits h amountUsd stripeCheckoutSessionId) trivial
    | recordDeductionPostgres organizationId costUsd llmRequestId =>
      exact balanced_recordDeductionPostgres_iff h hconsidered
  · cases hstep

theorem Harmless.repeatsNothing (h : s.Harmless call) : s.RepeatsNothing call := by
  intro hrepeated
  cases call with
  | addCredits organizationId amountUsd stripeCheckoutSessionId =>
    rw [apply, addCredits_of_hasSession hrepeated]
    exact ⟨rfl, fun _ => rfl⟩
  | recordDeductionPostgres organizationId costUsd llmRequestId =>
    rw [apply, recordDeductionPostgres]
    dsimp only
    split
    · exact ⟨rfl, fun _ => rfl⟩
    · next hrefused =>
      obtain ⟨hpos, hfits⟩ := not_or.mp hrefused
      have hcost : (costUsd.toNat : Int) = costUsd := Int.toNat_of_nonneg (by omega)
      have hsame := h (Int.not_le.mp hpos) (Nat.not_le.mp hfits)
      rw [if_pos (show s.hasRequest llmRequestId = true from hrepeated)] at hsame
      refine ⟨if_pos hrepeated, fun other => ?_⟩
      rw [wallet_insert, charged_eq, toColumn_sub_self_iff.mpr (by omega)]
      split
      · next heq => rw [heq]
      · rfl

end Step

/-- In every history the wallets are the sums of their ledgers and repeated calls change nothing, exactly if no
    deduction of a request that has its row finds a balance to charge, and no cost ends half way between two units. -/
theorem ledger_balanced_iff (calls : List LedgerCall) :
    (Always step Balanced {} calls ∧ Meets step RepeatsNothing {} calls) ↔ Meets step Harmless {} calls := by
  have hbalanced : Always step Balanced {} calls ↔ Meets step Harmless {} calls :=
    always_iff_meets (fun _ _ _ => balanced_step) fun _ => rfl
  have hkept : ∀ s call s', True → step s call = some s' → True := fun _ _ _ _ _ => trivial
  rw [hbalanced, and_iff_left_of_imp]
  exact Meets.imp hkept (fun _ _ _ => Harmless.repeatsNothing) trivial

/-! ### A retried task -/

/-- Ten dollars, and a deduction of three that is recorded twice. -/
def retriedDeduction : List LedgerCall :=
  [.addCredits 1 (10 * 10 ^ 28) "cs_1", .recordDeductionPostgres 1 (3 * 10 ^ 28) (some "req_1"),
    .recordDeductionPostgres 1 (3 * 10 ^ 28) (some "req_1")]

theorem retriedDeduction_charged_twice :
    ¬(Always step Balanced {} retriedDeduction ∧ Meets step RepeatsNothing {} retriedDeduction) := by
  rintro ⟨h, -⟩
  have hwallet : (exec step {} retriedDeduction).map (fun s => ((s.wallet 1 : Int), total s.transactions 1)) =
      some (400000000, 700000000) := by decide +kernel
  obtain ⟨s, hs, hwallet⟩ := Option.map_eq_some_iff.mp hwallet
  have hbalanced := h.of_exec hs 1
  rw [(Prod.mk.inj hwallet).1, (Prod.mk.inj hwallet).2] at hbalanced
  exact absurd hbalanced (by decide)

end CreditLedger

end Reiver.Core
