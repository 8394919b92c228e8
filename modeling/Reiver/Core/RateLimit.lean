import Mathlib.Logic.Function.Basic
import Reiver.Lib.Runs
import Std.Data.String.ToInt

/-! # Rate limits

`check_authenticated_rate_limit` of `rate_limit.rs`. A call increments a counter of the minute and one of the hour in
one script. The keys of the counters name the window, the limit and the user, but not the type of the call. -/

namespace Reiver.Core

inductive RateLimitType where
  | analytics
  | crud
  | billing
  | gateway
  | externalApi
  | nlQuery
deriving DecidableEq

structure RateLimitConfig where
  rateLimitAnalyticsPerMinute : Int := 240
  rateLimitAnalyticsPerHour : Int := 1200
  rateLimitCrudPerMinute : Int := 480
  rateLimitCrudPerHour : Int := 4800
  rateLimitBillingPerMinute : Int := 30
  rateLimitBillingPerHour : Int := 120
  rateLimitGatewayPerMinute : Int := 60
  rateLimitGatewayPerHour : Int := 600
  rateLimitExternalApiPerMinute : Int := 30
  rateLimitExternalApiPerHour : Int := 300
  rateLimitNlQueryPerMinute : Int := 10
  rateLimitNlQueryPerHour : Int := 60

namespace RateLimitType

def limitsPerMinute (limitType : RateLimitType) (config : RateLimitConfig) : Int :=
  match limitType with
  | .analytics => config.rateLimitAnalyticsPerMinute
  | .crud => config.rateLimitCrudPerMinute
  | .billing => config.rateLimitBillingPerMinute
  | .gateway => config.rateLimitGatewayPerMinute
  | .externalApi => config.rateLimitExternalApiPerMinute
  | .nlQuery => config.rateLimitNlQueryPerMinute

def limitsPerHour (limitType : RateLimitType) (config : RateLimitConfig) : Int :=
  match limitType with
  | .analytics => config.rateLimitAnalyticsPerHour
  | .crud => config.rateLimitCrudPerHour
  | .billing => config.rateLimitBillingPerHour
  | .gateway => config.rateLimitGatewayPerHour
  | .externalApi => config.rateLimitExternalApiPerHour
  | .nlQuery => config.rateLimitNlQueryPerHour

end RateLimitType

def buildRateLimitKey (window : String) (limit : Int) (userId : String) : String :=
  "rate_limit:" ++ window ++ ":" ++ limit.repr ++ ":" ++ userId

/-! ### Counters -/

/-- A key of Redis with its value, and whether it has an expiry. -/
structure RedisCounter where
  value : Nat
  expires : Bool
deriving DecidableEq

abbrev RedisCounters := String → Option RedisCounter

/-- `INCR`, `TTL`, and `EXPIRE` where the TTL is -1. `remaining` is the TTL of a key that has one. -/
def RedisCounters.incr (counters : RedisCounters) (key : String) (ttlSeconds remaining : Int) :
    RedisCounters × Nat × Int :=
  let current := (counters key).elim 0 (·.value) + 1
  let ttl := if (counters key).any (·.expires) then remaining else ttlSeconds
  (Function.update counters key (some ⟨current, true⟩), current, ttl)

structure DualWindowRateLimitIncr where
  minCurrent : Nat
  minTtl : Int
  hourCurrent : Nat
  hourTtl : Int

/-- `DUAL_WINDOW_INCR_SCRIPT`. -/
def dualWindowIncrWithTtl (counters : RedisCounters) (keyMin keyHour : String) (minRemaining hourRemaining : Int) :
    RedisCounters × DualWindowRateLimitIncr :=
  let (counters, minCurrent, minTtl) := counters.incr keyMin 60 minRemaining
  let (counters, hourCurrent, hourTtl) := counters.incr keyHour 3600 hourRemaining
  (counters, { minCurrent, minTtl, hourCurrent, hourTtl })

structure RateLimitInfo where
  current : Int
  limit : Int
  resetIn : Int
  dropped : Int
deriving DecidableEq

/-- The counts are `i32` by then. -/
def checkAuthenticatedRateLimit (config : RateLimitConfig) (counters : RedisCounters) (userId : String)
    (limitType : RateLimitType) (minRemaining hourRemaining : Int) :
    RedisCounters × Except RateLimitInfo RateLimitInfo :=
  let limitMin := limitType.limitsPerMinute config
  let limitHour := limitType.limitsPerHour config
  let keyMin := buildRateLimitKey "min" limitMin userId
  let keyHour := buildRateLimitKey "hour" limitHour userId
  let (counters, result) := dualWindowIncrWithTtl counters keyMin keyHour minRemaining hourRemaining
  let minReset := if 0 < result.minTtl then result.minTtl else 60
  let hourReset := if 0 < result.hourTtl then result.hourTtl else 3600
  let (current, limit, resetIn) : Int × Int × Int :=
    if limitMin < result.minCurrent then (result.minCurrent, limitMin, minReset)
    else if limitHour < result.hourCurrent then (result.hourCurrent, limitHour, hourReset)
    else (result.minCurrent, limitMin, minReset)
  let dropped := if limit < current then current - limit else 0
  let info := { current, limit, resetIn, dropped }
  (counters, if limit < current then .error info else .ok info)

/-! ### Runs -/

inductive RateEvent where
  | check (userId : String) (limitType : RateLimitType) (minRemaining hourRemaining : Int)
  | expire (key : String)
deriving DecidableEq

namespace RateEvent

def apply (config : RateLimitConfig) (counters : RedisCounters) : RateEvent → RedisCounters
  | .check userId limitType minRemaining hourRemaining =>
    (checkAuthenticatedRateLimit config counters userId limitType minRemaining hourRemaining).1
  | .expire key => if (counters key).any (·.expires) then Function.update counters key none else counters

/-- The call of the type by the user, and what no call does. -/
def Concerns (userId : String) (limitType : RateLimitType) : RateEvent → Bool
  | .check userId' limitType' _ _ => decide (userId' = userId ∧ limitType' = limitType)
  | .expire _ => true

end RateEvent

/-- The decisions for the calls of a type by a user. -/
def decisions (config : RateLimitConfig) (userId : String) (limitType : RateLimitType) :
    RedisCounters → List RateEvent → List Bool
  | _, [] => []
  | counters, .check userId' limitType' minRemaining hourRemaining :: events =>
    let (counters, result) := checkAuthenticatedRateLimit config counters userId' limitType' minRemaining hourRemaining
    let rest := decisions config userId limitType counters events
    if userId' = userId ∧ limitType' = limitType then result.isOk :: rest else rest
  | counters, .expire key :: events =>
    decisions config userId limitType (RateEvent.apply config counters (.expire key)) events

inductive RateWindow where
  | minute
  | hour
deriving DecidableEq

def RateWindow.name : RateWindow → String
  | .minute => "min"
  | .hour => "hour"

def RateLimitType.limit (limitType : RateLimitType) (config : RateLimitConfig) : RateWindow → Int
  | .minute => limitType.limitsPerMinute config
  | .hour => limitType.limitsPerHour config

def rateKey (config : RateLimitConfig) (userId : String) (limitType : RateLimitType) (w : RateWindow) : String :=
  buildRateLimitKey w.name (limitType.limit config w) userId

def i32Max : Nat := 2147483647

/-- No count passes what an `i32` holds. -/
def CountsFit (config : RateLimitConfig) (counters : RedisCounters) (events : List RateEvent) : Prop :=
  ∀ before, before <+: events → ∀ key, (before.foldl (RateEvent.apply config) counters key).elim 0 (·.value) ≤ i32Max

/-- The calls of a type are decided by themselves, and limited in each window. -/
structure LimitKept (config : RateLimitConfig) (limitType : RateLimitType) : Prop where
  independent : ∀ userId events, CountsFit config (fun _ => none) events →
    decisions config userId limitType (fun _ => none) events =
      decisions config userId limitType (fun _ => none) (events.filter (RateEvent.Concerns userId limitType))
  bounded : ∀ userId w before during, CountsFit config (fun _ => none) (before ++ during) →
    .expire (rateKey config userId limitType w) ∉ during →
    (decisions config userId limitType (before.foldl (RateEvent.apply config) fun _ => none) during).count true ≤
      (limitType.limit config w).toNat

/-- Some limit of the type admits nothing, or no other type has a limit of it for the same window, as far as a counter
    can get there. -/
def Separate (config : RateLimitConfig) (limitType : RateLimitType) : Prop :=
  (∃ w, limitType.limit config w ≤ 0) ∨
    ∀ other, other ≠ limitType → ∀ w, other.limit config w = limitType.limit config w →
      i32Max ≤ limitType.limit config w

/-! ### Keys -/

theorem colon_notMem_repr (n : Int) : ':' ∉ n.repr.toList := by
  have hdigits : ∀ m : Nat, ':' ∉ m.repr.toList := by
    intro m hmem
    rw [Nat.repr, String.toList_ofList] at hmem
    exact absurd (Nat.isDigit_of_mem_toDigits (by decide) (by decide) hmem) (by decide)
  rw [Int.repr_eq_if]
  split
  · exact hdigits _
  · rw [String.toList_append, List.mem_append, not_or]
    exact ⟨by decide, hdigits _⟩

theorem buildRateLimitKey_toList (window : String) (limit : Int) (userId : String) :
    (buildRateLimitKey window limit userId).toList =
      "rate_limit:".toList ++ (window.toList ++ ':' :: (limit.repr.toList ++ ':' :: userId.toList)) := by
  have hkey : buildRateLimitKey window limit userId = "rate_limit:" ++ window ++ ":" ++ limit.repr ++ ":" ++ userId :=
    rfl
  simp only [hkey, String.toList_append, List.append_assoc]
  rfl

theorem buildRateLimitKey_inj {w w' : RateWindow} {limit limit' : Int} {userId userId' : String}
    (h : buildRateLimitKey w.name limit userId = buildRateLimitKey w'.name limit' userId') :
    w = w' ∧ limit = limit' ∧ userId = userId' := by
  have hname : ∀ w : RateWindow, ':' ∉ w.name.toList := by
    intro w
    cases w with
    | minute => decide
    | hour => decide
  have hlist := congrArg String.toList h
  rw [buildRateLimitKey_toList, buildRateLimitKey_toList] at hlist
  obtain ⟨hw, hlist⟩ := append_cons_inj (hname w) (hname w') (List.append_cancel_left hlist)
  obtain ⟨hlimit, huser⟩ := append_cons_inj (colon_notMem_repr limit) (colon_notMem_repr limit') hlist
  refine ⟨?_, Int.repr_inj.mp (String.toList_inj.mp hlimit), String.toList_inj.mp huser⟩
  cases w with
  | minute =>
    cases w' with
    | minute => rfl
    | hour => exact absurd hw (by decide)
  | hour =>
    cases w' with
    | minute => exact absurd hw (by decide)
    | hour => rfl

section Counters
variable {config : RateLimitConfig} {counters : RedisCounters} {userId userId' : String}
  {limitType limitType' : RateLimitType} {minRemaining hourRemaining : Int}

theorem rateKey_inj {w w' : RateWindow} (h : rateKey config userId limitType w = rateKey config userId' limitType' w') :
    w = w' ∧ limitType.limit config w = limitType'.limit config w' ∧ userId = userId' := buildRateLimitKey_inj h

def RedisCounters.count (counters : RedisCounters) (key : String) : Nat := (counters key).elim 0 (·.value)

theorem rateKey_hour_ne : rateKey config userId limitType .hour ≠ rateKey config userId limitType .minute := fun h =>
  RateWindow.noConfusion (rateKey_inj h).1

theorem incr_count {key : String} {ttlSeconds remaining : Int} (other : String) :
    RedisCounters.count (counters.incr key ttlSeconds remaining).1 other =
      if other = key then counters.count key + 1 else counters.count other := by
  rw [RedisCounters.incr, RedisCounters.count]
  dsimp only
  rw [Function.update_apply]
  split
  · rfl
  · rfl

theorem count_check (key : String) :
    RedisCounters.count (RateEvent.apply config counters (.check userId limitType minRemaining hourRemaining)) key =
      if key = rateKey config userId limitType .hour then counters.count key + 1
      else if key = rateKey config userId limitType .minute then counters.count key + 1
      else counters.count key := by
  change RedisCounters.count (RedisCounters.incr (counters.incr (rateKey config userId limitType .minute) 60
    minRemaining).1 (rateKey config userId limitType .hour) 3600 hourRemaining).1 key = _
  rw [incr_count, incr_count, incr_count, if_neg rateKey_hour_ne]
  split
  · next heq => rw [heq]
  · split
    · next heq => rw [heq]
    · rfl

theorem count_check_self (w : RateWindow) :
    RedisCounters.count (RateEvent.apply config counters (.check userId limitType minRemaining hourRemaining))
      (rateKey config userId limitType w) = counters.count (rateKey config userId limitType w) + 1 := by
  rw [count_check]
  cases w with
  | hour => rw [if_pos rfl]
  | minute => rw [if_neg rateKey_hour_ne.symm, if_pos rfl]

theorem count_check_of_ne {key : String} (h : ∀ w, key ≠ rateKey config userId limitType w) :
    RedisCounters.count (RateEvent.apply config counters (.check userId limitType minRemaining hourRemaining)) key =
      counters.count key := by
  rw [count_check, if_neg (h .hour), if_neg (h .minute)]

theorem count_le_check (key : String) : counters.count key ≤
    RedisCounters.count (RateEvent.apply config counters (.check userId limitType minRemaining hourRemaining)) key := by
  rw [count_check]
  split
  · exact Nat.le_succ _
  · split
    · exact Nat.le_succ _
    · exact Nat.le_refl _

/-- A call is admitted if it stays within both limits. -/
theorem isOk_check :
    (checkAuthenticatedRateLimit config counters userId limitType minRemaining hourRemaining).2.isOk = true ↔
      ∀ w, (counters.count (rateKey config userId limitType w) : Int) < limitType.limit config w := by
  have hhour : (RedisCounters.incr (counters.incr (rateKey config userId limitType .minute) 60 minRemaining).1
      (rateKey config userId limitType .hour) 3600 hourRemaining).2.1 =
        counters.count (rateKey config userId limitType .hour) + 1 :=
    congrArg (· + 1) ((incr_count (rateKey config userId limitType .hour)).trans (if_neg rateKey_hour_ne))
  have hmin : (counters.incr (rateKey config userId limitType .minute) 60 minRemaining).2.1 =
      counters.count (rateKey config userId limitType .minute) + 1 := rfl
  have hlimits : (∀ w, (counters.count (rateKey config userId limitType w) : Int) < limitType.limit config w) ↔
      (counters.count (rateKey config userId limitType .minute) : Int) < limitType.limitsPerMinute config ∧
        (counters.count (rateKey config userId limitType .hour) : Int) < limitType.limitsPerHour config := by
    refine ⟨fun h => ⟨h .minute, h .hour⟩, fun h w => ?_⟩
    cases w with
    | minute => exact h.1
    | hour => exact h.2
  rw [checkAuthenticatedRateLimit, dualWindowIncrWithTtl, hlimits]
  dsimp only
  have hkeyMin : buildRateLimitKey "min" (limitType.limitsPerMinute config) userId =
      rateKey config userId limitType .minute := rfl
  have hkeyHour : buildRateLimitKey "hour" (limitType.limitsPerHour config) userId =
      rateKey config userId limitType .hour := rfl
  rw [hkeyMin, hkeyHour, hhour, hmin]
  by_cases hm : limitType.limitsPerMinute config < (counters.count (rateKey config userId limitType .minute) + 1 : Nat)
  · rw [if_pos hm]
    dsimp only
    rw [if_pos hm]
    exact iff_of_false Bool.false_ne_true fun h => by omega
  · rw [if_neg hm]
    by_cases hh : limitType.limitsPerHour config < (counters.count (rateKey config userId limitType .hour) + 1 : Nat)
    · rw [if_pos hh]
      dsimp only
      rw [if_pos hh]
      exact iff_of_false Bool.false_ne_true fun h => by omega
    · rw [if_neg hh]
      dsimp only
      rw [if_neg hm]
      exact iff_of_true rfl (by omega)

end Counters

/-! ### Two runs side by side -/

section Runs
variable {config : RateLimitConfig} {counters alone : RedisCounters} {userId : String} {limitType : RateLimitType}
  {events : List RateEvent} {event : RateEvent}

theorem decisions_cons_check {userId' : String} {limitType' : RateLimitType} {minRemaining hourRemaining : Int} :
    decisions config userId limitType counters (.check userId' limitType' minRemaining hourRemaining :: events) =
      if userId' = userId ∧ limitType' = limitType then
        (checkAuthenticatedRateLimit config counters userId' limitType' minRemaining hourRemaining).2.isOk ::
          decisions config userId limitType
            (RateEvent.apply config counters (.check userId' limitType' minRemaining hourRemaining)) events
      else decisions config userId limitType
        (RateEvent.apply config counters (.check userId' limitType' minRemaining hourRemaining)) events := rfl

theorem CountsFit.cons (h : CountsFit config counters (event :: events)) :
    CountsFit config (RateEvent.apply config counters event) events := by
  intro before hbefore key
  exact h (event :: before) (List.cons_prefix_cons.mpr ⟨rfl, hbefore⟩) key

theorem CountsFit.count_apply (h : CountsFit config counters (event :: events)) (key : String) :
    RedisCounters.count (RateEvent.apply config counters event) key ≤ i32Max :=
  h [event] (List.cons_prefix_cons.mpr ⟨rfl, List.nil_prefix⟩) key

def AllExpire (counters : RedisCounters) : Prop := ∀ key, ∀ counter ∈ counters key, counter.expires = true

theorem AllExpire.apply (h : AllExpire counters) : AllExpire (RateEvent.apply config counters event) := by
  cases event with
  | check userId limitType minRemaining hourRemaining =>
    have hincr : ∀ (counters : RedisCounters) (key : String) (ttlSeconds remaining : Int), AllExpire counters →
        AllExpire (counters.incr key ttlSeconds remaining).1 := by
      intro counters key ttlSeconds remaining h other counter hcounter
      rw [RedisCounters.incr] at hcounter
      dsimp only at hcounter
      rw [Function.update_apply] at hcounter
      split at hcounter
      · cases hcounter
        rfl
      · exact h other counter hcounter
    exact hincr _ _ 3600 hourRemaining (hincr _ _ 60 minRemaining h)
  | expire key =>
    rw [RateEvent.apply]
    split
    · intro other counter hcounter
      rw [Function.update_apply] at hcounter
      split at hcounter
      · cases hcounter
      · exact h other counter hcounter
    · exact h

theorem count_expire (h : AllExpire counters) (key other : String) :
    RedisCounters.count (RateEvent.apply config counters (.expire key)) other =
      if other = key then 0 else counters.count other := by
  rw [RateEvent.apply]
  split
  · rw [RedisCounters.count, Function.update_apply]
    split
    · rfl
    · rfl
  · next hexpires =>
    split
    · next heq =>
      subst heq
      rw [RedisCounters.count]
      cases hcounter : counters other with
      | none => rfl
      | some counter =>
        rw [hcounter] at hexpires
        exact absurd (h other counter hcounter) hexpires
    · rfl

/-- The counters of a type and a user with all calls, and with theirs alone: no higher, and equal where no other type
    has the limit. -/
structure Alongside (config : RateLimitConfig) (userId : String) (limitType : RateLimitType)
    (counters alone : RedisCounters) : Prop where
  expires : AllExpire counters
  aloneExpires : AllExpire alone
  le : ∀ w, alone.count (rateKey config userId limitType w) ≤ counters.count (rateKey config userId limitType w)
  eq : ∀ w, (∀ other, other ≠ limitType → other.limit config w ≠ limitType.limit config w) →
    alone.count (rateKey config userId limitType w) = counters.count (rateKey config userId limitType w)

theorem Alongside.both (h : Alongside config userId limitType counters alone)
    (hconcerns : event.Concerns userId limitType = true) :
    Alongside config userId limitType (RateEvent.apply config counters event) (RateEvent.apply config alone event) := by
  refine ⟨h.expires.apply, h.aloneExpires.apply, fun w => ?_, fun w hunshared => ?_⟩
  all_goals
    cases event with
    | check userId' limitType' minRemaining hourRemaining =>
      obtain ⟨rfl, rfl⟩ := of_decide_eq_true hconcerns
      rw [count_check_self, count_check_self]
      first
        | exact Nat.succ_le_succ (h.le w)
        | exact congrArg (· + 1) (h.eq w hunshared)
    | expire key =>
      rw [count_expire h.expires, count_expire h.aloneExpires]
      split
      · rfl
      · first
          | exact h.le w
          | exact h.eq w hunshared

theorem Alongside.one (h : Alongside config userId limitType counters alone)
    (hother : event.Concerns userId limitType = false) :
    Alongside config userId limitType (RateEvent.apply config counters event) alone := by
  cases event with
  | expire key => cases hother
  | check userId' limitType' minRemaining hourRemaining =>
    have hne := of_decide_eq_false hother
    refine ⟨h.expires.apply, h.aloneExpires, fun w => (h.le w).trans (count_le_check _), fun w hunshared => ?_⟩
    rw [h.eq w hunshared, count_check_of_ne]
    intro w' hkey
    obtain ⟨rfl, hlimit, rfl⟩ := rateKey_inj hkey
    exact hunshared limitType' (fun heq => hne ⟨rfl, heq⟩) hlimit.symm

theorem decisions_alone (hseparate : Separate config limitType) (h : Alongside config userId limitType counters alone)
    (hfit : CountsFit config counters events) : decisions config userId limitType counters events =
      decisions config userId limitType alone (events.filter (RateEvent.Concerns userId limitType)) := by
  induction events generalizing counters alone with
  | nil => rfl
  | cons event events ih =>
    rw [List.filter_cons]
    cases hconcerns : event.Concerns userId limitType with
    | false =>
      have hrest := ih (h.one hconcerns) hfit.cons
      rw [if_neg Bool.false_ne_true, ← hrest]
      cases event with
      | expire key => cases hconcerns
      | check userId' limitType' minRemaining hourRemaining =>
        exact decisions_cons_check.trans (if_neg (of_decide_eq_false hconcerns))
    | true =>
      have hrest := ih (h.both hconcerns) hfit.cons
      rw [if_pos rfl]
      cases event with
      | expire key => exact hrest
      | check userId' limitType' minRemaining hourRemaining =>
        obtain ⟨rfl, rfl⟩ := of_decide_eq_true hconcerns
        rw [decisions_cons_check, decisions_cons_check, if_pos ⟨rfl, rfl⟩, if_pos ⟨rfl, rfl⟩, hrest]
        refine congrArg (· :: _) (Bool.eq_iff_iff.mpr ?_)
        rw [isOk_check, isOk_check]
        rcases hseparate with ⟨w, hw⟩ | hseparate
        · exact iff_of_false (fun hall => by have := hall w; omega) fun hall => by have := hall w; omega
        · refine forall_congr' fun w => ?_
          by_cases hunshared : ∀ other, other ≠ limitType' → other.limit config w ≠ limitType'.limit config w
          · rw [h.eq w hunshared]
          · -- No counter gets to the limit that the types share.
            rw [not_forall₂] at hunshared
            obtain ⟨other, hother, hlimit⟩ := hunshared
            have hmax := hseparate other hother w (not_not.mp hlimit)
            have hcount := hfit.count_apply (rateKey config userId' limitType' w)
            rw [count_check_self] at hcount
            have hle := h.le w
            exact iff_of_true (by omega) (by omega)

theorem decisions_bounded (hexpire : AllExpire counters) (w : RateWindow)
    (hlives : .expire (rateKey config userId limitType w) ∉ events) :
    (decisions config userId limitType counters events).count true ≤
      (limitType.limit config w).toNat - counters.count (rateKey config userId limitType w) := by
  induction events generalizing counters with
  | nil => exact Nat.zero_le _
  | cons event events ih =>
    have hexpire' : AllExpire (RateEvent.apply config counters event) := hexpire.apply
    have hrest := ih hexpire' fun hmem => hlives (List.mem_cons_of_mem _ hmem)
    cases event with
    | expire key =>
      have hne : rateKey config userId limitType w ≠ key := fun heq => hlives (heq ▸ List.mem_cons_self)
      rwa [count_expire hexpire, if_neg hne] at hrest
    | check userId' limitType' minRemaining hourRemaining =>
      have hgrows : counters.count (rateKey config userId limitType w) ≤
          RedisCounters.count (RateEvent.apply config counters
            (.check userId' limitType' minRemaining hourRemaining)) (rateKey config userId limitType w) :=
        count_le_check _
      rw [decisions_cons_check]
      split
      · next heq =>
        obtain ⟨rfl, rfl⟩ := heq
        rw [count_check_self] at hrest
        cases hok : (checkAuthenticatedRateLimit config counters userId' limitType' minRemaining
          hourRemaining).2.isOk with
        | false =>
          rw [List.count_cons_of_ne Bool.false_ne_true]
          omega
        | true =>
          have hlimit := isOk_check.mp hok w
          rw [List.count_cons_self]
          omega
      · omega

theorem AllExpire.foldl (h : AllExpire counters) : AllExpire (events.foldl (RateEvent.apply config) counters) := by
  induction events generalizing counters with
  | nil => exact h
  | cons event events ih => exact ih h.apply

theorem allExpire_init : AllExpire fun _ => none := fun _ _ h => by cases h

theorem alongside_init : Alongside config userId limitType (fun _ => none) (fun _ => none) :=
  ⟨allExpire_init, allExpire_init, fun _ => Nat.le_refl _, fun _ _ => rfl⟩

/-! ### A type that uses up the limit of another one -/

theorem count_foldl_le (h : AllExpire counters) (key : String) :
    RedisCounters.count (events.foldl (RateEvent.apply config) counters) key ≤ counters.count key + events.length := by
  induction events generalizing counters with
  | nil => exact Nat.le_refl _
  | cons event events ih =>
    have hrest := ih (h.apply : AllExpire (RateEvent.apply config counters event))
    have hone : RedisCounters.count (RateEvent.apply config counters event) key ≤ counters.count key + 1 := by
      cases event with
      | expire other =>
        rw [count_expire h]
        split
        · exact Nat.zero_le _
        · exact Nat.le_succ _
      | check userId limitType minRemaining hourRemaining =>
        rw [count_check]
        split
        · exact Nat.le_refl _
        · split
          · exact Nat.le_refl _
          · exact Nat.le_succ _
    rw [List.foldl_cons, List.length_cons]
    omega

theorem countsFit_of_length (h : events.length ≤ i32Max) : CountsFit config (fun _ => none) events := by
  intro before hbefore key
  have hcount : RedisCounters.count (before.foldl (RateEvent.apply config) fun _ => none) key ≤
      RedisCounters.count (fun _ => none) key + before.length := count_foldl_le allExpire_init key
  have hzero : RedisCounters.count (fun _ => none) key = 0 := rfl
  rw [hzero, Nat.zero_add] at hcount
  exact hcount.trans (hbefore.length_le.trans h)

def checks (userId : String) (limitType : RateLimitType) (n : Nat) : List RateEvent :=
  List.replicate n (.check userId limitType 0 0)

theorem count_checks (n : Nat) (w : RateWindow) :
    RedisCounters.count ((checks userId limitType n).foldl (RateEvent.apply config) counters)
      (rateKey config userId limitType w) = counters.count (rateKey config userId limitType w) + n := by
  induction n generalizing counters with
  | zero => rfl
  | succ n ih =>
    rw [checks, List.replicate_succ, List.foldl_cons, ← checks, ih, count_check_self]
    omega

theorem decisions_checks {other : RateLimitType} (h : other ≠ limitType) (n : Nat) :
    decisions config userId limitType counters (checks userId other n ++ events) =
      decisions config userId limitType ((checks userId other n).foldl (RateEvent.apply config) counters) events := by
  induction n generalizing counters with
  | zero => rfl
  | succ n ih =>
    rw [checks, List.replicate_succ, List.cons_append, decisions_cons_check, if_neg fun heq => h heq.2, ← checks, ih]
    rfl

theorem separate_of_independent (h : ∀ userId events, CountsFit config (fun _ => none) events →
      decisions config userId limitType (fun _ => none) events =
        decisions config userId limitType (fun _ => none) (events.filter (RateEvent.Concerns userId limitType))) :
    Separate config limitType := by
  by_contra hseparate
  rw [Separate, not_or, not_exists] at hseparate
  obtain ⟨hpos, hshared⟩ := hseparate
  have hpos : ∀ w, 0 < limitType.limit config w := fun w => Int.not_le.mp (hpos w)
  simp only [not_forall] at hshared
  obtain ⟨other, hother, w, hlimit, hmax⟩ := hshared
  have hlimitPos := hpos w
  let n := (limitType.limit config w).toNat
  have hfit : CountsFit config (fun _ => none) (checks "u" other n ++ checks "u" limitType 1) := by
    refine countsFit_of_length ?_
    rw [List.length_append, checks, checks, List.length_replicate, List.length_replicate]
    omega
  have hfilter : (checks "u" other n ++ checks "u" limitType 1).filter (RateEvent.Concerns "u" limitType) =
      checks "u" limitType 1 := by
    have hdrop : (checks "u" other n).filter (RateEvent.Concerns "u" limitType) = [] := by
      refine List.filter_eq_nil_iff.mpr fun event hevent => ?_
      rw [List.eq_of_mem_replicate hevent]
      exact fun hconcerns => hother (of_decide_eq_true hconcerns).2
    rw [List.filter_append, hdrop, List.nil_append, checks]
    exact List.filter_replicate_of_pos (decide_eq_true ⟨rfl, rfl⟩)
  have hdecisions := h "u" _ hfit
  rw [hfilter, decisions_checks hother, checks, checks, List.replicate_one, decisions_cons_check, decisions_cons_check,
    if_pos ⟨rfl, rfl⟩, if_pos ⟨rfl, rfl⟩] at hdecisions
  have hokIff := Bool.eq_iff_iff.mp (List.cons.inj hdecisions).1
  rw [isOk_check, isOk_check] at hokIff
  have hall := hokIff.mpr hpos w
  have hkey : rateKey config "u" limitType w = rateKey config "u" other w := congrArg
    (fun limit => buildRateLimitKey w.name limit "u") hlimit.symm
  rw [hkey, ← checks, count_checks] at hall
  omega

end Runs

/-- For each type: in every run its calls are decided by themselves and limited in each window, exactly if it admits
    nothing or shares no limit of a window with another type. -/
theorem limitKept_iff (config : RateLimitConfig) (limitType : RateLimitType) :
    LimitKept config limitType ↔ Separate config limitType := by
  refine ⟨fun h => separate_of_independent h.independent, fun h => ⟨fun userId events hfit => ?_,
    fun userId w before during _ hlives => ?_⟩⟩
  · exact decisions_alone h alongside_init hfit
  · exact (decisions_bounded allExpire_init.foldl w hlives).trans (Nat.sub_le _ _)

/-- With the default limits, thirty calls of an external API leave no billing call in the minute. -/
theorem billing_not_limitKept : ¬LimitKept {} .billing := fun h => by
  have hfit : CountsFit {} (fun _ => none) (checks "u" .externalApi 30 ++ checks "u" .billing 1) :=
    countsFit_of_length (by decide)
  exact absurd (h.independent "u" _ hfit) (by decide +kernel)

end Reiver.Core
