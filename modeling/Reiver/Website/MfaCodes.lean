import Mathlib.Logic.Equiv.List
import Reiver.Lib.Dict
import Reiver.Lib.Run
import Reiver.Website.RecoveryText

/-! # Codes of a second factor

The model of `verify_mfa_code`, `verify_totp`, `verify_recovery_code` and `check_and_mark_totp_used` of `mfa.rs`, as the
requests of one user run them once the rate limit and the lockout let them pass. Every Redis command and every statement
is a step of its own, which may fail, with its effect or without. -/

namespace Reiver.Website

def totpStepSeconds : Nat := 30

def totpReplayTtlSeconds : Nat := 60

/-- What the codes of a user are compared with. -/
structure MfaSetup where
  letters : Uppercase
  hash : Text → Nat
  hash_injective : Function.Injective hash
  /-- The code of a time step, where the user has a secret. -/
  totpAt : Nat → Option Text
  totp_digits : ∀ step, ∀ text ∈ totpAt step, text.length = 6 ∧ ∀ c ∈ text, c.isDigit = true

/-- What a request was accepted for. -/
inductive Factor where
  | totp (step : Nat)
  | recovery (formatted : Text)
deriving DecidableEq

inductive Handler where
  | verifyMfaCode
  | verifyTotp
  | verifyRecoveryCode
deriving DecidableEq

inductive CodePhase where
  /-- The code is to be compared with that of the time step. -/
  | comparing
  /-- It is that of this time step. -/
  | marking (step : Nat)
  | recovering
  | accepted
  | rejected
  | failed
  | panicked
deriving DecidableEq

structure CodeRequest where
  handler : Handler
  text : Text
  phase : CodePhase

/-- A row of `mfa_recovery_codes`, by the code whose hash it holds. -/
structure StoredCode where
  code : RecoveryCode
  used : Bool

structure MfaCodes where
  now : Nat
  /-- `mfa:totp:used`, with the times they expire. -/
  marks : Dict Text Nat
  codes : List StoredCode
  requests : List CodeRequest
  accepted : List Factor

/-- What becomes of a command or a statement. -/
inductive Outcome where
  | answered
  /-- It fails, be its effect there or not. -/
  | failed (applied : Bool)
  | noConnection
deriving DecidableEq

namespace MfaCodes
variable (setup : MfaSetup)

def start (now : Nat) (marks : Dict Text Nat) (codes : List StoredCode) : MfaCodes := ⟨now, marks, codes, [], []⟩

/-- The mark of a code is there and has not expired. -/
def live (s : MfaCodes) (text : Text) : Bool := (s.marks.lookup text).any (s.now < ·)

def setPhase (s : MfaCodes) (i : Nat) (r : CodeRequest) (phase : CodePhase) : MfaCodes :=
  { s with requests := s.requests.set i { r with phase } }

def accept (s : MfaCodes) (i : Nat) (r : CodeRequest) (factor : Factor) : MfaCodes :=
  { s.setPhase i r .accepted with accepted := factor :: s.accepted }

/-- `SET NX EX` -/
def setMark (s : MfaCodes) (text : Text) : MfaCodes :=
  if s.live text then s else { s with marks := s.marks.insert text (s.now + totpReplayTtlSeconds) }

/-- A request that the rate limit and the lockout let pass. -/
def arrive (s : MfaCodes) (handler : Handler) (text : Text) : MfaCodes :=
  let phase := if handler = .verifyRecoveryCode then .recovering else .comparing
  { s with requests := s.requests ++ [⟨handler, text, phase⟩] }

/-- The comparison with the code of the time step, if the secret was read. -/
def compare (s : MfaCodes) (i : Nat) (r : CodeRequest) (secretRead : Bool) : MfaCodes :=
  let step := s.now / totpStepSeconds
  if secretRead ∧ setup.totpAt step = some r.text then s.setPhase i r (.marking step)
  else if r.handler = .verifyMfaCode then s.setPhase i r .recovering
  else s.setPhase i r .rejected

/-- `check_and_mark_totp_used`; an error that `verify_mfa_code` gets from it is passed over. -/
def checkAndMarkTotpUsed (s : MfaCodes) (i : Nat) (r : CodeRequest) (step : Nat) : Outcome → MfaCodes
  | .answered => if s.live r.text then s.setPhase i r .rejected else (s.setMark r.text).accept i r (.totp step)
  | .failed applied => (if applied then s.setMark r.text else s).setPhase i r .rejected
  | .noConnection => if r.handler = .verifyMfaCode then s.accept i r (.totp step) else s.setPhase i r .failed

def stored (s : MfaCodes) (hash : Nat) : Bool := s.codes.any fun row => setup.hash row.code.formatted = hash ∧ ¬row.used

def useCode (s : MfaCodes) (hash : Nat) : MfaCodes :=
  { s with codes := s.codes.map fun row => if setup.hash row.code.formatted = hash then { row with used := true }
    else row }

/-- `UPDATE mfa_recovery_codes` of the code that the text is read as. -/
def recover (s : MfaCodes) (i : Nat) (r : CodeRequest) (outcome : Outcome) : MfaCodes :=
  match formatCode setup.letters r.text with
  | none => s.setPhase i r .panicked
  | some formatted =>
    let hash := setup.hash formatted
    match outcome with
    | .answered =>
      if s.stored setup hash then (s.useCode setup hash).accept i r (.recovery formatted) else s.setPhase i r .rejected
    | .failed applied => (if applied then s.useCode setup hash else s).setPhase i r .failed
    | .noConnection => s.setPhase i r .failed

/-! ### Steps -/

inductive Call where
  | tick (seconds : Nat)
  | arrive (handler : Handler) (text : Text)
  | compare (i : Nat) (secretRead : Bool)
  | mark (i : Nat) (outcome : Outcome)
  | recover (i : Nat) (outcome : Outcome)

def step (s : MfaCodes) : Call → Option MfaCodes
  | .tick seconds => some { s with now := s.now + seconds }
  | .arrive handler text => some (s.arrive handler text)
  | .compare i secretRead => do
    let r ← s.requests[i]?
    if r.phase = .comparing then some (s.compare setup i r secretRead) else none
  | .mark i outcome => do
    let r ← s.requests[i]?
    match r.phase with
    | .marking step => some (s.checkAndMarkTotpUsed i r step outcome)
    | _ => none
  | .recover i outcome => do
    let r ← s.requests[i]?
    if r.phase = .recovering then some (s.recover setup i r outcome) else none

/-! ### What is asked for -/

/-- The characters of a code that is stored and was not used. -/
def Unused (s : MfaCodes) (text : Text) : Prop :=
  ∃ row ∈ s.codes, row.used = false ∧ normalize setup.letters text = row.code.chars

/-- Nothing is accepted twice and nothing panics; a text that reaches the recovery codes is accepted there exactly if it
is one that was not used, and one that is taken for a code of a time step is none. -/
structure Works (s : MfaCodes) : Prop where
  once : s.accepted.Nodup
  noPanic : ∀ r ∈ s.requests, r.phase ≠ .panicked
  recovered : ∀ i r, s.requests[i]? = some r → r.phase = .recovering →
    ∃ s' phase, s.step setup (.recover i .answered) = some s' ∧ s'.requests[i]? = some { r with phase } ∧
      (phase = .accepted ↔ s.Unused setup r.text)
  notRecovery : ∀ r ∈ s.requests, ∀ step, r.phase = .marking step →
    ∀ code : RecoveryCode, normalize setup.letters r.text ≠ code.chars

/-- When a step does right: the replay check finds the mark of a code that was accepted, there is a connection for it if
the code was accepted before, and no code is cut inside a character. -/
def Careful (s : MfaCodes) : Call → Prop
  | .mark i .answered =>
    ∀ r step, s.requests[i]? = some r → r.phase = .marking step → .totp step ∈ s.accepted → s.live r.text
  | .mark i .noConnection => ∀ r step, s.requests[i]? = some r → r.phase = .marking step → r.handler = .verifyMfaCode →
      .totp step ∉ s.accepted
  | .recover i _ => ∀ r, s.requests[i]? = some r → CutsBetween setup.letters r.text
  | _ => True

/-! ### What is kept -/

variable {setup} {s s' : MfaCodes} {i : Nat} {r : CodeRequest}

variable (setup) in
/-- What was accepted is used, and what waits for its mark is the code of its time step. -/
structure Kept (s : MfaCodes) : Prop where
  used : ∀ formatted, .recovery formatted ∈ s.accepted → ∀ row ∈ s.codes, row.code.formatted = formatted →
    row.used = true
  marking : ∀ r ∈ s.requests, ∀ step, r.phase = .marking step → setup.totpAt step = some r.text

def NoPanic (s : MfaCodes) : Prop := ∀ r ∈ s.requests, r.phase ≠ .panicked

@[simp] theorem setMark_codes (text : Text) : (s.setMark text).codes = s.codes := by
  rw [setMark]
  split <;> rfl

@[simp] theorem setMark_requests (text : Text) : (s.setMark text).requests = s.requests := by
  rw [setMark]
  split <;> rfl

@[simp] theorem setMark_accepted (text : Text) : (s.setMark text).accepted = s.accepted := by
  rw [setMark]
  split <;> rfl

theorem used_useCode {hash : Nat} {row : StoredCode} (h : row ∈ (s.useCode setup hash).codes) :
    ∃ old ∈ s.codes, row.code = old.code ∧
      (row.used = true ↔ old.used = true ∨ setup.hash old.code.formatted = hash) := by
  obtain ⟨old, hold, rfl⟩ := List.mem_map.mp h
  refine ⟨old, hold, ?_⟩
  split
  · next hhash => exact ⟨rfl, by simp [hhash]⟩
  · next hhash => exact ⟨rfl, by simp [hhash]⟩

theorem stored_iff {formatted : Text} (h : formatCode setup.letters r.text = some formatted) :
    s.stored setup (setup.hash formatted) = true ↔ s.Unused setup r.text := by
  have hrow : ∀ row : StoredCode, setup.hash row.code.formatted = setup.hash formatted ↔
      normalize setup.letters r.text = row.code.chars := by
    intro row
    rw [← formatCode_eq_formatted_iff, h, Option.some.injEq, setup.hash_injective.eq_iff, eq_comm]
  simp [stored, Unused, hrow, and_comm]

theorem mem_setPhase {phase : CodePhase} {r' : CodeRequest} (h : r' ∈ (s.setPhase i r phase).requests) :
    r' = { r with phase } ∨ r' ∈ s.requests := (List.mem_or_eq_of_mem_set h).symm

theorem get_setPhase (hi : s.requests[i]? = some r) (phase : CodePhase) :
    (s.setPhase i r phase).requests[i]? = some { r with phase } := by
  obtain ⟨hlt, -⟩ := List.getElem?_eq_some_iff.mp hi
  exact List.getElem?_set_self hlt

theorem noPanic_setPhase (hi : s.requests[i]? = some r) (h : s.NoPanic) {phase : CodePhase} :
    (s.setPhase i r phase).NoPanic ↔ phase ≠ .panicked := by
  constructor
  · exact fun h' => h' _ (List.mem_of_getElem? (get_setPhase hi phase))
  · intro hphase r' hr'
    rcases mem_setPhase hr' with rfl | hr'
    · exact hphase
    · exact h r' hr'

theorem Kept.setPhase (h : s.Kept setup) {phase : CodePhase} (hphase : ∀ step, phase ≠ .marking step) :
    (s.setPhase i r phase).Kept setup where
  used := h.used
  marking r' hr' step hmarking := by
    rcases mem_setPhase hr' with rfl | hr'
    · exact absurd hmarking (hphase step)
    · exact h.marking r' hr' step hmarking

theorem Kept.congr (h : s.Kept setup) (hcodes : s'.codes = s.codes) (hrequests : s'.requests = s.requests)
    (haccepted : s'.accepted = s.accepted) : s'.Kept setup where
  used := by rw [hcodes, haccepted]; exact h.used
  marking := by rw [hrequests]; exact h.marking

theorem Kept.useCode (h : s.Kept setup) (hash : Nat) : (s.useCode setup hash).Kept setup where
  used formatted haccepted row hrow hformatted := by
    obtain ⟨old, hold, hcode, hused⟩ := used_useCode hrow
    exact hused.mpr (Or.inl (h.used formatted haccepted old hold (hcode ▸ hformatted)))
  marking := h.marking

theorem Kept.accept (h : s.Kept setup) {factor : Factor}
    (hfactor : ∀ formatted, factor = .recovery formatted → ∀ row ∈ s.codes, row.code.formatted = formatted →
      row.used = true) :
    (s.accept i r factor).Kept setup where
  used formatted haccepted row hrow hformatted := by
    rcases List.mem_cons.mp haccepted with heq | haccepted
    · exact hfactor formatted heq.symm row hrow hformatted
    · exact h.used formatted haccepted row hrow hformatted
  marking := (h.setPhase fun _ => CodePhase.noConfusion).marking

theorem Kept.compare (h : s.Kept setup) {secretRead : Bool} : (s.compare setup i r secretRead).Kept setup := by
  rw [MfaCodes.compare]
  split
  · next hcode =>
    refine ⟨h.used, fun r' hr' step hmarking => ?_⟩
    rcases mem_setPhase hr' with rfl | hr'
    · cases hmarking
      exact hcode.2
    · exact h.marking r' hr' step hmarking
  · split
    · exact h.setPhase fun _ => CodePhase.noConfusion
    · exact h.setPhase fun _ => CodePhase.noConfusion

theorem Kept.checkAndMarkTotpUsed (h : s.Kept setup) {step : Nat} {outcome : Outcome} :
    (s.checkAndMarkTotpUsed i r step outcome).Kept setup := by
  have hmark : (s.setMark r.text).Kept setup := h.congr (setMark_codes _) (setMark_requests _) (setMark_accepted _)
  cases outcome with
  | answered =>
    rw [MfaCodes.checkAndMarkTotpUsed]
    split
    · exact h.setPhase fun _ => CodePhase.noConfusion
    · exact hmark.accept fun _ => Factor.noConfusion
  | failed applied =>
    rw [MfaCodes.checkAndMarkTotpUsed]
    split
    · exact hmark.setPhase fun _ => CodePhase.noConfusion
    · exact h.setPhase fun _ => CodePhase.noConfusion
  | noConnection =>
    rw [MfaCodes.checkAndMarkTotpUsed]
    split
    · exact h.accept fun _ => Factor.noConfusion
    · exact h.setPhase fun _ => CodePhase.noConfusion

theorem Kept.recover (h : s.Kept setup) {outcome : Outcome} : (s.recover setup i r outcome).Kept setup := by
  rw [MfaCodes.recover]
  split
  · exact h.setPhase fun _ => CodePhase.noConfusion
  · next formatted _ =>
    cases outcome with
    | answered =>
      dsimp only
      split
      · refine (h.useCode _).accept fun _ heq row hrow hformatted => ?_
        cases heq
        obtain ⟨old, -, hcode, hused⟩ := used_useCode hrow
        exact hused.mpr (Or.inr (by rw [← hcode, hformatted]))
      · exact h.setPhase fun _ => CodePhase.noConfusion
    | failed applied =>
      dsimp only
      split
      · exact (h.useCode _).setPhase fun _ => CodePhase.noConfusion
      · exact h.setPhase fun _ => CodePhase.noConfusion
    | noConnection => exact h.setPhase fun _ => CodePhase.noConfusion

/-! ### Steps that do right -/

theorem kept_step {call : Call} (h : s.Kept setup) (hstep : s.step setup call = some s') : s'.Kept setup := by
  cases call with
  | tick seconds =>
    obtain rfl := Option.some.inj hstep
    exact h.congr rfl rfl rfl
  | arrive handler text =>
    obtain rfl := Option.some.inj hstep
    refine ⟨h.used, fun r hr step hmarking => ?_⟩
    rcases List.mem_append.mp hr with hr | hr
    · exact h.marking r hr step hmarking
    · obtain rfl := List.mem_singleton.mp hr
      dsimp only at hmarking
      split at hmarking <;> cases hmarking
  | compare i secretRead =>
    obtain ⟨r, -, hstep⟩ := Option.bind_eq_some_iff.mp hstep
    obtain ⟨-, ⟨⟩⟩ := Option.ite_none_right_eq_some.mp hstep
    exact h.compare
  | mark i outcome =>
    obtain ⟨r, -, hstep⟩ := Option.bind_eq_some_iff.mp hstep
    split at hstep
    · cases hstep
      exact h.checkAndMarkTotpUsed
    · cases hstep
  | recover i outcome =>
    obtain ⟨r, -, hstep⟩ := Option.bind_eq_some_iff.mp hstep
    obtain ⟨-, ⟨⟩⟩ := Option.ite_none_right_eq_some.mp hstep
    exact h.recover

theorem works_iff (h : s.Kept setup) : s.Works setup ↔ s.accepted.Nodup ∧ s.NoPanic := by
  refine ⟨fun hworks => ⟨hworks.once, hworks.noPanic⟩, fun hsafe => ⟨hsafe.1, hsafe.2, fun i r hi hphase => ?_, ?_⟩⟩
  · have hstep : s.step setup (.recover i .answered) = some (s.recover setup i r .answered) := by
      rw [step, hi]
      exact if_pos hphase
    rw [hstep, recover]
    cases hformat : formatCode setup.letters r.text with
    | none =>
      refine ⟨_, _, rfl, get_setPhase hi _, iff_of_false CodePhase.noConfusion ?_⟩
      rintro ⟨row, -, -, hrow⟩
      cases hformat.symm.trans (formatCode_eq_formatted_iff.mpr hrow)
    | some formatted =>
      dsimp only
      rw [← stored_iff hformat]
      split
      · next hstored => exact ⟨_, _, rfl, get_setPhase hi _, iff_of_true rfl hstored⟩
      · next hstored => exact ⟨_, _, rfl, get_setPhase hi _, iff_of_false CodePhase.noConfusion hstored⟩
  · intro r hr n hmarking code heq
    obtain ⟨hlength, hdigits⟩ := setup.totp_digits n r.text (h.marking r hr n hmarking)
    rw [normalize_of_digits hdigits] at heq
    rw [heq, length_chars] at hlength
    cases hlength

theorem safe_congr (haccepted : s'.accepted = s.accepted) (hrequests : s'.requests = s.requests) :
    s'.accepted.Nodup ∧ s'.NoPanic ↔ s.accepted.Nodup ∧ s.NoPanic := by
  rw [NoPanic, NoPanic, haccepted, hrequests]

theorem safe_setPhase (hi : s.requests[i]? = some r) (h : s.accepted.Nodup ∧ s.NoPanic) {phase : CodePhase} :
    ((s.setPhase i r phase).accepted.Nodup ∧ (s.setPhase i r phase).NoPanic) ↔ phase ≠ .panicked := by
  rw [noPanic_setPhase hi h.2]
  exact and_iff_right h.1

theorem safe_accept (hi : s.requests[i]? = some r) (h : s.accepted.Nodup ∧ s.NoPanic) {factor : Factor} :
    ((s.accept i r factor).accepted.Nodup ∧ (s.accept i r factor).NoPanic) ↔ factor ∉ s.accepted := by
  have hpanic : (s.accept i r factor).NoPanic := (noPanic_setPhase hi h.2).mpr CodePhase.noConfusion
  rw [and_iff_left hpanic]
  exact List.nodup_cons.trans (and_iff_left h.1)

theorem safe_mark (hi : s.requests[i]? = some r) (h : s.accepted.Nodup ∧ s.NoPanic) {n : Nat}
    (hphase : r.phase = .marking n) {outcome : Outcome} :
    ((s.checkAndMarkTotpUsed i r n outcome).accepted.Nodup ∧ (s.checkAndMarkTotpUsed i r n outcome).NoPanic) ↔
      s.Careful setup (.mark i outcome) := by
  have hsafe : (s.setMark r.text).accepted.Nodup ∧ (s.setMark r.text).NoPanic :=
    (safe_congr (setMark_accepted _) (setMark_requests _)).mpr h
  have hi' : (s.setMark r.text).requests[i]? = some r := (congrArg (·[i]?) (setMark_requests _)).trans hi
  have hthis : ∀ {P : CodeRequest → Nat → Prop},
      (∀ r' n', s.requests[i]? = some r' → r'.phase = .marking n' → P r' n') ↔ P r n := by
    intro P
    constructor
    · exact fun h => h r n hi hphase
    · intro h r' n' hi' hphase'
      cases hi.symm.trans hi'
      cases hphase.symm.trans hphase'
      exact h
  cases outcome with
  | answered =>
    rw [checkAndMarkTotpUsed, Careful, hthis]
    split
    · next hlive => exact iff_of_true ((safe_setPhase hi h).mpr CodePhase.noConfusion) fun _ => hlive
    · next hlive =>
      rw [safe_accept hi' hsafe, setMark_accepted]
      exact ⟨fun hnot haccepted => absurd haccepted hnot, fun hcareful haccepted => hlive (hcareful haccepted)⟩
  | failed applied =>
    refine iff_of_true ?_ trivial
    rw [checkAndMarkTotpUsed]
    split
    · exact (safe_setPhase hi' hsafe).mpr CodePhase.noConfusion
    · exact (safe_setPhase hi h).mpr CodePhase.noConfusion
  | noConnection =>
    rw [checkAndMarkTotpUsed, Careful, hthis]
    split
    · next hhandler =>
      rw [safe_accept hi h]
      exact ⟨fun hnot _ => hnot, fun hcareful => hcareful hhandler⟩
    · next hhandler =>
      exact iff_of_true ((safe_setPhase hi h).mpr CodePhase.noConfusion) fun hmfa => absurd hmfa hhandler

theorem safe_recover (hkept : s.Kept setup) (hi : s.requests[i]? = some r) (h : s.accepted.Nodup ∧ s.NoPanic)
    {outcome : Outcome} :
    ((s.recover setup i r outcome).accepted.Nodup ∧ (s.recover setup i r outcome).NoPanic) ↔
      s.Careful setup (.recover i outcome) := by
  have hcareful : s.Careful setup (.recover i outcome) ↔ CutsBetween setup.letters r.text := by
    constructor
    · exact fun h => h r hi
    · intro h r' hi'
      cases hi.symm.trans hi'
      exact h
  rw [hcareful, ← formatCode_isSome_iff, recover]
  cases hformat : formatCode setup.letters r.text with
  | none => exact iff_of_false (fun h' => (safe_setPhase hi h).mp h' rfl) fun h => by cases h
  | some formatted =>
    refine iff_of_true ?_ rfl
    cases outcome with
    | answered =>
      dsimp only
      split
      · next hstored =>
        refine (safe_accept (s := s.useCode setup _) hi h).mpr fun haccepted => ?_
        obtain ⟨row, hrow, hused, hnormal⟩ := (stored_iff hformat).mp hstored
        have hformatted : row.code.formatted = formatted :=
          Option.some.inj ((formatCode_eq_formatted_iff.mpr hnormal).symm.trans hformat)
        rw [hkept.used formatted haccepted row hrow hformatted] at hused
        cases hused
      · exact (safe_setPhase hi h).mpr CodePhase.noConfusion
    | failed applied =>
      dsimp only
      split
      · exact (safe_setPhase (s := s.useCode setup _) hi h).mpr CodePhase.noConfusion
      · exact (safe_setPhase hi h).mpr CodePhase.noConfusion
    | noConnection => exact (safe_setPhase hi h).mpr CodePhase.noConfusion

theorem works_step {call : Call} (hkept : s.Kept setup) (h : s.Works setup) (hstep : s.step setup call = some s') :
    s'.Works setup ↔ s.Careful setup call := by
  rw [works_iff (kept_step hkept hstep)]
  have hsafe := (works_iff hkept).mp h
  cases call with
  | tick seconds =>
    obtain rfl := Option.some.inj hstep
    exact iff_of_true hsafe trivial
  | arrive handler text =>
    obtain rfl := Option.some.inj hstep
    refine iff_of_true ⟨hsafe.1, fun r hr => ?_⟩ trivial
    rcases List.mem_append.mp hr with hr | hr
    · exact hsafe.2 r hr
    · obtain rfl := List.mem_singleton.mp hr
      dsimp only
      split <;> exact CodePhase.noConfusion
  | compare i secretRead =>
    obtain ⟨r, hi, hstep⟩ := Option.bind_eq_some_iff.mp hstep
    obtain ⟨-, ⟨⟩⟩ := Option.ite_none_right_eq_some.mp hstep
    refine iff_of_true ?_ trivial
    rw [compare]
    split
    · exact (safe_setPhase hi hsafe).mpr CodePhase.noConfusion
    · split
      · exact (safe_setPhase hi hsafe).mpr CodePhase.noConfusion
      · exact (safe_setPhase hi hsafe).mpr CodePhase.noConfusion
  | mark i outcome =>
    obtain ⟨r, hi, hstep⟩ := Option.bind_eq_some_iff.mp hstep
    split at hstep
    · next hphase =>
      cases hstep
      exact safe_mark hi hsafe hphase
    · cases hstep
  | recover i outcome =>
    obtain ⟨r, hi, hstep⟩ := Option.bind_eq_some_iff.mp hstep
    obtain ⟨-, ⟨⟩⟩ := Option.ite_none_right_eq_some.mp hstep
    exact safe_recover hkept hi hsafe

/-! ### Runs -/

theorem kept_start {now : Nat} {marks : Dict Text Nat} {codes : List StoredCode} :
    (start now marks codes).Kept setup where
  used _ haccepted := absurd haccepted List.not_mem_nil
  marking _ hr := absurd hr List.not_mem_nil

/-- Whatever is stored, codes work once and no text panics throughout a run exactly if its steps do right. -/
theorem works_always_iff (now : Nat) (marks : Dict Text Nat) (codes : List StoredCode) (run : List Call) :
    Always (step setup) (Works setup) (start now marks codes) run ↔
      Meets (step setup) (Careful setup) (start now marks codes) run :=
  always_iff_meets_of_inv (fun _ _ _ hkept hstep => kept_step hkept hstep)
    (fun _ _ _ hkept hworks hstep => works_step hkept hworks hstep) kept_start
    ((works_iff kept_start).mpr ⟨List.nodup_nil, fun _ hr => absurd hr List.not_mem_nil⟩)

/-- Letters as they are, and one code for all time steps. -/
def oneCode : MfaSetup where
  letters :=
    { upper c := [c]
      upper_dash := rfl
      dash_notMem := by
        intro c hc h
        exact hc (List.mem_singleton.mp h).symm
      upper_digit _ _ := rfl }
  hash text := Encodable.encode (text.map Char.toNat)
  hash_injective _ _ h := List.map_injective_iff.mpr (fun _ _ => Char.toNat_inj.mp) (Encodable.encode_injective h)
  totpAt _ := some ['1', '2', '3', '4', '5', '6']
  totp_digits := by
    rintro step text ⟨⟩
    exact ⟨rfl, List.all_eq_true.mp rfl⟩

/-- A code of a time step that is given twice while there is no connection for the replay check. -/
def replayed : List Call :=
  [.arrive .verifyMfaCode ['1', '2', '3', '4', '5', '6'], .compare 0 true, .mark 0 .noConnection,
    .arrive .verifyMfaCode ['1', '2', '3', '4', '5', '6'], .compare 1 true, .mark 1 .noConnection]

/-- The code is accepted twice; and a text of twelve bytes that is cut inside a letter panics. -/
theorem not_works :
    ¬Always (step oneCode) (Works oneCode) (start 0 ∅ []) replayed ∧
      ¬Always (step oneCode) (Works oneCode) (start 0 ∅ [])
        [.arrive .verifyRecoveryCode ['A', 'É', 'É', 'É', 'É', 'É', 'A'], .recover 0 .answered] := by
  constructor
  · intro h
    have hworks := h.of_exec (t := ⟨0, ∅, [], _, [.totp 0, .totp 0]⟩) rfl
    exact absurd hworks.once (by decide)
  · intro h
    have hworks := h.of_exec (t := ⟨0, ∅, [], [⟨.verifyRecoveryCode, _, .panicked⟩], []⟩) rfl
    exact hworks.noPanic _ (List.mem_singleton_self _) rfl

end MfaCodes

end Reiver.Website
