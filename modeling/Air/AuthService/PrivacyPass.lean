import Mathlib
import Air.Lts.RowLock

/-! # Privacy Pass token issuance

`AuthService::as_issue_tokens`: the request's element count `nr()` is cast to `u16`,
the user's `as_token_allowance` row for the operation type is locked with `FOR UPDATE`,
an expired allowance is reset to `max_tokens_allowance()` and a new window, the request
is refused if the allowance is short, and otherwise `issue_token_response` issues the
tokens and the allowance is reduced by the requested count with a saturating
subtraction.

`issue_token_response` issues one token per blinded element, `nr()` of them; a failure
there rolls the transaction back. `TokenAllowance::ensure_exists` runs before the lock
and only inserts a missing row, so every call finds the row. Times are seconds; the
calendar month of `Months::new(1)` is a parameter.
-/

namespace Air

inductive OperationType where
  | unspecified
  | addUsername
  | getInviteCode
  deriving DecidableEq, Repr

namespace OperationType

def maxTokensAllowance : OperationType → ℕ
  | unspecified => 0
  | addUsername => 10
  | getInviteCode => 1

def validUntilStartingAt (addMonth : ℕ → ℕ) : OperationType → ℕ → ℕ
  | unspecified, time => time
  | addUsername, time => addMonth time
  | getInviteCode, time => time + 86400

end OperationType

structure TokenAllowance where
  remaining : ℕ
  validUntil : ℕ
  deriving DecidableEq, Repr

def TokenAllowance.isValidAt (a : TokenAllowance) (time : ℕ) : Bool :=
  time < a.validUntil

inductive IssueTokensError where
  | badRequest (message : String)
  | storageError
  | tooManyTokensRequested (retryAfterSecs tokensAvailable : ℕ)
  | privacyPassError
  deriving DecidableEq, Repr

/-- `as_issue_tokens` on the locked allowance, for a request of `nr` elements at `now`:
the number of tokens issued and the allowance written back, or the error. -/
def asIssueTokens (addMonth : ℕ → ℕ) (operationType : OperationType) (nr now : ℕ)
    (tokenAllowance : TokenAllowance) : Except IssueTokensError (ℕ × TokenAllowance) :=
  if operationType = .unspecified then .error (.badRequest "unknown operation type")
  else
    -- `nr() as u16`
    let tokensRequested := nr % 2 ^ 16
    if tokensRequested = 0 then .error (.badRequest "zero tokens requested")
    else
      let tokenAllowance :=
        if tokenAllowance.isValidAt now then tokenAllowance
        else ⟨operationType.maxTokensAllowance,
          operationType.validUntilStartingAt addMonth now⟩
      if operationType ≠ .addUsername ∧ tokenAllowance.remaining < tokensRequested then
        if 0 < tokenAllowance.remaining then
          .error (.tooManyTokensRequested 0 tokenAllowance.remaining)
        else
          .error (.tooManyTokensRequested (tokenAllowance.validUntil - now)
            operationType.maxTokensAllowance)
      else
        .ok (nr, { tokenAllowance with remaining := tokenAllowance.remaining - tokensRequested })

variable {ι : Type*} (addMonth : ℕ → ℕ) (operationType : OperationType)

/-- Caller `i`'s `as_issue_tokens`, with `nr i` elements at `now i`, as a read-modify-write
body on the user's allowance row: the tokens issued and the row it writes. -/
def issueBody (nr now : ι → ℕ) : ι → RowLock.Body TokenAllowance ℕ :=
  fun i row =>
    match asIssueTokens addMonth operationType (nr i) (now i) row with
    | .ok (issued, written) => some (issued, fun _ => written)
    | .error _ => none

variable {addMonth operationType}

theorem asIssueTokens_eq_ok {nr now issued : ℕ} {a a' : TokenAllowance}
    (hvalid : a.isValidAt now = true)
    (h : asIssueTokens addMonth operationType nr now a = .ok (issued, a')) :
    issued = nr ∧ a' = ⟨a.remaining - nr % 2 ^ 16, a.validUntil⟩ ∧
      (operationType ≠ .addUsername → nr % 2 ^ 16 ≤ a.remaining) := by
  unfold asIssueTokens at h
  simp only [hvalid, if_true] at h
  split_ifs at h with hu hz hshort
  cases h
  refine ⟨rfl, rfl, fun hadd => ?_⟩
  simp only [not_and, Nat.not_lt] at hshort
  exact hshort hadd

/-- Along the serial replay of the accepted calls in the window of a valid allowance, the
counts taken modulo `2 ^ 16` and the remaining allowance add up to the start's. -/
theorem serial_issue [DecidableEq ι] (hop : operationType ≠ .addUsername) {nr now : ι → ℕ}
    {row₀ : TokenAllowance} (hvalid : ∀ i, row₀.isValidAt (now i) = true)
    {log : List (ι × ℕ)} {row : TokenAllowance}
    (h : RowLock.Serial (issueBody addMonth operationType nr now) row₀ log row) :
    (log.map fun e => nr e.1 % 2 ^ 16).sum + row.remaining = row₀.remaining ∧
      row.validUntil = row₀.validUntil ∧ log.map Prod.snd = log.map fun e => nr e.1 := by
  induction h with
  | nil => exact ⟨by simp, rfl, rfl⟩
  | @snoc log row i b w _ hb ih =>
    obtain ⟨hsum, hvu, hissued⟩ := ih
    have hvalid' : row.isValidAt (now i) = true := by
      simpa [TokenAllowance.isValidAt, hvu] using hvalid i
    unfold issueBody at hb
    split at hb
    · rename_i issued written hok
      cases hb
      obtain ⟨rfl, rfl, hle⟩ := asIssueTokens_eq_ok hvalid' hok
      refine ⟨?_, hvu, by simp [hissued]⟩
      simp only [List.map_append, List.map_cons, List.map_nil, List.sum_append, List.sum_cons,
        List.sum_nil]
      have := hle hop
      omega
    · cases hb

/-- Under the row lock, within the window of a valid allowance, the calls accepted took
from it their counts modulo `2 ^ 16`: the issued tokens stay within the allowance exactly
when every request has fewer than `2 ^ 16` elements. -/
theorem issued_le_of_lt [DecidableEq ι] (hop : operationType ≠ .addUsername) {nr now : ι → ℕ}
    (hnr : ∀ i, nr i < 2 ^ 16) {row₀ : TokenAllowance} (hvalid : ∀ i, row₀.isValidAt (now i) = true)
    {c : RowLock.Config ι TokenAllowance ℕ}
    (hr : Lts.Reachable (RowLock.Step true (issueBody addMonth operationType nr now))
      (RowLock.init row₀) c) :
    (c.log.map Prod.snd).sum ≤ row₀.remaining := by
  obtain ⟨hsum, -, hissued⟩ := serial_issue hop hvalid (RowLock.serial_of_reachable hr)
  have hmod : (c.log.map fun e => nr e.1 % 2 ^ 16) = c.log.map fun e => nr e.1 :=
    List.map_congr_left fun e _ => Nat.mod_eq_of_lt (hnr e.1)
  rw [hissued, ← hmod]
  omega

/-- Two `GetInviteCode` requests of one token each on an allowance of `3`, the second
reading the row the first committed. -/
def issuedTwice : RowLock.Config ℕ TokenAllowance ℕ :=
  let c₁ := ((RowLock.init ⟨3, 86400⟩).setPhase 0 (.holding ⟨3, 86400⟩)).commitWith 0 1
    fun _ => ⟨2, 86400⟩
  (c₁.setPhase 1 (.holding c₁.row)).commitWith 1 1 fun _ => ⟨1, 86400⟩

theorem issued_le_of_lt_twoCalls :
    OperationType.getInviteCode ≠ .addUsername ∧ (∀ _ : ℕ, 1 < 2 ^ 16) ∧
      (∀ _ : ℕ, (⟨3, 86400⟩ : TokenAllowance).isValidAt 0 = true) ∧
      issuedTwice.log = [(0, 1), (1, 1)] ∧ (issuedTwice.log.map Prod.snd).sum ≤ 3 := by
  have hop : OperationType.getInviteCode ≠ .addUsername := by decide
  have hnr : ∀ _ : ℕ, 1 < 2 ^ 16 := fun _ => by decide
  have hvalid : ∀ _ : ℕ, (⟨3, 86400⟩ : TokenAllowance).isValidAt 0 = true := fun _ => rfl
  have hreach : Lts.Reachable (RowLock.Step true
      (issueBody (· + 2592000) .getInviteCode (fun _ : ℕ => 1) fun _ => 0))
      (RowLock.init ⟨3, 86400⟩) issuedTwice := by
    unfold issuedTwice
    exact RowLock.reachable_twoCallers (by decide) rfl rfl
  exact ⟨hop, hnr, hvalid, rfl, issued_le_of_lt hop hnr hvalid hreach⟩

/-- A first `GetInviteCode` request of the day with `65537` blinded elements: its count
is cast to `1`, which the allowance of `1` covers, and all `65537` tokens are issued. -/
def issuedOnce : RowLock.Config ℕ TokenAllowance ℕ :=
  ((RowLock.init ⟨1, 86400⟩).setPhase 0 (.holding ⟨1, 86400⟩)).commitWith 0 65537
    fun _ => ⟨0, 86400⟩

theorem asIssueTokens_overissues :
    Lts.Reachable (RowLock.Step true
        (issueBody (· + 2592000) .getInviteCode (fun _ : ℕ => 65537) fun _ => 0))
      (RowLock.init ⟨1, 86400⟩) issuedOnce ∧
    (issuedOnce.log.map Prod.snd).sum = 65537 ∧ issuedOnce.row = ⟨0, 86400⟩ ∧
    OperationType.getInviteCode.maxTokensAllowance = 1 := by
  exact ⟨RowLock.reachable_oneCaller rfl, rfl, rfl, rfl⟩

end Air
