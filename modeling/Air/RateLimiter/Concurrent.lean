import Air.RateLimiter.Basic
import Air.Lts.RowLock

/-! # Concurrent calls of the rate limiter

`RateLimiter::allowed` gets the stored allowance, decides on it, and sets the spent
allowance in a second storage call, with no transaction and no compare-and-set between
them. Concurrent calls on one key are read-modify-write callers on the key's row in the
sense of `RowLock`; a refused call writes nothing.

Without a lock two calls can read the same allowance and both spend its last request.
If the calls were serialised (no get while another call is between its get and its
set), they would decide as calls one after another do.
-/

namespace Air

variable {ι σ : Type*} (config : RlConfig) (storage : StorageProvider σ)

/-- Caller `i`'s `RateLimiter::allowed` at time `times i`: its decision, and the set it
makes on the row it finds at commit, if allowed. -/
def allowedBody (times : ι → ℕ) : ι → RowLock.Body σ Bool :=
  fun i st =>
    let allowance := (storage.get st).getD (Allowance.new config (times i))
    match allowance.allowed config (times i) with
    | (true, allowance) => some (true, fun row => storage.set row allowance)
    | (false, _) => some (false, id)

variable {config storage}

theorem allowedBody_eq_some {times : ι → ℕ} {i : ι} {st : σ} {b : Bool} {w : σ → σ}
    (h : allowedBody config storage times i st = some (b, w)) :
    (b, w st) = RateLimiter.allowed config storage st (times i) := by
  unfold allowedBody at h
  unfold RateLimiter.allowed
  dsimp only at h ⊢
  rcases hd : ((storage.get st).getD (Allowance.new config (times i))).allowed config (times i)
    with ⟨_ | _, allowance⟩
  · rw [hd] at h
    cases h
    rfl
  · rw [hd] at h
    cases h
    rfl

section Window

variable (hkeep : ∀ st a, storage.get (storage.set st a) = some a)
include hkeep

/-- Along a serial replay of callers whose times lie in one window, the allowed ones and
the stored rest make up `max_requests`, once a caller has opened the window. -/
theorem serial_allowed_windowInv [DecidableEq ι] (hmax : 1 ≤ config.maxRequests)
    {times : ι → ℕ} {t₀ : ℕ} (htimes : ∀ i, t₀ ≤ times i ∧ times i ≤ t₀ + config.timeWindow)
    {row₀ : σ} (hopen : ∀ i, Opens storage row₀ (times i)) {log : List (ι × Bool)} {st : σ}
    (h : RowLock.Serial (allowedBody config storage times) row₀ log st) :
    (log = [] ∧ st = row₀) ∨
      ∃ v, t₀ ≤ v ∧
        WindowInv config storage (v + config.timeWindow) st ((log.map Prod.snd).count true) := by
  induction h with
  | nil => exact .inl ⟨rfl, rfl⟩
  | @snoc log st i b w _ hb ih =>
    have hcall := allowedBody_eq_some hb
    rcases ih with ⟨rfl, rfl⟩ | ⟨v, hv₀, hinv⟩
    · -- the first caller opens the window
      obtain ⟨hfirst, hinv⟩ := allowed_opens hkeep hmax (hopen i)
      rw [← hcall] at hfirst hinv
      subst hfirst
      exact .inr ⟨times i, (htimes i).1, by simpa using hinv⟩
    · have hnow : times i ≤ v + config.timeWindow := by
        have := (htimes i).2
        omega
      have hstep := allowed_windowInv hkeep hinv hnow
      rw [← hcall] at hstep
      refine .inr ⟨v, hv₀, ?_⟩
      cases b <;> simpa using hstep

end Window

/-- Serialised, callers within one window are allowed at most `max_requests` times: the
calls commit what calls one after another would. -/
theorem allowed_serialised_bound [DecidableEq ι]
    (hkeep : ∀ st a, storage.get (storage.set st a) = some a) (hmax : 1 ≤ config.maxRequests)
    {times : ι → ℕ} {t₀ : ℕ} (htimes : ∀ i, t₀ ≤ times i ∧ times i ≤ t₀ + config.timeWindow)
    {row₀ : σ} (hopen : ∀ i, Opens storage row₀ (times i))
    {c : RowLock.Config ι σ Bool}
    (hr : Lts.Reachable (RowLock.Step true (allowedBody config storage times)) (RowLock.init row₀) c) :
    (c.log.map Prod.snd).count true ≤ config.maxRequests := by
  rcases serial_allowed_windowInv hkeep hmax htimes hopen (RowLock.serial_of_reachable hr) with
    ⟨hlog, -⟩ | ⟨v, -, r, -, hk⟩
  · simp [hlog]
  · omega

/-- Two callers at time `0` on the empty row of a key with one request per window, one after the
other: caller `0` is allowed and sets the spent allowance, caller `1` reads it and is refused. -/
def allowedTwice : RowLock.Config ℕ (Option Allowance) Bool :=
  let c₁ := ((RowLock.init none).setPhase 0 (.holding none)).commitWith 0 true
    fun row => inMemoryStorage.set row ⟨0, 10⟩
  (c₁.setPhase 1 (.holding c₁.row)).commitWith 1 false id

theorem allowed_serialised_bound_twoCalls :
    (∀ st a, inMemoryStorage.get (inMemoryStorage.set st a) = some a) ∧ 1 ≤ 1 ∧
      (∀ _ : ℕ, 0 ≤ 0 ∧ 0 ≤ 0 + 10) ∧ (∀ _ : ℕ, Opens inMemoryStorage none 0) ∧
      allowedTwice.log = [(0, true), (1, false)] ∧
      (allowedTwice.log.map Prod.snd).count true ≤ 1 := by
  have hkeep : ∀ st a, inMemoryStorage.get (inMemoryStorage.set st a) = some a := fun _ _ => rfl
  have htimes : ∀ _ : ℕ, 0 ≤ 0 ∧ 0 ≤ 0 + 10 := fun _ => ⟨Nat.le_refl 0, by decide⟩
  have hopen : ∀ _ : ℕ, Opens inMemoryStorage none 0 := fun _ => trivial
  have hreach : Lts.Reachable (RowLock.Step true (allowedBody ⟨1, 10⟩ inMemoryStorage fun _ : ℕ => 0))
      (RowLock.init none) allowedTwice :=
    RowLock.reachable_twoCallers (by decide) rfl rfl
  exact ⟨hkeep, Nat.le_refl 1, htimes, hopen, rfl,
    allowed_serialised_bound hkeep (Nat.le_refl 1) htimes hopen hreach⟩

/-- Without a lock, two calls at time `0` on the empty row of a key with one request per
window both read the row before either sets it, and both are allowed. -/
theorem allowed_unlocked_exceeds :
    ¬ ∀ c, Lts.Reachable (RowLock.Step false
        (allowedBody ⟨1, 10⟩ rlPostgresStorage fun _ : ℕ => 0)) (RowLock.init none) c →
      (c.log.map Prod.snd).count true ≤ 1 := by
  intro h
  let c₁ : RowLock.Config ℕ (Option Allowance) Bool :=
    ((RowLock.init none).setPhase 0 (.holding none)).setPhase 1 (.holding none)
  let c₂ := c₁.commitWith 0 true fun row => rlPostgresStorage.set row ⟨0, 10⟩
  have hread₀ : RowLock.Step false (allowedBody ⟨1, 10⟩ rlPostgresStorage fun _ : ℕ => 0)
      (RowLock.init none) (.read 0) ((RowLock.init none).setPhase 0 (.holding none)) :=
    .read rfl nofun
  have hread₁ : RowLock.Step false (allowedBody ⟨1, 10⟩ rlPostgresStorage fun _ : ℕ => 0)
      ((RowLock.init none).setPhase 0 (.holding none)) (.read 1) c₁ :=
    .read rfl nofun
  have hcommit₀ : RowLock.Step false (allowedBody ⟨1, 10⟩ rlPostgresStorage fun _ : ℕ => 0)
      c₁ (.commit 0) c₂ :=
    .commit (rfl : c₁.phase 0 = .holding none) rfl
  have hcommit₁ : RowLock.Step false (allowedBody ⟨1, 10⟩ rlPostgresStorage fun _ : ℕ => 0)
      c₂ (.commit 1) (c₂.commitWith 1 true fun row => rlPostgresStorage.set row ⟨0, 10⟩) :=
    .commit (rfl : c₂.phase 1 = .holding none) rfl
  have hreach := ((((Lts.Run.single hread₀).snoc hread₁).snoc hcommit₀).snoc hcommit₁).reachable
  exact absurd (h _ hreach) (by decide)

end Air
