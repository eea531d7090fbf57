import Mathlib.Data.List.Basic

/-! # The rate limiter

`backend/src/rate_limiter`: an `Allowance` is a number of remaining requests and the
end of its window. `Allowance::allowed` resets an expired allowance to `max_requests`
and a new window, then spends one request if any is left. `RateLimiter::allowed` gets
the stored allowance of a key (a fresh one if there is none), decides, and sets the
spent allowance only when the call is allowed.

Times are microseconds since the epoch: `round_subsecs(6)` is then the identity. A call
reads the clock once. The storage of one key is a parameter: `RlPostgresStorage`
stores with a plain `INSERT` into a table whose primary key is the key, so a second
store for a key fails and is only logged; the test's in-memory storage overwrites.

The window is fixed, not sliding: each window allows `max_requests` calls, so an
interval of length `time_window` that spans a reset can see up to twice as many.
-/

namespace Air

structure RlConfig where
  maxRequests : ℕ
  timeWindow : ℕ
  deriving DecidableEq, Repr

structure Allowance where
  remaining : ℕ
  validUntil : ℕ
  deriving DecidableEq, Repr

namespace Allowance

def new (config : RlConfig) (now : ℕ) : Allowance :=
  ⟨config.maxRequests, now + config.timeWindow⟩

def reset (config : RlConfig) (now : ℕ) : Allowance :=
  ⟨config.maxRequests, now + config.timeWindow⟩

def allowed (a : Allowance) (config : RlConfig) (now : ℕ) : Bool × Allowance :=
  let a := if a.validUntil < now then reset config now else a
  if a.remaining = 0 then (false, a) else (true, { a with remaining := a.remaining - 1 })

end Allowance

structure StorageProvider (σ : Type*) where
  get : σ → Option Allowance
  set : σ → Allowance → σ

/-- `RlPostgresStorage`: `Allowance::load` and `Allowance::store`, whose `INSERT` the
primary key rejects when the key has a row already. -/
def rlPostgresStorage : StorageProvider (Option Allowance) where
  get row := row
  set row allowance :=
    match row with
    | none => some allowance
    | some stored => some stored

/-- The test's `InMemoryStorage`: `HashMap::insert` overwrites. -/
def inMemoryStorage : StorageProvider (Option Allowance) where
  get row := row
  set _ allowance := some allowance

variable {σ : Type*} (config : RlConfig) (storage : StorageProvider σ)

/-- `RateLimiter::allowed` at time `now`: the decision and the storage afterwards. -/
def RateLimiter.allowed (st : σ) (now : ℕ) : Bool × σ :=
  let allowance := (storage.get st).getD (Allowance.new config now)
  match allowance.allowed config now with
  | (true, allowance) => (true, storage.set st allowance)
  | (false, _) => (false, st)

def allowedRun : σ → List ℕ → List Bool × σ
  | st, [] => ([], st)
  | st, now :: rest =>
    let (b, st') := RateLimiter.allowed config storage st now
    let (bs, st'') := allowedRun st' rest
    (b :: bs, st'')

def Opens (st : σ) (now : ℕ) : Prop :=
  match storage.get st with
  | none => True
  | some a => a.validUntil < now

/-- Inside the window that ends at `v`, `k` calls have been allowed and the stored
allowance has the rest. -/
def WindowInv (v : ℕ) (st : σ) (k : ℕ) : Prop :=
  ∃ r, storage.get st = some ⟨r, v⟩ ∧ k + r = config.maxRequests

variable {config storage}

section Window

variable (hkeep : ∀ st a, storage.get (storage.set st a) = some a)
include hkeep

theorem allowed_opens (hmax : 1 ≤ config.maxRequests) {st : σ} {now : ℕ}
    (hopen : Opens storage st now) :
    (RateLimiter.allowed config storage st now).1 = true ∧
      WindowInv config storage (now + config.timeWindow)
        (RateLimiter.allowed config storage st now).2 1 := by
  have hfresh : ((storage.get st).getD (Allowance.new config now)).allowed config now =
      (true, ⟨config.maxRequests - 1, now + config.timeWindow⟩) := by
    have hlive : ¬ now + config.timeWindow < now := by omega
    unfold Opens at hopen
    rcases hget : storage.get st with _ | a <;> rw [hget] at hopen
    · simp [Allowance.allowed, Allowance.new, hlive, Nat.one_le_iff_ne_zero.mp hmax]
    · simp [Allowance.allowed, Allowance.reset, hopen, Nat.one_le_iff_ne_zero.mp hmax]
  simp only [RateLimiter.allowed, hfresh]
  exact ⟨trivial, _, hkeep _ _, by omega⟩

theorem allowed_windowInv {v k : ℕ} {st : σ} {now : ℕ} (h : WindowInv config storage v st k)
    (hnow : now ≤ v) :
    WindowInv config storage v (RateLimiter.allowed config storage st now).2
      (k + if (RateLimiter.allowed config storage st now).1 then 1 else 0) := by
  obtain ⟨r, hget, hk⟩ := h
  have hlive : ¬ v < now := Nat.not_lt.mpr hnow
  by_cases hr : r = 0
  · -- nothing left: refused, and nothing is stored
    subst hr
    simp only [RateLimiter.allowed, hget, Option.getD_some, Allowance.allowed, hlive, if_false,
      if_true, Bool.false_eq_true]
    exact ⟨0, hget, by omega⟩
  · simp only [RateLimiter.allowed, hget, Option.getD_some, Allowance.allowed, hlive, if_false,
      hr, if_true]
    exact ⟨r - 1, hkeep _ _, by omega⟩

theorem allowedRun_windowInv {v k : ℕ} {st : σ} {times : List ℕ}
    (h : WindowInv config storage v st k) (htimes : ∀ t ∈ times, t ≤ v) :
    k + ((allowedRun config storage st times).1.count true) ≤ config.maxRequests := by
  induction times generalizing st k with
  | nil =>
    obtain ⟨r, -, hk⟩ := h
    simp only [allowedRun, List.count_nil]
    omega
  | cons now rest ih =>
    have hstep := allowed_windowInv hkeep h (htimes now (List.mem_cons_self ..))
    have hrest := ih hstep fun t ht => htimes t (List.mem_cons_of_mem now ht)
    simp only [allowedRun]
    cases hb : (RateLimiter.allowed config storage st now).1
    · simp only [hb, Bool.false_eq_true, if_false, Nat.add_zero] at hrest
      simpa using hrest
    · simp only [hb, if_true] at hrest
      simp only [List.count_cons_self]
      omega

end Window

/-- The bound by design. On a storage that keeps what it is given, calls one after
another, all no later than the end of the window the first of them opens, are allowed at
most `max_requests` times. -/
theorem allowedRun_window_bound (hkeep : ∀ st a, storage.get (storage.set st a) = some a)
    (hmax : 1 ≤ config.maxRequests) {st : σ} {t₁ : ℕ} {times : List ℕ}
    (hopen : Opens storage st t₁) (htimes : ∀ t ∈ times, t ≤ t₁ + config.timeWindow) :
    (allowedRun config storage st (t₁ :: times)).1.count true ≤ config.maxRequests := by
  obtain ⟨hfirst, hinv⟩ := allowed_opens hkeep hmax hopen
  have hrest := allowedRun_windowInv hkeep hinv htimes
  simp only [allowedRun, hfirst, List.count_cons_self]
  omega

theorem allowedRun_window_bound_inMemory :
    (∀ st a, inMemoryStorage.get (inMemoryStorage.set st a) = some a) ∧ 1 ≤ 2 ∧
      Opens inMemoryStorage none 0 ∧ (∀ t ∈ [5, 10, 10], t ≤ 0 + 10) ∧
      (allowedRun ⟨2, 10⟩ inMemoryStorage none [0, 5, 10, 10]).1.count true ≤ 2 :=
  have hkeep : ∀ st a, inMemoryStorage.get (inMemoryStorage.set st a) = some a :=
    fun _ _ => rfl
  have htimes : ∀ t ∈ [5, 10, 10], t ≤ 0 + 10 := by decide
  ⟨hkeep, by decide, trivial, htimes, allowedRun_window_bound hkeep (by decide) trivial htimes⟩

/-- Any interval of length `time_window` holds at most `max_requests` allowed calls. -/
def IntervalBound (config : RlConfig) (times : List ℕ) (results : List Bool) : Prop :=
  ∀ s, ((times.zip results).filter fun tb =>
    tb.2 && decide (s ≤ tb.1) && decide (tb.1 ≤ s + config.timeWindow)).length ≤
      config.maxRequests

section Postgres

/-- On `RlPostgresStorage` the key's row keeps the allowance its first allowed call inserted. With
`max_requests ≥ 2` that allowance has a request left, and every later call decides on it again. -/
theorem allowed_postgres_live (hmax : 2 ≤ config.maxRequests) {row : Option Allowance}
    (hrow : ∀ a ∈ row, 1 ≤ a.remaining) (now : ℕ) :
    (RateLimiter.allowed config rlPostgresStorage row now).1 = true ∧
      ∀ a ∈ (RateLimiter.allowed config rlPostgresStorage row now).2, 1 ≤ a.remaining := by
  have hpos : config.maxRequests ≠ 0 := by omega
  cases row with
  | none =>
    have hlive : ¬ now + config.timeWindow < now := by omega
    simp only [RateLimiter.allowed, rlPostgresStorage, Option.getD_none, Allowance.allowed,
      Allowance.new, hlive, if_false, hpos]
    refine ⟨trivial, fun a ha => ?_⟩
    rw [Option.mem_some_iff] at ha
    subst ha
    dsimp only
    omega
  | some a =>
    have hleft := hrow a rfl
    by_cases hexp : a.validUntil < now
    · simp only [RateLimiter.allowed, rlPostgresStorage, Option.getD_some, Allowance.allowed,
        Allowance.reset, hexp, if_true, hpos, if_false]
      exact ⟨trivial, hrow⟩
    · have hleft' : a.remaining ≠ 0 := by omega
      simp only [RateLimiter.allowed, rlPostgresStorage, Option.getD_some, Allowance.allowed,
        hexp, if_false, hleft']
      exact ⟨trivial, hrow⟩

theorem allowedRun_postgres_live (hmax : 2 ≤ config.maxRequests) {row : Option Allowance}
    (hrow : ∀ a ∈ row, 1 ≤ a.remaining) (times : List ℕ) :
    (allowedRun config rlPostgresStorage row times).1 = times.map fun _ => true := by
  induction times generalizing row with
  | nil => rfl
  | cons now rest ih =>
    obtain ⟨hb, hrow'⟩ := allowed_postgres_live hmax hrow now
    simp only [allowedRun, hb, ih hrow', List.map_cons]

end Postgres

/-- With two requests per window of `10`, calls at `0`, `1` and `2` on a key with no row are all
allowed by `RlPostgresStorage`, three in one window; the in-memory storage refuses the third. -/
theorem allowedRun_postgres_neverRefuses :
    (allowedRun ⟨2, 10⟩ rlPostgresStorage none [0, 1, 2]).1 = [true, true, true] ∧
      ¬ IntervalBound ⟨2, 10⟩ [0, 1, 2] (allowedRun ⟨2, 10⟩ rlPostgresStorage none [0, 1, 2]).1 ∧
      (allowedRun ⟨2, 10⟩ inMemoryStorage none [0, 1, 2]).1 = [true, true, false] := by
  have hrun : (allowedRun ⟨2, 10⟩ rlPostgresStorage none [0, 1, 2]).1 = [true, true, true] :=
    allowedRun_postgres_live (Nat.le_refl 2) (fun _ h => absurd h (Option.not_mem_none _)) [0, 1, 2]
  refine ⟨hrun, fun h => ?_, rfl⟩
  have h0 := h 0
  rw [hrun] at h0
  exact absurd h0 (by decide)

end Air
