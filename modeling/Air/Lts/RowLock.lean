import Mathlib.Logic.Function.Basic
import Mathlib.Data.List.Nodup
import Air.Lts.Run

/-! # Read-modify-write callers on one shared row

Several callers each read a shared row, compute from what they read either an
error or a result together with a write, and then commit the write or roll it
back. The calls run concurrently: the steps of different callers interleave in
any order.

When the read takes an exclusive row lock that is held until commit or rollback
(`SELECT ... FOR UPDATE`), every interleaving commits exactly what running the
committed callers one after another, in commit order, would commit: the row
lock serialises the calls. Without the lock two callers may read the same row
and both commit a write computed from it.
-/

namespace RowLock

variable {ι σ β : Type*}

/-- A read-modify-write body: from the row it read, an error or a result and its write. -/
abbrev Body (σ β : Type*) := σ → Option (β × (σ → σ))

inductive Phase (σ β : Type*) where
  | idle
  | holding (snap : σ)
  | committed (out : β)
  | aborted

/-- The shared row, the phase of every caller and the committed results in commit order. -/
structure Config (ι σ β : Type*) where
  row : σ
  phase : ι → Phase σ β
  log : List (ι × β)

inductive Act (ι : Type*) where
  | read (i : ι)
  | commit (i : ι)
  | abort (i : ι)

def init (row : σ) : Config ι σ β := ⟨row, fun _ => .idle, []⟩

section Serial

variable (body : ι → Body σ β)

/-- Running the logged callers one after another, each body reading what the ones
before it wrote. -/
inductive Serial (row₀ : σ) : List (ι × β) → σ → Prop
  | nil : Serial row₀ [] row₀
  | snoc {log : List (ι × β)} {row : σ} {i : ι} {b : β} {w : σ → σ} :
      Serial row₀ log row → body i row = some (b, w) → Serial row₀ (log ++ [(i, b)]) (w row)

/-- What the row lock maintains. -/
structure Inv (row₀ : σ) (c : Config ι σ β) : Prop where
  serial : Serial body row₀ c.log c.row
  snap_eq : ∀ i s, c.phase i = .holding s → s = c.row
  exclusive : ∀ i j s s', c.phase i = .holding s → c.phase j = .holding s' → i = j
  logged : ∀ i b, (i, b) ∈ c.log → c.phase i = .committed b
  nodup : (c.log.map Prod.fst).Nodup

variable {body}

theorem inv_init (row₀ : σ) : Inv body row₀ (init row₀ : Config ι σ β) where
  serial := .nil
  snap_eq := by simp [init]
  exclusive := by simp [init]
  logged := by simp [init]
  nodup := by simp [init]

theorem not_mem_log_of_holding {row₀ : σ} {c : Config ι σ β} (h : Inv body row₀ c) {i : ι}
    {s : σ} (hi : c.phase i = .holding s) : i ∉ c.log.map Prod.fst := by
  simp only [List.mem_map, Prod.exists, exists_and_right, exists_eq_right, not_exists]
  intro b hb
  rw [h.logged i b hb] at hi
  cases hi

end Serial

section Steps

variable [DecidableEq ι]

def Config.setPhase (c : Config ι σ β) (i : ι) (p : Phase σ β) : Config ι σ β :=
  { c with phase := Function.update c.phase i p }

def Config.commitWith (c : Config ι σ β) (i : ι) (b : β) (w : σ → σ) : Config ι σ β :=
  ⟨w c.row, Function.update c.phase i (.committed b), c.log ++ [(i, b)]⟩

variable {c : Config ι σ β} {i j : ι} {p : Phase σ β} {b : β} {w : σ → σ}

@[simp] theorem Config.setPhase_row : (c.setPhase i p).row = c.row := rfl
@[simp] theorem Config.setPhase_log : (c.setPhase i p).log = c.log := rfl
@[simp] theorem Config.setPhase_phase_self : (c.setPhase i p).phase i = p := by
  simp [Config.setPhase]
theorem Config.setPhase_phase_of_ne (h : j ≠ i) : (c.setPhase i p).phase j = c.phase j := by
  simp [Config.setPhase, h]

@[simp] theorem Config.commitWith_row : (c.commitWith i b w).row = w c.row := rfl
@[simp] theorem Config.commitWith_log : (c.commitWith i b w).log = c.log ++ [(i, b)] := rfl
@[simp] theorem Config.commitWith_phase_self : (c.commitWith i b w).phase i = .committed b := by
  simp [Config.commitWith]
theorem Config.commitWith_phase_of_ne (h : j ≠ i) : (c.commitWith i b w).phase j = c.phase j := by
  simp [Config.commitWith, h]

variable (locked : Bool) (body : ι → Body σ β)

/-- The interleaving semantics. With `locked` a read waits until no caller holds the row.
A caller that holds the row may always roll back: its body failed or the storage did. -/
inductive Step : Config ι σ β → Act ι → Config ι σ β → Prop
  | read {c : Config ι σ β} {i : ι} : c.phase i = .idle →
      (locked = true → ∀ j s, c.phase j ≠ .holding s) →
      Step c (.read i) (c.setPhase i (.holding c.row))
  | commit {c : Config ι σ β} {i : ι} {snap : σ} {b : β} {w : σ → σ} :
      c.phase i = .holding snap → body i snap = some (b, w) →
      Step c (.commit i) (c.commitWith i b w)
  | abort {c : Config ι σ β} {i : ι} {snap : σ} : c.phase i = .holding snap →
      Step c (.abort i) (c.setPhase i .aborted)

variable {locked body}

theorem inv_read {row₀ : σ} (h : Inv body row₀ c) (hi : c.phase i = .idle)
    (hl : ∀ j s, c.phase j ≠ .holding s) : Inv body row₀ (c.setPhase i (.holding c.row)) where
  serial := h.serial
  snap_eq j s hj := by
    by_cases hji : j = i
    · subst hji
      simp only [Config.setPhase_phase_self, Phase.holding.injEq] at hj
      simp [hj]
    · rw [Config.setPhase_phase_of_ne hji] at hj
      exact absurd hj (hl j s)
  exclusive j k s s' hj hk := by
    by_cases hji : j = i
    · by_cases hki : k = i
      · rw [hji, hki]
      · rw [Config.setPhase_phase_of_ne hki] at hk
        exact absurd hk (hl k s')
    · rw [Config.setPhase_phase_of_ne hji] at hj
      exact absurd hj (hl j s)
  logged j b hj := by
    have hc := h.logged j b hj
    have hji : j ≠ i := by rintro rfl; rw [hc] at hi; cases hi
    rwa [Config.setPhase_phase_of_ne hji]
  nodup := h.nodup

theorem inv_commit {row₀ : σ} {snap : σ} (h : Inv body row₀ c) (hi : c.phase i = .holding snap)
    (hb : body i snap = some (b, w)) : Inv body row₀ (c.commitWith i b w) where
  serial := by
    rw [h.snap_eq i snap hi] at hb
    exact .snoc h.serial hb
  snap_eq j s hj := by
    by_cases hji : j = i
    · subst hji; simp at hj
    · rw [Config.commitWith_phase_of_ne hji] at hj
      exact absurd (h.exclusive j i s snap hj hi) hji
  exclusive j k s s' hj hk := by
    by_cases hji : j = i
    · subst hji; simp at hj
    · rw [Config.commitWith_phase_of_ne hji] at hj
      exact absurd (h.exclusive j i s snap hj hi) hji
  logged j b' hj := by
    rcases List.mem_append.mp hj with hj | hj
    · have hc := h.logged j b' hj
      have hji : j ≠ i := by rintro rfl; rw [hc] at hi; cases hi
      rwa [Config.commitWith_phase_of_ne hji]
    · simp only [List.mem_singleton, Prod.mk.injEq] at hj
      obtain ⟨rfl, rfl⟩ := hj
      simp
  nodup := by
    rw [Config.commitWith_log, List.map_append, List.nodup_append]
    refine ⟨h.nodup, List.nodup_singleton _, ?_⟩
    intro j hj k hk
    simp only [List.map_cons, List.map_nil, List.mem_singleton] at hk
    subst hk
    rintro rfl
    exact not_mem_log_of_holding h hi hj

theorem inv_abort {row₀ : σ} {snap : σ} (h : Inv body row₀ c) (hi : c.phase i = .holding snap) :
    Inv body row₀ (c.setPhase i .aborted) where
  serial := h.serial
  snap_eq j s hj := by
    by_cases hji : j = i
    · subst hji; simp at hj
    · rw [Config.setPhase_phase_of_ne hji] at hj
      exact h.snap_eq j s hj
  exclusive j k s s' hj hk := by
    by_cases hji : j = i
    · subst hji; simp at hj
    · by_cases hki : k = i
      · subst hki; simp at hk
      · rw [Config.setPhase_phase_of_ne hji] at hj
        rw [Config.setPhase_phase_of_ne hki] at hk
        exact h.exclusive j k s s' hj hk
  logged j b hj := by
    have hc := h.logged j b hj
    have hji : j ≠ i := by rintro rfl; rw [hc] at hi; cases hi
    rwa [Config.setPhase_phase_of_ne hji]
  nodup := h.nodup

theorem inv_step {row₀ : σ} {c' : Config ι σ β} {a : Act ι} (h : Inv body row₀ c)
    (hs : Step true body c a c') : Inv body row₀ c' := by
  cases hs with
  | read hi hl => exact inv_read h hi (hl rfl)
  | commit hi hb => exact inv_commit h hi hb
  | abort hi => exact inv_abort h hi

theorem inv_of_reachable {row₀ : σ} (hr : Lts.Reachable (Step true body) (init row₀) c) :
    Inv body row₀ c :=
  hr.invariant (inv_init row₀) fun _ _ _ h hs => inv_step h hs

/-- Under the row lock every interleaving is serialisable: the row is what running the
committed callers one after another, in commit order, produces. -/
theorem serial_of_reachable {row₀ : σ} (hr : Lts.Reachable (Step true body) (init row₀) c) :
    Serial body row₀ c.log c.row :=
  (inv_of_reachable hr).serial

theorem log_nodup_of_reachable {row₀ : σ} (hr : Lts.Reachable (Step true body) (init row₀) c) :
    (c.log.map Prod.fst).Nodup :=
  (inv_of_reachable hr).nodup

theorem reachable_oneCaller {row₀ : σ} (h : body i row₀ = some (b, w)) :
    Lts.Reachable (Step true body) (init row₀)
      (((init row₀ : Config ι σ β).setPhase i (.holding row₀)).commitWith i b w) := by
  have hread : Step true body (init row₀) (.read i) ((init row₀).setPhase i (.holding row₀)) :=
    .read rfl fun _ _ _ h => by cases h
  have hcommit : Step true body ((init row₀).setPhase i (.holding row₀)) (.commit i)
      (((init row₀).setPhase i (.holding row₀)).commitWith i b w) :=
    .commit Config.setPhase_phase_self h
  exact ((Lts.Run.single hread).snoc hcommit).reachable

/-- Two callers one after another: the second reads the row the first committed. -/
theorem reachable_twoCallers {row₀ : σ} (hji : j ≠ i) {b₀ b₁ : β} {w₀ w₁ : σ → σ}
    (h₀ : body i row₀ = some (b₀, w₀)) (h₁ : body j (w₀ row₀) = some (b₁, w₁)) :
    Lts.Reachable (Step true body) (init row₀)
      (((((init row₀ : Config ι σ β).setPhase i (.holding row₀)).commitWith i b₀ w₀).setPhase j
        (.holding (w₀ row₀))).commitWith j b₁ w₁) := by
  set c₁ := ((init row₀ : Config ι σ β).setPhase i (.holding row₀)).commitWith i b₀ w₀
  have hidle : ∀ k s, c₁.phase k ≠ .holding s := by
    intro k s h
    by_cases hk : k = i
    · subst hk
      simp [c₁] at h
    · rw [Config.commitWith_phase_of_ne hk, Config.setPhase_phase_of_ne hk] at h
      cases h
  have hread : Step true body c₁ (.read j) (c₁.setPhase j (.holding c₁.row)) :=
    .read (by rw [Config.commitWith_phase_of_ne hji, Config.setPhase_phase_of_ne hji]; rfl)
      fun _ => hidle
  have hcommit : Step true body (c₁.setPhase j (.holding c₁.row)) (.commit j)
      ((c₁.setPhase j (.holding c₁.row)).commitWith j b₁ w₁) :=
    .commit Config.setPhase_phase_self h₁
  exact ((reachable_oneCaller h₀).tail hread).tail hcommit

end Steps

end RowLock
