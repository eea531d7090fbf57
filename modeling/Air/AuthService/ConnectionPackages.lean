import Mathlib
import Air.Lts.Run

/-! # Connection packages of a username under concurrent loads

`store_multiple_for_username` inserts the connection packages a client publishes for its
username hash; `load_for_username` hands one of them to a user who wants to connect: a package
that is not a last resort first, deleted unless it is a last resort or the only one left.

`load_for_username` is one SQL statement, run on the backend's pool under PostgreSQL's READ
COMMITTED isolation. The model follows what such a statement does when others run beside it.
When it begins it sees the rows committed so far, for `COUNT(*)` as for the `SELECT`, and
`FOR UPDATE SKIP LOCKED` takes the first of them in `ORDER BY is_last_resort ASC` that no running
statement holds locked. Its delete takes effect when it finishes.

* Loads that do not overlap keep a pool that was ever given a package nonempty, and such a load
  fails only on an empty pool (`serial_loads_keep_a_package`).
* Two overlapping loads can both count two packages and both delete, which empties the pool
  (`overlapping_loads_empty_pool`), and a load that overlaps another over a pool that holds only
  its last resort package finds no row (`overlapping_load_misses_last_resort`).
-/

namespace Air.ConnectionPackages

/-- A row of `handle_connection_package` for one username hash: its identity and whether the
package is a last resort. -/
structure Package where
  id : ℕ
  isLastResort : Bool
  deriving DecidableEq, Repr

def storeMultipleForUsername (nextId : ℕ) (lastResort : List Bool) : List Package :=
  (lastResort.zipIdx nextId).map fun (b, k) => ⟨k, b⟩

def byLastResort (rows : List Package) : List Package :=
  rows.filter (!·.isLastResort) ++ rows.filter (·.isLastResort)

/-- `next_connection_package`: the first row in that order that no running statement holds
locked, as `FOR UPDATE SKIP LOCKED LIMIT 1` takes it. -/
def nextConnectionPackage (rows : List Package) (locked : List ℕ) : Option Package :=
  (byLastResort rows).find? (·.id ∉ locked)

/-- `deleted_package`: the row goes unless it is a last resort or the statement counted at most
one row. -/
def deletedPackage (rows : List Package) (counted : ℕ) (p : Package) : List Package :=
  if p.isLastResort = false ∧ 1 < counted then rows.filter (·.id ≠ p.id) else rows

inductive Phase where
  /-- It counted `counted` rows and holds the lock on the row it picked, if it found one. -/
  | running (counted : ℕ) (picked : Option Package)
  /-- It finished: `fetch_one` returned the package, or `RowNotFound` for `none`. -/
  | finished (counted : ℕ) (result : Option Package)
  deriving DecidableEq, Repr

def Phase.isRunning : Phase → Bool
  | .running .. => true
  | .finished .. => false

def Phase.locked : Phase → Option ℕ
  | .running _ (some p) => some p.id
  | _ => none

/-- The rows of one username hash, the load statements so far and the next identity. -/
structure Pool where
  rows : List Package
  loads : List Phase
  nextId : ℕ
  deriving DecidableEq, Repr

def init : Pool := ⟨[], [], 0⟩

def Pool.lockedIds (s : Pool) : List ℕ := s.loads.filterMap Phase.locked

def Pool.begin (s : Pool) : Pool :=
  { s with loads := s.loads ++ [.running s.rows.length (nextConnectionPackage s.rows s.lockedIds)] }

def Pool.finish (s : Pool) (i counted : ℕ) (picked : Option Package) : Pool :=
  { s with
    rows := match picked with
      | some p => deletedPackage s.rows counted p
      | none => s.rows
    loads := s.loads.set i (.finished counted picked) }

inductive Event where
  | store (lastResort : List Bool)
  | begin
  | finish (load : ℕ)
  deriving DecidableEq, Repr

/-- The interleavings of stores and of the two halves of every load. -/
inductive Step : Pool → Event → Pool → Prop
  | store (s : Pool) (lastResort : List Bool) :
      Step s (.store lastResort)
        { s with rows := s.rows ++ storeMultipleForUsername s.nextId lastResort,
                 nextId := s.nextId + lastResort.length }
  | begin (s : Pool) : Step s .begin s.begin
  | finish {s : Pool} {i counted : ℕ} {picked : Option Package} :
      s.loads[i]? = some (.running counted picked) → Step s (.finish i) (s.finish i counted picked)

/-- The steps of runs in which loads do not overlap: a load begins only when none is running. -/
def SerialStep (s : Pool) (e : Event) (t : Pool) : Prop :=
  Step s e t ∧ (e = .begin → ∀ ph ∈ s.loads, ph.isRunning = false)

/-! ## The statement's parts -/

section Statement

variable {rows : List Package} {locked : List ℕ} {p : Package} {counted : ℕ}

theorem map_id_storeMultipleForUsername (nextId : ℕ) (lastResort : List Bool) :
    (storeMultipleForUsername nextId lastResort).map Package.id =
      List.range' nextId lastResort.length := by
  rw [storeMultipleForUsername, List.map_map, ← List.zipIdx_map_snd nextId lastResort]
  rfl

theorem storeMultipleForUsername_eq_nil_iff (nextId : ℕ) (lastResort : List Bool) :
    storeMultipleForUsername nextId lastResort = [] ↔ lastResort = [] := by
  simp [storeMultipleForUsername]

@[simp] theorem mem_byLastResort : p ∈ byLastResort rows ↔ p ∈ rows := by
  cases h : p.isLastResort <;> simp [byLastResort, h]

theorem nextConnectionPackage_spec (h : nextConnectionPackage rows locked = some p) :
    p ∈ rows ∧ p.id ∉ locked := by
  refine ⟨mem_byLastResort.mp (List.mem_of_find?_eq_some h), ?_⟩
  simpa using List.find?_some h

theorem nextConnectionPackage_nil_eq_none : nextConnectionPackage rows [] = none ↔ rows = [] := by
  rw [nextConnectionPackage, List.find?_eq_none]
  simp [List.eq_nil_iff_forall_not_mem]

theorem deletedPackage_sublist : (deletedPackage rows counted p).Sublist rows := by
  unfold deletedPackage
  split_ifs
  · exact List.filter_sublist
  · exact List.Sublist.refl rows

theorem length_filter_id_ne (hnd : (rows.map Package.id).Nodup) (hp : p ∈ rows) :
    (rows.filter (·.id ≠ p.id)).length = rows.length - 1 := by
  have hfilter : rows.filter (·.id ≠ p.id) = rows.filter (· != p) := by
    apply List.filter_congr
    intro q hq
    by_cases hqp : q = p
    · simp [hqp]
    · have hid : q.id ≠ p.id := fun h => hqp (List.inj_on_of_nodup_map hnd hq hp h)
      simp [hqp, hid]
  rw [hfilter, ← (hnd.of_map _).erase_eq_filter, List.length_erase_of_mem hp]

theorem deletedPackage_ne_nil (hnd : (rows.map Package.id).Nodup) (hp : p ∈ rows)
    (hc : counted ≤ rows.length) : deletedPackage rows counted p ≠ [] := by
  have hne : rows ≠ [] := List.ne_nil_of_mem hp
  unfold deletedPackage
  split_ifs with hdel
  · rw [← List.length_pos_iff_ne_nil, length_filter_id_ne hnd hp]
    omega
  · exact hne

end Statement

/-! ## Loads in the list -/

section Loads

variable {α : Type*} {l : List α} {x y : α} {i j : ℕ}

theorem getElem?_concat_eq_some (h : (l ++ [x])[j]? = some y) :
    l[j]? = some y ∨ (j = l.length ∧ y = x) := by
  rw [List.getElem?_append] at h
  split_ifs at h with hj
  · exact .inl h
  · rw [List.getElem?_singleton] at h
    split_ifs at h with hj'
    · exact .inr ⟨by omega, (Option.some.inj h).symm⟩

theorem getElem?_set_eq_some (h : (l.set i x)[j]? = some y) :
    (i = j ∧ y = x) ∨ (i ≠ j ∧ l[j]? = some y) := by
  rw [List.getElem?_set] at h
  split_ifs at h with hij
  · exact .inl ⟨hij, (Option.some.inj h).symm⟩
  · exact .inr ⟨hij, h⟩

end Loads

theorem lockedIds_eq_nil {s : Pool} (h : ∀ ph ∈ s.loads, ph.isRunning = false) :
    s.lockedIds = [] := by
  simp only [Pool.lockedIds, List.filterMap_eq_nil_iff]
  intro ph hph
  have := h ph hph
  cases ph with
  | running => cases this
  | finished => rfl

/-! ## Identities are fresh over every interleaving -/

structure Fresh (s : Pool) : Prop where
  nodup : (s.rows.map Package.id).Nodup
  lt : ∀ p ∈ s.rows, p.id < s.nextId

theorem fresh_init : Fresh init := ⟨List.nodup_nil, by simp [init]⟩

theorem Fresh.sublist {s t : Pool} (h : Fresh s) (hrows : t.rows.Sublist s.rows)
    (hnext : t.nextId = s.nextId) : Fresh t where
  nodup := h.nodup.sublist (hrows.map _)
  lt p hp := hnext ▸ h.lt p (hrows.subset hp)

theorem Fresh.finish {s : Pool} (h : Fresh s) (i counted : ℕ) (picked : Option Package) :
    Fresh (s.finish i counted picked) := by
  refine h.sublist ?_ rfl
  cases picked with
  | none => exact List.Sublist.refl _
  | some p => exact deletedPackage_sublist

theorem Fresh.step {s t : Pool} {e : Event} (h : Fresh s) (hs : Step s e t) : Fresh t := by
  cases hs with
  | store lastResort =>
    constructor <;> dsimp only
    · rw [List.map_append, List.nodup_append, map_id_storeMultipleForUsername]
      refine ⟨h.nodup, List.nodup_range', ?_⟩
      intro a ha b hb
      obtain ⟨p, hp, rfl⟩ := List.mem_map.mp ha
      have := h.lt p hp
      rw [List.mem_range'_1] at hb
      omega
    · intro p hp
      rcases List.mem_append.mp hp with hp | hp
      · have := h.lt p hp
        omega
      · have hid : p.id ∈ List.range' s.nextId lastResort.length := by
          rw [← map_id_storeMultipleForUsername]
          exact List.mem_map_of_mem hp
        rw [List.mem_range'_1] at hid
        omega
  | begin => exact ⟨h.nodup, h.lt⟩
  | finish _ => exact h.finish _ _ _

/-! ## Loads that do not overlap -/

/-- What loads that do not overlap keep: at most one load runs, the row it holds is still there
and it counted no more rows than there are, a load that found no row counted none, and once a
package was stored the pool is not empty. -/
structure Serial (s : Pool) : Prop where
  fresh : Fresh s
  stored : 0 < s.nextId → s.rows ≠ []
  lone : ∀ (i j : ℕ) (ph ph' : Phase), s.loads[i]? = some ph → s.loads[j]? = some ph' →
    ph.isRunning = true → ph'.isRunning = true → i = j
  picked : ∀ (i c : ℕ) q, s.loads[i]? = some (.running c (some q)) → q ∈ s.rows ∧ c ≤ s.rows.length
  running_none : ∀ i c : ℕ, s.loads[i]? = some (.running c none) → c = 0
  finished_none : ∀ i c : ℕ, s.loads[i]? = some (.finished c none) → c = 0

theorem serial_init : Serial init where
  fresh := fresh_init
  stored h := absurd h (by simp [init])
  lone := by simp [init]
  picked := by simp [init]
  running_none := by simp [init]
  finished_none := by simp [init]

theorem Serial.store {s : Pool} (h : Serial s) (lastResort : List Bool) :
    Serial { s with rows := s.rows ++ storeMultipleForUsername s.nextId lastResort,
                    nextId := s.nextId + lastResort.length } where
  fresh := h.fresh.step (.store s lastResort)
  stored hpos := by
    by_cases hnil : lastResort = []
    · subst hnil
      have hrows := h.stored (by simpa using hpos)
      simp [storeMultipleForUsername, hrows]
    · simp [storeMultipleForUsername_eq_nil_iff, hnil]
  lone := h.lone
  picked i c q hi := by
    obtain ⟨hq, hc⟩ := h.picked i c q hi
    exact ⟨List.mem_append_left _ hq, by simp only [List.length_append]; omega⟩
  running_none := h.running_none
  finished_none := h.finished_none

theorem Serial.begin {s : Pool} (h : Serial s) (hidle : ∀ ph ∈ s.loads, ph.isRunning = false) :
    Serial s.begin := by
  have hlocked := lockedIds_eq_nil hidle
  have hold : ∀ (i : ℕ) (ph : Phase), s.loads[i]? = some ph → ph.isRunning = false := fun i ph hi =>
    hidle ph (List.mem_of_getElem? hi)
  constructor
  · exact h.fresh.step (.begin s)
  · exact h.stored
  · intro i j ph ph' hi hj hri hrj
    rcases getElem?_concat_eq_some hi with hi | ⟨rfl, -⟩
    · simp [hold i ph hi] at hri
    rcases getElem?_concat_eq_some hj with hj | ⟨rfl, -⟩
    · simp [hold j ph' hj] at hrj
    rfl
  · intro i c q hi
    rcases getElem?_concat_eq_some hi with hi | ⟨-, hq⟩
    · exact absurd (hold i _ hi) (by simp [Phase.isRunning])
    · simp only [Phase.running.injEq] at hq
      rw [hlocked] at hq
      exact ⟨(nextConnectionPackage_spec hq.2.symm).1, hq.1.le⟩
  · intro i c hi
    rcases getElem?_concat_eq_some hi with hi | ⟨-, hq⟩
    · exact absurd (hold i _ hi) (by simp [Phase.isRunning])
    · simp only [Phase.running.injEq] at hq
      rw [hlocked] at hq
      rw [hq.1, List.length_eq_zero_iff, ← nextConnectionPackage_nil_eq_none, hq.2]
  · intro i c hi
    rcases getElem?_concat_eq_some hi with hi | ⟨-, hq⟩
    · exact h.finished_none i c hi
    · cases hq

theorem Serial.finish {s : Pool} (h : Serial s) {i counted : ℕ} {picked : Option Package}
    (hi : s.loads[i]? = some (.running counted picked)) : Serial (s.finish i counted picked) := by
  have hnone : ∀ (j : ℕ) (ph : Phase), (s.loads.set i (.finished counted picked))[j]? = some ph →
      ph.isRunning = false := by
    intro j ph hj
    rcases getElem?_set_eq_some hj with ⟨-, rfl⟩ | ⟨hij, hj⟩
    · rfl
    · cases hph : ph.isRunning
      · rfl
      · exact absurd (h.lone i j _ ph hi hj rfl hph) hij
  constructor
  · exact h.fresh.finish i counted picked
  · intro hpos
    cases picked with
    | none => exact h.stored hpos
    | some p =>
      obtain ⟨hp, hc⟩ := h.picked i counted p hi
      exact deletedPackage_ne_nil h.fresh.nodup hp hc
  · intro j k ph ph' hj _ hrj _
    exact absurd (hnone j ph hj) (by simp [hrj])
  · intro j c q hj
    exact absurd (hnone j _ hj) (by simp [Phase.isRunning])
  · intro j c hj
    exact absurd (hnone j _ hj) (by simp [Phase.isRunning])
  · intro j c hj
    rcases getElem?_set_eq_some hj with ⟨rfl, hq⟩ | ⟨-, hj⟩
    · simp only [Phase.finished.injEq] at hq
      obtain ⟨rfl, rfl⟩ := hq
      exact h.running_none _ _ hi
    · exact h.finished_none j c hj

theorem Serial.step {s t : Pool} {e : Event} (h : Serial s) (hs : SerialStep s e t) : Serial t := by
  obtain ⟨hs, hidle⟩ := hs
  cases hs with
  | store lastResort => exact h.store lastResort
  | begin => exact h.begin (hidle rfl)
  | finish hi => exact h.finish hi

/-- Over every run in which loads do not overlap, a pool that was ever given a package is never
empty, and a load fails with `RowNotFound` only when it counted no package. -/
theorem serial_loads_keep_a_package {tr : List Event} {s : Pool}
    (h : Lts.Run SerialStep init tr s) :
    (0 < s.nextId → s.rows ≠ []) ∧ ∀ i c : ℕ, s.loads[i]? = some (.finished c none) → c = 0 := by
  have hs : Serial s := h.invariant serial_init fun _ _ _ hi hst => hi.step hst
  exact ⟨hs.stored, hs.finished_none⟩

theorem serial_loads_keep_a_package_afterLoad :
    ∃ s, Lts.Run SerialStep init [.store [false, true], .begin, .finish 0] s ∧
      ((0 < s.nextId → s.rows ≠ []) ∧ ∀ i c : ℕ, s.loads[i]? = some (.finished c none) → c = 0) := by
  have r₁ : Lts.Run SerialStep init [.store [false, true]] _ :=
    Lts.Run.single ⟨Step.store init [false, true], by simp⟩
  have r₂ := r₁.snoc ⟨Step.begin _, fun _ ph hph => by simp [init] at hph⟩
  have r₃ := r₂.snoc ⟨Step.finish (i := 0) rfl, by simp⟩
  exact ⟨_, r₃, serial_loads_keep_a_package r₃⟩

/-! ## Overlapping loads -/

/-- Two loads that overlap over a pool of two packages that are not last resorts both count two
rows and both delete: a pool that was given packages is left empty. -/
theorem overlapping_loads_empty_pool :
    ∃ tr s, Lts.Run Step init tr s ∧ 0 < s.nextId ∧ s.rows = [] := by
  have r₁ := Lts.Run.single (Step.store init [false, false])
  have r₂ := (r₁.snoc (Step.begin _)).snoc (Step.begin _)
  have r₃ := r₂.snoc (Step.finish (i := 0) rfl)
  have r₄ := r₃.snoc (Step.finish (i := 1) rfl)
  exact ⟨_, _, r₄, by decide, by decide⟩

/-- A load that overlaps another over a pool that holds only its last resort package skips the
locked row and fails with `RowNotFound`, though it counted a package. -/
theorem overlapping_load_misses_last_resort :
    ∃ tr s, Lts.Run Step init tr s ∧ s.rows ≠ [] ∧
      ∃ i c : ℕ, s.loads[i]? = some (.finished c none) ∧ 0 < c := by
  have r₁ := Lts.Run.single (Step.store init [true])
  have r₂ := (r₁.snoc (Step.begin _)).snoc (Step.begin _)
  have r₃ := r₂.snoc (Step.finish (i := 1) rfl)
  exact ⟨_, _, r₃, by decide, 1, 1, by decide, by decide⟩

end Air.ConnectionPackages
