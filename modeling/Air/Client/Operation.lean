import Air.Common.Padded

/-! # Persisted operations and their retry counter

`coreclient/src/job/operation.rs`: an `Operation` is a row of the `operation` table, keyed
by its id. `enqueue` upserts it, `enqueue_if_not_exists` inserts it only if the id is new,
`dequeue` selects the earliest due row of its kind not locked by the calling task, locks it
and decodes it, and `reschedule` moves it and counts one more retry. `execute_timed_tasks`
dequeues and reschedules due timed tasks until none is left, and stops at the first error.

The retry counter is a `usize` in memory, is written to the `INTEGER` column through `i64`,
and is read back in `dequeue` into a `u16` field, which sqlx refuses to decode outside
`0 ≤ v < 2 ^ 16`. A dequeue that fails rolls its transaction back. Times are microseconds,
task ids are their UUID as a number, and the payload codec is `PersistenceCodec`.
-/

namespace Air

inductive OperationKind where
  | fetchUserProfile
  | timedTask
  | fetchGroupProfile
  deriving DecidableEq, Repr

structure OperationRow where
  operationId : List UInt8
  kind : OperationKind
  data : List UInt8
  createdAt : ℕ
  scheduledAt : ℕ
  retries : ℤ
  lockedBy : ℕ
  deriving DecidableEq, Repr

def nilLockedBy : ℕ := 0

structure Operation (α : Type) where
  operationId : List UInt8
  data : α
  createdAt : ℕ
  scheduledAt : ℕ
  retries : ℕ

inductive SqlxError where
  | encode
  | columnDecode
  deriving DecidableEq, Repr

def usizeAsI64 (n : ℕ) : ℤ := if n < 2 ^ 63 then n else (n : ℤ) - 2 ^ 64

/-- sqlx decoding an SQLite `INTEGER` into a `u16`. -/
def decodeU16 (v : ℤ) : Option ℕ := if 0 ≤ v ∧ v < 2 ^ 16 then some v.toNat else none

/-- The earliest of the rows by `ORDER BY scheduled_at ASC, created_at ASC`, the first of
equal ones. -/
def earliest : List OperationRow → Option OperationRow
  | [] => none
  | r :: rs =>
    match earliest rs with
    | none => some r
    | some b =>
      if b.scheduledAt < r.scheduledAt ∨ (b.scheduledAt = r.scheduledAt ∧ b.createdAt < r.createdAt)
      then some b else some r

def updateRow (operationId : List UInt8) (f : OperationRow → OperationRow) (table : List OperationRow) :
    List OperationRow :=
  table.map fun r => if r.operationId = operationId then f r else r

section Queue

variable {α : Type} (kind : OperationKind) (codec : PersistenceCodec α)

def Operation.toRow (op : Operation α) (data : List UInt8) : OperationRow :=
  ⟨op.operationId, kind, data, op.createdAt, op.scheduledAt, usizeAsI64 op.retries, nilLockedBy⟩

/-- `Operation::enqueue`: `INSERT ... ON CONFLICT (operation_id) DO UPDATE`, which keeps the
row's `locked_by`. -/
def Operation.enqueue (op : Operation α) (table : List OperationRow) :
    Except SqlxError (List OperationRow) := do
  let data ← (codec.toVec op.data).getDM (throw .encode)
  let row := op.toRow kind data
  if table.any (·.operationId = op.operationId) then
    pure (updateRow op.operationId (fun r => { row with lockedBy := r.lockedBy }) table)
  else pure (table ++ [row])

def Operation.enqueueIfNotExists (op : Operation α) (table : List OperationRow) :
    Except SqlxError (List OperationRow) := do
  let data ← (codec.toVec op.data).getDM (throw .encode)
  if table.any (·.operationId = op.operationId) then pure table
  else pure (table ++ [op.toRow kind data])

/-- `Operation::dequeue`. A row whose data does not decode is deleted. -/
def Operation.dequeue (taskId now : ℕ) (table : List OperationRow) :
    Except SqlxError (Option (Operation α) × List OperationRow) :=
  -- WHERE kind = ?1 AND scheduled_at <= ?2 AND locked_by != ?3
  match earliest (table.filter fun r => r.kind = kind ∧ r.scheduledAt ≤ now ∧ r.lockedBy ≠ taskId) with
  | none => .ok (none, table)
  | some row =>
    let locked := updateRow row.operationId (fun r => { r with lockedBy := taskId }) table
    -- RETURNING ... retries AS "retries: _" into SqlOperationData.retries : u16
    match decodeU16 row.retries with
    | none => .error .columnDecode
    | some retries =>
      match codec.fromSlice row.data with
      | none => .ok (none, locked.filter (·.operationId ≠ row.operationId))
      | some data => .ok (some ⟨row.operationId, data, row.createdAt, row.scheduledAt, retries⟩, locked)

def Operation.reschedule (op : Operation α) (scheduleAt : ℕ) (table : List OperationRow) :
    Operation α × List OperationRow :=
  let op := { op with scheduledAt := scheduleAt, retries := op.retries + 1 }
  (op, updateRow op.operationId
    (fun r => { r with scheduledAt := scheduleAt, retries := usizeAsI64 op.retries }) table)

/-- `OutboundServiceContext::execute_timed_tasks` after `ensure_timed_tasks_exist`: the task
ids it ran, in order, or the error it stopped at. Each pass of the loop reads the clock twice,
for the dequeue and for the reschedule `interval data` later; `clock` holds those readings, and
its end is the cancellation of `run_token` at the top of the loop. -/
def executeTimedTasks (interval : α → ℕ) (taskId : ℕ) :
    List (ℕ × ℕ) → List OperationRow → Except SqlxError (List (List UInt8) × List OperationRow)
  | [], table => .ok ([], table)
  | (now, later) :: clock, table =>
    match Operation.dequeue kind codec taskId now table with
    | .error e => .error e
    | .ok (none, table) => .ok ([], table)
    | .ok (some op, table) =>
      match executeTimedTasks interval taskId clock
          (op.reschedule (later + interval op.data) table).2 with
      | .error e => .error e
      | .ok (ran, table) => .ok (op.operationId :: ran, table)

end Queue

/-! ## One operation through its cycles -/

section Cycles

variable {α : Type} {kind : OperationKind} {codec : PersistenceCodec α}

def storedRow (op : Operation α) (kind : OperationKind) (data : List UInt8) (retries scheduledAt lockedBy : ℕ) :
    OperationRow :=
  ⟨op.operationId, kind, data, op.createdAt, scheduledAt, usizeAsI64 retries, lockedBy⟩

/-- Dequeue-and-reschedule cycles of one operation that each find it due and not locked by
the dequeuing task: a cycle `(taskId, now, scheduleAt)` follows a row scheduled at `s` and
locked by `l` when `s ≤ now` and `taskId ≠ l`. -/
inductive Cycles : ℕ → ℕ → List (ℕ × ℕ × ℕ) → Prop
  | nil {s l : ℕ} : Cycles s l []
  | cons {s l taskId now scheduleAt : ℕ} {rest : List (ℕ × ℕ × ℕ)} :
      s ≤ now → taskId ≠ l → Cycles scheduleAt taskId rest → Cycles s l ((taskId, now, scheduleAt) :: rest)

def cycle (kind : OperationKind) (codec : PersistenceCodec α) (c : ℕ × ℕ × ℕ)
    (table : List OperationRow) : Except SqlxError (List OperationRow) :=
  match Operation.dequeue kind codec c.1 c.2.1 table with
  | .error e => .error e
  | .ok (none, table) => .ok table
  | .ok (some op, table) => .ok (op.reschedule c.2.2 table).2

def runCycles (kind : OperationKind) (codec : PersistenceCodec α) :
    List (ℕ × ℕ × ℕ) → List OperationRow → Except SqlxError (List OperationRow)
  | [], table => .ok table
  | c :: cs, table => (cycle kind codec c table).bind (runCycles kind codec cs)

theorem usizeAsI64_of_lt {n : ℕ} (h : n < 2 ^ 63) : usizeAsI64 n = n := by
  unfold usizeAsI64
  rw [if_pos h]

theorem decodeU16_usizeAsI64 {n : ℕ} (h : n < 2 ^ 63) :
    decodeU16 (usizeAsI64 n) = if n < 2 ^ 16 then some n else none := by
  rw [usizeAsI64_of_lt h]
  unfold decodeU16
  by_cases hn : n < 2 ^ 16
  · rw [if_pos ⟨Int.natCast_nonneg n, by exact_mod_cast hn⟩, if_pos hn, Int.toNat_natCast]
  · rw [if_neg (fun h' => hn (by exact_mod_cast h'.2)), if_neg hn]

theorem earliest_singleton (r : OperationRow) : earliest [r] = some r := rfl

theorem enqueue_nil {op : Operation α} {data : List UInt8} (hdata : codec.toVec op.data = some data) :
    op.enqueue kind codec [] = .ok [op.toRow kind data] := by
  simp [Operation.enqueue, hdata, pure, Except.pure, bind, Except.bind, Option.getDM]

theorem enqueueIfNotExists_nil {op : Operation α} {data : List UInt8}
    (hdata : codec.toVec op.data = some data) :
    op.enqueueIfNotExists kind codec [] = .ok [op.toRow kind data] := by
  simp [Operation.enqueueIfNotExists, hdata, pure, Except.pure, bind, Except.bind, Option.getDM]

variable (op : Operation α) {data : List UInt8}

theorem toRow_eq_storedRow : op.toRow kind data = storedRow op kind data op.retries op.scheduledAt nilLockedBy := rfl

theorem dequeue_storedRow (hinv : codec.Inverts) (hdata : codec.toVec op.data = some data)
    {n s l taskId now : ℕ} (hn : n < 2 ^ 63) (hs : s ≤ now) (hl : taskId ≠ l) :
    Operation.dequeue kind codec taskId now [storedRow op kind data n s l] =
      if n < 2 ^ 16 then
        .ok (some ⟨op.operationId, op.data, op.createdAt, s, n⟩, [storedRow op kind data n s taskId])
      else .error .columnDecode := by
  have hsel : ([storedRow op kind data n s l].filter fun r =>
      r.kind = kind ∧ r.scheduledAt ≤ now ∧ r.lockedBy ≠ taskId) = [storedRow op kind data n s l] := by
    simp [storedRow, hs, Ne.symm hl]
  simp only [Operation.dequeue, hsel, earliest_singleton]
  rw [show (storedRow op kind data n s l).retries = usizeAsI64 n from rfl, decodeU16_usizeAsI64 hn]
  by_cases hsmall : n < 2 ^ 16
  · simp only [if_pos hsmall, show (storedRow op kind data n s l).data = data from rfl,
      hinv _ _ hdata]
    simp [updateRow, storedRow]
  · simp only [if_neg hsmall]

theorem reschedule_storedRow {n s taskId scheduleAt : ℕ} :
    ((⟨op.operationId, op.data, op.createdAt, s, n⟩ : Operation α).reschedule scheduleAt
      [storedRow op kind data n s taskId]).2 = [storedRow op kind data (n + 1) scheduleAt taskId] := by
  simp [Operation.reschedule, updateRow, storedRow]

theorem cycle_storedRow (hinv : codec.Inverts) (hdata : codec.toVec op.data = some data)
    {n s l taskId now scheduleAt : ℕ} (hn : n < 2 ^ 16) (hs : s ≤ now) (hl : taskId ≠ l) :
    cycle kind codec (taskId, now, scheduleAt) [storedRow op kind data n s l] =
      .ok [storedRow op kind data (n + 1) scheduleAt taskId] := by
  have hn63 : n < 2 ^ 63 := Nat.lt_of_lt_of_le hn (Nat.pow_le_pow_right Nat.two_pos (by decide))
  simp only [cycle, dequeue_storedRow op hinv hdata hn63 hs hl, if_pos hn]
  rw [reschedule_storedRow]

def lastSchedule (s l : ℕ) : List (ℕ × ℕ × ℕ) → ℕ × ℕ
  | [] => (s, l)
  | (taskId, _, scheduleAt) :: rest => lastSchedule scheduleAt taskId rest

/-- After `k` admissible cycles from a stored counter `n`, with `n + k ≤ 2 ^ 16`, the row
holds `n + k`, the counter having fitted a `u16` at every dequeue on the way. -/
theorem runCycles_storedRow (hinv : codec.Inverts) (hdata : codec.toVec op.data = some data)
    {cycles : List (ℕ × ℕ × ℕ)} {n s l : ℕ} (hc : Cycles s l cycles)
    (hn : n + cycles.length ≤ 2 ^ 16) :
    runCycles kind codec cycles [storedRow op kind data n s l] =
      .ok [storedRow op kind data (n + cycles.length) (lastSchedule s l cycles).1
        (lastSchedule s l cycles).2] := by
  induction hc generalizing n with
  | nil => rfl
  | @cons s l taskId now scheduleAt rest hs hl _ ih =>
    have hlen : n < 2 ^ 16 := by simp only [List.length_cons] at hn; omega
    simp only [runCycles, cycle_storedRow op hinv hdata hlen hs hl, Except.bind, lastSchedule]
    rw [ih (by simp only [List.length_cons] at hn; omega)]
    simp only [List.length_cons, Nat.add_assoc, Nat.add_comm 1]

end Cycles

/-- After an operation is enqueued (by `enqueue` or `enqueue_if_not_exists`) and
rescheduled through `k` admissible cycles, the next admissible dequeue returns it with
`retries = k` while `k < 2 ^ 16`, and fails to decode the row once `k = 2 ^ 16`. -/
theorem dequeue_after_cycles {α : Type} (kind : OperationKind) (codec : PersistenceCodec α)
    (hinv : codec.Inverts) (op : Operation α) (data : List UInt8) (hdata : codec.toVec op.data = some data)
    (hop : op.retries = 0) (table₀ : List OperationRow)
    (henq : op.enqueue kind codec [] = .ok table₀ ∨ op.enqueueIfNotExists kind codec [] = .ok table₀)
    (cycles : List (ℕ × ℕ × ℕ)) (hc : Cycles op.scheduledAt nilLockedBy cycles)
    (hk : cycles.length ≤ 2 ^ 16) (taskId now : ℕ)
    (hnow : (lastSchedule op.scheduledAt nilLockedBy cycles).1 ≤ now)
    (htask : taskId ≠ (lastSchedule op.scheduledAt nilLockedBy cycles).2) :
    (runCycles kind codec cycles table₀).bind (Operation.dequeue kind codec taskId now) =
      if cycles.length < 2 ^ 16 then
        .ok (some ⟨op.operationId, op.data, op.createdAt,
            (lastSchedule op.scheduledAt nilLockedBy cycles).1, cycles.length⟩,
          [storedRow op kind data cycles.length (lastSchedule op.scheduledAt nilLockedBy cycles).1 taskId])
      else .error .columnDecode := by
  have h₀ : table₀ = [storedRow op kind data 0 op.scheduledAt nilLockedBy] := by
    rcases henq with h | h
    · rw [enqueue_nil hdata] at h
      cases h
      rw [toRow_eq_storedRow, hop]
    · rw [enqueueIfNotExists_nil hdata] at h
      cases h
      rw [toRow_eq_storedRow, hop]
  have hrun : runCycles kind codec cycles [storedRow op kind data 0 op.scheduledAt nilLockedBy] = _ :=
    runCycles_storedRow op hinv hdata (n := 0) hc (by omega)
  rw [h₀]
  simp only [Except.bind, hrun, Nat.zero_add]
  exact dequeue_storedRow op hinv hdata (by omega) hnow htask

/-- A run of `execute_timed_tasks` that finds the row due and not locked by its fresh task id:
while the counter fits a `u16` it runs the task once and reschedules it, then finds nothing
more; at `2 ^ 16` it stops at the first dequeue with the decode error, which rolls the
transaction back, so the row stays the earliest due one and every later run stops there too. -/
theorem executeTimedTasks_storedRow {α : Type} {kind : OperationKind} {codec : PersistenceCodec α}
    (hinv : codec.Inverts) (op : Operation α) {data : List UInt8}
    (hdata : codec.toVec op.data = some data) (interval : α → ℕ) {n s l taskId now later : ℕ}
    (hn : n ≤ 2 ^ 16) (hs : s ≤ now) (hl : taskId ≠ l) (clock : List (ℕ × ℕ)) :
    executeTimedTasks kind codec interval taskId ((now, later) :: clock)
        [storedRow op kind data n s l] =
      if n < 2 ^ 16 then
        .ok ([op.operationId], [storedRow op kind data (n + 1) (later + interval op.data) taskId])
      else .error .columnDecode := by
  have hn63 : n < 2 ^ 63 := Nat.lt_of_le_of_lt hn (Nat.pow_lt_pow_right (by decide) (by decide))
  unfold executeTimedTasks
  rw [dequeue_storedRow op hinv hdata hn63 hs hl]
  by_cases hsmall : n < 2 ^ 16
  · simp only [if_pos hsmall, reschedule_storedRow]
    cases clock with
    | nil => rfl
    | cons reading clock =>
      have hnone : Operation.dequeue kind codec taskId reading.1
          [storedRow op kind data (n + 1) (later + interval op.data) taskId] = .ok (none,
            [storedRow op kind data (n + 1) (later + interval op.data) taskId]) := by
        simp [Operation.dequeue, storedRow, earliest]
      simp only [executeTimedTasks, hnone]
  · simp only [if_neg hsmall]

def timedTaskOp : Operation Unit := ⟨[1], (), 0, 0, 0⟩

def unitCodec : PersistenceCodec Unit := ⟨fun _ => some [], fun _ => some ()⟩

theorem unitCodec_inverts : unitCodec.Inverts := by
  intro x bytes _
  rfl

def reschedules (a : ℕ) : ℕ → List (ℕ × ℕ × ℕ)
  | 0 => []
  | k + 1 => (a + 1, a, a + 1) :: reschedules (a + 1) k

theorem cycles_reschedules (a k : ℕ) : Cycles a a (reschedules a k) := by
  induction k generalizing a with
  | zero => exact .nil
  | succ k ih => exact .cons le_rfl (Nat.succ_ne_self a) (ih (a + 1))

theorem lastSchedule_reschedules (a k : ℕ) : lastSchedule a a (reschedules a k) = (a + k, a + k) := by
  induction k generalizing a with
  | zero => rfl
  | succ k ih =>
    simp only [reschedules, lastSchedule, ih]
    simp only [Nat.add_assoc, Nat.add_comm 1 k]

theorem length_reschedules (a k : ℕ) : (reschedules a k).length = k := by
  induction k generalizing a with
  | zero => rfl
  | succ k ih => simp [reschedules, ih]

/-- After `2 ^ 16` reschedules of an enqueued timed task, the next dequeue cannot decode the
row and returns an error. -/
theorem dequeue_rejects_retries :
    ((timedTaskOp.enqueue .timedTask unitCodec []).bind
        (runCycles .timedTask unitCodec (reschedules 0 (2 ^ 16)))).bind
      (Operation.dequeue .timedTask unitCodec (2 ^ 16 + 1) (2 ^ 16)) = .error .columnDecode := by
  have henq : timedTaskOp.enqueue .timedTask unitCodec [] = .ok [timedTaskOp.toRow .timedTask []] :=
    enqueue_nil rfl
  have hlast : lastSchedule timedTaskOp.scheduledAt nilLockedBy (reschedules 0 (2 ^ 16)) =
      (0 + 2 ^ 16, 0 + 2 ^ 16) := lastSchedule_reschedules 0 _
  rw [henq, Except.bind]
  rw [dequeue_after_cycles .timedTask unitCodec unitCodec_inverts timedTaskOp [] rfl rfl _ (.inl henq)
    _ (cycles_reschedules 0 _) (by rw [length_reschedules]) _ _ (by rw [hlast]; omega)
    (by rw [hlast]; omega), length_reschedules, if_neg (Nat.lt_irrefl _)]

/-- The timed task of `dequeue_rejects_retries` after its `2 ^ 16` cycles: the next run stops at
its dequeue. -/
theorem executeTimedTasks_storedRow_wrapped :
    unitCodec.Inverts ∧ unitCodec.toVec timedTaskOp.data = some [] ∧ 2 ^ 16 ≤ 2 ^ 16 ∧
      2 ^ 16 ≤ 2 ^ 16 ∧ (2 ^ 16 + 1 : ℕ) ≠ 2 ^ 16 ∧
      executeTimedTasks .timedTask unitCodec (fun _ => 60) (2 ^ 16 + 1)
          [(2 ^ 16, 2 ^ 16), (2 ^ 16 + 1, 2 ^ 16 + 1)]
          [storedRow timedTaskOp .timedTask [] (2 ^ 16) (2 ^ 16) (2 ^ 16)] =
        .error .columnDecode := by
  have h := @executeTimedTasks_storedRow Unit .timedTask unitCodec unitCodec_inverts timedTaskOp []
    rfl (fun _ => 60) (2 ^ 16) (2 ^ 16) (2 ^ 16) (2 ^ 16 + 1) (2 ^ 16) (2 ^ 16) (Nat.le_refl _)
    (Nat.le_refl _) (by decide) [(2 ^ 16 + 1, 2 ^ 16 + 1)]
  rw [if_neg (Nat.lt_irrefl _)] at h
  exact ⟨unitCodec_inverts, rfl, Nat.le_refl _, Nat.le_refl _, by decide, h⟩

end Air
