import Mathlib.Data.List.Sort
import Air.Common.Ratchet

/-! # The QS queue of one client

The server side of `backend/src/qs`: the client record's queue ratchet, the rows of
`qs_queues` for one queue, `QsClientRecord::do_enqueue`, which encrypts a payload
with the record's ratchet and inserts the message, and the listen stream
(`QueueStreamContext`), which fetches the rows at or after its cursor in ascending
order and hands them out one at a time, with an empty sentinel when the queue is
drained.

The rows are kept in insertion order; `fetch_into` sorts what it selects, as its
`ORDER BY` does. The message bytes are the prost encoding of the `QueueMessage`,
which decoding inverts, so a row holds the message itself.
-/

namespace Air

variable {S K P C : Type*}

def maxBufferSize : ℕ := 32

abbrev QueueRows (C : Type*) := List (QueueMessage C)

namespace Queue

/-- `Queue::enqueue`: an `INSERT`; the primary key `(queue_id, sequence_number)` rejects a
second row with the same sequence number. -/
def enqueue (rows : QueueRows C) (m : QueueMessage C) : Option (QueueRows C) :=
  if rows.any (·.sequenceNumber = m.sequenceNumber) then none else some (rows ++ [m])

/-- `Queue::fetch_into`: `WHERE sequence_number >= $2 ORDER BY sequence_number ASC LIMIT $3`. -/
def fetchInto (rows : QueueRows C) (sequenceNumber limit : ℕ) : List (QueueMessage C) :=
  ((rows.filter (sequenceNumber ≤ ·.sequenceNumber)).mergeSort
    (fun a b => a.sequenceNumber ≤ b.sequenceNumber)).take limit

/-- `Queue::delete`, called by `Queues::ack`: `DELETE ... WHERE sequence_number < $2`. -/
def delete (rows : QueueRows C) (upToSequenceNumber : ℕ) : QueueRows C :=
  rows.filter (upToSequenceNumber ≤ ·.sequenceNumber)

variable {rows rows' : QueueRows C} {m : QueueMessage C}

theorem enqueue_eq_some (h : enqueue rows m = some rows') :
    rows' = rows ++ [m] ∧ ∀ x ∈ rows, x.sequenceNumber ≠ m.sequenceNumber := by
  unfold enqueue at h
  split_ifs at h with hdup
  cases h
  simp only [List.any_eq_true, decide_eq_true_eq, not_exists, not_and] at hdup
  exact ⟨rfl, hdup⟩

theorem mem_of_mem_fetchInto {n limit : ℕ} (h : m ∈ fetchInto rows n limit) : m ∈ rows := by
  unfold fetchInto at h
  have := List.mem_of_mem_take h
  rw [List.mem_mergeSort, List.mem_filter] at this
  exact this.1

theorem range'_filter_le (lo k c : ℕ) :
    (List.range' lo k).filter (fun x => decide (c ≤ x)) =
      List.range' (max c lo) (lo + k - max c lo) := by
  induction k generalizing lo with
  | zero => simp
  | succ k ih =>
    rw [List.range'_succ, List.filter_cons]
    by_cases hc : c ≤ lo
    · rw [if_pos (by simpa using hc), ih, max_eq_right hc, max_eq_right (by omega : c ≤ lo + 1),
        show lo + 1 + k - (lo + 1) = k by omega, show lo + (k + 1) - lo = k + 1 by omega]
      rfl
    · rw [if_neg (by simpa using hc), ih]
      congr 1 <;> omega

theorem map_filter_le (c : ℕ) :
    (rows.filter (c ≤ ·.sequenceNumber)).map (·.sequenceNumber) =
      (rows.map (·.sequenceNumber)).filter (fun x => decide (c ≤ x)) := by
  rw [List.filter_map]
  rfl

theorem fetchInto_of_pairwise {c limit : ℕ}
    (h : (rows.map (·.sequenceNumber)).Pairwise (· ≤ ·)) :
    fetchInto rows c limit = (rows.filter (c ≤ ·.sequenceNumber)).take limit := by
  rw [List.pairwise_map] at h
  unfold fetchInto
  rw [List.mergeSort_of_pairwise ((h.filter _).imp (by simp))]

/-- Over a queue whose sequence numbers run from `lo` to `n`, a fetch from `c` reads the
numbers from `max c lo` on, at most `limit` of them. -/
theorem fetchInto_map {lo n : ℕ} (c limit : ℕ)
    (hrows : rows.map (·.sequenceNumber) = List.range' lo (n - lo)) :
    (fetchInto rows c limit).map (·.sequenceNumber) =
      List.range' (max c lo) (min limit (n - max c lo)) := by
  have hsorted : (rows.map (·.sequenceNumber)).Pairwise (· ≤ ·) :=
    hrows ▸ List.pairwise_le_range'
  rw [fetchInto_of_pairwise hsorted, List.map_take, map_filter_le, hrows, range'_filter_le]
  by_cases hk : limit ≤ lo + (n - lo) - max c lo
  · rw [List.take_range'_of_length_ge hk]
    congr 1
    omega
  · rw [List.take_range'_of_length_le (by omega)]
    congr 1
    omega

theorem mem_delete {upTo : ℕ} : m ∈ delete rows upTo ↔ m ∈ rows ∧ upTo ≤ m.sequenceNumber := by
  simp [delete]

theorem delete_map {lo n upTo : ℕ}
    (hrows : rows.map (·.sequenceNumber) = List.range' lo (n - lo)) :
    (delete rows upTo).map (·.sequenceNumber) = List.range' (max upTo lo) (n - max upTo lo) := by
  unfold delete
  rw [map_filter_le, hrows, range'_filter_le]
  congr 1
  omega

end Queue

inductive EnqueueError where
  | libraryError
  | storage
  | clientNotFound
  deriving DecidableEq, Repr

structure QsClientRecord (S K : Type*) where
  ratchetKey : QueueRatchet S K

section Enqueue

variable (prim : RatchetPrimitives S K P C)

/-- `QsClientRecord::do_enqueue`, from the record `load_for_update` returned to what the
transaction commits: the advanced record and the rows with the new message. An error
rolls the transaction back. -/
def QsClientRecord.doEnqueue (record : Option (QsClientRecord S K)) (rows : QueueRows C)
    (payload : P) : Except EnqueueError (QsClientRecord S K × QueueRows C) :=
  match record with
  | none => .error .clientNotFound
  | some clientRecord =>
    match clientRecord.ratchetKey.encrypt prim payload with
    | none => .error .libraryError
    | some (queueMessage, ratchetKey) =>
      match Queue.enqueue rows queueMessage with
      | none => .error .storage
      | some rows => .ok (⟨ratchetKey⟩, rows)

variable {prim}

theorem QsClientRecord.doEnqueue_eq_ok {record record' : QsClientRecord S K}
    {rows rows' : QueueRows C} {payload : P}
    (h : QsClientRecord.doEnqueue prim (some record) rows payload = .ok (record', rows')) :
    ∃ c, prim.encrypt record.ratchetKey.key payload = some c ∧
      record' = ⟨record.ratchetKey.ratchetForward prim⟩ ∧
      rows' = rows ++ [⟨record.ratchetKey.sequenceNumber, c⟩] := by
  simp only [QsClientRecord.doEnqueue] at h
  split at h
  · cases h
  · rename_i m r' he
    split at h
    · cases h
    · rename_i rows'' hq
      cases h
      obtain ⟨hc, hseq, rfl⟩ := QueueRatchet.encrypt_eq_some he
      obtain ⟨rfl, -⟩ := Queue.enqueue_eq_some hq
      rw [← hseq]
      exact ⟨m.ciphertext, hc, rfl, rfl⟩

end Enqueue

inductive FetchState where
  | init
  | fetch
  | wait
  deriving DecidableEq, Repr

/-- `QueueStreamContext`, with the fields the stream loop reads: the cursor, the buffer
of fetched messages, the fetch state and whether the listener was cancelled. -/
structure QueueStreamContext (C : Type*) where
  sequenceNumber : ℕ
  buffer : List (QueueMessage C)
  state : FetchState
  cancelled : Bool

namespace QueueStreamContext

def new (sequenceNumberStart : ℕ) : QueueStreamContext C :=
  ⟨sequenceNumberStart, [], .init, false⟩

def fetchNextMessages (ctx : QueueStreamContext C) (rows : QueueRows C) : QueueStreamContext C :=
  let buffer := ctx.buffer ++ Queue.fetchInto rows ctx.sequenceNumber maxBufferSize
  match buffer.getLast? with
  | some m => { ctx with buffer := buffer, sequenceNumber := m.sequenceNumber + 1 }
  | none => { ctx with buffer := buffer }

inductive Poll (C : Type*) where
  /-- `return Some((item, context))`: a message, or `None` as the empty sentinel. -/
  | yield (item : Option (QueueMessage C)) (ctx : QueueStreamContext C)
  /-- `return None`: the stream ends. -/
  | stop
  /-- The loop goes round again. -/
  | next (ctx : QueueStreamContext C)

/-- One pass of the loop in `QueueStreamContext::into_stream`. In the `Wait` state the
pass is the arrival of a notification; a failed fetch or a cancelled wait ends the
stream, like a disconnect. -/
def poll (ctx : QueueStreamContext C) (rows : QueueRows C) : Poll C :=
  match ctx.buffer with
  | m :: rest => .yield (some m) { ctx with buffer := rest }
  | [] =>
    if ctx.cancelled = true ∧ ctx.state ≠ .init then .stop
    else
      match ctx.state with
      | .init => .next { ctx with state := .fetch }
      | .fetch =>
        let ctx' := ctx.fetchNextMessages rows
        if ctx'.buffer.isEmpty then .yield none { ctx' with state := .wait } else .next ctx'
      | .wait => .next { ctx with state := .fetch }

variable {ctx : QueueStreamContext C} {rows : QueueRows C}

theorem poll_cases (ctx : QueueStreamContext C) (rows : QueueRows C) :
    (∃ m rest, ctx.buffer = m :: rest ∧
      ctx.poll rows = .yield (some m) { ctx with buffer := rest }) ∨
    (ctx.buffer = [] ∧ (ctx.poll rows = .stop ∨
      ∃ st, ctx.poll rows = .next { ctx with state := st })) ∨
    (ctx.buffer = [] ∧ Queue.fetchInto rows ctx.sequenceNumber maxBufferSize = [] ∧
      ctx.poll rows = .yield none { ctx with state := .wait }) ∨
    (ctx.buffer = [] ∧ ∃ m, (Queue.fetchInto rows ctx.sequenceNumber maxBufferSize).getLast? = some m ∧
      ctx.poll rows = .next { ctx with buffer := Queue.fetchInto rows ctx.sequenceNumber maxBufferSize,
                                       sequenceNumber := m.sequenceNumber + 1 }) := by
  obtain ⟨seq, buffer, state, cancelled⟩ := ctx
  cases buffer with
  | cons m rest => exact .inl ⟨m, rest, rfl, rfl⟩
  | nil =>
    cases state <;> cases cancelled
    · exact .inr (.inl ⟨rfl, .inr ⟨.fetch, rfl⟩⟩)
    · exact .inr (.inl ⟨rfl, .inr ⟨.fetch, rfl⟩⟩)
    · rcases hl : (Queue.fetchInto rows seq maxBufferSize).getLast? with _ | m
      · have hf := List.getLast?_eq_none_iff.mp hl
        exact .inr (.inr (.inl ⟨rfl, hf, by simp [poll, fetchNextMessages, hf]⟩))
      · have hne : Queue.fetchInto rows seq maxBufferSize ≠ [] := by
          intro h
          simp [h] at hl
        exact .inr (.inr (.inr ⟨rfl, m, rfl, by simp [poll, fetchNextMessages, hl, hne]⟩))
    · exact .inr (.inl ⟨rfl, .inl rfl⟩)
    · exact .inr (.inl ⟨rfl, .inr ⟨.fetch, rfl⟩⟩)
    · exact .inr (.inl ⟨rfl, .inl rfl⟩)

end QueueStreamContext

end Air
