import Air.Qs.Queue
import Air.Lts.RowLock

/-! # Concurrent `do_enqueue` calls on one client

Each `QsClientRecord::do_enqueue` is one transaction: `load_for_update` reads the
client record with `FOR UPDATE`, the payload is encrypted with the record's queue
ratchet, `Queues::enqueue` inserts the message, `update_queue_ratchet` writes the
advanced ratchet back, and the transaction commits. Any error rolls it back, and the
ratchet advanced in memory is dropped with it.

The record's row lock is held from the read to the commit, so the calls on one client
are read-modify-write callers on the pair of the record and the queue's rows, in the
sense of `RowLock`. Under the lock every interleaving commits what the committed
calls commit one after another: the sequence numbers they insert run on from the
stored ratchet's without a gap or a repeat.
-/

namespace Air

variable {ι S K P C : Type*} (prim : RatchetPrimitives S K P C)

abbrev ClientQueue (S K C : Type*) := QsClientRecord S K × QueueRows C

/-- Caller `i`'s `do_enqueue` of `payload i` as a read-modify-write body: on success the
sequence number of the inserted message, and the record and rows it commits. -/
def enqueueBody (payload : ι → P) : ι → RowLock.Body (ClientQueue S K C) ℕ :=
  fun i st =>
    match QsClientRecord.doEnqueue prim (some st.1) st.2 (payload i) with
    | .ok (record, rows) => some (st.1.ratchetKey.sequenceNumber, fun _ => (record, rows))
    | .error _ => none

variable {prim}

theorem enqueueBody_eq_some {payload : ι → P} {i : ι} {st : ClientQueue S K C} {b : ℕ}
    {w : ClientQueue S K C → ClientQueue S K C} (h : enqueueBody prim payload i st = some (b, w)) :
    ∃ c, b = st.1.ratchetKey.sequenceNumber ∧
      w st = (⟨st.1.ratchetKey.ratchetForward prim⟩,
        st.2 ++ [⟨st.1.ratchetKey.sequenceNumber, c⟩]) := by
  unfold enqueueBody at h
  split at h
  · rename_i record rows hw
    cases h
    obtain ⟨c, -, rfl, rfl⟩ := QsClientRecord.doEnqueue_eq_ok hw
    exact ⟨c, rfl, rfl⟩
  · cases h

/-- Replaying `log` from `(record₀, rows₀)`: each committed call took the next sequence
number, appended one message with it and moved the ratchet one step. -/
theorem serial_enqueue {payload : ι → P} {record₀ : QsClientRecord S K} {rows₀ : QueueRows C}
    {log : List (ι × ℕ)} {st : ClientQueue S K C}
    (h : RowLock.Serial (enqueueBody prim payload) (record₀, rows₀) log st) :
    ∃ new : QueueRows C,
      st = (⟨(QueueRatchet.ratchetForward prim)^[log.length] record₀.ratchetKey⟩, rows₀ ++ new) ∧
      new.map (·.sequenceNumber) =
        List.range' record₀.ratchetKey.sequenceNumber log.length ∧
      log.map Prod.snd = List.range' record₀.ratchetKey.sequenceNumber log.length := by
  induction h with
  | nil => exact ⟨[], by simp, rfl, rfl⟩
  | @snoc log st i b w _ hb ih =>
    obtain ⟨new, rfl, hnew, hlog⟩ := ih
    obtain ⟨c, rfl, hw⟩ := enqueueBody_eq_some hb
    refine ⟨new ++ [⟨record₀.ratchetKey.sequenceNumber + log.length, c⟩], ?_, ?_, ?_⟩
    · rw [hw]
      simp [Function.iterate_succ_apply']
    · simp [hnew, List.range'_concat]
    · simp [hlog, List.range'_concat]

/-- Under the record's row lock, whatever the interleaving and whichever calls roll back,
the committed calls inserted the sequence numbers from the stored ratchet's on, one each
in commit order, after the rows already there, and the stored ratchet moved on by as many. -/
theorem enqueue_serialised [DecidableEq ι] (payload : ι → P) (record₀ : QsClientRecord S K)
    (rows₀ : QueueRows C) {c : RowLock.Config ι (ClientQueue S K C) ℕ}
    (hr : Lts.Reachable (RowLock.Step true (enqueueBody prim payload))
      (RowLock.init (record₀, rows₀)) c) :
    ∃ new : QueueRows C, c.row.2 = rows₀ ++ new ∧
      new.map (·.sequenceNumber) = List.range' record₀.ratchetKey.sequenceNumber c.log.length ∧
      c.row.1.ratchetKey.sequenceNumber = record₀.ratchetKey.sequenceNumber + c.log.length ∧
      c.log.map Prod.snd = List.range' record₀.ratchetKey.sequenceNumber c.log.length ∧
      (c.log.map Prod.fst).Nodup := by
  obtain ⟨new, hst, hnew, hlog⟩ := serial_enqueue (RowLock.serial_of_reachable hr)
  refine ⟨new, by rw [hst], hnew, ?_, hlog, RowLock.log_nodup_of_reachable hr⟩
  rw [hst, QueueRatchet.iterate_ratchetForward_sequenceNumber]

/-- Callers `0` and `1` enqueue `7` and `8` on an empty queue, one after the other: the second
reads the record the first committed. -/
def enqueuedTwice : RowLock.Config ℕ (ClientQueue ℕ ℕ ℕ) ℕ :=
  let r₀ : QueueRatchet ℕ ℕ := QueueRatchet.tryFrom plainPrimitives 0
  let c₁ := ((RowLock.init (⟨r₀⟩, [])).setPhase 0 (.holding (⟨r₀⟩, []))).commitWith 0 0
    fun _ => (⟨r₀.ratchetForward plainPrimitives⟩, [⟨0, 7⟩])
  (c₁.setPhase 1 (.holding c₁.row)).commitWith 1 1
    fun _ => (⟨(r₀.ratchetForward plainPrimitives).ratchetForward plainPrimitives⟩, [⟨0, 7⟩, ⟨1, 8⟩])

theorem enqueue_serialised_twoCallers :
    enqueuedTwice.log = [(0, 0), (1, 1)] ∧
    ∃ new : QueueRows ℕ, enqueuedTwice.row.2 = [] ++ new ∧
      new.map (·.sequenceNumber) = List.range' 0 enqueuedTwice.log.length ∧
      enqueuedTwice.row.1.ratchetKey.sequenceNumber = 0 + enqueuedTwice.log.length ∧
      enqueuedTwice.log.map Prod.snd = List.range' 0 enqueuedTwice.log.length ∧
      (enqueuedTwice.log.map Prod.fst).Nodup := by
  have hreach : Lts.Reachable (RowLock.Step true (enqueueBody plainPrimitives fun i => 7 + i))
      (RowLock.init (⟨QueueRatchet.tryFrom plainPrimitives 0⟩, [])) enqueuedTwice := by
    unfold enqueuedTwice
    exact RowLock.reachable_twoCallers (by decide) rfl rfl
  exact ⟨rfl, enqueue_serialised (fun i => 7 + i) _ [] hreach⟩

end Air
