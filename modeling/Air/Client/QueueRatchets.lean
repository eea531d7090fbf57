import Air.Common.Ratchet

/-! # The client's stored QS queue ratchet

`StorableQsQueueRatchet::decrypt_qs_queue_message` of
`coreclient/src/key_stores/queue_ratchets.rs`. It loads the persisted ratchet and
compares the message's sequence number with the ratchet's:

* ahead of the ratchet (a gap): ratchet forward to the message, then decrypt;
* behind it (a replay): `Ok(None)`, the ratchet is not written back;
* equal: decrypt with the current key.

Only a successful decryption writes the advanced ratchet back. A database error in
the load or the update is the caller's transaction failing; it is modelled where
the transaction is.
-/

namespace Air

variable {S K P C : Type*} (prim : RatchetPrimitives S K P C)

inductive DecryptQsQueueMessageError where
  | db
  | decrypt (ratchetSeqNr messageSeqNr : ℕ)
  deriving DecidableEq, Repr

namespace QueueRatchet

/-- The loop `while message_seq_nr > qs_queue_ratchet.sequence_number() { ratchet_forward }`. -/
def catchUp (messageSeqNr : ℕ) (r : QueueRatchet S K) : QueueRatchet S K :=
  if r.sequenceNumber < messageSeqNr then catchUp messageSeqNr (r.ratchetForward prim) else r
termination_by messageSeqNr - r.sequenceNumber
decreasing_by simp only [ratchetForward_sequenceNumber]; omega

/-- `StorableQsQueueRatchet::decrypt_qs_queue_message` on the stored ratchet: the payload and
the ratchet written back, `none` for a replay, or the error. -/
def decryptQsQueueMessage (stored : QueueRatchet S K) (m : QueueMessage C) :
    Except DecryptQsQueueMessageError (Option (P × QueueRatchet S K)) :=
  let messageSeqNr := m.sequenceNumber
  let ratchetSeqNr := stored.sequenceNumber
  let decryptWith (r : QueueRatchet S K) :=
    match r.decrypt prim m with
    | none => .error (.decrypt ratchetSeqNr messageSeqNr)
    | some (payload, r') => .ok (some (payload, r'))
  if ratchetSeqNr < messageSeqNr then decryptWith (catchUp prim messageSeqNr stored)
  else if messageSeqNr < ratchetSeqNr then .ok none
  else decryptWith stored

variable {prim}

theorem decryptQsQueueMessage_of_lt {stored : QueueRatchet S K} {m : QueueMessage C}
    (h : m.sequenceNumber < stored.sequenceNumber) :
    (decryptQsQueueMessage prim stored m : Except _ (Option (P × _))) = .ok none := by
  simp [decryptQsQueueMessage, h, Nat.not_lt_of_gt h]

theorem decryptQsQueueMessage_of_eq {stored : QueueRatchet S K} {m : QueueMessage C}
    (h : m.sequenceNumber = stored.sequenceNumber) :
    (decryptQsQueueMessage prim stored m : Except _ (Option (P × _))) =
      match stored.decrypt prim m with
      | none => .error (.decrypt stored.sequenceNumber m.sequenceNumber)
      | some (payload, r') => .ok (some (payload, r')) := by
  simp [decryptQsQueueMessage, h]

end QueueRatchet

end Air
