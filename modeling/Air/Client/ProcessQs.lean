import Air.Client.QueueRatchets

/-! # Processing the QS listen stream on the client

`QsStreamProcessor::process_event` accumulates the messages of the listen stream and,
at the empty sentinel, hands them to `CoreUser::fully_process_qs_messages`. That loop
runs every message in a transaction of its own, in which
`decrypt_and_process_qs_message` loads the persisted queue ratchet, decrypts the
message and writes the advanced ratchet back; processing happens in a savepoint of
that transaction. The loop stops at the first failure to get a write connection or to
begin the transaction, and at the first fatal processing error, and reports how many
messages it got through. A failed `txn.commit()` is logged and dropped with `.ok()`:
the ratchet update is rolled back and the loop carries on. If the loop got through all
messages, `process_event` acks up to the last sequence number plus one.

Which database step fails is a parameter for each message.
-/

namespace Air

variable {S K P C : Type*} (prim : RatchetPrimitives S K P C)

inductive ProcessOutcome where
  | processed
  /-- `BlockedContactError`: dropped without an error. -/
  | blocked
  /-- Extraction failed, or a recoverable error: recorded in `errors` and dropped. -/
  | failed
  /-- A database error, or the savepoint's begin or commit failing: the loop stops. -/
  | fatal
  deriving DecidableEq, Repr

structure QsMessageFailures where
  writeFails : Bool
  beginFails : Bool
  /-- Loading or updating the ratchet inside `decrypt_qs_queue_message`. -/
  ratchetDbFails : Bool
  process : ProcessOutcome
  commitFails : Bool
  deriving DecidableEq, Repr

structure ProcessedQsMessages where
  errors : ℕ
  processed : ℕ
  deriving DecidableEq, Repr

def decryptInTransaction (f : QsMessageFailures) (stored : QueueRatchet S K)
    (qsMessage : QueueMessage C) : Except DecryptQsQueueMessageError (Option (P × QueueRatchet S K)) :=
  if f.ratchetDbFails then .error .db else stored.decryptQsQueueMessage prim qsMessage

/-- `decrypt_and_process_qs_message`: the ratchet the transaction holds afterwards and the
result, or the fatal error that stops the loop. -/
def decryptAndProcessQsMessage (f : QsMessageFailures) (stored : QueueRatchet S K)
    (qsMessage : QueueMessage C) (result : ProcessedQsMessages) :
    Except Unit (QueueRatchet S K × ProcessedQsMessages) :=
  match decryptInTransaction prim f stored qsMessage with
  | .ok none => .ok (stored, result)
  | .error _ => .ok (stored, { result with errors := result.errors + 1 })
  | .ok (some (_, ratchet)) =>
    match f.process with
    | .processed => .ok (ratchet, result)
    | .blocked => .ok (ratchet, result)
    | .failed => .ok (ratchet, { result with errors := result.errors + 1 })
    | .fatal => .error ()

/-- The loop of `fully_process_qs_messages` from the message at `idx` on, over the
persisted ratchet. -/
def fullyProcessQsMessagesFrom (failures : ℕ → QsMessageFailures) (numMessages : ℕ) :
    ℕ → QueueRatchet S K → ProcessedQsMessages → List (QueueMessage C) →
      ProcessedQsMessages × QueueRatchet S K
  | _, stored, result, [] => ({ result with processed := numMessages }, stored)
  | idx, stored, result, qsMessage :: rest =>
    if (failures idx).writeFails || (failures idx).beginFails then
      ({ result with processed := idx }, stored)
    else
      match decryptAndProcessQsMessage prim (failures idx) stored qsMessage result with
      | .error () => ({ result with processed := idx }, stored)
      | .ok (ratchet, result) =>
        -- a failed commit is logged and ignored: the transaction's ratchet is lost
        fullyProcessQsMessagesFrom failures numMessages (idx + 1)
          (if (failures idx).commitFails then stored else ratchet) result rest

def fullyProcessQsMessages (failures : ℕ → QsMessageFailures) (stored : QueueRatchet S K)
    (qsMessages : List (QueueMessage C)) : ProcessedQsMessages × QueueRatchet S K :=
  fullyProcessQsMessagesFrom prim failures qsMessages.length 0 stored ⟨0, 0⟩ qsMessages

structure QsStreamProcessor (C : Type*) where
  responder : Bool
  messages : List (QueueMessage C)

inductive ListenEvent (C : Type*) where
  | none
  | payload
  | message (m : QueueMessage C)
  /-- A message event that does not convert to a `QueueMessage`. -/
  | undecodable
  | empty

inductive QsProcessEventResult where
  | accumulated
  | ignored
  | fullyProcessed (processed : ProcessedQsMessages)
  | partiallyProcessed (dropped : ℕ) (processed : ProcessedQsMessages)

/-- `QsStreamProcessor::process_event`: the processor afterwards, the persisted ratchet,
the `up_to` of the ack it sends, if any, and the result. -/
def processEvent (failures : ℕ → QsMessageFailures) (p : QsStreamProcessor C)
    (stored : QueueRatchet S K) :
    ListenEvent C → QsStreamProcessor C × QueueRatchet S K × Option ℕ × QsProcessEventResult
  | .none | .payload | .undecodable => (p, stored, none, .ignored)
  | .message m => ({ p with messages := p.messages ++ [m] }, stored, none, .accumulated)
  | .empty =>
    let maxSequenceNumber := p.messages.getLast?.map (·.sequenceNumber)
    let numMessages := p.messages.length
    let (processedMessages, stored') := fullyProcessQsMessages prim failures stored p.messages
    if processedMessages.processed < numMessages then
      ({ p with messages := [] }, stored', none,
        .partiallyProcessed (numMessages - processedMessages.processed) processedMessages)
    else
      ({ p with messages := [] }, stored',
        if p.responder then maxSequenceNumber.map (· + 1) else none,
        .fullyProcessed processedMessages)

def processEvents :
    QsStreamProcessor C → QueueRatchet S K → List (ListenEvent C × (ℕ → QsMessageFailures)) →
      List ℕ × QueueRatchet S K
  | _, stored, [] => ([], stored)
  | p, stored, (event, failures) :: rest =>
    let (p', stored', ack, _) := processEvent prim failures p stored event
    let (acks, final) := processEvents p' stored' rest
    (ack.toList ++ acks, final)

variable {prim}

section Loop

variable {failures : ℕ → QsMessageFailures}

theorem decryptAndProcessQsMessage_ok {f : QsMessageFailures} (hf : f.process ≠ .fatal)
    (stored : QueueRatchet S K) (qsMessage : QueueMessage C) (result : ProcessedQsMessages) :
    ∃ r, decryptAndProcessQsMessage prim f stored qsMessage result = .ok r := by
  unfold decryptAndProcessQsMessage
  split
  · exact ⟨_, rfl⟩
  · exact ⟨_, rfl⟩
  · cases hp : f.process with
    | processed => exact ⟨_, rfl⟩
    | blocked => exact ⟨_, rfl⟩
    | failed => exact ⟨_, rfl⟩
    | fatal => exact absurd hp hf

/-- Without a connection, begin or fatal processing failure the loop reports every message
as processed, whatever the commits did. -/
theorem fullyProcessQsMessagesFrom_processed {numMessages idx : ℕ} {stored : QueueRatchet S K}
    {result : ProcessedQsMessages} {qsMessages : List (QueueMessage C)}
    (h : ∀ i, idx ≤ i → i < idx + qsMessages.length →
      (failures i).writeFails = false ∧ (failures i).beginFails = false ∧
        (failures i).process ≠ .fatal) :
    (fullyProcessQsMessagesFrom prim failures numMessages idx stored result qsMessages).1.processed =
      numMessages := by
  induction qsMessages generalizing idx stored result with
  | nil => rfl
  | cons qsMessage rest ih =>
    obtain ⟨hw, hb, hp⟩ := h idx (Nat.le_refl idx) (by simp)
    obtain ⟨⟨ratchet, result'⟩, hr⟩ := decryptAndProcessQsMessage_ok hp stored qsMessage result
    have hrest : ∀ i, idx + 1 ≤ i → i < idx + 1 + rest.length →
        (failures i).writeFails = false ∧ (failures i).beginFails = false ∧
          (failures i).process ≠ .fatal := fun i h₁ h₂ =>
      h i (by omega) (by simp only [List.length_cons]; omega)
    rw [fullyProcessQsMessagesFrom, if_neg (by simp [hw, hb]), hr]
    exact ih hrest

end Loop

/-- A batch of one message at the ratchet's own sequence number whose transaction fails
to commit. -/
def commitFailing : ℕ → QsMessageFailures := fun _ => ⟨false, false, false, .processed, true⟩

/-- The message at sequence number `0` decrypts, its transaction's commit fails, and the
client still acks up to `1`: the server deletes the message while the persisted ratchet
stays at `0`. -/
theorem processEvents_acks_rolled_back :
    (QueueRatchet.tryFrom plainPrimitives 0).decryptQsQueueMessage plainPrimitives
        (⟨0, 5⟩ : QueueMessage ℕ) =
      .ok (some (5, (QueueRatchet.tryFrom plainPrimitives 0).ratchetForward plainPrimitives)) ∧
    processEvents plainPrimitives ⟨true, []⟩ (QueueRatchet.tryFrom plainPrimitives 0)
        [(.message ⟨0, 5⟩, commitFailing), (.empty, commitFailing)] =
      ([1], QueueRatchet.tryFrom plainPrimitives 0) :=
  ⟨rfl, rfl⟩

theorem fullyProcessQsMessagesFrom_processed_commitFailing :
    (∀ i, 0 ≤ i → i < 0 + [(⟨0, 5⟩ : QueueMessage ℕ)].length →
      (commitFailing i).writeFails = false ∧ (commitFailing i).beginFails = false ∧
        (commitFailing i).process ≠ .fatal) ∧
    (fullyProcessQsMessagesFrom plainPrimitives commitFailing 1 0
      (QueueRatchet.tryFrom plainPrimitives 0) ⟨0, 0⟩ [⟨0, 5⟩]).1.processed = 1 := by
  have h : ∀ i, 0 ≤ i → i < 0 + [(⟨0, 5⟩ : QueueMessage ℕ)].length →
      (commitFailing i).writeFails = false ∧ (commitFailing i).beginFails = false ∧
        (commitFailing i).process ≠ .fatal := fun _ _ _ => ⟨rfl, rfl, nofun⟩
  exact ⟨h, fullyProcessQsMessagesFrom_processed h⟩

end Air
