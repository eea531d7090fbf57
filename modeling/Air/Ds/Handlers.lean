import Air.Lts.Outbox

/-! # Group-state transactions of the DS and their fan-out

`GrpcDs::update_group_state` begins a transaction, loads the group state for update,
verifies the request against it, runs the handler's closure on it, then encrypts and
persists the changed state and commits. `update_group_state_without_verification` is
the same without the verification. `update_apq_group_state` loads the T and the PQ state
of an APQ group, checks the request's sender against both, runs the closure, persists
both states, commits, and only then fans out what the closure returned.

Where a handler fans out differs. `group_operation` returns the fan-out data from its
closure and dispatches once `update_group_state` has committed, as the APQ handlers do.
`resync`, `self_remove`, `delete_group`, `join_connection_group` and
`update_profile_key` call `fan_out_message_without_notifications` inside the closure,
before the new state is persisted and the transaction committed.

A handler's run is its trace of sends and its commit (`Outbox`), the DS's group states
afterwards, and its response. The group state, the sender's leaf index, the client
references and the serialised MLS message are type parameters; what the handlers read of
a group state is `DsGroupOps`, and what processing the request does to it is a function
given to each handler. Which database step fails is a parameter, and so is which
dispatch the QS accepts. Group-state expiry is disabled in the source, so a load never
finds an expired state.
-/

namespace Air

inductive Code where
  | ok | cancelled | unknown | invalidArgument | deadlineExceeded | notFound | alreadyExists
  | permissionDenied | resourceExhausted | failedPrecondition | aborted | outOfRange
  | unimplemented | internal | unavailable | dataLoss | unauthenticated
  deriving DecidableEq, Repr

structure Status where
  code : Code
  message : String
  deriving DecidableEq, Repr

structure QsQueueMessagePayload (M : Type*) where
  timestamp : ℕ
  message : M
  deriving DecidableEq, Repr

structure DsFanOutMessage (R P : Type*) where
  payload : P
  clientReference : R
  suppressNotifications : Bool
  broadcastToAllClientQueues : Bool
  deriving DecidableEq, Repr

/-- What the handlers read of a `DsGroupState`, and `proposals.clear()`. -/
structure DsGroupOps (G L R : Type*) where
  destinationClients : G → List R
  otherDestinationClients : G → L → List R
  broadcastToAllClientQueues : G → Bool
  isApq : G → Bool
  clearProposals : G → G

/-- Which steps of a group-state transaction fail, and with what. -/
structure DsTxnFailures where
  beginFails : Bool
  /-- `StorableDsGroupData::load`. -/
  loadError : Option Status
  /-- `DsGroupState::decrypt`. -/
  decryptError : Option Status
  /-- `DsGroupState::encrypt`. -/
  encryptError : Option Status
  /-- `StorableDsGroupData::update`. -/
  updateFails : Bool
  commitFails : Bool
  deriving DecidableEq, Repr

abbrev HandlerRun (Q G D α : Type*) := List (Outbox.Event D) × (Q → Option G) × Except Status α

variable {Q G L R M P D α β : Type*} [DecidableEq Q]

def loadForUpdateOrNotFound (failures : DsTxnFailures) (store : Q → Option G) (qgid : Q) :
    Except Status G :=
  match failures.loadError, store qgid, failures.decryptError with
  | some s, _, _ => .error s
  | none, none, _ => .error ⟨.notFound, "group not found"⟩
  | none, some _, some s => .error s
  | none, some groupState, none => .ok groupState

/-- `encrypt_and_persist` of each changed state, then `txn.commit()`, after the closure
sent `sent`. -/
def persistAndCommit (failures : DsTxnFailures) (store : Q → Option G) (writes : List (Q × G))
    (sent : List D) (value : α) : HandlerRun Q G D α :=
  let tr := sent.map .send
  match failures.encryptError with
  | some s => (tr, store, .error s)
  | none =>
    if failures.updateFails then (tr, store, .error ⟨.internal, "Failed to update group state"⟩)
    else if failures.commitFails then
      (tr, store, .error ⟨.internal, "Failed to commit transaction"⟩)
    else (tr ++ [.commit], writes.foldl (fun st w => Function.update st w.1 (some w.2)) store,
      .ok value)

/-- `GrpcDs::update_group_state`: the closure gets the loaded state and the verified
sender, and returns what it sent together with the new state and its value, or an error. -/
def updateGroupState (failures : DsTxnFailures) (verify : G → Except Status L)
    (f : G → L → List D × Except Status (G × α)) (store : Q → Option G) (qgid : Q) :
    HandlerRun Q G D α :=
  if failures.beginFails then ([], store, .error ⟨.internal, "Failed to start transaction"⟩)
  else
    match loadForUpdateOrNotFound failures store qgid with
    | .error s => ([], store, .error s)
    | .ok groupState =>
      match verify groupState with
      | .error s => ([], store, .error s)
      | .ok senderIndex =>
        match f groupState senderIndex with
        | (sent, .error s) => (sent.map .send, store, .error s)
        | (sent, .ok (groupState, value)) =>
          persistAndCommit failures store [(qgid, groupState)] sent value

def updateGroupStateWithoutVerification (failures : DsTxnFailures)
    (f : G → List D × Except Status (G × α)) (store : Q → Option G) (qgid : Q) :
    HandlerRun Q G D α :=
  updateGroupState failures (fun _ => .ok ()) (fun groupState _ => f groupState) store qgid

def fanOutMessage (dispatchOk : DsFanOutMessage R P → Bool) (fanOutPayload : P)
    (destinationClients : List R) (suppressNotifications broadcastToAllClientQueues : Bool) :
    List (DsFanOutMessage R P) :=
  (destinationClients.map fun clientReference =>
    ⟨fanOutPayload, clientReference, suppressNotifications, broadcastToAllClientQueues⟩).filter
      dispatchOk

def fanOutMessageWithoutNotifications (dispatchOk : DsFanOutMessage R P → Bool) (fanOutPayload : P)
    (destinationClients : List R) (broadcastToAllClientQueues : Bool) : List (DsFanOutMessage R P) :=
  fanOutMessage dispatchOk fanOutPayload destinationClients true broadcastToAllClientQueues

/-- What `group_operation` and `update_apq_group_state` do once the transaction has
returned: on success, send the messages the value names and answer with the rest. -/
def thenFanOut (run : HandlerRun Q G D α) (k : α → List D × β) : HandlerRun Q G D β :=
  match run with
  | (tr, store, .error s) => (tr, store, .error s)
  | (tr, store, .ok value) => (tr ++ (k value).1.map .send, store, .ok (k value).2)

section Handlers

variable (failures : DsTxnFailures)
  (dispatchOk : DsFanOutMessage R (QsQueueMessagePayload M) → Bool) (ops : DsGroupOps G L R)

/-- The closures of `resync`, `self_remove`, `delete_group` and `join_connection_group`: a
precondition on the loaded state, the destination clients and the broadcast flag read
before the change, the change that yields the group message, and the fan-out of that
message, all inside the closure. -/
def fanOutInClosure (precondition : G → Option Status) (destinations : G → L → List R)
    (process : G → L → Except Status (G × QsQueueMessagePayload M)) (groupState : G)
    (senderIndex : L) :
    List (DsFanOutMessage R (QsQueueMessagePayload M)) × Except Status (G × ℕ) :=
  match precondition groupState with
  | some s => ([], .error s)
  | none =>
    let destinationClients := destinations groupState senderIndex
    let broadcastToAllClientQueues := ops.broadcastToAllClientQueues groupState
    match process groupState senderIndex with
    | .error s => ([], .error s)
    | .ok (groupState, groupMessage) =>
      (fanOutMessageWithoutNotifications dispatchOk groupMessage destinationClients
        broadcastToAllClientQueues, .ok (groupState, groupMessage.timestamp))

def resync (verify : G → Except Status L)
    (resyncClient : G → L → Except Status (G × QsQueueMessagePayload M)) (store : Q → Option G)
    (qgid : Q) : HandlerRun Q G (DsFanOutMessage R (QsQueueMessagePayload M)) ℕ :=
  updateGroupState failures verify
    (fanOutInClosure dispatchOk ops
      (fun groupState => if ops.isApq groupState then
        some ⟨.failedPrecondition, "APQ group requires an APQ resync"⟩ else none)
      ops.otherDestinationClients
      fun groupState senderIndex => (resyncClient groupState senderIndex).map fun r =>
        (ops.clearProposals r.1, r.2))
    store qgid

def selfRemove (verify : G → Except Status L)
    (selfRemoveClient : G → Except Status (G × QsQueueMessagePayload M)) (store : Q → Option G)
    (qgid : Q) : HandlerRun Q G (DsFanOutMessage R (QsQueueMessagePayload M)) ℕ :=
  updateGroupState failures verify
    (fanOutInClosure dispatchOk ops (fun _ => none) ops.otherDestinationClients
      fun groupState _ => selfRemoveClient groupState)
    store qgid

def deleteGroup (verify : G → Except Status L)
    (deleteGroup : G → Except Status (G × QsQueueMessagePayload M)) (store : Q → Option G)
    (qgid : Q) : HandlerRun Q G (DsFanOutMessage R (QsQueueMessagePayload M)) ℕ :=
  updateGroupState failures verify
    (fanOutInClosure dispatchOk ops (fun _ => none) ops.otherDestinationClients
      fun groupState _ => (deleteGroup groupState).map fun r => (ops.clearProposals r.1, r.2))
    store qgid

def joinConnectionGroup [Inhabited L]
    (joinConnectionGroup : G → Except Status (G × QsQueueMessagePayload M))
    (store : Q → Option G) (qgid : Q) :
    HandlerRun Q G (DsFanOutMessage R (QsQueueMessagePayload M)) ℕ :=
  updateGroupStateWithoutVerification failures
    (fun groupState => fanOutInClosure dispatchOk ops (fun _ => none)
      (fun groupState (_ : L) => ops.destinationClients groupState)
      (fun groupState _ => (joinConnectionGroup groupState).map fun r =>
        (ops.clearProposals r.1, r.2))
      groupState default)
    store qgid

/-- The closure of `group_operation`: it inserts the sender's profile if the request
carries one, reads the destination clients, and runs `group_operation`, which here also
clears the proposals and appends the commit response to the individual messages. It sends
nothing and returns what to fan out. -/
def groupOperationClosure (insertSenderProfile : G → L → Except Status G)
    (process : G → L → Except Status
      (G × QsQueueMessagePayload M × List (DsFanOutMessage R (QsQueueMessagePayload M))))
    (groupState : G) (senderIndex : L) :
    List (DsFanOutMessage R (QsQueueMessagePayload M)) ×
      Except Status (G × List R × QsQueueMessagePayload M ×
        List (DsFanOutMessage R (QsQueueMessagePayload M)) × Bool) :=
  match insertSenderProfile groupState senderIndex with
  | .error s => ([], .error s)
  | .ok groupState =>
    let destinationClients := ops.otherDestinationClients groupState senderIndex
    let broadcastToAllClientQueues := ops.broadcastToAllClientQueues groupState
    match process groupState senderIndex with
    | .error s => ([], .error s)
    | .ok (groupState, fanOutPayload, individualFanOutMessages) =>
      ([], .ok (groupState, destinationClients, fanOutPayload, individualFanOutMessages,
        broadcastToAllClientQueues))

/-- `GrpcDs::group_operation`: the fan-out once `update_group_state` has returned. -/
def groupOperation (verify : G → Except Status L) (insertSenderProfile : G → L → Except Status G)
    (process : G → L → Except Status
      (G × QsQueueMessagePayload M × List (DsFanOutMessage R (QsQueueMessagePayload M))))
    (store : Q → Option G) (qgid : Q) :
    HandlerRun Q G (DsFanOutMessage R (QsQueueMessagePayload M)) ℕ :=
  thenFanOut
    (updateGroupState failures verify (groupOperationClosure ops insertSenderProfile process)
      store qgid)
    fun (destinationClients, fanOutPayload, individualFanOutMessages, broadcastToAllClientQueues) =>
      (fanOutMessageWithoutNotifications dispatchOk fanOutPayload destinationClients
          broadcastToAllClientQueues ++ individualFanOutMessages.filter dispatchOk,
        fanOutPayload.timestamp)

structure ApqFanOut (R P D α : Type*) where
  broadcast : P × List R
  individual : List D
  value : α

/-- `GrpcDs::update_apq_group_state`: `verify` resolves and verifies the sender on the T
state, `checkPq` compares it with the PQ state, and the closure returns both new states
and what to fan out once the transaction has committed. -/
def updateApqGroupState (verify : G → Except Status L) (checkPq : G → G → L → Except Status Unit)
    (f : G → G → L → Except Status (G × G × ApqFanOut R (QsQueueMessagePayload M)
      (DsFanOutMessage R (QsQueueMessagePayload M)) α))
    (store : Q → Option G) (tQgid pqQgid : Q) :
    HandlerRun Q G (DsFanOutMessage R (QsQueueMessagePayload M)) α :=
  if failures.beginFails then ([], store, .error ⟨.internal, "Failed to start transaction"⟩)
  else
    match loadForUpdateOrNotFound failures store tQgid with
    | .error s => ([], store, .error s)
    | .ok tGroupState =>
      match verify tGroupState with
      | .error s => ([], store, .error s)
      | .ok tSenderIndex =>
        match loadForUpdateOrNotFound failures store pqQgid with
        | .error s => ([], store, .error s)
        | .ok pqGroupState =>
          match checkPq tGroupState pqGroupState tSenderIndex with
          | .error s => ([], store, .error s)
          | .ok () =>
            let broadcastToAllClientQueues := ops.broadcastToAllClientQueues tGroupState
            match f tGroupState pqGroupState tSenderIndex with
            | .error s => ([], store, .error s)
            | .ok (tGroupState, pqGroupState, fanOut) =>
              thenFanOut
                (persistAndCommit failures store [(tQgid, tGroupState), (pqQgid, pqGroupState)]
                  [] fanOut)
                fun fanOut =>
                  (fanOutMessageWithoutNotifications dispatchOk fanOut.broadcast.1
                      fanOut.broadcast.2 broadcastToAllClientQueues ++
                    fanOut.individual.filter dispatchOk, fanOut.value)

end Handlers

theorem payload_of_mem_fanOutMessage {dispatchOk : DsFanOutMessage R P → Bool} {fanOutPayload : P}
    {destinationClients : List R} {suppressNotifications broadcastToAllClientQueues : Bool}
    {d : DsFanOutMessage R P}
    (h : d ∈ fanOutMessage dispatchOk fanOutPayload destinationClients suppressNotifications
      broadcastToAllClientQueues) :
    d.payload = fanOutPayload := by
  obtain ⟨hd, -⟩ := List.mem_filter.mp h
  obtain ⟨clientReference, -, rfl⟩ := List.mem_map.mp hd
  rfl

theorem payload_or_mem_of_mem_fanOut {dispatchOk : DsFanOutMessage R P → Bool}
    {fanOutPayload : P} {destinationClients : List R} {broadcastToAllClientQueues : Bool}
    {individual : List (DsFanOutMessage R P)} {d : DsFanOutMessage R P}
    (h : d ∈ fanOutMessageWithoutNotifications dispatchOk fanOutPayload destinationClients
      broadcastToAllClientQueues ++ individual.filter dispatchOk) :
    d.payload = fanOutPayload ∨ d ∈ individual := by
  rcases List.mem_append.mp h with hd | hd
  · exact .inl (payload_of_mem_fanOutMessage hd)
  · exact .inr (List.mem_filter.mp hd).1

section Transactions

theorem persistAndCommit_cases (failures : DsTxnFailures) (store : Q → Option G)
    (writes : List (Q × G)) (sent : List D) (value : α) :
    (∃ s, persistAndCommit failures store writes sent value = (sent.map .send, store, .error s)) ∨
      persistAndCommit failures store writes sent value =
        ((sent.map .send ++ [.commit],
          writes.foldl (fun st w => Function.update st w.1 (some w.2)) store, .ok value) :
            HandlerRun Q G D α) := by
  unfold persistAndCommit
  rcases failures.encryptError with _ | s
  · cases failures.updateFails
    · cases failures.commitFails
      · exact .inr rfl
      · exact .inl ⟨_, rfl⟩
    · exact .inl ⟨_, rfl⟩
  · exact .inl ⟨s, rfl⟩

/-- What `update_group_state` can do: fail before the closure, or after it with the
closure's sends made, leaving the store as it was; or commit the closure's state after
the closure's sends. -/
theorem updateGroupState_cases (failures : DsTxnFailures) (verify : G → Except Status L)
    (f : G → L → List D × Except Status (G × α)) (store : Q → Option G) (qgid : Q) :
    (∃ sent s, updateGroupState failures verify f store qgid = (sent.map .send, store, .error s) ∧
        (sent = [] ∨ ∃ groupState senderIndex r, f groupState senderIndex = (sent, r))) ∨
      ∃ groupState senderIndex sent groupState' value,
        loadForUpdateOrNotFound failures store qgid = .ok groupState ∧
        verify groupState = .ok senderIndex ∧
        f groupState senderIndex = (sent, .ok (groupState', value)) ∧
        updateGroupState failures verify f store qgid =
          (sent.map .send ++ [.commit], Function.update store qgid (some groupState'), .ok value) := by
  unfold updateGroupState
  split
  · exact .inl ⟨[], _, rfl, .inl rfl⟩
  split
  · exact .inl ⟨[], _, rfl, .inl rfl⟩
  rename_i groupState hl
  split
  · exact .inl ⟨[], _, rfl, .inl rfl⟩
  rename_i senderIndex hv
  split
  · rename_i sent s hf
    exact .inl ⟨sent, s, rfl, .inr ⟨_, _, _, hf⟩⟩
  · rename_i sent groupState' value hf
    rcases persistAndCommit_cases failures store [(qgid, groupState')] sent value with ⟨s, hp⟩ | hp
    · exact .inl ⟨sent, s, hp, .inr ⟨_, _, _, hf⟩⟩
    · exact .inr ⟨groupState, senderIndex, sent, groupState', value, hl, hv, hf, hp⟩

def Silent (store : Q → Option G) (run : HandlerRun Q G D α) : Prop :=
  (∃ s, run = ([], store, .error s)) ∨ ∃ store' value, run = ([.commit], store', .ok value)

theorem persistAndCommit_silent (failures : DsTxnFailures) (store : Q → Option G)
    (writes : List (Q × G)) (value : α) :
    Silent store (persistAndCommit failures store writes ([] : List D) value) := by
  rcases persistAndCommit_cases failures store writes ([] : List D) value with ⟨s, h⟩ | h
  · exact .inl ⟨s, h⟩
  · exact .inr ⟨_, _, h⟩

theorem updateGroupState_silent (failures : DsTxnFailures) (verify : G → Except Status L)
    {f : G → L → List D × Except Status (G × α)} (hf : ∀ g l, (f g l).1 = [])
    (store : Q → Option G) (qgid : Q) :
    Silent store (updateGroupState failures verify f store qgid) := by
  rcases updateGroupState_cases failures verify f store qgid with
    ⟨sent, s, h, hsent⟩ | ⟨g, l, sent, g', value, -, -, hfgl, h⟩
  · obtain rfl : sent = [] := by
      rcases hsent with rfl | ⟨g, l, r, hgl⟩
      · rfl
      · simpa [hgl] using hf g l
    exact .inl ⟨s, h⟩
  · obtain rfl : sent = [] := by simpa [hfgl] using hf g l
    exact .inr ⟨_, _, h⟩

omit [DecidableEq Q] in
theorem thenFanOut_sendsAfterCommit {store : Q → Option G} {run : HandlerRun Q G D α}
    (h : Silent store run) (k : α → List D × β) :
    Outbox.SendsAfterCommit (thenFanOut run k).1 ∧
      (Outbox.Event.commit ∉ (thenFanOut run k).1 → (thenFanOut run k).2.1 = store) := by
  rcases h with ⟨s, rfl⟩ | ⟨store', value, rfl⟩
  · exact ⟨Outbox.sendsAfterCommit_of_sent_eq_nil rfl, fun _ => rfl⟩
  · refine ⟨Outbox.sendsAfterCommit_commit_cons _, fun hc => ?_⟩
    simp [thenFanOut] at hc

end Transactions

section FanOutAfterCommit

variable (failures : DsTxnFailures)
  (dispatchOk : DsFanOutMessage R (QsQueueMessagePayload M) → Bool) (ops : DsGroupOps G L R)

omit [DecidableEq Q] in
theorem groupOperationClosure_sent (insertSenderProfile : G → L → Except Status G)
    (process : G → L → Except Status
      (G × QsQueueMessagePayload M × List (DsFanOutMessage R (QsQueueMessagePayload M))))
    (groupState : G) (senderIndex : L) :
    (groupOperationClosure ops insertSenderProfile process groupState senderIndex).1 = [] := by
  unfold groupOperationClosure
  split
  · rfl
  · dsimp only
    split <;> rfl

omit [DecidableEq Q] in
theorem groupOperationClosure_eq_ok {insertSenderProfile : G → L → Except Status G}
    {process : G → L → Except Status
      (G × QsQueueMessagePayload M × List (DsFanOutMessage R (QsQueueMessagePayload M)))}
    {groupState groupState' : G} {senderIndex : L} {sent} {value}
    (h : groupOperationClosure ops insertSenderProfile process groupState senderIndex =
      (sent, .ok (groupState', value))) :
    ∃ groupState₁ fanOutPayload individual,
      insertSenderProfile groupState senderIndex = .ok groupState₁ ∧
      process groupState₁ senderIndex = .ok (groupState', fanOutPayload, individual) ∧
      value = (ops.otherDestinationClients groupState₁ senderIndex, fanOutPayload, individual,
        ops.broadcastToAllClientQueues groupState₁) := by
  unfold groupOperationClosure at h
  split at h
  · cases h
  · rename_i groupState₁ hins
    dsimp only at h
    split at h
    · cases h
    · rename_i groupState'' fanOutPayload individual hproc
      cases h
      exact ⟨groupState₁, fanOutPayload, individual, hins, hproc, rfl⟩

/-- `group_operation` dispatches only after its transaction has committed. A run that
does not commit leaves the DS's group states as they were; one that commits stores the
state `group_operation` produced from the loaded one, and every message it dispatched
carries that operation's fan-out payload or is one of its individual messages. -/
theorem groupOperation_sendsAfterCommit (verify : G → Except Status L)
    (insertSenderProfile : G → L → Except Status G)
    (process : G → L → Except Status
      (G × QsQueueMessagePayload M × List (DsFanOutMessage R (QsQueueMessagePayload M))))
    (store : Q → Option G) (qgid : Q) :
    let run := groupOperation failures dispatchOk ops verify insertSenderProfile process store qgid
    Outbox.SendsAfterCommit run.1 ∧
      (Outbox.Event.commit ∉ run.1 → Outbox.sent run.1 = [] ∧ run.2.1 = store) ∧
      (Outbox.Event.commit ∈ run.1 → ∃ groupState senderIndex groupState₁ groupState'
          fanOutPayload individual,
        loadForUpdateOrNotFound failures store qgid = .ok groupState ∧
        verify groupState = .ok senderIndex ∧
        insertSenderProfile groupState senderIndex = .ok groupState₁ ∧
        process groupState₁ senderIndex = .ok (groupState', fanOutPayload, individual) ∧
        run.2.1 = Function.update store qgid (some groupState') ∧
        ∀ d ∈ Outbox.sent run.1, d.payload = fanOutPayload ∨ d ∈ individual) := by
  intro run
  obtain ⟨hsafe, hframe⟩ := thenFanOut_sendsAfterCommit
    (updateGroupState_silent failures verify (groupOperationClosure_sent ops insertSenderProfile
      process) store qgid) _
  refine ⟨hsafe, fun hc => ⟨Outbox.sent_eq_nil_of_commit_not_mem hsafe hc, hframe hc⟩,
    fun hc => ?_⟩
  rcases updateGroupState_cases failures verify (groupOperationClosure ops insertSenderProfile
      process) store qgid with ⟨sent, s, h, -⟩ | ⟨g, l, sent, g', value, hload, hverify, hf, h⟩
  · -- a failed transaction returns before the fan-out, with no commit
    simp [run, groupOperation, h, thenFanOut] at hc
  · obtain ⟨g₁, fanOutPayload, individual, hins, hproc, rfl⟩ := groupOperationClosure_eq_ok ops hf
    have hsent : sent = [] := by simpa [hf] using groupOperationClosure_sent ops insertSenderProfile process g l
    subst hsent
    refine ⟨g, l, g₁, g', fanOutPayload, individual, hload, hverify, hins, hproc,
      by simp [run, groupOperation, h, thenFanOut], fun d hd => ?_⟩
    simp only [run, groupOperation, h, thenFanOut, List.map_nil, List.nil_append, Outbox.sent_append,
      Outbox.sent_commit_cons, Outbox.sent_nil, Outbox.sent_map_send] at hd
    exact payload_or_mem_of_mem_fanOut hd

theorem updateApqGroupState_cases (verify : G → Except Status L)
    (checkPq : G → G → L → Except Status Unit)
    (f : G → G → L → Except Status (G × G × ApqFanOut R (QsQueueMessagePayload M)
      (DsFanOutMessage R (QsQueueMessagePayload M)) α))
    (store : Q → Option G) (tQgid pqQgid : Q) :
    (∃ s, updateApqGroupState failures dispatchOk ops verify checkPq f store tQgid pqQgid =
        ([], store, .error s)) ∨
      ∃ tGroupState pqGroupState tSenderIndex tGroupState' pqGroupState' fanOut,
        loadForUpdateOrNotFound failures store tQgid = .ok tGroupState ∧
        verify tGroupState = .ok tSenderIndex ∧
        loadForUpdateOrNotFound failures store pqQgid = .ok pqGroupState ∧
        checkPq tGroupState pqGroupState tSenderIndex = .ok () ∧
        f tGroupState pqGroupState tSenderIndex = .ok (tGroupState', pqGroupState', fanOut) ∧
        updateApqGroupState failures dispatchOk ops verify checkPq f store tQgid pqQgid =
          thenFanOut
            (persistAndCommit failures store [(tQgid, tGroupState'), (pqQgid, pqGroupState')] []
              fanOut)
            fun fanOut =>
              (fanOutMessageWithoutNotifications dispatchOk fanOut.broadcast.1 fanOut.broadcast.2
                  (ops.broadcastToAllClientQueues tGroupState) ++
                fanOut.individual.filter dispatchOk, fanOut.value) := by
  unfold updateApqGroupState
  split
  · exact .inl ⟨_, rfl⟩
  split
  · exact .inl ⟨_, rfl⟩
  rename_i tGroupState ht
  split
  · exact .inl ⟨_, rfl⟩
  rename_i tSenderIndex hv
  split
  · exact .inl ⟨_, rfl⟩
  rename_i pqGroupState hpq
  split
  · exact .inl ⟨_, rfl⟩
  rename_i hcheck
  dsimp only
  split
  · exact .inl ⟨_, rfl⟩
  rename_i tGroupState' pqGroupState' fanOut hf
  exact .inr ⟨tGroupState, pqGroupState, tSenderIndex, tGroupState', pqGroupState', fanOut, ht, hv,
    hpq, hcheck, hf, rfl⟩

/-- Every APQ handler dispatches only after its transaction has committed, whatever its
closure: a run that does not commit leaves the DS's group states as they were, and one
that commits stores the T and PQ states the closure returned, and every message it
dispatched is the closure's broadcast or one of its individual messages. -/
theorem updateApqGroupState_sendsAfterCommit (verify : G → Except Status L)
    (checkPq : G → G → L → Except Status Unit)
    (f : G → G → L → Except Status (G × G × ApqFanOut R (QsQueueMessagePayload M)
      (DsFanOutMessage R (QsQueueMessagePayload M)) α))
    (store : Q → Option G) (tQgid pqQgid : Q) :
    let run := updateApqGroupState failures dispatchOk ops verify checkPq f store tQgid pqQgid
    Outbox.SendsAfterCommit run.1 ∧
      (Outbox.Event.commit ∉ run.1 → Outbox.sent run.1 = [] ∧ run.2.1 = store) ∧
      (Outbox.Event.commit ∈ run.1 → ∃ tGroupState pqGroupState tSenderIndex tGroupState'
          pqGroupState' fanOut,
        loadForUpdateOrNotFound failures store tQgid = .ok tGroupState ∧
        verify tGroupState = .ok tSenderIndex ∧
        loadForUpdateOrNotFound failures store pqQgid = .ok pqGroupState ∧
        checkPq tGroupState pqGroupState tSenderIndex = .ok () ∧
        f tGroupState pqGroupState tSenderIndex = .ok (tGroupState', pqGroupState', fanOut) ∧
        run.2.1 = Function.update (Function.update store tQgid (some tGroupState')) pqQgid
          (some pqGroupState') ∧
        ∀ d ∈ Outbox.sent run.1, d.payload = fanOut.broadcast.1 ∨ d ∈ fanOut.individual) := by
  intro run
  rcases updateApqGroupState_cases failures dispatchOk ops verify checkPq f store tQgid pqQgid with
    ⟨s, h⟩ | ⟨tGroupState, pqGroupState, tSenderIndex, tGroupState', pqGroupState', fanOut, ht, hv,
      hpq, hcheck, hf, h⟩
  · -- refused before the closure returned: nothing sent, nothing stored
    simp only [run]
    rw [h]
    exact ⟨Outbox.sendsAfterCommit_of_sent_eq_nil rfl, fun _ => ⟨rfl, rfl⟩, fun hc => by simp at hc⟩
  · have hpersist := persistAndCommit_silent failures store
      [(tQgid, tGroupState'), (pqQgid, pqGroupState')]
      (D := DsFanOutMessage R (QsQueueMessagePayload M)) fanOut
    obtain ⟨hsafe, hframe⟩ := thenFanOut_sendsAfterCommit hpersist fun fanOut =>
      (fanOutMessageWithoutNotifications dispatchOk fanOut.broadcast.1 fanOut.broadcast.2
          (ops.broadcastToAllClientQueues tGroupState) ++ fanOut.individual.filter dispatchOk,
        fanOut.value)
    simp only [run]
    rw [h]
    refine ⟨hsafe, fun hc => ⟨Outbox.sent_eq_nil_of_commit_not_mem hsafe hc, hframe hc⟩,
      fun hc => ?_⟩
    rcases persistAndCommit_cases failures store [(tQgid, tGroupState'), (pqQgid, pqGroupState')]
      ([] : List (DsFanOutMessage R (QsQueueMessagePayload M))) fanOut with ⟨s, hp⟩ | hp
    · simp [hp, thenFanOut] at hc
    · refine ⟨tGroupState, pqGroupState, tSenderIndex, tGroupState', pqGroupState', fanOut, ht, hv,
        hpq, hcheck, hf, by simp [hp, thenFanOut], fun d hd => ?_⟩
      simp only [hp, thenFanOut, List.map_nil, List.nil_append, Outbox.sent_append,
        Outbox.sent_commit_cons, Outbox.sent_nil, Outbox.sent_map_send] at hd
      exact payload_or_mem_of_mem_fanOut hd

end FanOutAfterCommit

section FanOutInClosure

variable (failures : DsTxnFailures)
  (dispatchOk : DsFanOutMessage R (QsQueueMessagePayload M) → Bool) (ops : DsGroupOps G L R)
  {verify : G → Except Status L} {store : Q → Option G} {qgid : Q}
  {groupState groupState' : G} {senderIndex : L}

variable {precondition : G → Option Status} {destinations : G → L → List R}
  {process : G → L → Except Status (G × QsQueueMessagePayload M)}
  {groupMessage : QsQueueMessagePayload M}

end FanOutInClosure

def twoClientOps : DsGroupOps ℕ ℕ ℕ where
  destinationClients _ := [0, 1]
  otherDestinationClients _ senderIndex := [0, 1].filter (· ≠ senderIndex)
  broadcastToAllClientQueues _ := false
  isApq _ := false
  clearProposals := id

/-- Everything succeeds up to `txn.commit()`, which fails. -/
def commitFailure : DsTxnFailures := ⟨false, none, none, none, false, true⟩

/-- Client `0` resyncs a group at epoch `0` and the commit of the transaction fails: client
`1` has been sent the commit to epoch `1`, while the DS keeps epoch `0` and answers with an
internal error. -/
theorem resync_fans_out_uncommitted :
    resync commitFailure (fun _ => true) twoClientOps (fun _ => .ok 0)
        (fun epoch _ => .ok (epoch + 1, ⟨0, epoch + 1⟩)) (fun _ : Unit => some 0) () =
      ([.send ⟨⟨0, 1⟩, 1, true, false⟩], fun _ => some 0,
        .error ⟨.internal, "Failed to commit transaction"⟩) :=
  rfl

end Air
