import Mathlib.Data.List.Basic

/-! # Message status reports on the client

`StatusRecord::store_report` of `coreclient/src/chats/status.rs`. A report from one
sender lists per-message statuses; the last status for a mimi id wins, so the list is
walked backwards, skipping ids already handled. For each id that names a stored message,
the sender's row of `message_status` is upserted, and the message's own `status` column
is set to the largest `Delivered` or `Read` status over all senders' rows, `0` if none.

The message's `status` column also records a deletion (`Deleted`), which the unread
counts exclude. The aggregate is written whatever the column held before.

`MessageStatus` is `mimi_content`'s, stored as its `u8` code.
-/

namespace Air

inductive MessageStatus where
  | unread
  | delivered
  | read
  | expired
  | deleted
  | hidden
  | error
  deriving DecidableEq, Repr

def MessageStatus.toU8 : MessageStatus → ℕ
  | unread => 0
  | delivered => 1
  | read => 2
  | expired => 3
  | deleted => 4
  | hidden => 5
  | error => 6

structure PerMessageStatus (I : Type*) where
  mimiId : I
  status : MessageStatus

structure StatusRow (M U : Type*) where
  messageId : M
  sender : U
  status : ℕ

/-- The client's store as `store_report` reads and writes it: the message of each mimi id,
the `status` column of each message, and the `message_status` table. -/
structure ChatStore (I M U : Type*) where
  messageIdOf : I → Option M
  messageStatus : M → ℕ
  statusRows : List (StatusRow M U)

variable {I M U : Type*} [DecidableEq I] [DecidableEq M] [DecidableEq U]

def upsertStatus (rows : List (StatusRow M U)) (messageId : M) (sender : U) (status : ℕ) :
    List (StatusRow M U) :=
  if rows.any fun r => r.messageId = messageId ∧ r.sender = sender then
    rows.map fun r =>
      if r.messageId = messageId ∧ r.sender = sender then { r with status := status } else r
  else rows ++ [⟨messageId, sender, status⟩]

/-- `SELECT COALESCE(MAX(status), 0) ... WHERE message_id = ?1 AND (status = 1 OR status = 2)`. -/
def finalStatus (rows : List (StatusRow M U)) (messageId : M) : ℕ :=
  ((rows.filter fun r => r.messageId = messageId ∧ (r.status = 1 ∨ r.status = 2)).map
    (·.status)).foldr max 0

/-- One iteration of the loop of `store_report`, with the mimi ids already handled. -/
def storeReportStep (sender : U) (acc : ChatStore I M U × List I) (entry : PerMessageStatus I) :
    ChatStore I M U × List I :=
  let (store, alreadyHandled) := acc
  if entry.mimiId ∈ alreadyHandled then (store, alreadyHandled)
  else
    let alreadyHandled := entry.mimiId :: alreadyHandled
    match store.messageIdOf entry.mimiId with
    | none => (store, alreadyHandled)
    | some messageId =>
      let rows := upsertStatus store.statusRows messageId sender entry.status.toU8
      ({ store with
          statusRows := rows
          messageStatus := Function.update store.messageStatus messageId
            (finalStatus rows messageId) }, alreadyHandled)

/-- `StatusRecord::store_report` of a report from `sender`. -/
def storeReport (sender : U) (statuses : List (PerMessageStatus I)) (store : ChatStore I M U) :
    ChatStore I M U :=
  (statuses.reverse.foldl (storeReportStep sender) (store, [])).1

omit [DecidableEq I] [DecidableEq U] in
theorem finalStatus_le (rows : List (StatusRow M U)) (messageId : M) :
    finalStatus rows messageId ≤ MessageStatus.read.toU8 := by
  unfold finalStatus
  induction rows with
  | nil => simp [MessageStatus.toU8]
  | cons r rows ih =>
    rw [List.filter_cons]
    split
    · rename_i hr
      simp only [decide_eq_true_eq] at hr
      simp only [List.map_cons, List.foldr_cons, MessageStatus.toU8] at ih ⊢
      omega
    · exact ih

section Loop

variable {sender : U} {x : I} {messageId : M}

variable (sender) in
theorem storeReportStep_spec (acc : ChatStore I M U × List I) (entry : PerMessageStatus I) :
    (storeReportStep sender acc entry).1.messageIdOf = acc.1.messageIdOf ∧
      entry.mimiId ∈ (storeReportStep sender acc entry).2 ∧
      acc.2 ⊆ (storeReportStep sender acc entry).2 := by
  obtain ⟨store, handled⟩ := acc
  by_cases hmem : entry.mimiId ∈ handled
  · dsimp only [storeReportStep]
    rw [if_pos hmem]
    exact ⟨rfl, hmem, List.Subset.refl _⟩
  · dsimp only [storeReportStep]
    rw [if_neg hmem]
    split
    · exact ⟨rfl, List.mem_cons_self .., List.subset_cons_self _ _⟩
    · exact ⟨rfl, List.mem_cons_self .., List.subset_cons_self _ _⟩

theorem storeReportStep_status (hm : (acc : ChatStore I M U × List I).1.messageIdOf x = some messageId)
    (entry : PerMessageStatus I)
    (h : x ∈ acc.2 → acc.1.messageStatus messageId ≤ MessageStatus.read.toU8) :
    x ∈ (storeReportStep sender acc entry).2 →
      (storeReportStep sender acc entry).1.messageStatus messageId ≤ MessageStatus.read.toU8 := by
  obtain ⟨store, handled⟩ := acc
  by_cases hmem : entry.mimiId ∈ handled
  · simp only [storeReportStep, if_pos hmem]
    exact h
  · simp only [storeReportStep, if_neg hmem]
    split
    · rename_i hnone
      intro hx
      rcases List.mem_cons.mp hx with rfl | hx
      · rw [hm] at hnone
        cases hnone
      · exact h hx
    · rename_i messageId' hsome
      intro hx
      by_cases hid : messageId = messageId'
      · subst hid
        simp only [Function.update_self]
        exact finalStatus_le _ _
      · simp only [Function.update_of_ne hid]
        rcases List.mem_cons.mp hx with rfl | hx
        · rw [hm] at hsome
          exact absurd (Option.some.inj hsome) hid
        · exact h hx

theorem foldl_storeReportStep (hm : (acc : ChatStore I M U × List I).1.messageIdOf x = some messageId)
    (h : x ∈ acc.2 → acc.1.messageStatus messageId ≤ MessageStatus.read.toU8)
    (entries : List (PerMessageStatus I)) :
    (x ∈ acc.2 ∨ x ∈ entries.map (·.mimiId)) →
      (entries.foldl (storeReportStep sender) acc).1.messageStatus messageId ≤
        MessageStatus.read.toU8 := by
  induction entries generalizing acc with
  | nil =>
    rintro (hx | hx)
    · exact h hx
    · simp at hx
  | cons entry entries ih =>
    intro hx
    obtain ⟨hids, hentry, hsub⟩ := storeReportStep_spec sender acc entry
    apply ih (hids ▸ hm) (storeReportStep_status hm entry h)
    rcases hx with hx | hx
    · exact .inl (hsub hx)
    · rcases List.mem_cons.mp hx with hx | hx
      · exact .inl (hx ▸ hentry)
      · exact .inr hx

end Loop

/-- Whatever a message's status was, a report from any sender that names its mimi id
leaves it a `Delivered`/`Read` aggregate: a `Deleted` message does not stay deleted. -/
theorem storeReport_status_le (sender : U) (statuses : List (PerMessageStatus I))
    (store : ChatStore I M U) {x : I} {messageId : M} (hm : store.messageIdOf x = some messageId)
    (hx : x ∈ statuses.map (·.mimiId)) :
    (storeReport sender statuses store).messageStatus messageId ≤ MessageStatus.read.toU8 := by
  apply foldl_storeReportStep hm (by simp)
  right
  simpa using hx

/-- A deleted message (mimi id `0`, message `0`) and a `Delivered` receipt for it from
another member: afterwards the message's status is `Delivered` again. -/
def deletedStore : ChatStore ℕ ℕ ℕ :=
  ⟨fun x => if x = 0 then some 0 else none, fun _ => MessageStatus.deleted.toU8, []⟩

theorem storeReport_undeletes :
    deletedStore.messageStatus 0 = MessageStatus.deleted.toU8 ∧
      (storeReport 1 [⟨0, .delivered⟩] deletedStore).messageStatus 0 =
        MessageStatus.delivered.toU8 := by
  decide

theorem storeReport_status_le_deleted :
    deletedStore.messageIdOf 0 = some 0 ∧
      0 ∈ [(⟨0, .delivered⟩ : PerMessageStatus ℕ)].map (·.mimiId) ∧
      (storeReport 1 [⟨0, .delivered⟩] deletedStore).messageStatus 0 ≤ MessageStatus.read.toU8 :=
  ⟨rfl, by decide, storeReport_status_le (x := 0) 1 _ deletedStore rfl (by decide)⟩

end Air
