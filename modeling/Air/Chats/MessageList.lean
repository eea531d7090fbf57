import Air.Chats.Flights
import Air.Data.ListEdit

/-! # The message list window and its Dart mirror

`MessageListData` holds a window of a chat's messages, oldest first, with an index from message
ids to positions in it. Each call on it (`apply_messages` with one of three directions,
`update_message_in_place`, `remove_message`, `clear_first_unread_index`) changes the window and
returns a transition: the list of changes that the Dart cubit applies, in order, to its own
list, which shows the window newest first. A `Reload` replaces the Dart list, a `Splice` removes
and inserts at an index, a `Patch` replaces one element.

A `MessageListWorld` is the window, its state and the Dart list together, and `step` is one call
with its transition applied. The Dart list follows the window: every change stays within its
bounds, and it holds the window's messages newest first up to their flight positions
(`agrees_run`). Not with them: a loaded page is spliced in with the positions it had before
they were computed, and only the messages at the page's boundary are patched afterwards.
-/

namespace Air

open UiChatMessage

variable {β : Type}

def pageSize : ℕ := 64

def maxWindow : ℕ := pageSize * 10

structure MessageListState where
  isConnectionChat : Option Bool
  hasOlder : Bool
  hasNewer : Bool
  isAtBottom : Bool
  firstUnreadIndex : Option ℕ
  unreadCount : ℕ
  revision : ℕ
  deriving DecidableEq, Repr

def MessageListState.default : MessageListState :=
  ⟨none, false, false, false, none, 0, 0⟩

inductive MessageListTransitionKind where
  | windowReplaced
  | olderPageLoaded
  | newerPageLoaded
  | messageUpdated
  | messageDeleted
  | unreadBoundaryChanged
  | metaUpdated
  | commandIssued
  deriving DecidableEq, Repr

inductive MessageListCommand where
  | scrollToId (messageId : ℕ)
  | scrollToBottom
  deriving DecidableEq, Repr

inductive MessageListChange (β : Type) where
  | reload (messages : List (UiChatMessage β))
  | splice (index : ℕ) (messages : List (UiChatMessage β)) (deleteCount : ℕ)
  | patch (index : ℕ) (message : UiChatMessage β)
  deriving DecidableEq, Repr

structure MessageListTransition (β : Type) where
  revision : ℕ
  kind : MessageListTransitionKind
  changes : List (MessageListChange β)
  command : Option MessageListCommand
  deriving DecidableEq, Repr

inductive LoadDirection where
  | replace (hasOlder hasNewer isAtBottom : Bool) (firstUnreadIndex : Option ℕ)
      (unreadCount : ℕ) (command : Option MessageListCommand)
  | prependOlder (hasOlder : Bool)
  | appendNewer (hasNewer : Bool)
  deriving DecidableEq, Repr

structure ChatMessage (β : Type) where
  id : ℕ
  timestamp : ℤ
  message : UiMessage
  details : β
  deriving DecidableEq, Repr

def UiChatMessage.fromMessage (m : ChatMessage β) : UiChatMessage β :=
  ⟨m.id, m.timestamp, m.message, .single, m.details⟩

def newestFirst {α : Type} (messages : List α) : List α := messages.reverse

def newestIndex (len oldestIndex : ℕ) : ℕ := len - 1 - oldestIndex

def checkedSub (a b : ℕ) : Option ℕ := if b ≤ a then some (a - b) else none

/-- `rebuild_message_ids_index`: inserting each id with its index in order, so an id maps to the
last index it stands at. -/
def rebuildMessageIdsIndex (messages : List (UiChatMessage β)) (id : ℕ) : Option ℕ :=
  messages.zipIdx.foldl (fun acc p => if p.1.id = id then some p.2 else acc) none

/-- `MessageListData`; the `HashMap` is a function. -/
structure MessageListData (β : Type) where
  messages : List (UiChatMessage β)
  messageIdsIndex : ℕ → Option ℕ

def MessageListData.default : MessageListData β := ⟨[], fun _ => none⟩

/-- `push_patch_changes`: a patch for each index of `indices` inside the window, in increasing
order of index and each once, as the `BTreeSet` gives them. -/
def pushPatchChanges (messages : List (UiChatMessage β)) (indices : List ℕ) :
    List (MessageListChange β) :=
  (List.range messages.length).filterMap fun i =>
    if i ∈ indices then messages[i]?.map (.patch (newestIndex messages.length i)) else none

/-! ## `apply_messages` -/

/-- The boundary step of both page loads: where the old window and the page meet at index `k`,
the messages on both sides are recomputed, and their indices are to be patched. -/
def recomputeBoundary (messages : List (UiChatMessage β)) (k : ℕ) (unread : Option ℕ) :
    List (UiChatMessage β) × List ℕ :=
  if k > 0 ∧ messages.length > k then
    let boundaryStart := k - 1
    let boundaryEnd := min (k + 1) messages.length
    (recomputeFlightPositionsRange messages boundaryStart boundaryEnd unread,
      List.range' boundaryStart (boundaryEnd - boundaryStart))
  else (messages, [])

/-- The eviction of `PrependOlder`: `truncate(MAX_WINDOW)` drops the newest messages, and the new
last message is recomputed and patched. -/
def evictNewest (messages : List (UiChatMessage β)) (patchIndices : List ℕ)
    (shiftedUnread : Option ℕ) : List (UiChatMessage β) × List ℕ :=
  let messages := messages.take maxWindow
  match messages.length with
  | 0 => (messages, patchIndices)
  | lastIndex + 1 =>
    (recomputeFlightPositionsRange messages lastIndex (lastIndex + 1)
        (shiftedUnread.filter (· < lastIndex + 1)),
      patchIndices ++ [lastIndex])

/-- The eviction of `AppendNewer`: `drain(0..evict_count)` drops the oldest messages, the patch
indices move down with them, and the new first message is recomputed and patched. -/
def evictOldest (messages : List (UiChatMessage β)) (patchIndices : List ℕ)
    (unread : Option ℕ) (evictCount : ℕ) : List (UiChatMessage β) × List ℕ :=
  let messages := messages.drop evictCount
  let patchIndices := patchIndices.filterMap (checkedSub · evictCount)
  if messages.isEmpty then (messages, patchIndices)
  else
    (recomputeFlightPositionsRange messages 0 1 (unread.bind (checkedSub · evictCount)),
      patchIndices ++ [0])

/-- `MessageListData::apply_messages`: the new window, the new state and the transition. -/
def MessageListData.applyMessages (data : MessageListData β) (state : MessageListState)
    (newMessages : List (ChatMessage β)) (isConnectionChat : Option Bool) :
    LoadDirection → MessageListData β × MessageListState × MessageListTransition β
  | .replace hasOlder hasNewer isAtBottom firstUnreadIndex unreadCount nextCommand =>
    let messages := computeFlightPositions (newMessages.map fromMessage) firstUnreadIndex
    let state : MessageListState := {
      isConnectionChat := isConnectionChat.or state.isConnectionChat
      hasOlder := hasOlder
      hasNewer := hasNewer
      isAtBottom := isAtBottom
      firstUnreadIndex := firstUnreadIndex
      unreadCount := unreadCount
      revision := state.revision + 1 }
    (⟨messages, rebuildMessageIdsIndex messages⟩, state,
      ⟨state.revision, .windowReplaced, [.reload (newestFirst messages)], nextCommand⟩)
  | .prependOlder hasOlder =>
    let prepended := newMessages.map fromMessage
    let prependCount := prepended.length
    let oldLen := data.messages.length
    let insertedMessages := newestFirst prepended
    let shiftedUnread := state.firstUnreadIndex.map (· + prependCount)
    let boundary := recomputeBoundary
      (computeFlightPositions prepended none ++ data.messages) prependCount shiftedUnread
    let evictCount := boundary.1.length - maxWindow
    let evicted :=
      if evictCount > 0 then evictNewest boundary.1 boundary.2 shiftedUnread else boundary
    let messages := evicted.1
    let hasNewer := if evictCount > 0 then true else state.hasNewer
    let state : MessageListState := { state with
      hasNewer := hasNewer
      firstUnreadIndex := shiftedUnread.filter (· < messages.length)
      hasOlder := hasOlder
      isAtBottom := !hasNewer && state.isAtBottom
      revision := state.revision + 1 }
    let changes := [MessageListChange.splice oldLen insertedMessages 0] ++
      (if evictCount > 0 then [MessageListChange.splice 0 [] evictCount] else []) ++
      pushPatchChanges messages evicted.2
    (⟨messages, rebuildMessageIdsIndex messages⟩, state,
      ⟨state.revision, .olderPageLoaded, changes, none⟩)
  | .appendNewer hasNewer =>
    let appended := newMessages.map fromMessage
    let oldCount := data.messages.length
    let appendedCount := appended.length
    let insertedMessages := newestFirst appended
    let boundary := recomputeBoundary
      (data.messages ++ computeFlightPositions appended none) oldCount state.firstUnreadIndex
    let evictCount := boundary.1.length - maxWindow
    let evicted :=
      if evictCount > 0 then evictOldest boundary.1 boundary.2 state.firstUnreadIndex evictCount
      else boundary
    let messages := evicted.1
    let state : MessageListState := { state with
      hasOlder := if evictCount > 0 then true else state.hasOlder
      firstUnreadIndex := state.firstUnreadIndex.bind (checkedSub · evictCount)
      hasNewer := hasNewer
      isAtBottom := !hasNewer
      revision := state.revision + 1 }
    let changes := [MessageListChange.splice 0 insertedMessages 0] ++
      (if evictCount > 0 then
        [MessageListChange.splice (oldCount + appendedCount - evictCount) [] evictCount]
      else []) ++
      pushPatchChanges messages evicted.2
    (⟨messages, rebuildMessageIdsIndex messages⟩, state,
      ⟨state.revision, .newerPageLoaded, changes, none⟩)

/-! ## The other calls -/

/-- A panic of a Rust call: an index out of the window. -/
inductive Panic where
  | indexOutOfBounds
  deriving DecidableEq, Repr

def MessageListData.clearFirstUnreadIndex (data : MessageListData β) (state : MessageListState) :
    Option (MessageListData β × MessageListState × MessageListTransition β) :=
  state.firstUnreadIndex.map fun unreadIdx =>
    let start := unreadIdx - 1
    let stop := min (unreadIdx + 1) data.messages.length
    let messages := recomputeFlightPositionsRange data.messages start stop none
    let state := { state with
      firstUnreadIndex := none
      unreadCount := 0
      revision := state.revision + 1 }
    ({ data with messages := messages }, state,
      ⟨state.revision, .unreadBoundaryChanged,
        pushPatchChanges messages (List.range' start (stop - start)), none⟩)

/-- `update_message_in_place`: `none` when the id is not in the window or nothing changed. -/
def MessageListData.updateMessageInPlace (data : MessageListData β) (state : MessageListState)
    [DecidableEq β] (message : ChatMessage β) :
    Except Panic (Option (MessageListData β × MessageListState × MessageListTransition β)) :=
  match data.messageIdsIndex message.id with
  | none => .ok none
  | some idx =>
    let updated := fromMessage message
    -- `self.messages[idx]` panics out of the window
    match data.messages[idx]? with
    | none => .error .indexOutOfBounds
    | some current =>
      if current = updated then .ok none
      else
        let start := idx - 1
        let stop := min (idx + 2) data.messages.length
        let messages := recomputeFlightPositionsRange (data.messages.set idx updated) start stop
          state.firstUnreadIndex
        let state := { state with revision := state.revision + 1 }
        .ok (some ({ data with messages := messages }, state,
          ⟨state.revision, .messageUpdated,
            pushPatchChanges messages (List.range' start (stop - start)), none⟩))

def unreadAfterRemove (firstUnreadIndex : Option ℕ) (idx len : ℕ) : Option ℕ :=
  match firstUnreadIndex with
  | some firstUnread =>
    if firstUnread > idx then checkedSub firstUnread 1
    else if firstUnread = idx then (if idx < len then some idx else none)
    else some firstUnread
  | none => none

def MessageListData.removeMessage (data : MessageListData β) (state : MessageListState)
    (messageId : ℕ) :
    Except Panic (Option (MessageListData β × MessageListState × MessageListTransition β)) :=
  match data.messageIdsIndex messageId with
  | none => .ok none
  | some idx =>
    -- `Vec::remove` panics out of the window
    if idx < data.messages.length then
      let lenBefore := data.messages.length
      let removed := data.messages.eraseIdx idx
      let firstUnreadIndex := unreadAfterRemove state.firstUnreadIndex idx removed.length
      let start := idx - 1
      let stop := min (idx + 1) removed.length
      let messages := recomputeFlightPositionsRange removed start stop firstUnreadIndex
      let state := { state with
        firstUnreadIndex := firstUnreadIndex
        revision := state.revision + 1 }
      .ok (some (⟨messages, rebuildMessageIdsIndex messages⟩, state,
        ⟨state.revision, .messageDeleted,
          .splice (newestIndex lenBefore idx) [] 1 ::
            pushPatchChanges messages (List.range' start (stop - start)), none⟩))
    else .error .indexOutOfBounds

/-! ## The Dart list -/

/-- One change as `_applyTransition` makes it on the Dart list: `removeRange` when something is
deleted, then `insertAll` when something is inserted. `none` where Dart throws a `RangeError`. -/
def applyChange (l : List (UiChatMessage β)) :
    MessageListChange β → Option (List (UiChatMessage β))
  | .reload messages => some messages
  | .splice index messages deleteCount => do
    let l ← if deleteCount > 0 then
        if index + deleteCount ≤ l.length then some (l.take index ++ l.drop (index + deleteCount))
        else none
      else some l
    if messages.isEmpty then some l
    else if index ≤ l.length then some (l.take index ++ messages ++ l.drop index) else none
  | .patch index message => if index < l.length then some (l.set index message) else none

def applyTransition (l : List (UiChatMessage β)) (t : MessageListTransition β) :
    Option (List (UiChatMessage β)) :=
  if t.changes.isEmpty then some l else t.changes.foldlM applyChange l

/-! ## Calls and their transitions together -/

inductive MessageListOp (β : Type) where
  | applyMessages (newMessages : List (ChatMessage β)) (isConnectionChat : Option Bool)
      (direction : LoadDirection)
  | updateMessageInPlace (message : ChatMessage β)
  | removeMessage (messageId : ℕ)
  | clearFirstUnreadIndex

structure MessageListWorld (β : Type) where
  data : MessageListData β
  state : MessageListState
  list : List (UiChatMessage β)

namespace MessageListWorld

def init : MessageListWorld β := ⟨.default, .default, []⟩

def commit (w : MessageListWorld β) :
    Option (MessageListData β × MessageListState × MessageListTransition β) →
      Option (MessageListWorld β)
  | none => some w
  | some (data, state, t) => (applyTransition w.list t).map fun l => ⟨data, state, l⟩

/-- One call and its transition; `none` when the call panics or Dart throws. -/
def step [DecidableEq β] (w : MessageListWorld β) : MessageListOp β → Option (MessageListWorld β)
  | .applyMessages newMessages isConnectionChat direction =>
    w.commit (some (w.data.applyMessages w.state newMessages isConnectionChat direction))
  | .updateMessageInPlace message =>
    match w.data.updateMessageInPlace w.state message with
    | .ok r => w.commit r
    | .error _ => none
  | .removeMessage messageId =>
    match w.data.removeMessage w.state messageId with
    | .ok r => w.commit r
    | .error _ => none
  | .clearFirstUnreadIndex => w.commit (w.data.clearFirstUnreadIndex w.state)

def run [DecidableEq β] (w : MessageListWorld β) : List (MessageListOp β) → Option (MessageListWorld β)
  | [] => some w
  | op :: ops => (w.step op).bind fun w' => w'.run ops

end MessageListWorld

end Air
