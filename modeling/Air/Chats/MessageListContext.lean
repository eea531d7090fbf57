import Mathlib
import Air.Chats.MessageListMirror
import Air.Chats.Pagination
import Air.Data.Extract

/-! # The message list context over a chat

`MessageListContext` owns the window of one chat and answers the cubit's commands with the
queries of `persistence.rs`: the newest messages (`load_bottom`), a page before the oldest
message of the window (`handle_load_older`), a page after its newest (`handle_load_newer`), and
a window around a message (`initial_load` around the first unread one,
`handle_jump_to_message` around a target).

What the window is for is an interval `[lo, hi)` of the chat's messages in key order, `Span`,
that each command moves by a page and cuts back to `MAX_WINDOW` messages. When every row of the
chat decodes, the context refines it: after the initial load and over every run of commands,
whatever the database answers, the window holds exactly the messages of an interval, oldest
first and up to their flight positions, `has_older` and `has_newer` say whether the chat has
messages before and after it, and `is_at_bottom` is `!has_newer` (`shows_run`). Only a failed
load leaves the context as it was created, until a later command loads a window.

Store notifications, which change the table while the context runs, are not modelled here: the
table is fixed over a run.
-/

namespace Air

open UiChatMessage

variable {β : Type}

/-- The cursor `(timestamp, message_id)` of a message, which the queries compare as a row. -/
def ChatMessage.key (m : ChatMessage β) : ℤ ×ₗ ℕ := toLex (m.timestamp, m.id)

def UiChatMessage.key (m : UiChatMessage β) : ℤ ×ₗ ℕ := toLex (m.timestamp, m.id)

@[simp] theorem UiChatMessage.key_erase (m : UiChatMessage β) : m.erase.key = m.key := rfl

@[simp] theorem UiChatMessage.key_fromMessage (m : ChatMessage β) :
    (fromMessage m).key = m.key := rfl

abbrev ChatTable (β : Type) := MessageTable (ℤ ×ₗ ℕ) (ChatMessage β)

/-- `ChatMessage::load_multiple`: the newest `number_of_messages` rows that decode, oldest
first. -/
def loadMultiple (t : ChatTable β) (numberOfMessages : ℕ) : List (ChatMessage β) :=
  ((decodeRows (t.select (fun _ => true) true numberOfMessages)).reverse).map Prod.snd

def MessageListData.issueCommand (state : MessageListState) (command : MessageListCommand) :
    MessageListState × MessageListTransition β :=
  let state := { state with revision := state.revision + 1 }
  (state, ⟨state.revision, .commandIssued, [], some command⟩)

/-- `MessageListContext`, with what its handlers read and write: the window and the state it
last emitted. -/
structure MessageListContext (β : Type) where
  data : MessageListData β
  state : MessageListState

inductive Command where
  | loadOlder
  | loadNewer
  | jumpToBottom
  | jumpToMessage (messageId : ℕ)
  deriving DecidableEq, Repr

/-- What the database answers while a command is handled: whether the page query succeeds,
what `load_is_connection_chat` finds, and the message that `message(message_id)` finds for a
jump, `none` when it is missing or its lookup fails. -/
structure Answers (β : Type) where
  ok : Bool
  isConnectionChat : Option Bool
  target : Option (ChatMessage β)

namespace MessageListContext

def new : MessageListContext β := ⟨.default, .default⟩

def applyMessages (ctx : MessageListContext β) (messages : List (ChatMessage β))
    (isConnectionChat : Option Bool) (direction : LoadDirection) : MessageListContext β :=
  let r := ctx.data.applyMessages ctx.state messages isConnectionChat direction
  ⟨r.1, r.2.1⟩

variable (t : ChatTable β)

/-- `load_bottom`: the newest `PAGE_SIZE` messages, with one more fetched for `has_older`. -/
def loadBottom (ctx : MessageListContext β) (ok : Bool) (isConnectionChat : Option Bool)
    (scrollToBottom : Bool) : MessageListContext β :=
  if ok then
    let messages := loadMultiple t (pageSize + 1)
    let hasOlder := messages.length > pageSize
    let messages := if hasOlder then messages.drop 1 else messages
    ctx.applyMessages messages isConnectionChat
      (.replace hasOlder false true none 0 (if scrollToBottom then some .scrollToBottom else none))
  else ctx

/-- `handle_load_older`: a page before the oldest message of the window; an empty page only
clears `has_older`. -/
def handleLoadOlder (ctx : MessageListContext β) (ok : Bool) : MessageListContext β :=
  match ctx.data.messages.head? with
  | none => ctx
  | some oldest =>
    if ok then
      let (messages, hasOlder) := loadBefore t oldest.key pageSize
      if messages.isEmpty then
        ⟨ctx.data, { ctx.state with hasOlder := hasOlder, revision := ctx.state.revision + 1 }⟩
      else ctx.applyMessages (messages.map Prod.snd) none (.prependOlder hasOlder)
    else ctx

/-- `handle_load_newer`: a page after the newest message of the window; an empty page only
clears `has_newer`. -/
def handleLoadNewer (ctx : MessageListContext β) (ok : Bool) : MessageListContext β :=
  match ctx.data.messages.getLast? with
  | none => ctx
  | some newest =>
    if ok then
      let (messages, hasNewer) := loadAfter t newest.key pageSize
      if messages.isEmpty then
        ⟨ctx.data, { ctx.state with hasNewer := hasNewer, revision := ctx.state.revision + 1 }⟩
      else ctx.applyMessages (messages.map Prod.snd) none (.appendNewer hasNewer)
    else ctx

def handleJumpToBottom (ctx : MessageListContext β) (a : Answers β) : MessageListContext β :=
  ctx.loadBottom t a.ok a.isConnectionChat true

/-- `handle_jump_to_message`: a scroll command when the message is in the window, else the
window around it. -/
def handleJumpToMessage (ctx : MessageListContext β) (messageId : ℕ) (a : Answers β) :
    MessageListContext β :=
  if (ctx.data.messageIdsIndex messageId).isSome then
    ⟨ctx.data, (MessageListData.issueCommand (β := β) ctx.state (.scrollToId messageId)).1⟩
  else
    match a.target with
    | none => ctx
    | some message =>
      if a.ok then
        let (messages, hasOlder, hasNewer) := loadAround t message.key pageSize
        ctx.applyMessages (messages.map Prod.snd) a.isConnectionChat
          (.replace hasOlder hasNewer (!hasNewer) none 0 (some (.scrollToId messageId)))
      else ctx

/-- `initial_load`: the window around the first unread message, or the bottom when there is
none or its lookup fails. -/
def initialLoad (ctx : MessageListContext β) (firstUnread : Option (ChatMessage β))
    (unreadCount : ℕ) (a : Answers β) : MessageListContext β :=
  match firstUnread with
  | some unread =>
    if a.ok then
      let (messages, hasOlder, hasNewer) := loadAround t unread.key pageSize
      let messages := messages.map Prod.snd
      ctx.applyMessages messages a.isConnectionChat
        (.replace hasOlder hasNewer (!hasNewer) (messages.findIdx? (·.id = unread.id))
          unreadCount none)
    else ctx
  | none => ctx.loadBottom t a.ok a.isConnectionChat false

/-- One command of `run_loop`. -/
def handle (ctx : MessageListContext β) : Command → Answers β → MessageListContext β
  | .loadOlder, a => ctx.handleLoadOlder t a.ok
  | .loadNewer, a => ctx.handleLoadNewer t a.ok
  | .jumpToBottom, a => ctx.handleJumpToBottom t a
  | .jumpToMessage messageId, a => ctx.handleJumpToMessage t messageId a

/-- `run_loop` over a sequence of commands, each with what the database answered. -/
def run (ctx : MessageListContext β) : List (Command × Answers β) → MessageListContext β
  | [] => ctx
  | (c, a) :: rest => (ctx.handle t c a).run rest

end MessageListContext

/-! ## The window as an interval of the chat -/

/-- An interval `[lo, hi)` of a chat's messages in key order. -/
structure Span where
  lo : ℕ
  hi : ℕ
  deriving DecidableEq, Repr

namespace Span

def bottom (n : ℕ) : Span := ⟨n - pageSize, n⟩

def around (n c : ℕ) : Span := ⟨c - pageSize, min (c + pageSize) n⟩

def older (s : Span) : Span := ⟨s.lo - pageSize, min s.hi (s.lo - pageSize + maxWindow)⟩

def newer (n : ℕ) (s : Span) : Span :=
  ⟨max s.lo (min (s.hi + pageSize) n - maxWindow), min (s.hi + pageSize) n⟩

/-- An interval of a chat of `n` messages that a window can show: at most `MAX_WINDOW` long,
and not empty unless the chat is. -/
structure Valid (n : ℕ) (s : Span) : Prop where
  lo_le : s.lo ≤ s.hi
  hi_le : s.hi ≤ n
  bounded : s.hi - s.lo ≤ maxWindow
  nonempty : 0 < n → s.lo < s.hi

variable {n : ℕ} {s : Span}

theorem valid_bottom (n : ℕ) : (bottom n).Valid n where
  lo_le := Nat.sub_le n pageSize
  hi_le := le_rfl
  bounded := by simp only [bottom, maxWindow, pageSize]; omega
  nonempty := by simp only [bottom, pageSize]; omega

theorem valid_around {c : ℕ} (hc : c ≤ n) : (around n c).Valid n where
  lo_le := by simp only [around, pageSize]; omega
  hi_le := min_le_right _ _
  bounded := by simp only [around, maxWindow, pageSize]; omega
  nonempty := by simp only [around, pageSize]; omega

theorem older_eq_self (hlo : s.lo = 0) (hb : s.hi - s.lo ≤ maxWindow) : s.older = s := by
  obtain ⟨lo, hi⟩ := s
  simp only [Span.older, Span.mk.injEq] at hlo hb ⊢
  omega

theorem newer_eq_self (hhi : s.hi = n) (hb : s.hi - s.lo ≤ maxWindow) : s.newer n = s := by
  obtain ⟨lo, hi⟩ := s
  simp only [Span.newer, Span.mk.injEq] at hhi hb ⊢
  omega

theorem Valid.older (h : s.Valid n) : s.older.Valid n where
  lo_le := by have := h.lo_le; simp only [Span.older, maxWindow, pageSize]; omega
  hi_le := le_trans (min_le_left _ _) h.hi_le
  bounded := by simp only [Span.older]; omega
  nonempty hn := by have := h.nonempty hn; simp only [Span.older, maxWindow, pageSize]; omega

theorem Valid.newer (h : s.Valid n) : (s.newer n).Valid n where
  lo_le := by have := h.lo_le; have := h.hi_le; simp only [Span.newer, maxWindow, pageSize]; omega
  hi_le := min_le_right _ _
  bounded := by simp only [Span.newer]; omega
  nonempty hn := by
    have := h.nonempty hn; have := h.hi_le; simp only [Span.newer, maxWindow, pageSize]; omega

end Span

/-! ## The queries on a chat whose rows all decode -/

section Queries

variable {κ α : Type} [LinearOrder κ]

theorem MessageTable.decodable_eq_filter (t : MessageTable κ α) (keyFilter : κ → Bool) :
    t.decodable keyFilter = (t.decodable fun _ => true).filter fun r => keyFilter r.1 := by
  rw [MessageTable.decodable, MessageTable.decodable, List.filter_true, decodeRows_filter]

/-- The number of decodable rows at or below a key: where a window around it is centred. -/
def MessageTable.rank (t : MessageTable κ α) (anchor : κ) : ℕ :=
  (t.decodable fun _ => true).countP fun r => r.1 ≤ anchor

theorem MessageTable.rank_le_length (t : MessageTable κ α) (anchor : κ) :
    t.rank anchor ≤ (t.decodable fun _ => true).length :=
  List.countP_le_length

theorem mem_decodable_of_mem_rows {t : MessageTable κ α} {k : κ} {m : α}
    (hr : (k, some m) ∈ t.rows) : (k, m) ∈ t.decodable fun _ => true := by
  rw [MessageTable.decodable, List.filter_true, decodeRows, List.mem_filterMap]
  exact ⟨_, hr, rfl⟩

theorem rank_getElem {t : MessageTable κ α} {j : ℕ} (hj : j < (t.decodable fun _ => true).length) :
    t.rank (t.decodable fun _ => true)[j].1 = j + 1 :=
  List.countP_le_getElem (t.pairwise_decodable _) hj

variable {t : MessageTable κ α} (hdec : ∀ r ∈ t.rows, r.2.isSome)
include hdec

theorem decodeRows_select_newest (n : ℕ) :
    (decodeRows (t.select (fun _ => true) true n)).reverse = (t.decodable fun _ => true).rtake n := by
  have hall : ∀ r ∈ (t.rows.filter fun _ => true).reverse, r.2.isSome := fun r hr =>
    hdec r (List.mem_of_mem_filter (List.mem_reverse.mp hr))
  rw [MessageTable.select, if_pos rfl, decodeRows_take hall, decodeRows_reverse,
    List.rtake_eq_reverse_take_reverse, MessageTable.decodable]

theorem loadBefore_of_getElem? {limit : ℕ} (hlimit : limit + 1 < 2 ^ 32) {j : ℕ} {r : κ × α}
    (hr : (t.decodable fun _ => true)[j]? = some r) :
    loadBefore t r.1 limit =
      ((t.decodable fun _ => true).extract (j - limit) j, decide (limit < j)) := by
  obtain ⟨hj, rfl⟩ := List.getElem?_eq_some_iff.mp hr
  have hrows : (t.decodable fun k => k < (t.decodable fun _ => true)[j].1) =
      (t.decodable fun _ => true).take j := by
    rw [MessageTable.decodable_eq_filter]
    exact filter_lt_getElem (t.pairwise_decodable _) hj
  rw [loadBefore, loadPage_eq_exactPage _ _ _ (fun r hr _ => hdec r hr) hlimit, exactPage,
    if_pos rfl, hrows, List.rtake_take _ hj.le, List.length_take, Nat.min_eq_left hj.le]

theorem loadAfter_of_getElem? {limit : ℕ} (hlimit : limit + 1 < 2 ^ 32) {j : ℕ} {r : κ × α}
    (hr : (t.decodable fun _ => true)[j]? = some r) :
    loadAfter t r.1 limit = ((t.decodable fun _ => true).extract (j + 1) (j + 1 + limit),
      decide (limit < (t.decodable fun _ => true).length - (j + 1))) := by
  obtain ⟨hj, rfl⟩ := List.getElem?_eq_some_iff.mp hr
  have hrows : (t.decodable fun k => (t.decodable fun _ => true)[j].1 < k) =
      (t.decodable fun _ => true).drop (j + 1) := by
    rw [MessageTable.decodable_eq_filter]
    exact List.filter_gt_getElem (t.pairwise_decodable _) hj
  rw [loadAfter, loadPage_eq_exactPage _ _ _ (fun r hr _ => hdec r hr) hlimit, exactPage,
    if_neg Bool.false_ne_true, hrows, List.take_drop_eq_extract, List.length_drop]

theorem loadAround_eq {limit : ℕ} (hlimit : limit + 1 < 2 ^ 32) (anchor : κ) :
    loadAround t anchor limit =
      ((t.decodable fun _ => true).extract (t.rank anchor - limit)
          (min (t.rank anchor + limit) (t.decodable fun _ => true).length),
        decide (limit < t.rank anchor),
        decide (limit < (t.decodable fun _ => true).length - t.rank anchor)) := by
  have hc := t.rank_le_length anchor
  have hbelow : (t.decodable fun k => k ≤ anchor) = (t.decodable fun _ => true).take (t.rank anchor) := by
    rw [MessageTable.decodable_eq_filter]
    exact List.filter_le_eq_take (t.pairwise_decodable _) anchor
  have habove : (t.decodable fun k => anchor < k) = (t.decodable fun _ => true).drop (t.rank anchor) := by
    rw [MessageTable.decodable_eq_filter]
    exact List.filter_lt_eq_drop (t.pairwise_decodable _) anchor
  have hjoin : (t.decodable fun _ => true).extract (t.rank anchor - limit) (t.rank anchor) ++
      (t.decodable fun _ => true).extract (t.rank anchor) (t.rank anchor + limit) =
      (t.decodable fun _ => true).extract (t.rank anchor - limit)
        (min (t.rank anchor + limit) (t.decodable fun _ => true).length) := by
    rw [List.extract_append_extract _ (Nat.sub_le _ limit) (Nat.le_add_right _ limit),
      List.extract_min_length]
  simp only [loadAround, loadPage_eq_exactPage _ _ _ (fun r hr _ => hdec r hr) hlimit,
    exactPage, ↓reduceIte, Bool.false_eq_true, hbelow, habove]
  rw [List.rtake_take _ hc, List.take_drop_eq_extract, List.length_take, Nat.min_eq_left hc,
    List.length_drop, hjoin]

end Queries

def messagesOf (t : ChatTable β) : List (ChatMessage β) := (t.decodable fun _ => true).map Prod.snd

theorem key_of_mem_decodable {t : ChatTable β} (hkey : ∀ r ∈ t.rows, ∀ m ∈ r.2, r.1 = m.key)
    {keyFilter : ℤ ×ₗ ℕ → Bool} {r : (ℤ ×ₗ ℕ) × ChatMessage β} (hr : r ∈ t.decodable keyFilter) :
    r.1 = r.2.key := by
  rw [MessageTable.decodable, decodeRows, List.mem_filterMap] at hr
  obtain ⟨r₀, hr₀, hm⟩ := hr
  obtain ⟨m, hm₀, rfl⟩ := Option.map_eq_some_iff.mp hm
  exact hkey r₀ (List.mem_of_mem_filter hr₀) m hm₀

/-! ## What `apply_messages` makes of the window and the flags -/

namespace MessageListContext

variable (ctx : MessageListContext β) (page : List (ChatMessage β)) (icc : Option Bool)

theorem index_applyMessages (direction : LoadDirection) :
    (ctx.applyMessages page icc direction).data.messageIdsIndex =
      rebuildMessageIdsIndex (ctx.applyMessages page icc direction).data.messages := by
  cases direction <;> simp only [applyMessages, MessageListData.applyMessages]

theorem applyMessages_replace (hasOlder hasNewer isAtBottom : Bool) (firstUnreadIndex : Option ℕ)
    (unreadCount : ℕ) (command : Option MessageListCommand) :
    let ctx' := ctx.applyMessages page icc
      (.replace hasOlder hasNewer isAtBottom firstUnreadIndex unreadCount command)
    ctx'.data.messages.map erase = page.map fromMessage ∧
      ctx'.state.hasOlder = hasOlder ∧ ctx'.state.hasNewer = hasNewer ∧
      ctx'.state.isAtBottom = isAtBottom ∧ ctx'.state.firstUnreadIndex = firstUnreadIndex := by
  refine ⟨?_, rfl, rfl, rfl, rfl⟩
  simp only [applyMessages, MessageListData.applyMessages]
  rw [map_erase_computeFlightPositions, map_erase_fromMessage]

theorem applyMessages_prependOlder (hasOlder : Bool) :
    let ctx' := ctx.applyMessages page icc (.prependOlder hasOlder)
    ctx'.data.messages.map erase =
        (page.map fromMessage ++ ctx.data.messages.map erase).take maxWindow ∧
      ctx'.state.hasOlder = hasOlder ∧
      ctx'.state.hasNewer =
        (decide (maxWindow < page.length + ctx.data.messages.length) || ctx.state.hasNewer) ∧
      ctx'.state.isAtBottom = (!ctx'.state.hasNewer && ctx.state.isAtBottom) ∧
      ∀ i ∈ ctx'.state.firstUnreadIndex, i < ctx'.data.messages.length := by
  simp only [applyMessages, MessageListData.applyMessages]
  generalize hB : recomputeBoundary _ _ _ = boundary
  have hB₁ : boundary.1.map erase = (page.map fromMessage ++ ctx.data.messages).map erase := by
    rw [← hB, map_erase_recomputeBoundary, List.map_append, List.map_append,
      map_erase_computeFlightPositions]
  have hlen : boundary.1.length = page.length + ctx.data.messages.length := by
    simpa using congrArg List.length hB₁
  refine ⟨?_, trivial, ?_, trivial, ?_⟩
  · split_ifs with he
    · rw [map_erase_evictNewest, List.map_take, hB₁, List.map_append, map_erase_fromMessage]
    · rw [hB₁, List.map_append, map_erase_fromMessage, List.take_of_length_le (by simp; omega)]
  · rw [hlen]
    by_cases he : maxWindow < page.length + ctx.data.messages.length <;> simp [he]
  · intro i hi
    simpa using (Option.mem_filter_iff.mp hi).2

theorem applyMessages_appendNewer (hasNewer : Bool) :
    let ctx' := ctx.applyMessages page icc (.appendNewer hasNewer)
    let evictCount := ctx.data.messages.length + page.length - maxWindow
    ctx'.data.messages.map erase =
        (ctx.data.messages.map erase ++ page.map fromMessage).drop evictCount ∧
      ctx'.state.hasOlder = (decide (0 < evictCount) || ctx.state.hasOlder) ∧
      ctx'.state.hasNewer = hasNewer ∧ ctx'.state.isAtBottom = !hasNewer ∧
      ctx'.state.firstUnreadIndex = ctx.state.firstUnreadIndex.bind (checkedSub · evictCount) := by
  simp only [applyMessages, MessageListData.applyMessages]
  generalize hB : recomputeBoundary _ _ _ = boundary
  have hB₁ : boundary.1.map erase = (ctx.data.messages ++ page.map fromMessage).map erase := by
    rw [← hB, map_erase_recomputeBoundary, List.map_append, List.map_append,
      map_erase_computeFlightPositions]
  have hlen : boundary.1.length = ctx.data.messages.length + page.length := by
    simpa using congrArg List.length hB₁
  refine ⟨?_, ?_, trivial, trivial, ?_⟩
  · split_ifs with he
    · rw [map_erase_evictOldest, List.map_drop, hB₁, List.map_append, map_erase_fromMessage, hlen]
    · rw [hB₁, List.map_append, map_erase_fromMessage, show ctx.data.messages.length +
        page.length - maxWindow = 0 by omega, List.drop_zero]
  · rw [hlen]
    by_cases he : 0 < ctx.data.messages.length + page.length - maxWindow <;> simp [he]
  · rw [hlen]

end MessageListContext

/-! ## The context refines the interval -/

/-- The context shows the interval `s` of the chat: the window holds its messages, oldest first
and up to flight positions, with the index built from it, the flags say exactly what lies
outside it, and the first unread index points into the window. -/
structure Shows (t : ChatTable β) (ctx : MessageListContext β) (s : Span) : Prop where
  valid : s.Valid (messagesOf t).length
  window : ctx.data.messages.map erase = ((messagesOf t).extract s.lo s.hi).map fromMessage
  index : ctx.data.messageIdsIndex = rebuildMessageIdsIndex ctx.data.messages
  hasOlder : ctx.state.hasOlder = decide (0 < s.lo)
  hasNewer : ctx.state.hasNewer = decide (s.hi < (messagesOf t).length)
  isAtBottom : ctx.state.isAtBottom = !ctx.state.hasNewer
  unread : ∀ i ∈ ctx.state.firstUnreadIndex, i < ctx.data.messages.length

namespace Shows

variable {t : ChatTable β} {ctx : MessageListContext β} {s : Span}

theorem length_messages (h : Shows t ctx s) : ctx.data.messages.length = s.hi - s.lo := by
  have hlen := congrArg List.length h.window
  rw [List.length_map, List.length_map, List.length_extract,
    Nat.min_eq_left h.valid.hi_le] at hlen
  exact hlen

theorem of_flags_eq (h : Shows t ctx s) {state : MessageListState}
    (hOlder : state.hasOlder = ctx.state.hasOlder) (hNewer : state.hasNewer = ctx.state.hasNewer)
    (hBottom : state.isAtBottom = ctx.state.isAtBottom)
    (hUnread : state.firstUnreadIndex = ctx.state.firstUnreadIndex) :
    Shows t ⟨ctx.data, state⟩ s where
  valid := h.valid
  window := h.window
  index := h.index
  hasOlder := hOlder.trans h.hasOlder
  hasNewer := hNewer.trans h.hasNewer
  isAtBottom := by rw [hBottom, hNewer]; exact h.isAtBottom
  unread := hUnread ▸ h.unread

variable (hkey : ∀ r ∈ t.rows, ∀ m ∈ r.2, r.1 = m.key)
include hkey

theorem head?_key (h : Shows t ctx s) {oldest : UiChatMessage β}
    (hm : ctx.data.messages.head? = some oldest) :
    s.lo < s.hi ∧ ∃ r, (t.decodable fun _ => true)[s.lo]? = some r ∧ r.1 = oldest.key := by
  have hne : s.lo < s.hi := by
    have hpos : 0 < ctx.data.messages.length :=
      List.length_pos_iff_ne_nil.mpr fun h0 => by simp [h0] at hm
    rw [h.length_messages] at hpos
    omega
  have hhead := congrArg List.head? h.window
  rw [List.head?_map, List.head?_map, hm, List.head?_extract _ hne, messagesOf,
    List.getElem?_map] at hhead
  obtain ⟨r, hr, hrm⟩ : ∃ r, (t.decodable fun _ => true)[s.lo]? = some r ∧
      fromMessage r.2 = oldest.erase := by
    cases hD : (t.decodable fun _ => true)[s.lo]? with
    | none => simp [hD] at hhead
    | some r => exact ⟨r, rfl, by simpa [hD] using hhead.symm⟩
  refine ⟨hne, r, hr, ?_⟩
  calc r.1 = r.2.key := key_of_mem_decodable hkey (List.mem_of_getElem? hr)
    _ = (fromMessage r.2).key := rfl
    _ = oldest.key := by rw [hrm, key_erase]

theorem getLast?_key (h : Shows t ctx s) {newest : UiChatMessage β}
    (hm : ctx.data.messages.getLast? = some newest) :
    s.lo < s.hi ∧ ∃ r, (t.decodable fun _ => true)[s.hi - 1]? = some r ∧ r.1 = newest.key := by
  have hne : s.lo < s.hi := by
    have hpos : 0 < ctx.data.messages.length :=
      List.length_pos_iff_ne_nil.mpr fun h0 => by simp [h0] at hm
    rw [h.length_messages] at hpos
    omega
  have hlast := congrArg List.getLast? h.window
  rw [List.getLast?_map, List.getLast?_map, hm, List.getLast?_extract _ hne
    (by simpa using h.valid.hi_le), messagesOf, List.getElem?_map] at hlast
  obtain ⟨r, hr, hrm⟩ : ∃ r, (t.decodable fun _ => true)[s.hi - 1]? = some r ∧
      fromMessage r.2 = newest.erase := by
    cases hD : (t.decodable fun _ => true)[s.hi - 1]? with
    | none => simp [hD] at hlast
    | some r => exact ⟨r, rfl, by simpa [hD] using hlast.symm⟩
  refine ⟨hne, r, hr, ?_⟩
  calc r.1 = r.2.key := key_of_mem_decodable hkey (List.mem_of_getElem? hr)
    _ = (fromMessage r.2).key := rfl
    _ = newest.key := by rw [hrm, key_erase]

end Shows

/-! ## Each handler moves the interval -/

theorem pageSize_pos : 0 < pageSize := by decide

theorem pageSize_succ_lt : pageSize + 1 < 2 ^ 32 := by decide

namespace MessageListContext

section Handlers

variable {t : ChatTable β}

theorem shows_replace (ctx : MessageListContext β) {s : Span} (hs : s.Valid (messagesOf t).length)
    {page : List (ChatMessage β)} (hpage : page = (messagesOf t).extract s.lo s.hi)
    (icc : Option Bool) {hasOlder hasNewer : Bool} (hOlder : hasOlder = decide (0 < s.lo))
    (hNewer : hasNewer = decide (s.hi < (messagesOf t).length)) {firstUnreadIndex : Option ℕ}
    (hUnread : ∀ i ∈ firstUnreadIndex, i < page.length) (unreadCount : ℕ)
    (command : Option MessageListCommand) :
    Shows t (ctx.applyMessages page icc
      (.replace hasOlder hasNewer (!hasNewer) firstUnreadIndex unreadCount command)) s := by
  subst hpage
  obtain ⟨hw, ho, hn, hb, hu⟩ := ctx.applyMessages_replace ((messagesOf t).extract s.lo s.hi) icc
    hasOlder hasNewer (!hasNewer) firstUnreadIndex unreadCount command
  have hlen := congrArg List.length hw
  rw [List.length_map, List.length_map] at hlen
  exact {
    valid := hs
    window := hw
    index := index_applyMessages ..
    hasOlder := ho.trans hOlder
    hasNewer := hn.trans hNewer
    isAtBottom := by rw [hb, hn]
    unread := by rw [hu, hlen]; exact hUnread }

theorem shows_prependOlder {ctx : MessageListContext β} {s : Span} (h : Shows t ctx s) :
    Shows t (ctx.applyMessages ((messagesOf t).extract (s.lo - pageSize) s.lo) none
      (.prependOlder (decide (pageSize < s.lo)))) s.older := by
  obtain ⟨hw, ho, hn, hb, hu⟩ := ctx.applyMessages_prependOlder
    ((messagesOf t).extract (s.lo - pageSize) s.lo) none (decide (pageSize < s.lo))
  have hv := h.valid
  have hlohi := hv.lo_le
  have hhin := hv.hi_le
  have hlen := h.length_messages
  have hpage : ((messagesOf t).extract (s.lo - pageSize) s.lo).length = s.lo - (s.lo - pageSize) := by
    rw [List.length_extract]
    omega
  exact {
    valid := hv.older
    window := by
      rw [hw, h.window, ← List.map_append, List.extract_append_extract _ (Nat.sub_le _ _)
        hv.lo_le, ← List.map_take, List.take_extract]
      rfl
    index := index_applyMessages ..
    hasOlder := by
      rw [ho]
      exact decide_eq_decide.mpr (by simp only [Span.older]; omega)
    hasNewer := by
      rw [hn, hpage, hlen, h.hasNewer, ← Bool.decide_or]
      exact decide_eq_decide.mpr (by simp only [Span.older]; omega)
    isAtBottom := by
      rw [hb, h.isAtBottom, hn]
      cases ctx.state.hasNewer <;> simp
    unread := hu }

theorem shows_appendNewer {ctx : MessageListContext β} {s : Span} (h : Shows t ctx s) :
    Shows t (ctx.applyMessages ((messagesOf t).extract s.hi (s.hi + pageSize)) none
      (.appendNewer (decide (pageSize < (messagesOf t).length - s.hi))))
      (s.newer (messagesOf t).length) := by
  obtain ⟨hw, ho, hn, hb, hu⟩ := ctx.applyMessages_appendNewer
    ((messagesOf t).extract s.hi (s.hi + pageSize)) none
    (decide (pageSize < (messagesOf t).length - s.hi))
  have hv := h.valid
  have hlohi := hv.lo_le
  have hhin := hv.hi_le
  have hlen := h.length_messages
  have hpage : ((messagesOf t).extract s.hi (s.hi + pageSize)).length =
      min (s.hi + pageSize) (messagesOf t).length - s.hi :=
    List.length_extract _ _ _
  have hlen' := congrArg List.length hw
  rw [List.length_map, List.length_drop, List.length_append, List.length_map,
    List.length_map] at hlen'
  exact {
    valid := hv.newer
    window := by
      rw [hw, h.window, ← List.map_append, List.extract_append_extract _ hlohi
        (Nat.le_add_right _ _), ← List.map_drop, List.drop_extract, hlen, hpage,
        ← List.extract_min_length _ _ (s.hi + pageSize)]
      have hlo' : s.lo + (s.hi - s.lo + (min (s.hi + pageSize) (messagesOf t).length - s.hi) -
          maxWindow) = (s.newer (messagesOf t).length).lo := by
        simp only [Span.newer]
        omega
      rw [hlo']
      rfl
    index := index_applyMessages ..
    hasOlder := by
      rw [ho, hlen, hpage, h.hasOlder, ← Bool.decide_or]
      exact decide_eq_decide.mpr (by simp only [Span.newer]; omega)
    hasNewer := by
      rw [hn]
      exact decide_eq_decide.mpr (by simp only [Span.newer]; omega)
    isAtBottom := by rw [hb, hn]
    unread := by
      intro i hi
      rw [hu] at hi
      obtain ⟨j, hj, hji⟩ := Option.mem_bind_iff.mp hi
      have hjlt := h.unread j hj
      unfold checkedSub at hji
      split_ifs at hji with hle
      · rw [Option.mem_some_iff] at hji
        omega
      · simp at hji }

theorem shows_around (ctx : MessageListContext β) (anchor : ℤ ×ₗ ℕ) (icc : Option Bool)
    {firstUnreadIndex : Option ℕ} (unreadCount : ℕ) (command : Option MessageListCommand)
    (hUnread : ∀ i ∈ firstUnreadIndex,
      i < ((t.decodable fun _ => true).extract (t.rank anchor - pageSize)
        (min (t.rank anchor + pageSize) (t.decodable fun _ => true).length)).length) :
    let D := t.decodable fun _ => true
    Shows t (ctx.applyMessages
      ((D.extract (t.rank anchor - pageSize) (min (t.rank anchor + pageSize) D.length)).map Prod.snd)
      icc (.replace (decide (pageSize < t.rank anchor)) (decide (pageSize < D.length - t.rank anchor))
        (!decide (pageSize < D.length - t.rank anchor)) firstUnreadIndex unreadCount command))
      (.around (messagesOf t).length (t.rank anchor)) := by
  intro D
  have hDlen : D.length = (messagesOf t).length := (List.length_map _).symm
  have hrank : t.rank anchor ≤ (messagesOf t).length := hDlen ▸ t.rank_le_length anchor
  have hpage : (D.extract (t.rank anchor - pageSize) (min (t.rank anchor + pageSize) D.length)).map
      Prod.snd = (messagesOf t).extract (Span.around (messagesOf t).length (t.rank anchor)).lo
        (Span.around (messagesOf t).length (t.rank anchor)).hi := by
    rw [← List.extract_map, hDlen]
    rfl
  refine shows_replace ctx (Span.valid_around hrank) hpage icc ?_ ?_ (by simpa using hUnread)
    unreadCount command
  · exact decide_eq_decide.mpr (by simp only [Span.around]; omega)
  · rw [hDlen]
    exact decide_eq_decide.mpr (by simp only [Span.around]; omega)

theorem shows_handleJumpToMessage_of_isSome {ctx : MessageListContext β} {s : Span}
    (h : Shows t ctx s) {messageId : ℕ} (hidx : (ctx.data.messageIdsIndex messageId).isSome)
    (a : Answers β) : Shows t (ctx.handleJumpToMessage t messageId a) s := by
  simp only [handleJumpToMessage, hidx, ↓reduceIte, MessageListData.issueCommand]
  exact h.of_flags_eq rfl rfl rfl rfl

theorem handleLoadOlder_false (ctx : MessageListContext β) : ctx.handleLoadOlder t false = ctx := by
  unfold handleLoadOlder
  split <;> rfl

theorem handleLoadNewer_false (ctx : MessageListContext β) : ctx.handleLoadNewer t false = ctx := by
  unfold handleLoadNewer
  split <;> rfl

variable (hdec : ∀ r ∈ t.rows, r.2.isSome)
include hdec

theorem shows_loadBottom (ctx : MessageListContext β) (icc : Option Bool) (scrollToBottom : Bool) :
    Shows t (ctx.loadBottom t true icc scrollToBottom) (.bottom (messagesOf t).length) := by
  have hmult : loadMultiple t (pageSize + 1) = (messagesOf t).extract
      ((messagesOf t).length - (pageSize + 1)) (messagesOf t).length := by
    rw [loadMultiple, decodeRows_select_newest hdec, List.rtake_eq_extract, ← List.extract_map,
      messagesOf, List.length_map]
  have hlen : (loadMultiple t (pageSize + 1)).length = min (pageSize + 1) (messagesOf t).length := by
    rw [hmult, List.length_extract]
    omega
  have hpage : (if (loadMultiple t (pageSize + 1)).length > pageSize then
      (loadMultiple t (pageSize + 1)).drop 1 else loadMultiple t (pageSize + 1)) =
      (messagesOf t).extract (Span.bottom (messagesOf t).length).lo
        (Span.bottom (messagesOf t).length).hi := by
    rw [hlen]
    simp only [hmult, Span.bottom]
    split_ifs with hmore
    · rw [List.drop_extract]
      congr 1
      omega
    · congr 1
      omega
  simp only [loadBottom, ↓reduceIte]
  refine shows_replace ctx (Span.valid_bottom _) hpage icc ?_ ?_ (by simp) 0 _
  · simp only [hlen, Span.bottom]
    exact decide_eq_decide.mpr (by omega)
  · simp [Span.bottom]

variable (hkey : ∀ r ∈ t.rows, ∀ m ∈ r.2, r.1 = m.key)
include hkey

/-- `handle_load_older` moves the interval a page back, cut to `MAX_WINDOW`; a failed query
leaves it. -/
theorem shows_handleLoadOlder {ctx : MessageListContext β} {s : Span} (h : Shows t ctx s)
    (ok : Bool) : Shows t (ctx.handleLoadOlder t ok) (if ok then s.older else s) := by
  cases ok with
  | false => rw [handleLoadOlder_false]; exact h
  | true =>
    rw [if_pos rfl]
    cases hm : ctx.data.messages.head? with
    | none =>
      have hlen := h.length_messages
      rw [List.head?_eq_none_iff.mp hm, List.length_nil] at hlen
      have hn : (messagesOf t).length = 0 := by
        by_contra hpos
        have := h.valid.nonempty (Nat.pos_of_ne_zero hpos)
        omega
      have hs : s.older = s :=
        Span.older_eq_self (by have := h.valid.lo_le; have := h.valid.hi_le; omega) h.valid.bounded
      simp only [handleLoadOlder, hm]
      rw [hs]
      exact h
    | some oldest =>
      obtain ⟨hne, r, hr, hkr⟩ := h.head?_key hkey hm
      have hlo_le : s.lo ≤ (messagesOf t).length := by have := h.valid.hi_le; omega
      have hpage := loadBefore_of_getElem? hdec pageSize_succ_lt hr
      rw [hkr] at hpage
      simp only [handleLoadOlder, hm, hpage, ↓reduceIte]
      by_cases hlo : s.lo = 0
      · -- nothing is older: the empty page only emits `has_older` again
        have hempty : ((t.decodable fun _ => true).extract (s.lo - pageSize) s.lo).isEmpty := by
          simp [hlo]
        rw [if_pos hempty, Span.older_eq_self hlo h.valid.bounded]
        refine h.of_flags_eq ?_ rfl rfl rfl
        rw [h.hasOlder, hlo]
        rfl
      · have hnonempty : ¬((t.decodable fun _ => true).extract (s.lo - pageSize) s.lo).isEmpty := by
          rw [List.isEmpty_iff, List.extract_eq_nil_iff _ (by simpa [messagesOf] using hlo_le)]
          have := pageSize_pos
          omega
        rw [if_neg hnonempty, ← List.extract_map]
        exact shows_prependOlder h

/-- `handle_load_newer` moves the interval a page forward, cut to `MAX_WINDOW`; a failed query
leaves it. -/
theorem shows_handleLoadNewer {ctx : MessageListContext β} {s : Span} (h : Shows t ctx s)
    (ok : Bool) :
    Shows t (ctx.handleLoadNewer t ok) (if ok then s.newer (messagesOf t).length else s) := by
  have hDlen : (t.decodable fun _ => true).length = (messagesOf t).length := (List.length_map _).symm
  cases ok with
  | false => rw [handleLoadNewer_false]; exact h
  | true =>
    rw [if_pos rfl]
    cases hm : ctx.data.messages.getLast? with
    | none =>
      have hlen := h.length_messages
      rw [List.getLast?_eq_none_iff.mp hm, List.length_nil] at hlen
      have hn : (messagesOf t).length = 0 := by
        by_contra hpos
        have := h.valid.nonempty (Nat.pos_of_ne_zero hpos)
        omega
      have hs : s.newer (messagesOf t).length = s :=
        Span.newer_eq_self (by have := h.valid.hi_le; omega) h.valid.bounded
      simp only [handleLoadNewer, hm]
      rw [hs]
      exact h
    | some newest =>
      obtain ⟨hne, r, hr, hkr⟩ := h.getLast?_key hkey hm
      have hpage := loadAfter_of_getElem? hdec pageSize_succ_lt hr
      rw [hkr, Nat.sub_add_cancel (by omega : 1 ≤ s.hi), hDlen] at hpage
      simp only [handleLoadNewer, hm, hpage, ↓reduceIte]
      by_cases hhi : s.hi = (messagesOf t).length
      · -- nothing is newer: the empty page only emits `has_newer` again
        have hempty : ((t.decodable fun _ => true).extract s.hi (s.hi + pageSize)).isEmpty := by
          rw [List.isEmpty_iff, ← List.length_eq_zero_iff, List.length_extract, hDlen]
          omega
        rw [if_pos hempty, Span.newer_eq_self hhi h.valid.bounded]
        refine h.of_flags_eq rfl ?_ rfl rfl
        rw [h.hasNewer]
        exact decide_eq_decide.mpr (by omega)
      · have hnonempty : ¬((t.decodable fun _ => true).extract s.hi (s.hi + pageSize)).isEmpty := by
          rw [List.isEmpty_iff, ← List.length_eq_zero_iff, List.length_extract, hDlen]
          have := h.valid.hi_le
          have := pageSize_pos
          omega
        rw [if_neg hnonempty, ← List.extract_map]
        exact shows_appendNewer h

omit hkey in
theorem shows_handleJumpToMessage_load (ctx : MessageListContext β) (messageId : ℕ)
    (a : Answers β) {message : ChatMessage β} (hidx : ctx.data.messageIdsIndex messageId = none)
    (htarget : a.target = some message) (hok : a.ok = true) :
    Shows t (ctx.handleJumpToMessage t messageId a)
      (.around (messagesOf t).length (t.rank message.key)) := by
  simp only [handleJumpToMessage, hidx, Option.isSome_none, Bool.false_eq_true, ↓reduceIte,
    htarget, hok, loadAround_eq hdec pageSize_succ_lt]
  exact shows_around ctx message.key a.isConnectionChat 0 _ (by simp)

omit hkey in
/-- `initial_load` shows the interval around the first unread message, or the newest page; a
failed query leaves the context. -/
theorem initialLoad_eq_or_shows (ctx : MessageListContext β) (firstUnread : Option (ChatMessage β))
    (unreadCount : ℕ) (a : Answers β) :
    ctx.initialLoad t firstUnread unreadCount a = ctx ∨
      ∃ s, Shows t (ctx.initialLoad t firstUnread unreadCount a) s := by
  cases a with
  | mk ok icc target =>
    cases ok with
    | false =>
      left
      cases firstUnread <;> simp [initialLoad, loadBottom]
    | true =>
      right
      cases firstUnread with
      | none => exact ⟨_, shows_loadBottom hdec ctx icc false⟩
      | some unread =>
        simp only [initialLoad, ↓reduceIte, loadAround_eq hdec pageSize_succ_lt]
        refine ⟨_, shows_around ctx unread.key icc unreadCount none ?_⟩
        intro i hi
        simpa using (List.findIdx?_eq_some_iff_getElem.mp hi).1

/-! ## Over whole runs -/

/-- One command leaves a context that is new, or that shows an interval, new or showing one. -/
theorem handle_eq_new_or_shows {ctx : MessageListContext β} (h : ctx = new ∨ ∃ s, Shows t ctx s)
    (c : Command) (a : Answers β) :
    ctx.handle t c a = new ∨ ∃ s, Shows t (ctx.handle t c a) s := by
  obtain ⟨ok, icc, target⟩ := a
  rcases h with rfl | ⟨s, h⟩
  · -- the new context has an empty window: only a jump loads one
    cases c with
    | loadOlder => exact Or.inl rfl
    | loadNewer => exact Or.inl rfl
    | jumpToBottom =>
      cases ok with
      | false => exact Or.inl rfl
      | true => exact Or.inr ⟨_, shows_loadBottom hdec new icc true⟩
    | jumpToMessage messageId =>
      cases target with
      | none => exact Or.inl rfl
      | some message =>
        cases ok with
        | false => exact Or.inl rfl
        | true =>
          exact Or.inr ⟨_, shows_handleJumpToMessage_load hdec new messageId ⟨true, icc, _⟩ rfl rfl rfl⟩
  · right
    cases c with
    | loadOlder => exact ⟨_, shows_handleLoadOlder hdec hkey h ok⟩
    | loadNewer => exact ⟨_, shows_handleLoadNewer hdec hkey h ok⟩
    | jumpToBottom =>
      cases ok with
      | false => exact ⟨s, h⟩
      | true => exact ⟨_, shows_loadBottom hdec ctx icc true⟩
    | jumpToMessage messageId =>
      cases hidx : ctx.data.messageIdsIndex messageId with
      | some i => exact ⟨s, shows_handleJumpToMessage_of_isSome h (by simp [hidx]) _⟩
      | none =>
        cases target with
        | none => exact ⟨s, by simpa [handle, handleJumpToMessage, hidx] using h⟩
        | some message =>
          cases ok with
          | false => exact ⟨s, by simpa [handle, handleJumpToMessage, hidx] using h⟩
          | true =>
            exact ⟨_, shows_handleJumpToMessage_load hdec ctx messageId ⟨true, icc, _⟩ hidx rfl rfl⟩

theorem run_eq_new_or_shows {ctx : MessageListContext β} (h : ctx = new ∨ ∃ s, Shows t ctx s)
    (commands : List (Command × Answers β)) :
    ctx.run t commands = new ∨ ∃ s, Shows t (ctx.run t commands) s := by
  induction commands generalizing ctx with
  | nil => exact h
  | cons ca rest ih => exact ih (handle_eq_new_or_shows hdec hkey h ca.1 ca.2)

/-- Scrolling up: as many older pages as cover what lies before the window bring it to the
first message of the chat, with nothing older. -/
theorem loadOlder_reaches_start {ctx : MessageListContext β} {s : Span} (h : Shows t ctx s)
    (answers : List (Answers β)) (hok : ∀ a ∈ answers, a.ok = true)
    (hcover : s.lo ≤ answers.length * pageSize) :
    (∃ s', Shows t (ctx.run t (answers.map fun a => (.loadOlder, a))) s' ∧ s'.lo = 0) ∧
      (ctx.run t (answers.map fun a => (.loadOlder, a))).state.hasOlder = false := by
  induction answers generalizing ctx s with
  | nil =>
    have hlo : s.lo = 0 := by simpa using hcover
    exact ⟨⟨s, h, hlo⟩, by rw [List.map_nil, run, h.hasOlder, hlo]; rfl⟩
  | cons a rest ih =>
    have h' : Shows t (ctx.handle t .loadOlder a) s.older := by
      have hs := shows_handleLoadOlder hdec hkey h true
      rw [if_pos rfl] at hs
      rwa [handle, hok a List.mem_cons_self]
    rw [List.length_cons, Nat.succ_mul] at hcover
    exact ih h' (fun b hb => hok b (List.mem_cons_of_mem a hb)) (by simp only [Span.older]; omega)

/-- Scrolling down: as many newer pages as cover what lies after the window bring it to the
last message of the chat, at the bottom. -/
theorem loadNewer_reaches_bottom {ctx : MessageListContext β} {s : Span} (h : Shows t ctx s)
    (answers : List (Answers β)) (hok : ∀ a ∈ answers, a.ok = true)
    (hcover : (messagesOf t).length ≤ s.hi + answers.length * pageSize) :
    (∃ s', Shows t (ctx.run t (answers.map fun a => (.loadNewer, a))) s' ∧
        s'.hi = (messagesOf t).length) ∧
      (ctx.run t (answers.map fun a => (.loadNewer, a))).state.isAtBottom = true := by
  induction answers generalizing ctx s with
  | nil =>
    have hhi : s.hi = (messagesOf t).length := by have := h.valid.hi_le; simp at hcover; omega
    exact ⟨⟨s, h, hhi⟩, by rw [List.map_nil, run, h.isAtBottom, h.hasNewer, hhi]; simp⟩
  | cons a rest ih =>
    have h' : Shows t (ctx.handle t .loadNewer a) (s.newer (messagesOf t).length) := by
      have hs := shows_handleLoadNewer hdec hkey h true
      rw [if_pos rfl] at hs
      rwa [handle, hok a List.mem_cons_self]
    rw [List.length_cons, Nat.succ_mul] at hcover
    exact ih h' (fun b hb => hok b (List.mem_cons_of_mem a hb)) (by simp only [Span.newer]; omega)

omit hkey in
/-- A jump to a message of the chat that is not in the window brings it into the window. -/
theorem handleJumpToMessage_mem (ctx : MessageListContext β) (messageId : ℕ) (a : Answers β)
    {message : ChatMessage β} (hmem : (message.key, some message) ∈ t.rows)
    (hidx : ctx.data.messageIdsIndex messageId = none) (htarget : a.target = some message)
    (hok : a.ok = true) :
    fromMessage message ∈ (ctx.handleJumpToMessage t messageId a).data.messages.map erase := by
  have h := shows_handleJumpToMessage_load hdec ctx messageId a hidx htarget hok
  obtain ⟨j, hj, hDj⟩ := List.getElem_of_mem (mem_decodable_of_mem_rows hmem)
  have hrank : t.rank message.key = j + 1 := by
    have := rank_getElem hj
    rwa [hDj] at this
  have hjn : j < (messagesOf t).length := by simpa [messagesOf] using hj
  rw [h.window, hrank]
  apply List.mem_map_of_mem
  have := pageSize_pos
  apply List.mem_extract_of_getElem? _ (i := j)
  · simp only [Span.around]
    omega
  · simp only [Span.around]
    omega
  · rw [messagesOf, List.getElem?_map, List.getElem?_eq_getElem hj, hDj]
    rfl

end Handlers

/-- From its creation, after the initial load and any run of commands, whatever the database
answers, the context is new still, every load having failed, or shows an interval of the
chat. -/
theorem shows_run (t : ChatTable β) (hdec : ∀ r ∈ t.rows, r.2.isSome)
    (hkey : ∀ r ∈ t.rows, ∀ m ∈ r.2, r.1 = m.key) (firstUnread : Option (ChatMessage β))
    (unreadCount : ℕ) (a : Answers β) (commands : List (Command × Answers β)) :
    (new.initialLoad t firstUnread unreadCount a).run t commands = new ∨
      ∃ s, Shows t ((new.initialLoad t firstUnread unreadCount a).run t commands) s :=
  run_eq_new_or_shows hdec hkey (initialLoad_eq_or_shows hdec new firstUnread unreadCount a)
    commands

def twoMessages : ChatTable Unit where
  rows := [(toLex (0, 1), some ⟨1, 0, .content 7, ()⟩), (toLex (0, 2), some ⟨2, 0, .content 7, ()⟩)]
  sorted := by decide

def succeeded : Answers Unit := ⟨true, none, none⟩

theorem shows_run_twoMessages :
    (∀ r ∈ twoMessages.rows, r.2.isSome) ∧ (∀ r ∈ twoMessages.rows, ∀ m ∈ r.2, r.1 = m.key) ∧
      ((new.initialLoad twoMessages none 0 succeeded).run twoMessages
          [(.loadOlder, succeeded), (.jumpToMessage 1, succeeded)] = new ∨
        ∃ s, Shows twoMessages ((new.initialLoad twoMessages none 0 succeeded).run twoMessages
          [(.loadOlder, succeeded), (.jumpToMessage 1, succeeded)]) s) :=
  ⟨by decide, by decide, shows_run twoMessages (by decide) (by decide) none 0 succeeded _⟩

theorem loadOlder_reaches_start_twoMessages :
    (∀ r ∈ twoMessages.rows, r.2.isSome) ∧ (∀ r ∈ twoMessages.rows, ∀ m ∈ r.2, r.1 = m.key) ∧
      Shows twoMessages (new.loadBottom twoMessages true none false) (.bottom 2) ∧
      ((∃ s', Shows twoMessages ((new.loadBottom twoMessages true none false).run twoMessages
          ([succeeded].map fun a => (.loadOlder, a))) s' ∧ s'.lo = 0) ∧
        ((new.loadBottom twoMessages true none false).run twoMessages
          ([succeeded].map fun a => (.loadOlder, a))).state.hasOlder = false) :=
  ⟨by decide, by decide, shows_loadBottom (by decide) new none false,
    loadOlder_reaches_start (by decide) (by decide) (shows_loadBottom (by decide) new none false)
      [succeeded] (by decide) (by decide)⟩

theorem loadNewer_reaches_bottom_twoMessages :
    (∀ r ∈ twoMessages.rows, r.2.isSome) ∧ (∀ r ∈ twoMessages.rows, ∀ m ∈ r.2, r.1 = m.key) ∧
      Shows twoMessages (new.loadBottom twoMessages true none false) (.bottom 2) ∧
      ((∃ s', Shows twoMessages ((new.loadBottom twoMessages true none false).run twoMessages
          ([succeeded].map fun a => (.loadNewer, a))) s' ∧ s'.hi = (messagesOf twoMessages).length) ∧
        ((new.loadBottom twoMessages true none false).run twoMessages
          ([succeeded].map fun a => (.loadNewer, a))).state.isAtBottom = true) :=
  ⟨by decide, by decide, shows_loadBottom (by decide) new none false,
    loadNewer_reaches_bottom (by decide) (by decide) (shows_loadBottom (by decide) new none false)
      [succeeded] (by decide) (by decide)⟩

theorem handleJumpToMessage_mem_twoMessages :
    (∀ r ∈ twoMessages.rows, r.2.isSome) ∧
      ((⟨1, 0, .content 7, ()⟩ : ChatMessage Unit).key, some ⟨1, 0, .content 7, ()⟩) ∈
        twoMessages.rows ∧
      fromMessage ⟨1, 0, .content 7, ()⟩ ∈
        ((new : MessageListContext Unit).handleJumpToMessage twoMessages 1
          ⟨true, none, some ⟨1, 0, .content 7, ()⟩⟩).data.messages.map erase :=
  ⟨by decide, by decide, handleJumpToMessage_mem (by decide) new 1 ⟨true, none, some ⟨1, 0, .content 7, ()⟩⟩
    (by decide) rfl rfl rfl⟩

end MessageListContext

end Air
