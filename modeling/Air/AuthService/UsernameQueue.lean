import Mathlib
import Air.Lts.Run

/-! # The username queue: what its listeners fetch and emit

`UsernameQueues` of `auth_service/usernames/queue.rs` keeps the messages sent to one username in
the `as_user_handles_queue` table until they are acknowledged. The stream of a listener
(`QueueStreamContext`) fetches at most `MAX_BUFFER_SIZE` of the oldest messages by `created_at`
that it has not fetched itself (`fetched_by IS NULL OR fetched_by != $2`), marks them as fetched
by it, and emits them from its buffer one at a time, in the order the `UPDATE ... RETURNING`
gave them back, which no `ORDER BY` fixes. A message's `created_at` is the start of its enqueue
transaction, so it need not follow the order of the commits; when a fetch finds nothing it emits the empty sentinel
and waits for a notification. `listen` cancels the previous listener of the queue, but the
cancellation is only seen at the top of the stream's loop: a fetch already on its way to the
database still runs.

Over any interleaving of enqueues, acks, listens and the steps of every stream:
* a message marked as fetched by a listener that has not ended is in that listener's buffer or
  has been emitted by it, so the marking never hides a message from the listener that set it
  (`fetched_mem_buffer_or_emitted`);
* a listener that is the only one to fetch emits each message at most once, and only messages
  that were enqueued (`lone_listener_emits_once`);
* a cancelled listener's fetch in flight can make the next listener emit a message twice
  (`inflight_fetch_emits_twice`): delivery is at least once, not exactly once.
-/

namespace Air.UsernameQueue

def maxBufferSize : ℕ := 32

/-- A row of `as_user_handles_queue` for the queue's hash: the message's id, its `created_at`, and
the listener whose fetch marked it last. The rows are kept in commit order. -/
structure Row where
  messageId : ℕ
  createdAt : ℕ
  fetchedBy : Option ℕ
  deriving DecidableEq, Repr

def unfetched (rows : List Row) (fetchedBy : ℕ) : List Row :=
  rows.filter fun r => r.fetchedBy ≠ some fetchedBy

/-- The ids `UsernameQueue::fetch_into` may return: the `limit` oldest unfetched rows by
`created_at` (`ORDER BY created_at ASC LIMIT $3`, ties either way), each once, in any order. -/
def Selects (rows : List Row) (fetchedBy limit : ℕ) (ids : List ℕ) : Prop :=
  ids.Nodup ∧ ids.length = min limit (unfetched rows fetchedBy).length ∧
    ∀ m ∈ ids, ∃ r ∈ unfetched rows fetchedBy, r.messageId = m ∧
      ∀ r' ∈ unfetched rows fetchedBy, r'.messageId ∉ ids → r.createdAt ≤ r'.createdAt

instance (rows : List Row) (fetchedBy limit : ℕ) (ids : List ℕ) :
    Decidable (Selects rows fetchedBy limit ids) :=
  inferInstanceAs (Decidable (_ ∧ _ ∧ _))

/-- The `UPDATE` of `UsernameQueue::fetch_into`: the returned rows marked as fetched by
`fetchedBy`. -/
def fetchInto (rows : List Row) (fetchedBy : ℕ) (ids : List ℕ) : List Row :=
  rows.map fun r => if r.messageId ∈ ids then { r with fetchedBy := some fetchedBy } else r

inductive FetchState where
  | fetch
  | wait
  deriving DecidableEq, Repr

/-- Where the loop of a stream (`into_stream`) stands: at its top, with a fetch on its way to
the database, or ended. -/
inductive Phase where
  | top
  | fetching
  | ended
  deriving DecidableEq, Repr

/-- A `QueueStreamContext`, with its buffer next message first (the `Vec` read from its end) and
the notifications its channel holds. Its id is its index among the listeners. -/
structure Listener where
  buffer : List ℕ
  state : FetchState
  phase : Phase
  cancelled : Bool
  notifications : ℕ
  deriving DecidableEq, Repr

def Listener.new : Listener := ⟨[], .fetch, .top, false, 0⟩

/-- The queue of one hash: its rows, every listener created so far, and the id the next
message gets (`Uuid::new_v4`, distinct from every earlier one). -/
structure Queue where
  rows : List Row
  listeners : List Listener
  nextMessageId : ℕ

def init : Queue := ⟨[], [], 0⟩

inductive Event where
  | enqueue (messageId createdAt : ℕ)
  | ack (messageId : ℕ)
  | listen
  | stop (listener : ℕ)
  | emit (listener messageId : ℕ)
  | beginFetch (listener : ℕ)
  | fetched (listener : ℕ) (messageIds : List ℕ)
  | fetchFailed (listener : ℕ)
  | wake (listener : ℕ)
  deriving DecidableEq, Repr

namespace Queue

def update (q : Queue) (i : ℕ) (L : Listener) : Queue := { q with listeners := q.listeners.set i L }

/-- The interleaving semantics. `enqueue` inserts and notifies in one transaction, whose start
time the row keeps as `created_at`; `listen`
cancels the earlier listeners (`track_listener`); a stream stops at the top of its loop once
cancelled, emits from its buffer, fetches when its buffer is empty in `FetchState::Fetch`, and
in `FetchState::Wait` fetches again after a notification. A fetch that began before the
cancellation still completes. -/
inductive Step : Queue → Event → Queue → Prop
  | enqueue (q : Queue) (createdAt : ℕ) :
      Step q (.enqueue q.nextMessageId createdAt)
        ⟨q.rows ++ [⟨q.nextMessageId, createdAt, none⟩],
          q.listeners.map fun L => { L with notifications := L.notifications + 1 },
          q.nextMessageId + 1⟩
  | ack (q : Queue) (messageId : ℕ) :
      Step q (.ack messageId) { q with rows := q.rows.filter (·.messageId ≠ messageId) }
  | listen (q : Queue) :
      Step q .listen
        { q with listeners := (q.listeners.map fun L => { L with cancelled := true }) ++
          [Listener.new] }
  | stop {q : Queue} {i : ℕ} {L : Listener} : q.listeners[i]? = some L → L.phase = .top →
      L.cancelled = true → Step q (.stop i) (q.update i { L with phase := .ended })
  | emit {q : Queue} {i m : ℕ} {L : Listener} {rest : List ℕ} : q.listeners[i]? = some L →
      L.phase = .top → L.cancelled = false → L.buffer = m :: rest →
      Step q (.emit i m) (q.update i { L with buffer := rest })
  | beginFetch {q : Queue} {i : ℕ} {L : Listener} : q.listeners[i]? = some L →
      L.phase = .top → L.cancelled = false → L.buffer = [] → L.state = .fetch →
      Step q (.beginFetch i) (q.update i { L with phase := .fetching })
  | fetched {q : Queue} {i : ℕ} {L : Listener} (ids : List ℕ) : q.listeners[i]? = some L →
      L.phase = .fetching → Selects q.rows i maxBufferSize ids →
      Step q (.fetched i ids)
        ({ q with rows := fetchInto q.rows i ids }.update i
          { L with buffer := ids, phase := .top, state := if ids = [] then .wait else L.state })
  | fetchFailed {q : Queue} {i : ℕ} {L : Listener} : q.listeners[i]? = some L →
      L.phase = .fetching → Step q (.fetchFailed i) (q.update i { L with phase := .ended })
  | wake {q : Queue} {i : ℕ} {L : Listener} : q.listeners[i]? = some L → L.phase = .top →
      L.cancelled = false → L.buffer = [] → L.state = .wait → 0 < L.notifications →
      Step q (.wake i) (q.update i { L with state := .fetch, notifications := L.notifications - 1 })

theorem getElem?_update (q : Queue) {i : ℕ} (hi : i < q.listeners.length) (L : Listener) (j : ℕ) :
    (q.update i L).listeners[j]? = if i = j then some L else q.listeners[j]? := by
  simp only [update, List.getElem?_set, if_pos hi]

theorem mem_update {q : Queue} {i : ℕ} {L L' : Listener} (h : L' ∈ (q.update i L).listeners) :
    L' = L ∨ L' ∈ q.listeners :=
  (List.mem_or_eq_of_mem_set h).symm

@[simp] theorem length_update (q : Queue) (i : ℕ) (L : Listener) :
    (q.update i L).listeners.length = q.listeners.length :=
  List.length_set

@[simp] theorem rows_update (q : Queue) (i : ℕ) (L : Listener) : (q.update i L).rows = q.rows := rfl

@[simp] theorem nextMessageId_update (q : Queue) (i : ℕ) (L : Listener) :
    (q.update i L).nextMessageId = q.nextMessageId := rfl

end Queue

/-! ## `fetch_into` -/

section FetchInto

variable (rows : List Row) (fetchedBy : ℕ) (ids : List ℕ)

theorem mem_fetchInto {r' : Row} (h : r' ∈ fetchInto rows fetchedBy ids) :
    ∃ r ∈ rows, r.messageId = r'.messageId ∧
      (r.messageId ∈ ids ∧ r'.fetchedBy = some fetchedBy ∨ r.messageId ∉ ids ∧ r' = r) := by
  obtain ⟨r, hr, rfl⟩ := List.mem_map.mp h
  by_cases hsel : r.messageId ∈ ids
  · exact ⟨r, hr, by simp [hsel], .inl ⟨hsel, by simp [hsel]⟩⟩
  · exact ⟨r, hr, by simp [hsel], .inr ⟨hsel, by simp [hsel]⟩⟩

variable {rows fetchedBy ids} {limit : ℕ}

theorem Selects.nodup (h : Selects rows fetchedBy limit ids) : ids.Nodup := h.1

theorem Selects.exists_row (h : Selects rows fetchedBy limit ids) {m : ℕ} (hm : m ∈ ids) :
    ∃ r ∈ rows, r.fetchedBy ≠ some fetchedBy ∧ r.messageId = m := by
  obtain ⟨r, hr, rfl, -⟩ := h.2.2 m hm
  rw [unfetched, List.mem_filter] at hr
  exact ⟨r, hr.1, by simpa using hr.2, rfl⟩

end FetchInto

/-! ## Marks are never lost -/

namespace Queue

/-- What the marks say along a run with trace `tr`: every mark names a listener, a listener
with a fetch on its way has an empty buffer, and a row marked by a listener that has not ended
is in its buffer or has been emitted by it. -/
structure Kept (tr : List Event) (q : Queue) : Prop where
  marked_lt : ∀ r ∈ q.rows, ∀ i ∈ r.fetchedBy, i < q.listeners.length
  fetching_empty : ∀ L ∈ q.listeners, L.phase = .fetching → L.buffer = []
  kept : ∀ i L, q.listeners[i]? = some L → L.phase ≠ .ended → ∀ r ∈ q.rows,
    r.fetchedBy = some i → r.messageId ∈ L.buffer ∨ Event.emit i r.messageId ∈ tr

theorem kept_init : Kept [] init where
  marked_lt := by simp [init]
  fetching_empty := by simp [init]
  kept := by simp [init]

variable {tr : List Event} {q : Queue} {e : Event}

theorem Kept.kept_snoc (h : Kept tr q) {i : ℕ} {L : Listener} (hL : q.listeners[i]? = some L)
    (hlive : L.phase ≠ .ended) {r : Row} (hr : r ∈ q.rows) (hmark : r.fetchedBy = some i) :
    r.messageId ∈ L.buffer ∨ Event.emit i r.messageId ∈ tr ++ [e] :=
  (h.kept i L hL hlive r hr hmark).imp_right (List.mem_append_left _)

theorem Kept.update (h : Kept tr q) {i : ℕ} {L : Listener} (hL : q.listeners[i]? = some L)
    (L' : Listener) (hfetching : L'.phase = .fetching → L'.buffer = [])
    (hkept : L'.phase ≠ .ended → ∀ r ∈ q.rows, r.fetchedBy = some i →
      r.messageId ∈ L'.buffer ∨ Event.emit i r.messageId ∈ tr ++ [e]) :
    Kept (tr ++ [e]) (q.update i L') where
  marked_lt := by simpa using h.marked_lt
  fetching_empty L'' hL'' := by
    rcases mem_update hL'' with rfl | hmem
    · exact hfetching
    · exact h.fetching_empty L'' hmem
  kept j L'' hj hlive r hr hmark := by
    have hi : i < q.listeners.length := (List.getElem?_eq_some_iff.mp hL).1
    rw [getElem?_update q hi] at hj
    split_ifs at hj with hij
    · cases hj
      subst hij
      exact hkept hlive r hr hmark
    · exact h.kept_snoc hj hlive hr hmark

/-- One step keeps the marks. -/
theorem Kept.step (h : Kept tr q) {q' : Queue} (hs : Step q e q') : Kept (tr ++ [e]) q' := by
  cases hs with
  | enqueue =>
    refine ⟨?_, ?_, ?_⟩
    · -- the new row is not marked
      intro r hr i hi
      rcases List.mem_append.mp hr with hr | hr
      · simpa using h.marked_lt r hr i hi
      · simp at hr
        simp [hr] at hi
    · intro L hL hph
      obtain ⟨L₀, hL₀, rfl⟩ := List.mem_map.mp hL
      exact h.fetching_empty L₀ hL₀ hph
    · intro i L hi hlive r hr hmark
      rw [List.getElem?_map] at hi
      obtain ⟨L₀, hL₀, rfl⟩ := Option.map_eq_some_iff.mp hi
      rcases List.mem_append.mp hr with hr | hr
      · exact h.kept_snoc hL₀ hlive hr hmark
      · simp at hr
        simp [hr] at hmark
  | ack m =>
    refine ⟨fun r hr => h.marked_lt r (List.mem_of_mem_filter hr), h.fetching_empty, ?_⟩
    intro i L hi hlive r hr hmark
    exact h.kept_snoc hi hlive (List.mem_of_mem_filter hr) hmark
  | listen =>
    refine ⟨?_, ?_, ?_⟩
    · intro r hr i hi
      have := h.marked_lt r hr i hi
      simp only [List.length_append, List.length_map, List.length_singleton]
      omega
    · intro L hL hph
      rcases List.mem_append.mp hL with hL | hL
      · obtain ⟨L₀, hL₀, rfl⟩ := List.mem_map.mp hL
        exact h.fetching_empty L₀ hL₀ hph
      · simp at hL
        subst hL
        rfl
    · -- the new listener has marked nothing: its id is past every mark
      intro i L hi hlive r hr hmark
      rw [List.getElem?_append] at hi
      split_ifs at hi with hlt
      · rw [List.getElem?_map] at hi
        obtain ⟨L₀, hL₀, rfl⟩ := Option.map_eq_some_iff.mp hi
        exact h.kept_snoc hL₀ hlive hr hmark
      · have := h.marked_lt r hr i (by simp [hmark])
        simp only [List.length_map] at hlt
        omega
  | stop hL hph hc =>
    exact h.update hL _ (by simp) (by simp)
  | @emit i m L rest hL hph hc hbuf =>
    refine h.update hL _ (by simp [hph]) ?_
    intro hlive r hr hmark
    rcases h.kept i L hL (by simp [hph]) r hr hmark with hb | he
    · rw [hbuf, List.mem_cons] at hb
      rcases hb with hm | hb
      · exact .inr (by simp [hm])
      · exact .inl hb
    · exact .inr (List.mem_append_left _ he)
  | @beginFetch i L hL hph hc hbuf hst =>
    refine h.update hL _ (fun _ => hbuf) ?_
    intro _ r hr hmark
    exact h.kept_snoc hL (by simp [hph]) hr hmark
  | @fetched i L ids hL hph _ =>
    have hi : i < q.listeners.length := (List.getElem?_eq_some_iff.mp hL).1
    have hempty : L.buffer = [] := h.fetching_empty L (List.mem_of_getElem? hL) hph
    refine ⟨?_, ?_, ?_⟩
    · intro r' hr' j hj
      obtain ⟨r, hr, -, ⟨-, hmark⟩ | ⟨-, hrr⟩⟩ := mem_fetchInto _ _ _ hr'
      · rw [hmark, Option.mem_some_iff] at hj
        simpa [← hj] using hi
      · subst hrr
        simpa using h.marked_lt r' hr j hj
    · intro L'' hL'' hph''
      rcases mem_update hL'' with rfl | hmem
      · simp at hph''
      · exact h.fetching_empty L'' hmem hph''
    · -- the selected rows are the new buffer; a row the fetch left keeps its old mark
      intro j L'' hj hlive r' hr' hmark
      rw [getElem?_update _ (by simpa using hi)] at hj
      obtain ⟨r, hr, hid, ⟨hsel, hmark'⟩ | ⟨-, hrr⟩⟩ := mem_fetchInto _ _ _ hr'
      · rw [hmark', Option.some_inj] at hmark
        subst hmark
        rw [if_pos rfl, Option.some_inj] at hj
        subst hj
        exact .inl (hid ▸ hsel)
      · subst hrr
        by_cases hij : i = j
        · rw [if_pos hij, Option.some_inj] at hj
          subst hj hij
          rcases h.kept i L hL (by simp [hph]) r' hr hmark with hb | he
          · simp [hempty] at hb
          · exact .inr (List.mem_append_left _ he)
        · rw [if_neg hij] at hj
          exact h.kept_snoc hj hlive hr hmark
  | fetchFailed hL hph =>
    exact h.update hL _ (by simp) (by simp)
  | @wake i L hL hph hc hbuf hst hn =>
    refine h.update hL _ (by simp [hph]) ?_
    intro _ r hr hmark
    exact h.kept_snoc hL (by simp [hph]) hr hmark

theorem kept_run {tr : List Event} {q : Queue} (h : Lts.Run Step init tr q) : Kept tr q :=
  h.traceInvariant kept_init fun _ _ _ _ hk hs => hk.step hs

/-- Over every run, a message that a listener which has not ended marked as fetched, and that
is still in the queue, is in its buffer or has been emitted by it. -/
theorem fetched_mem_buffer_or_emitted {tr : List Event} {q : Queue} (h : Lts.Run Step init tr q)
    {i : ℕ} {L : Listener} (hL : q.listeners[i]? = some L) (hlive : L.phase ≠ .ended)
    {r : Row} (hr : r ∈ q.rows) (hmark : r.fetchedBy = some i) :
    r.messageId ∈ L.buffer ∨ Event.emit i r.messageId ∈ tr :=
  (kept_run h).kept i L hL hlive r hr hmark

theorem fetched_mem_buffer_or_emitted_afterFetch :
    ∃ q, Lts.Run Step init [.enqueue 0 0, .listen, .beginFetch 0, .fetched 0 [0]] q ∧
      ∃ L, q.listeners[0]? = some L ∧ L.phase ≠ .ended ∧ (⟨0, 0, some 0⟩ : Row) ∈ q.rows ∧
        (0 ∈ L.buffer ∨ Event.emit 0 0 ∈ [.enqueue 0 0, .listen, .beginFetch 0, .fetched 0 [0]]) := by
  have r := ((Lts.Run.single (Step.enqueue init 0)).snoc (Step.listen _)).snoc
    (Step.beginFetch (i := 0) rfl rfl rfl rfl rfl)
  have r' := r.snoc (Step.fetched (i := 0) [0] rfl rfl (by decide))
  exact ⟨_, r', ⟨[0], .fetch, .top, false, 0⟩, rfl, by decide, by decide,
    fetched_mem_buffer_or_emitted r' (L := ⟨[0], .fetch, .top, false, 0⟩) rfl (by decide)
      (r := ⟨0, 0, some 0⟩) (by decide) rfl⟩

/-! ## A lone listener -/

def emitted (i : ℕ) : List Event → List ℕ :=
  List.filterMap fun
    | .emit j m => if j = i then some m else none
    | _ => none

@[simp] theorem emitted_nil (i : ℕ) : emitted i [] = [] := rfl

@[simp] theorem emitted_append (i : ℕ) (l l' : List Event) :
    emitted i (l ++ l') = emitted i l ++ emitted i l' :=
  List.filterMap_append

@[simp] theorem emitted_emit (i j m : ℕ) : emitted i [.emit j m] = if j = i then [m] else [] := by
  by_cases h : j = i <;> simp [emitted, h]

@[simp] theorem emitted_enqueue (i m c : ℕ) : emitted i [.enqueue m c] = [] := rfl
@[simp] theorem emitted_ack (i m : ℕ) : emitted i [.ack m] = [] := rfl
@[simp] theorem emitted_listen (i : ℕ) : emitted i [.listen] = [] := rfl
@[simp] theorem emitted_stop (i j : ℕ) : emitted i [.stop j] = [] := rfl
@[simp] theorem emitted_beginFetch (i j : ℕ) : emitted i [.beginFetch j] = [] := rfl
@[simp] theorem emitted_fetched (i j : ℕ) (ids : List ℕ) : emitted i [.fetched j ids] = [] := rfl
@[simp] theorem emitted_fetchFailed (i j : ℕ) : emitted i [.fetchFailed j] = [] := rfl
@[simp] theorem emitted_wake (i j : ℕ) : emitted i [.wake j] = [] := rfl

def bufferOf (q : Queue) (i : ℕ) : List ℕ := (q.listeners[i]?.map (·.buffer)).getD []

theorem bufferOf_update (q : Queue) {j : ℕ} {L : Listener} (hL : q.listeners[j]? = some L)
    (L' : Listener) (i : ℕ) :
    (q.update j L').bufferOf i = if j = i then L'.buffer else q.bufferOf i := by
  rw [bufferOf, getElem?_update q (List.getElem?_eq_some_iff.mp hL).1]
  split_ifs <;> rfl

theorem bufferOf_map {q q' : Queue} (f : Listener → Listener) (hf : ∀ L, (f L).buffer = L.buffer)
    (hl : q'.listeners = q.listeners.map f) (i : ℕ) : q'.bufferOf i = q.bufferOf i := by
  simp only [bufferOf, hl, List.getElem?_map, Option.map_map]
  cases q.listeners[i]? <;> simp [hf]

/-- Along a run in which only listener `i` fetches: what `i` emitted followed by its buffer
holds each message once, each enqueued before and numbered below the next id, and no row `i`
has not marked is among them. -/
structure Lone (i : ℕ) (tr : List Event) (q : Queue) : Prop where
  ids_lt : ∀ r ∈ q.rows, r.messageId < q.nextMessageId
  rows_enqueued : ∀ r ∈ q.rows, ∃ c, Event.enqueue r.messageId c ∈ tr
  seen_nodup : (emitted i tr ++ q.bufferOf i).Nodup
  seen_lt : ∀ m ∈ emitted i tr ++ q.bufferOf i, m < q.nextMessageId
  seen_enqueued : ∀ m ∈ emitted i tr ++ q.bufferOf i, ∃ c, Event.enqueue m c ∈ tr
  unfetched_unseen : ∀ r ∈ q.rows, r.fetchedBy ≠ some i → r.messageId ∉ emitted i tr ++ q.bufferOf i
  fetching_empty : ∀ L, q.listeners[i]? = some L → L.phase = .fetching → L.buffer = []

theorem lone_init (i : ℕ) : Lone i [] init where
  ids_lt := by simp [init]
  rows_enqueued := by simp [init]
  seen_nodup := by simp [init, bufferOf]
  seen_lt := by simp [init, bufferOf]
  seen_enqueued := by simp [init, bufferOf]
  unfetched_unseen := by simp [init]
  fetching_empty := by simp [init]

variable {i : ℕ} {tr : List Event} {q : Queue} {e : Event}

theorem exists_enqueue_snoc {m : ℕ} (h : ∃ c, Event.enqueue m c ∈ tr) :
    ∃ c, Event.enqueue m c ∈ tr ++ [e] :=
  h.imp fun _ hc => List.mem_append_left _ hc

theorem Lone.of_seen_eq (h : Lone i tr q) {q' : Queue} (hrows : q'.rows = q.rows)
    (hnext : q'.nextMessageId = q.nextMessageId)
    (hseen : emitted i (tr ++ [e]) ++ q'.bufferOf i = emitted i tr ++ q.bufferOf i)
    (hfetching : ∀ L, q'.listeners[i]? = some L → L.phase = .fetching → L.buffer = []) :
    Lone i (tr ++ [e]) q' where
  ids_lt := hrows ▸ hnext ▸ h.ids_lt
  rows_enqueued := hrows ▸ fun r hr => exists_enqueue_snoc (h.rows_enqueued r hr)
  seen_nodup := hseen ▸ h.seen_nodup
  seen_lt := hseen ▸ hnext ▸ h.seen_lt
  seen_enqueued := hseen ▸ fun m hm => exists_enqueue_snoc (h.seen_enqueued m hm)
  unfetched_unseen := hseen ▸ hrows ▸ h.unfetched_unseen
  fetching_empty := hfetching

theorem Lone.update_buffer (h : Lone i tr q) {j : ℕ} {L : Listener}
    (hL : q.listeners[j]? = some L) (L' : Listener) (hbuf : j = i → L'.buffer = L.buffer)
    (hfetching : j = i → L'.phase = .fetching → L'.buffer = []) (hemit : emitted i [e] = []) :
    Lone i (tr ++ [e]) (q.update j L') := by
  have hb : (q.update j L').bufferOf i = q.bufferOf i := by
    rw [bufferOf_update q hL]
    split_ifs with hji
    · simp [bufferOf, ← hji, hL, hbuf hji]
    · rfl
  have hi := (List.getElem?_eq_some_iff.mp hL).1
  refine h.of_seen_eq rfl rfl (by rw [hb, emitted_append, hemit, List.append_nil]) ?_
  intro L'' hL'' hph
  rw [getElem?_update q hi] at hL''
  split_ifs at hL'' with hji
  · rw [Option.some_inj] at hL''
    subst hL''
    exact hfetching hji hph
  · exact h.fetching_empty L'' hL'' hph

theorem Lone.enqueue (h : Lone i tr q) (c : ℕ) :
    Lone i (tr ++ [.enqueue q.nextMessageId c]) ⟨q.rows ++ [⟨q.nextMessageId, c, none⟩],
      q.listeners.map fun L => { L with notifications := L.notifications + 1 },
      q.nextMessageId + 1⟩ := by
  have hb : bufferOf ⟨q.rows ++ [⟨q.nextMessageId, c, none⟩],
      q.listeners.map fun L => { L with notifications := L.notifications + 1 },
      q.nextMessageId + 1⟩ i = q.bufferOf i :=
    bufferOf_map (fun L => { L with notifications := L.notifications + 1 }) (fun _ => rfl) rfl i
  have hseen : emitted i (tr ++ [.enqueue q.nextMessageId c]) = emitted i tr := by simp
  refine ⟨?_, ?_, ?_, ?_, ?_, ?_, ?_⟩
  · intro r hr
    rcases List.mem_append.mp hr with hr | hr
    · exact Nat.lt_succ_of_lt (h.ids_lt r hr)
    · rw [List.mem_singleton] at hr
      simp [hr]
  · intro r hr
    rcases List.mem_append.mp hr with hr | hr
    · exact exists_enqueue_snoc (h.rows_enqueued r hr)
    · rw [List.mem_singleton] at hr
      exact ⟨c, by simp [hr]⟩
  · rw [hseen, hb]
    exact h.seen_nodup
  · rw [hseen, hb]
    exact fun m hm => Nat.lt_succ_of_lt (h.seen_lt m hm)
  · rw [hseen, hb]
    exact fun m hm => exists_enqueue_snoc (h.seen_enqueued m hm)
  · intro r hr hfree
    rw [hseen, hb]
    rcases List.mem_append.mp hr with hr | hr
    · exact h.unfetched_unseen r hr hfree
    · rw [List.mem_singleton] at hr
      subst hr
      exact fun hm => Nat.lt_irrefl _ (h.seen_lt _ hm)
  · intro L hL hph
    rw [List.getElem?_map] at hL
    obtain ⟨L₀, hL₀, rfl⟩ := Option.map_eq_some_iff.mp hL
    exact h.fetching_empty L₀ hL₀ hph

theorem Lone.fetched (h : Lone i tr q) {L : Listener} {ids : List ℕ}
    (hL : q.listeners[i]? = some L) (hph : L.phase = .fetching)
    (hsel : Selects q.rows i maxBufferSize ids) :
    Lone i (tr ++ [.fetched i ids]) ({ q with rows := fetchInto q.rows i ids }.update i
      { L with buffer := ids, phase := .top, state := if ids = [] then .wait else L.state }) := by
  have hi := (List.getElem?_eq_some_iff.mp hL).1
  have hempty : q.bufferOf i = [] := by
    simp [bufferOf, hL, h.fetching_empty L hL hph]
  have hb : (({ q with rows := fetchInto q.rows i ids } : Queue).update i
      { L with buffer := ids, phase := .top,
               state := if ids = [] then .wait else L.state }).bufferOf i = ids := by
    rw [bufferOf_update { q with rows := fetchInto q.rows i ids } hL, if_pos rfl]
  have hseen : emitted i (tr ++ [.fetched i ids]) = emitted i tr := by simp
  have hold := h.unfetched_unseen
  rw [hempty, List.append_nil] at hold
  refine ⟨?_, ?_, ?_, ?_, ?_, ?_, ?_⟩
  · intro r' hr'
    obtain ⟨r, hr, hid, -⟩ := mem_fetchInto _ _ _ hr'
    exact hid ▸ h.ids_lt r hr
  · intro r' hr'
    obtain ⟨r, hr, hid, -⟩ := mem_fetchInto _ _ _ hr'
    exact hid ▸ exists_enqueue_snoc (h.rows_enqueued r hr)
  · -- the returned ids are new to `i`
    rw [hb, hseen]
    have hnodup := h.seen_nodup
    rw [hempty, List.append_nil] at hnodup
    refine List.nodup_append.mpr ⟨hnodup, hsel.nodup, fun a ha b hb hab => ?_⟩
    obtain ⟨r, hr, hfree, rfl⟩ := hsel.exists_row hb
    exact hold r hr hfree (hab ▸ ha)
  · rw [hb, hseen]
    intro m hm
    rcases List.mem_append.mp hm with hm | hm
    · exact h.seen_lt m (by simp [hm])
    · obtain ⟨r, hr, -, rfl⟩ := hsel.exists_row hm
      exact h.ids_lt r hr
  · rw [hb, hseen]
    intro m hm
    rcases List.mem_append.mp hm with hm | hm
    · exact exists_enqueue_snoc (h.seen_enqueued m (by simp [hm]))
    · obtain ⟨r, hr, -, rfl⟩ := hsel.exists_row hm
      exact exists_enqueue_snoc (h.rows_enqueued r hr)
  · intro r' hr' hfree
    rw [hb, hseen]
    obtain ⟨r, hr, -, ⟨-, hmark⟩ | ⟨hsel', rfl⟩⟩ := mem_fetchInto _ _ _ hr'
    · exact absurd hmark hfree
    · intro hm
      rcases List.mem_append.mp hm with hm | hm
      · exact hold r' hr hfree hm
      · exact hsel' hm
  · intro L'' hL'' hph''
    rw [getElem?_update _ (by simpa using hi), if_pos rfl, Option.some_inj] at hL''
    subst hL''
    simp at hph''

/-- One step that is not a fetch of another listener keeps the invariant. -/
theorem Lone.step (h : Lone i tr q) {q' : Queue} (hs : Step q e q')
    (hlone : ∀ j ids, e = .fetched j ids → j = i) : Lone i (tr ++ [e]) q' := by
  cases hs with
  | enqueue c => exact h.enqueue c
  | ack m =>
    have he : emitted i (tr ++ [.ack m]) = emitted i tr := by simp
    refine ⟨fun r hr => h.ids_lt r (List.mem_of_mem_filter hr),
      fun r hr => exists_enqueue_snoc (h.rows_enqueued r (List.mem_of_mem_filter hr)),
      he ▸ h.seen_nodup, he ▸ h.seen_lt,
      he ▸ fun m hm => exists_enqueue_snoc (h.seen_enqueued m hm),
      fun r hr => he ▸ h.unfetched_unseen r (List.mem_of_mem_filter hr), h.fetching_empty⟩
  | listen =>
    have hb : bufferOf { q with listeners := (q.listeners.map fun L => { L with cancelled := true })
        ++ [Listener.new] } i = q.bufferOf i := by
      simp only [bufferOf, List.getElem?_append, List.length_map, List.getElem?_map]
      split_ifs with hlt
      · cases q.listeners[i]? <;> rfl
      · rw [List.getElem?_eq_none (by omega : q.listeners.length ≤ i)]
        cases i - q.listeners.length <;> rfl
    refine h.of_seen_eq rfl rfl (by rw [hb]; simp) ?_
    intro L hL hph
    rw [List.getElem?_append] at hL
    split_ifs at hL with hlt
    · rw [List.getElem?_map] at hL
      obtain ⟨L₀, hL₀, rfl⟩ := Option.map_eq_some_iff.mp hL
      exact h.fetching_empty L₀ hL₀ hph
    · have hnew : L = Listener.new := by
        rw [List.getElem?_singleton] at hL
        split_ifs at hL
        exact (Option.some_inj.mp hL).symm
      subst hnew
      simp [Listener.new] at hph
  | stop hL hph hc => exact h.update_buffer hL _ (fun _ => rfl) (by simp) rfl
  | @emit j m L rest hL hph hc hbuf =>
    by_cases hji : j = i
    · -- the emitted message moves from the buffer to the end of what was emitted
      subst hji
      have hi := (List.getElem?_eq_some_iff.mp hL).1
      refine h.of_seen_eq rfl rfl ?_ ?_
      · rw [bufferOf_update q hL, if_pos rfl]
        simp [bufferOf, hL, hbuf]
      · intro L'' hL'' hph''
        rw [getElem?_update q hi, if_pos rfl, Option.some_inj] at hL''
        subst hL''
        simp [hph] at hph''
    · exact h.update_buffer hL _ (fun hji' => absurd hji' hji) (fun hji' => absurd hji' hji)
        (by simp [hji])
  | beginFetch hL hph hc hbuf hst =>
    exact h.update_buffer hL _ (fun _ => rfl) (fun _ _ => hbuf) rfl
  | @fetched j L ids hL hph hsel =>
    obtain rfl : j = i := hlone _ _ rfl
    exact h.fetched hL hph hsel
  | fetchFailed hL hph => exact h.update_buffer hL _ (fun _ => rfl) (by simp) rfl
  | wake hL hph hc hbuf hst hn => exact h.update_buffer hL _ (fun _ => rfl) (by simp [hph]) rfl

theorem lone_run {tr : List Event} {q : Queue} (h : Lts.Run Step init tr q) (i : ℕ)
    (hlone : ∀ j ids, Event.fetched j ids ∈ tr → j = i) : Lone i tr q := by
  induction h with
  | nil => exact lone_init i
  | @snoc l s t a _ hs ih =>
    have hl : ∀ j ids, Event.fetched j ids ∈ l → j = i := fun j ids hm =>
      hlone j ids (List.mem_append_left _ hm)
    exact (ih hl).step hs fun j ids ha => hlone j ids (by simp [ha])

/-- Over every run in which no other listener fetches, listener `i` emits each message at most
once, and only messages that were enqueued. The order is not that of the enqueues: the fetch
returns its rows in no fixed order, and `created_at` is when each enqueue began. -/
theorem lone_listener_emits_once {tr : List Event} {q : Queue} (h : Lts.Run Step init tr q)
    (i : ℕ) (hlone : ∀ j ids, Event.fetched j ids ∈ tr → j = i) :
    (emitted i tr).Nodup ∧ ∀ m ∈ emitted i tr, ∃ c, Event.enqueue m c ∈ tr :=
  ⟨(lone_run h i hlone).seen_nodup.sublist (List.sublist_append_left _ _),
    fun m hm => (lone_run h i hlone).seen_enqueued m (List.mem_append_left _ hm)⟩

/-- The second message began first, and the fetch returns the first one first. -/
theorem lone_listener_emits_once_twoMessages :
    ∃ q, Lts.Run Step init
        [.enqueue 0 5, .enqueue 1 3, .listen, .beginFetch 0, .fetched 0 [0, 1], .emit 0 0,
          .emit 0 1] q ∧
      (∀ j ids, Event.fetched j ids ∈
        [.enqueue 0 5, .enqueue 1 3, .listen, .beginFetch 0, .fetched 0 [0, 1], .emit 0 0,
          .emit 0 1] → j = 0) ∧
      ((emitted 0 [.enqueue 0 5, .enqueue 1 3, .listen, .beginFetch 0, .fetched 0 [0, 1],
          .emit 0 0, .emit 0 1]).Nodup ∧
        ∀ m ∈ emitted 0 [.enqueue 0 5, .enqueue 1 3, .listen, .beginFetch 0, .fetched 0 [0, 1],
          .emit 0 0, .emit 0 1], ∃ c, Event.enqueue m c ∈ [.enqueue 0 5, .enqueue 1 3, .listen,
            .beginFetch 0, .fetched 0 [0, 1], .emit 0 0, .emit 0 1]) := by
  have r := (((Lts.Run.single (Step.enqueue init 5)).snoc (Step.enqueue _ 3)).snoc
    (Step.listen _)).snoc (Step.beginFetch (i := 0) rfl rfl rfl rfl rfl)
  have r' := ((r.snoc (Step.fetched (i := 0) [0, 1] rfl rfl (by decide))).snoc
    (Step.emit (i := 0) rfl rfl rfl rfl)).snoc (Step.emit (i := 0) rfl rfl rfl rfl)
  have hlone : ∀ j ids, Event.fetched j ids ∈
      [.enqueue 0 5, .enqueue 1 3, .listen, .beginFetch 0, .fetched 0 [0, 1], .emit 0 0,
        .emit 0 1] → j = 0 := by
    intro j ids hm
    simp at hm
    exact hm.1
  exact ⟨_, r', hlone, lone_listener_emits_once r' 0 hlone⟩

/-- The race of a cancelled listener's fetch in flight: listener `0` begins a fetch and is
cancelled by `listen`; listener `1` fetches and emits message `0`; the fetch of `0` then runs and
marks the message again; so the next fetch of `1` selects it once more, and `1` emits it a
second time. -/
theorem inflight_fetch_emits_twice :
    ∃ tr q, Lts.Run Step init tr q ∧ emitted 1 tr = [0, 0] := by
  have r₁ := Lts.Run.single (Step.enqueue init 0)
  have r₂ := r₁.snoc (Step.listen _)
  have r₃ := r₂.snoc (Step.beginFetch (i := 0) rfl rfl rfl rfl rfl)
  have r₄ := r₃.snoc (Step.listen _)
  have r₅ := r₄.snoc (Step.beginFetch (i := 1) rfl rfl rfl rfl rfl)
  have r₆ := r₅.snoc (Step.fetched (i := 1) [0] rfl rfl (by decide))
  have r₇ := r₆.snoc (Step.emit (i := 1) rfl rfl rfl rfl)
  have r₈ := r₇.snoc (Step.fetched (i := 0) [0] rfl rfl (by decide))
  have r₉ := r₈.snoc (Step.stop (i := 0) rfl rfl rfl)
  have r₁₀ := r₉.snoc (Step.beginFetch (i := 1) rfl rfl rfl rfl rfl)
  have r₁₁ := r₁₀.snoc (Step.fetched (i := 1) [0] rfl rfl (by decide))
  have r₁₂ := r₁₁.snoc (Step.emit (i := 1) rfl rfl rfl rfl)
  exact ⟨_, _, r₁₂, by decide⟩

end Queue

end Air.UsernameQueue
