import Air.Lts.Run
import Mathlib.Order.WithBot
import Mathlib.Data.Fin.VecNotation

/-! # Marking a chat as read

`mark_as_read` of `applogic/src/mark_as_read.rs`. Concurrent invocations share the watch
channel `mark_as_read_tx`, whose `MarkAsReadState` holds what is marked or scheduled. An
invocation schedules its message if it is later than the state's, waits for the debounce, which
ends early when the state changes, and then marks the chat as read if its message is still the
one scheduled. Between two await points an invocation runs without interruption, so it is a
sequence of atomic steps, and the invocations interleave arbitrarily.

The equal-timestamp corner case decides on one snapshot of the state, awaits the database for
the order of the two messages, and then overwrites the state unconditionally. A later message
scheduled during that await is replaced by the older one, and its own debounce then sees the
change and gives up (`markAsRead_regresses`). When no two different messages are requested with
the same timestamp, the corner case never arises and the state's timestamp never decreases
(`timestamp_le_of_reachable`).
-/

namespace Air

/-! ## Watch channels -/

/-- A `tokio::sync::watch` channel: its value, and the version that each notifying send
increments. -/
structure Watch (β : Type) where
  value : β
  version : ℕ
  deriving DecidableEq, Repr

namespace Watch

variable {β : Type}

/-- `send_if_modified`: the closure's value is kept, and receivers are notified only when the
closure says it modified the value. -/
def sendIfModified (w : Watch β) (modify : β → β × Bool) : Watch β × Bool :=
  ((⟨(modify w.value).1, if (modify w.value).2 then w.version + 1 else w.version⟩ : Watch β),
    (modify w.value).2)

def sendModify (w : Watch β) (modify : β → β) : Watch β := ⟨modify w.value, w.version + 1⟩

def subscribe (w : Watch β) : ℕ := w.version

@[simp] theorem value_sendIfModified (w : Watch β) (modify : β → β × Bool) :
    (w.sendIfModified modify).1.value = (modify w.value).1 := rfl

@[simp] theorem snd_sendIfModified (w : Watch β) (modify : β → β × Bool) :
    (w.sendIfModified modify).2 = (modify w.value).2 := rfl

@[simp] theorem value_sendModify (w : Watch β) (modify : β → β) :
    (w.sendModify modify).value = modify w.value := rfl

end Watch

/-! ## The state and the two checks -/

inductive MarkAsReadState (τ μ : Type) where
  | notLoaded
  /-- Chat is marked as read until the given timestamp. -/
  | marked (at' : τ)
  /-- Chat is scheduled to be marked as read until the given timestamp and message id. -/
  | scheduled (untilTimestamp : τ) (untilMessageId : μ)
  deriving DecidableEq, Repr

variable {τ μ : Type} [LinearOrder τ] [DecidableEq μ]

def MarkAsReadState.timestamp : MarkAsReadState τ μ → WithBot τ
  | .notLoaded => ⊥
  | .marked at' => at'
  | .scheduled untilTimestamp _ => untilTimestamp

/-- The closure of the first `send_if_modified`: the new state, whether it was modified, and,
in the corner case of another message scheduled with the same timestamp, that message. -/
def scheduleCheck (untilTimestamp : τ) (untilMessageId : μ) :
    MarkAsReadState τ μ → MarkAsReadState τ μ × Bool × Option μ
  | .notLoaded => (.scheduled untilTimestamp untilMessageId, true, none)
  | .marked at' =>
    if at' < untilTimestamp then (.scheduled untilTimestamp untilMessageId, true, none)
    else (.marked at', false, none)
  | .scheduled at' id =>
    if at' < untilTimestamp then (.scheduled untilTimestamp untilMessageId, true, none)
    else if id ≠ untilMessageId ∧ at' = untilTimestamp then (.scheduled at' id, false, some id)
    else (.scheduled at' id, false, none)

def confirmCheck (untilMessageId : μ) : MarkAsReadState τ μ → MarkAsReadState τ μ × Bool
  | .scheduled untilTimestamp id =>
    if id = untilMessageId then (.marked untilTimestamp, true)
    else (.scheduled untilTimestamp id, false)
  | state => (state, false)

inductive Pc (μ : Type) where
  | start
  | awaitOrdering (scheduledId : μ)
  | subscribing
  | debounce (seen : ℕ)
  | confirming
  | marking
  | done
  deriving DecidableEq, Repr

/-- `n` invocations sharing one channel, where each one is, and the messages
`mark_chat_as_read` was called with, in order. -/
structure World (τ μ : Type) (n : ℕ) where
  watch : Watch (MarkAsReadState τ μ)
  pcs : Fin n → Pc μ
  calls : List μ

def World.init {n : ℕ} (state : MarkAsReadState τ μ) : World τ μ n :=
  ⟨⟨state, 0⟩, fun _ => .start, []⟩

section Steps

variable {n : ℕ} (requests : Fin n → τ × μ) (messageOrdering : μ → μ → Option Ordering)

/-- The next atomic step of invocation `i`, which was called with `requests i`, the pair
`(until_timestamp, until_message_id)`. `messageOrdering` answers the database query, `none` for
an error. In the debounce, `timeout` says which branch of the `select!` completes: the sleep,
or `changed()`, which is ready once the version moved since the subscription. `none` when the
invocation has no such step. -/
def stepInvocation (w : World τ μ n) (i : Fin n) (timeout : Bool) : Option (World τ μ n) :=
  let untilTimestamp := (requests i).1
  let untilMessageId := (requests i).2
  match w.pcs i with
  | .start =>
    let check := scheduleCheck untilTimestamp untilMessageId w.watch.value
    let next : Pc μ :=
      if check.2.1 then .subscribing
      else match check.2.2 with
        | some scheduledId => .awaitOrdering scheduledId
        | none => .done
    some { w with watch := (w.watch.sendIfModified fun _ => (check.1, check.2.1)).1,
                  pcs := Function.update w.pcs i next }
  | .awaitOrdering scheduledId =>
    if messageOrdering scheduledId untilMessageId = some .lt then
      some { w with watch := w.watch.sendModify fun _ => .scheduled untilTimestamp untilMessageId,
                    pcs := Function.update w.pcs i .subscribing }
    else some { w with pcs := Function.update w.pcs i .done }
  | .subscribing => some { w with pcs := Function.update w.pcs i (.debounce w.watch.subscribe) }
  | .debounce seen =>
    if timeout then some { w with pcs := Function.update w.pcs i .confirming }
    else if w.watch.version ≠ seen then some { w with pcs := Function.update w.pcs i .done }
    else none
  | .confirming =>
    let confirmed := w.watch.sendIfModified (confirmCheck untilMessageId)
    some { w with watch := confirmed.1,
                  pcs := Function.update w.pcs i (if confirmed.2 then .marking else .done) }
  | .marking =>
    some { w with calls := w.calls ++ [untilMessageId], pcs := Function.update w.pcs i .done }
  | .done => none

def Step (w : World τ μ n) (a : Fin n × Bool) (w' : World τ μ n) : Prop :=
  stepInvocation requests messageOrdering w a.1 a.2 = some w'

def runSteps (w : World τ μ n) : List (Fin n × Bool) → Option (World τ μ n)
  | [] => some w
  | a :: l => (stepInvocation requests messageOrdering w a.1 a.2).bind fun w' => runSteps w' l

theorem run_of_runSteps {w w' : World τ μ n} {l : List (Fin n × Bool)}
    (h : runSteps requests messageOrdering w l = some w') :
    Lts.Run (Step requests messageOrdering) w l w' := by
  induction l generalizing w with
  | nil =>
    cases h
    exact .nil
  | cons a l ih =>
    rw [runSteps, Option.bind_eq_some_iff] at h
    obtain ⟨w₁, hstep, hrest⟩ := h
    have hone : Lts.Run (Step requests messageOrdering) w [a] w₁ := Lts.Run.single hstep
    simpa using hone.append (ih hrest)

theorem runSteps_append (w : World τ μ n) (l l' : List (Fin n × Bool)) :
    runSteps requests messageOrdering w (l ++ l') =
      (runSteps requests messageOrdering w l).bind fun w' => runSteps requests messageOrdering w' l' := by
  induction l generalizing w with
  | nil => rfl
  | cons a l ih =>
    simp only [List.cons_append, runSteps, ih, Option.bind_assoc]

/-! ## What a step can do -/

theorem scheduleCheck_cases (untilTimestamp : τ) (untilMessageId : μ) (state : MarkAsReadState τ μ) :
    (scheduleCheck untilTimestamp untilMessageId state =
        (.scheduled untilTimestamp untilMessageId, true, none) ∧
      state.timestamp < untilTimestamp) ∨
    (scheduleCheck untilTimestamp untilMessageId state).1 = state ∧
      (scheduleCheck untilTimestamp untilMessageId state).2.1 = false ∧
      ∀ scheduledId, (scheduleCheck untilTimestamp untilMessageId state).2.2 = some scheduledId →
        state = .scheduled untilTimestamp scheduledId ∧ scheduledId ≠ untilMessageId := by
  cases state with
  | notLoaded => exact .inl ⟨rfl, WithBot.bot_lt_coe _⟩
  | marked at' =>
    by_cases hlt : at' < untilTimestamp
    · exact .inl ⟨if_pos hlt, WithBot.coe_lt_coe.mpr hlt⟩
    · refine .inr ⟨?_, ?_, ?_⟩ <;> simp [scheduleCheck, hlt]
  | scheduled at' id =>
    by_cases hlt : at' < untilTimestamp
    · exact .inl ⟨if_pos hlt, WithBot.coe_lt_coe.mpr hlt⟩
    · by_cases hcorner : id ≠ untilMessageId ∧ at' = untilTimestamp
      · refine .inr ⟨?_, ?_, ?_⟩ <;> simp only [scheduleCheck, if_neg hlt, if_pos hcorner]
        rintro scheduledId ⟨⟩
        exact ⟨by rw [hcorner.2], hcorner.1⟩
      · refine .inr ⟨?_, ?_, ?_⟩ <;> simp only [scheduleCheck, if_neg hlt, if_neg hcorner]
        rintro scheduledId ⟨⟩

omit [LinearOrder τ] in
theorem timestamp_confirmCheck (untilMessageId : μ) (state : MarkAsReadState τ μ) :
    (confirmCheck untilMessageId state).1.timestamp = state.timestamp := by
  cases state with
  | scheduled untilTimestamp id =>
    by_cases hid : id = untilMessageId <;> simp [confirmCheck, hid, MarkAsReadState.timestamp]
  | _ => rfl

omit [LinearOrder τ] in
theorem eq_of_confirmCheck_eq_scheduled {untilMessageId id : μ} {state : MarkAsReadState τ μ}
    {untilTimestamp : τ} (h : (confirmCheck untilMessageId state).1 = .scheduled untilTimestamp id) :
    state = .scheduled untilTimestamp id := by
  cases state with
  | scheduled ts id' =>
    by_cases hid : id' = untilMessageId <;> simp_all [confirmCheck]
  | _ => exact h

/-- One step of invocation `i`: the state is left alone, scheduled for `i`'s request by its
first check at a later timestamp, set for it after the corner case, or confirmed; no other
invocation moves; and `i` awaits the ordering only after its first check met another message
scheduled at its timestamp. -/
theorem step_cases {w w' : World τ μ n} {i : Fin n} {timeout : Bool}
    (h : Step requests messageOrdering w (i, timeout) w') :
    (w'.watch.value = w.watch.value ∨
      (w'.watch.value = .scheduled (requests i).1 (requests i).2 ∧
        w.watch.value.timestamp < (requests i).1) ∨
      (∃ scheduledId, w.pcs i = .awaitOrdering scheduledId ∧
        w'.watch.value = .scheduled (requests i).1 (requests i).2) ∨
      w'.watch.value = (confirmCheck (requests i).2 w.watch.value).1) ∧
    (∀ j, j ≠ i → w'.pcs j = w.pcs j) ∧
    ∀ scheduledId, w'.pcs i = .awaitOrdering scheduledId →
      w.watch.value = .scheduled (requests i).1 scheduledId ∧ scheduledId ≠ (requests i).2 := by
  change stepInvocation requests messageOrdering w i timeout = some w' at h
  unfold stepInvocation at h
  cases hpc : w.pcs i with
  | start =>
    simp only [hpc] at h
    cases h
    rcases scheduleCheck_cases (requests i).1 (requests i).2 w.watch.value with
      ⟨hcheck, hlt⟩ | ⟨hsame, hnot, hcorner⟩
    · -- scheduled for this request
      refine ⟨.inr (.inl ⟨by simp [hcheck], hlt⟩), fun j hj => Function.update_of_ne hj _ _, ?_⟩
      simp [hcheck]
    · refine ⟨.inl (by simp [hsame]), fun j hj => Function.update_of_ne hj _ _, ?_⟩
      intro scheduledId hawait
      simp only [Function.update_self, hnot, Bool.false_eq_true, if_false] at hawait
      split at hawait
      · rename_i sid hsid
        cases hawait
        exact hcorner _ hsid
      · cases hawait
  | awaitOrdering scheduledId =>
    simp only [hpc] at h
    split_ifs at h <;> cases h
    · exact ⟨.inr (.inr (.inl ⟨scheduledId, rfl, rfl⟩)), fun j hj => Function.update_of_ne hj _ _,
        by simp⟩
    · exact ⟨.inl rfl, fun j hj => Function.update_of_ne hj _ _, by simp⟩
  | subscribing =>
    simp only [hpc] at h
    cases h
    exact ⟨.inl rfl, fun j hj => Function.update_of_ne hj _ _, by simp⟩
  | debounce seen =>
    simp only [hpc] at h
    split_ifs at h <;> cases h <;>
      exact ⟨.inl rfl, fun j hj => Function.update_of_ne hj _ _, by simp⟩
  | confirming =>
    simp only [hpc] at h
    cases h
    refine ⟨.inr (.inr (.inr rfl)), fun j hj => Function.update_of_ne hj _ _, ?_⟩
    intro scheduledId hawait
    simp only [Function.update_self] at hawait
    split at hawait <;> cases hawait
  | marking =>
    simp only [hpc] at h
    cases h
    exact ⟨.inl rfl, fun j hj => Function.update_of_ne hj _ _, by simp⟩
  | done =>
    simp only [hpc] at h
    cases h

/-! ## Distinct timestamps -/

def DistinctRequests : Prop :=
  ∀ i j, (requests i).1 = (requests j).1 → (requests i).2 = (requests j).2

def ScheduledOwnsTimestamp (state : MarkAsReadState τ μ) : Prop :=
  ∀ untilTimestamp id, state = .scheduled untilTimestamp id →
    ∀ i, (requests i).1 = untilTimestamp → (requests i).2 = id

/-- The invariant that keeps the corner case away: the scheduled message owns its timestamp,
and no invocation awaits the ordering of two messages. -/
structure Settled (w : World τ μ n) : Prop where
  owns : ScheduledOwnsTimestamp requests w.watch.value
  no_corner : ∀ i scheduledId, w.pcs i ≠ .awaitOrdering scheduledId

omit [LinearOrder τ] [DecidableEq μ] in
theorem settled_init {state : MarkAsReadState τ μ} (h : ScheduledOwnsTimestamp requests state) :
    Settled requests (World.init state : World τ μ n) :=
  ⟨h, fun _ _ => by simp [World.init]⟩

theorem Settled.step (hdistinct : DistinctRequests requests) {w w' : World τ μ n}
    {a : Fin n × Bool} (hs : Settled requests w) (h : Step requests messageOrdering w a w') :
    Settled requests w' ∧ w.watch.value.timestamp ≤ w'.watch.value.timestamp := by
  obtain ⟨i, timeout⟩ := a
  obtain ⟨hvalue, hothers, hawait⟩ := step_cases requests messageOrdering h
  have hno_corner : ∀ j scheduledId, w'.pcs j ≠ .awaitOrdering scheduledId := by
    intro j scheduledId hj
    by_cases hji : j = i
    · -- the first check would have met another message at the invocation's own timestamp
      subst hji
      obtain ⟨hstate, hne⟩ := hawait scheduledId hj
      exact hne (hs.owns _ _ hstate j rfl).symm
    · exact hs.no_corner j scheduledId (hothers j hji ▸ hj)
  rcases hvalue with hsame | ⟨hsched, hlt⟩ | ⟨scheduledId, hpc, -⟩ | hconfirm
  · exact ⟨⟨hsame ▸ hs.owns, hno_corner⟩, le_of_eq (by rw [hsame])⟩
  · refine ⟨⟨?_, hno_corner⟩, by rw [hsched]; exact hlt.le⟩
    intro untilTimestamp id hstate j hj
    rw [hsched] at hstate
    cases hstate
    exact hdistinct j i hj
  · exact absurd hpc (hs.no_corner i scheduledId)
  · refine ⟨⟨?_, hno_corner⟩, by rw [hconfirm, timestamp_confirmCheck]⟩
    intro untilTimestamp id hstate
    rw [hconfirm] at hstate
    exact hs.owns _ _ (eq_of_confirmCheck_eq_scheduled hstate)

/-- When no two different messages are requested with the same timestamp, the state's timestamp
never decreases: from any reachable world to any world reached from it. -/
theorem timestamp_le_of_reachable (hdistinct : DistinctRequests requests)
    {state : MarkAsReadState τ μ} (hinit : ScheduledOwnsTimestamp requests state)
    {w w' : World τ μ n} (h₁ : Lts.Reachable (Step requests messageOrdering) (World.init state) w)
    (h₂ : Lts.Reachable (Step requests messageOrdering) w w') :
    w.watch.value.timestamp ≤ w'.watch.value.timestamp := by
  have hw : Settled requests w :=
    h₁.invariant (settled_init requests hinit) fun _ _ _ hs h => (hs.step requests messageOrdering hdistinct h).1
  let Grown : World τ μ n → Prop := fun v =>
    Settled requests v ∧ w.watch.value.timestamp ≤ v.watch.value.timestamp
  have hrun : Grown w' :=
    h₂.invariant (show Grown w from ⟨hw, le_rfl⟩) fun _ _ _ ⟨hs, hle⟩ h =>
      ⟨(hs.step requests messageOrdering hdistinct h).1,
        hle.trans (hs.step requests messageOrdering hdistinct h).2⟩
  exact hrun.2

end Steps

/-! ## The corner case overwrites a later message -/

/-- Invocations `0` and `1` request messages `10` and `11` with the same timestamp `1`, and
invocation `2` message `12` at `2`. The database orders `10` before `11`. -/
def cornerRequests : Fin 3 → ℕ × ℕ := ![(1, 10), (1, 11), (2, 12)]

def cornerOrdering (a b : ℕ) : Option Ordering := some (compare a b)

/-- `0` schedules `10`; `1` meets it at the same timestamp and awaits the database; `0`
subscribes; `2` schedules `12` at `2`, which ends `0`'s debounce; `2` subscribes. -/
def cornerSchedule : List (Fin 3 × Bool) :=
  [(0, false), (1, false), (0, false), (2, false), (0, false), (2, false)]

def cornerRest : List (Fin 3 × Bool) :=
  [(2, false), (1, false), (1, true), (1, false), (1, false)]

/-- In the run above, the corner case resolved in favour of `11` overwrites the later message
`12`: the state's timestamp falls from `2` to `1`, invocation `2` gives up, and when every
invocation has returned the only `mark_chat_as_read` call was for `11`, older than `12`. -/
theorem markAsRead_regresses :
    ∃ w w' wf, Lts.Reachable (Step cornerRequests cornerOrdering) (World.init .notLoaded) w ∧
      Step cornerRequests cornerOrdering w (1, false) w' ∧
      w'.watch.value.timestamp < w.watch.value.timestamp ∧
      Lts.Reachable (Step cornerRequests cornerOrdering) w' wf ∧
      (∀ i, wf.pcs i = .done) ∧ wf.calls = [(cornerRequests 1).2] ∧
      (cornerRequests 1).1 < (cornerRequests 2).1 := by
  obtain ⟨w, hw⟩ := Option.isSome_iff_exists.mp
    (show (runSteps cornerRequests cornerOrdering (World.init .notLoaded) cornerSchedule).isSome by
      decide +kernel)
  have hsplit₁ := runSteps_append cornerRequests cornerOrdering (World.init .notLoaded)
    cornerSchedule [(1, false)]
  rw [hw, Option.bind_some] at hsplit₁
  obtain ⟨w', hw'⟩ := Option.isSome_iff_exists.mp
    (show (runSteps cornerRequests cornerOrdering w [(1, false)]).isSome by
      rw [← hsplit₁]
      decide +kernel)
  have hsplit₂ := runSteps_append cornerRequests cornerOrdering (World.init .notLoaded)
    (cornerSchedule ++ [(1, false)]) cornerRest
  rw [hsplit₁, hw', Option.bind_some] at hsplit₂
  obtain ⟨wf, hwf⟩ := Option.isSome_iff_exists.mp
    (show (runSteps cornerRequests cornerOrdering w' cornerRest).isSome by
      rw [← hsplit₂]
      decide +kernel)
  have hts : w.watch.value.timestamp = ((2 : ℕ) : WithBot ℕ) := by
    have hcompute : (runSteps cornerRequests cornerOrdering (World.init .notLoaded)
        cornerSchedule).map (fun v => v.watch.value.timestamp) = some ((2 : ℕ) : WithBot ℕ) := by
      decide +kernel
    rwa [hw, Option.map_some, Option.some.injEq] at hcompute
  have hts' : w'.watch.value.timestamp = ((1 : ℕ) : WithBot ℕ) := by
    have hcompute : (runSteps cornerRequests cornerOrdering (World.init .notLoaded)
        (cornerSchedule ++ [(1, false)])).map (fun v => v.watch.value.timestamp) =
          some ((1 : ℕ) : WithBot ℕ) := by
      decide +kernel
    rwa [hsplit₁, hw', Option.map_some, Option.some.injEq] at hcompute
  have hfinal : ((List.finRange 3).map wf.pcs, wf.calls) = ([.done, .done, .done], [11]) := by
    have hcompute : (runSteps cornerRequests cornerOrdering (World.init .notLoaded)
        (cornerSchedule ++ [(1, false)] ++ cornerRest)).map
          (fun v => ((List.finRange 3).map v.pcs, v.calls)) =
        some ([.done, .done, .done], [11]) := by
      decide +kernel
    rwa [hsplit₂, hwf, Option.map_some, Option.some.injEq] at hcompute
  obtain ⟨hpcs, hcalls⟩ := Prod.mk.inj hfinal
  have hstep : Step cornerRequests cornerOrdering w (1, false) w' := by
    simpa [runSteps, Step] using hw'
  refine ⟨w, w', wf, (run_of_runSteps _ _ hw).reachable, hstep, ?_,
    (run_of_runSteps _ _ hwf).reachable, ?_, hcalls, by decide⟩
  · rw [hts, hts']
    exact WithBot.coe_lt_coe.mpr (by decide)
  · intro i
    have hi : wf.pcs i ∈ (List.finRange 3).map wf.pcs := List.mem_map_of_mem (List.mem_finRange i)
    rw [hpcs] at hi
    simpa using hi

end Air
