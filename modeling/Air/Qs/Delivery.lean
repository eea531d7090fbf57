import Air.Qs.Queue
import Air.Client.QueueRatchets
import Air.Lts.Run

/-! # Exactly-once, in-order delivery through the QS queue

One client's queue as a system: the server's client record and `qs_queues` rows,
the listen stream the client currently reads, the messages the client has received
but not yet decrypted (`QsStreamProcessor::messages`), and the client's persisted
queue ratchet. Both ratchets start from the same secret.

Any interleaving of these steps is allowed: `do_enqueue`; `listen` with the client's
persisted sequence number as start (a reconnect replaces the stream); a disconnect;
a pass of the stream loop; the decryption of the oldest received message, committed
on its own; and an `ack` up to at most the persisted sequence number.

The messages still to be decrypted, followed by the stream's buffer, never run ahead
of the client's ratchet (`advance`); the stream's cursor never passes where that
ratchet will be. So the gap branch of `decrypt_qs_queue_message` never fires, each
payload is returned once and in enqueue order, and every other delivery of it is a
replay that returns `Ok(None)`.
-/

namespace Air

variable {S K P C : Type*}

/-- One client's queue: server state, the stream the client reads, and client state. -/
structure QsSystem (S K C : Type*) where
  record : QsClientRecord S K
  rows : QueueRows C
  stream : Option (QueueStreamContext C)
  inbox : List (QueueMessage C)
  ratchet : QueueRatchet S K

inductive QsEvent (P C : Type*) where
  | enqueue (payload : P)
  | listen
  | disconnect
  | poll
  | decrypt (m : QueueMessage C) (result : Except DecryptQsQueueMessageError (Option P))
  | ack (upTo : ℕ)

namespace QsSystem

variable (prim : RatchetPrimitives S K P C)

def init (secret : S) : QsSystem S K C :=
  ⟨⟨QueueRatchet.tryFrom prim secret⟩, [], none, [], QueueRatchet.tryFrom prim secret⟩

/-- The client's side of one pass of the stream loop: a message is received, the empty
sentinel changes nothing, and a stopped stream is gone. -/
def applyPoll (sys : QsSystem S K C) : QueueStreamContext.Poll C → QsSystem S K C
  | .yield (some m) ctx => { sys with stream := some ctx, inbox := sys.inbox ++ [m] }
  | .yield none ctx => { sys with stream := some ctx }
  | .next ctx => { sys with stream := some ctx }
  | .stop => { sys with stream := none }

def storedAfter (stored : QueueRatchet S K) :
    Except DecryptQsQueueMessageError (Option (P × QueueRatchet S K)) → QueueRatchet S K
  | .ok (some (_, r)) => r
  | _ => stored

/-- The interleaving semantics of one client's queue. -/
inductive Step : QsSystem S K C → QsEvent P C → QsSystem S K C → Prop
  | enqueue {sys : QsSystem S K C} {payload : P} {record : QsClientRecord S K}
      {rows : QueueRows C} :
      QsClientRecord.doEnqueue prim (some sys.record) sys.rows payload = .ok (record, rows) →
      Step sys (.enqueue payload) { sys with record := record, rows := rows }
  | listen {sys : QsSystem S K C} :
      Step sys .listen { sys with stream := some (.new sys.ratchet.sequenceNumber) }
  | disconnect {sys : QsSystem S K C} : Step sys .disconnect { sys with stream := none }
  | poll {sys : QsSystem S K C} {ctx : QueueStreamContext C} :
      sys.stream = some ctx → Step sys .poll (sys.applyPoll (ctx.poll sys.rows))
  | decrypt {sys : QsSystem S K C} {m : QueueMessage C} {rest : List (QueueMessage C)} :
      sys.inbox = m :: rest →
      Step sys (.decrypt m ((sys.ratchet.decryptQsQueueMessage prim m).map (Option.map Prod.fst)))
        { sys with inbox := rest,
                   ratchet := storedAfter sys.ratchet (sys.ratchet.decryptQsQueueMessage prim m) }
  | ack {sys : QsSystem S K C} {upTo : ℕ} : upTo ≤ sys.ratchet.sequenceNumber →
      Step sys (.ack upTo) { sys with rows := Queue.delete sys.rows upTo }

variable {prim} in
theorem Step.poll_of_eq {sys : QsSystem S K C} (ctx : QueueStreamContext C)
    {p : QueueStreamContext.Poll C} (hs : sys.stream = some ctx) (hp : ctx.poll sys.rows = p) :
    Step prim sys .poll (sys.applyPoll p) :=
  hp ▸ .poll hs

def enqueued : List (QsEvent P C) → List P :=
  List.filterMap fun | .enqueue p => some p | _ => none

def delivered : List (QsEvent P C) → List P :=
  List.filterMap fun | .decrypt _ (.ok (some p)) => some p | _ => none

@[simp] theorem enqueued_nil : enqueued ([] : List (QsEvent P C)) = [] := rfl
@[simp] theorem delivered_nil : delivered ([] : List (QsEvent P C)) = [] := rfl

@[simp] theorem enqueued_decrypt (m : QueueMessage C)
    (result : Except DecryptQsQueueMessageError (Option P)) :
    enqueued [QsEvent.decrypt m result] = [] := rfl

@[simp] theorem enqueued_append (l l' : List (QsEvent P C)) :
    enqueued (l ++ l') = enqueued l ++ enqueued l' :=
  List.filterMap_append

@[simp] theorem delivered_append (l l' : List (QsEvent P C)) :
    delivered (l ++ l') = delivered l ++ delivered l' :=
  List.filterMap_append

/-- What a decryption after enqueueing `E` and delivering `D` must return: nothing is
ahead of the ratchet; the next message yields the next enqueued payload, an older one
is a replay. -/
def DecryptSound (E D : List P) : QsEvent P C → Prop
  | .decrypt m result =>
    m.sequenceNumber ≤ D.length ∧
    (m.sequenceNumber = D.length →
      ∃ h : m.sequenceNumber < E.length, result = .ok (some E[m.sequenceNumber])) ∧
    (m.sequenceNumber < D.length → result = .ok none)
  | _ => True

/-- The messages the client will decrypt next, oldest first: those received, then the
stream's buffer. -/
def pending (sys : QsSystem S K C) : List (QueueMessage C) :=
  sys.inbox ++ (sys.stream.map (·.buffer)).getD []

end QsSystem

/-- Where a client ratchet at `r` ends after the messages `ms` in order, unless one of them
is ahead of it: the message at `r` moves it on, an older one is skipped. -/
def advance : ℕ → List (QueueMessage C) → Option ℕ
  | r, [] => some r
  | r, m :: ms =>
    if r < m.sequenceNumber then none
    else advance (if m.sequenceNumber = r then r + 1 else r) ms

section Advance

variable {r r' : ℕ} {m : QueueMessage C} {ms ms' : List (QueueMessage C)}

theorem advance_append :
    advance r (ms ++ ms') = (advance r ms).bind (advance · ms') := by
  induction ms generalizing r with
  | nil => rfl
  | cons m ms ih =>
    simp only [List.cons_append, advance]
    split_ifs <;> simp [ih]

theorem le_of_advance (h : advance r ms = some r') : r ≤ r' := by
  induction ms generalizing r with
  | nil => simp only [advance, Option.some.injEq] at h; omega
  | cons m ms ih =>
    simp only [advance] at h
    split_ifs at h with hlt heq
    · have := ih h; omega
    · exact ih h

theorem le_of_advance_cons (h : advance r (m :: ms) = some r') : m.sequenceNumber ≤ r := by
  simp only [advance] at h
  split_ifs at h with hlt
  all_goals omega

theorem advance_cons_of_eq (h : m.sequenceNumber = r) :
    advance r (m :: ms) = advance (r + 1) ms := by
  simp [advance, h]

theorem advance_cons_of_lt (h : m.sequenceNumber < r) : advance r (m :: ms) = advance r ms := by
  simp [advance, Nat.not_lt_of_gt h, Nat.ne_of_lt h]

theorem advance_of_range' {h k : ℕ} (hms : ms.map (·.sequenceNumber) = List.range' h k)
    (hr : h ≤ r) : advance r ms = some (max r (h + k)) := by
  induction ms generalizing h k r with
  | nil =>
    cases k with
    | zero => simp only [advance, Nat.add_zero, Option.some.injEq]; omega
    | succ k => simp [List.range'_succ] at hms
  | cons m ms ih =>
    cases k with
    | zero => simp at hms
    | succ k =>
      simp only [List.map_cons, List.range'_succ, List.cons.injEq] at hms
      obtain ⟨hm, hms⟩ := hms
      rcases Nat.lt_or_ge h r with hlt | hge
      · rw [advance_cons_of_lt (hm ▸ hlt), ih hms (by omega)]
        congr 1
        omega
      · have heq : m.sequenceNumber = r := by omega
        rw [advance_cons_of_eq heq, ih hms (by omega)]
        congr 1
        omega

theorem sequenceNumber_of_getLast? {h k : ℕ} (hms : ms.map (·.sequenceNumber) = List.range' h k)
    (hm : ms.getLast? = some m) : m.sequenceNumber + 1 = h + k := by
  have hl := congrArg List.getLast? hms
  rw [List.getLast?_map, hm, List.getLast?_range'] at hl
  split_ifs at hl with hk
  · cases hl
  · simp only [Option.map_some, Option.some.injEq] at hl
    omega

end Advance

namespace QsSystem

variable (prim : RatchetPrimitives S K P C) (secret : S)

/-- `m` is what `do_enqueue` stored for the payload at its sequence number: its
ciphertext encrypts that payload under the key the ratchets share at that number. -/
def Sealed (E : List P) (m : QueueMessage C) : Prop :=
  ∃ h : m.sequenceNumber < E.length,
    prim.encrypt (QueueRatchet.chain prim secret m.sequenceNumber).key E[m.sequenceNumber] =
      some m.ciphertext

/-- The invariant of a run that has enqueued `E` and delivered `D`. -/
structure Inv (E D : List P) (sys : QsSystem S K C) : Prop where
  record : sys.record.ratchetKey = QueueRatchet.chain prim secret E.length
  ratchet : sys.ratchet = QueueRatchet.chain prim secret D.length
  delivered : D = E.take D.length
  delivered_le : D.length ≤ E.length
  rows_sealed : ∀ m ∈ sys.rows, Sealed prim secret E m
  rows_range : ∃ lo ≤ D.length, sys.rows.map (·.sequenceNumber) = List.range' lo (E.length - lo)
  pending_sealed : ∀ m ∈ sys.pending, Sealed prim secret E m
  pending_advance : ∃ r, advance D.length sys.pending = some r ∧
    ∀ ctx, sys.stream = some ctx → ctx.sequenceNumber ≤ r

variable {prim secret} {E D : List P} {sys sys' : QsSystem S K C}

theorem Sealed.append {m : QueueMessage C} (p : P) (h : Sealed prim secret E m) :
    Sealed prim secret (E ++ [p]) m := by
  obtain ⟨hlt, hc⟩ := h
  exact ⟨by simp only [List.length_append, List.length_singleton]; omega,
    by rwa [List.getElem_append_left hlt]⟩

theorem advance_inbox (h : Inv prim secret E D sys) :
    ∃ r, advance D.length sys.inbox = some r ∧ D.length ≤ r ∧
      ∀ ctx, sys.stream = some ctx → ctx.buffer = [] → ctx.sequenceNumber ≤ r := by
  obtain ⟨r, hr, hctx⟩ := h.pending_advance
  rw [pending, advance_append] at hr
  rcases hi : advance D.length sys.inbox with _ | r₁
  · simp [hi] at hr
  · refine ⟨r₁, rfl, le_of_advance hi, fun ctx hs hb => ?_⟩
    simp only [hi, hs, hb, Option.map_some, Option.getD_some, Option.bind_some, advance,
      Option.some.injEq] at hr
    subst hr
    exact hctx ctx hs

theorem inv_enqueue {p : P} {record : QsClientRecord S K} {rows : QueueRows C}
    (h : Inv prim secret E D sys)
    (he : QsClientRecord.doEnqueue prim (some sys.record) sys.rows p = .ok (record, rows)) :
    Inv prim secret (E ++ [p]) D { sys with record := record, rows := rows } := by
  obtain ⟨c, hc, rfl, rfl⟩ := QsClientRecord.doEnqueue_eq_ok he
  obtain ⟨lo, hlo, hrange⟩ := h.rows_range
  have hseq : sys.record.ratchetKey.sequenceNumber = E.length := by simp [h.record]
  have hnew : Sealed prim secret (E ++ [p]) ⟨E.length, c⟩ := by
    refine ⟨by simp, ?_⟩
    simpa [← h.record] using hc
  constructor
  · simp [h.record, QueueRatchet.chain_ratchetForward]
  · exact h.ratchet
  · rw [List.take_append_of_le_length h.delivered_le]
    exact h.delivered
  · simp only [List.length_append, List.length_singleton]
    exact Nat.le_succ_of_le h.delivered_le
  · intro m hm
    rcases List.mem_append.mp hm with hm | hm
    · exact (h.rows_sealed m hm).append p
    · rw [List.mem_singleton] at hm
      rw [hm, hseq]
      exact hnew
  · refine ⟨lo, hlo, ?_⟩
    have hle : lo ≤ E.length := le_trans hlo h.delivered_le
    simp only [List.map_append, hrange, List.map_cons, List.map_nil, hseq,
      List.length_append, List.length_singleton]
    rw [show E.length + 1 - lo = (E.length - lo) + 1 by omega, List.range'_concat]
    simp only [Nat.one_mul]
    congr
    omega
  · intro m hm
    exact (h.pending_sealed m hm).append p
  · exact h.pending_advance

theorem mem_pending_of_mem_inbox {m : QueueMessage C} (hm : m ∈ sys.inbox) : m ∈ sys.pending :=
  List.mem_append_left _ hm

theorem Inv.setStream (h : Inv prim secret E D sys) {s : Option (QueueStreamContext C)}
    (hs : ∀ ctx, s = some ctx → ctx.buffer = [] ∧ ctx.sequenceNumber ≤ D.length) :
    Inv prim secret E D { sys with stream := s } := by
  obtain ⟨r, hr, hle, -⟩ := advance_inbox h
  have hpend : ({ sys with stream := s } : QsSystem S K C).pending = sys.inbox := by
    rcases s with _ | ctx
    · simp [pending]
    · simp [pending, (hs ctx rfl).1]
  refine { h with pending_sealed := ?_, pending_advance := ⟨r, ?_, ?_⟩ }
  · intro m hm
    rw [hpend] at hm
    exact h.pending_sealed m (mem_pending_of_mem_inbox hm)
  · rw [hpend]
    exact hr
  · intro ctx hctx
    exact le_trans (hs ctx hctx).2 hle

theorem Inv.of_pending_eq (h : Inv prim secret E D sys) {ctx ctx' : QueueStreamContext C}
    {inbox : List (QueueMessage C)} (hctx : sys.stream = some ctx)
    (hpend : ({ sys with stream := some ctx', inbox := inbox } : QsSystem S K C).pending =
      sys.pending)
    (hseq : ctx'.sequenceNumber = ctx.sequenceNumber) :
    Inv prim secret E D { sys with stream := some ctx', inbox := inbox } := by
  obtain ⟨r, hr, hcur⟩ := h.pending_advance
  refine { h with pending_sealed := ?_, pending_advance := ⟨r, ?_, ?_⟩ }
  · rw [hpend]
    exact h.pending_sealed
  · rw [hpend]
    exact hr
  · rintro c ⟨⟩
    rw [hseq]
    exact hcur ctx hctx

theorem inv_listen (h : Inv prim secret E D sys) :
    Inv prim secret E D { sys with stream := some (.new sys.ratchet.sequenceNumber) } := by
  refine h.setStream fun ctx hctx => ?_
  cases hctx
  simp [QueueStreamContext.new, h.ratchet]

theorem inv_disconnect (h : Inv prim secret E D sys) :
    Inv prim secret E D { sys with stream := none } :=
  h.setStream (by simp)

/-- One pass of the stream loop keeps the invariant. The fetch is the case with content:
the rows it reads continue the messages still to come, so the cursor stays behind the
ratchet's final position. -/
theorem inv_poll (h : Inv prim secret E D sys) {ctx : QueueStreamContext C}
    (hctx : sys.stream = some ctx) : Inv prim secret E D (sys.applyPoll (ctx.poll sys.rows)) := by
  rcases ctx.poll_cases sys.rows with
    ⟨m, rest, hbuf, hp⟩ | ⟨hbuf, hp | ⟨st, hp⟩⟩ | ⟨hbuf, -, hp⟩ | ⟨hbuf, m, hlast, hp⟩
  · -- the head of the buffer moves to the client
    rw [hp]
    exact h.of_pending_eq hctx (by simp [pending, hctx, hbuf]) rfl
  · rw [hp]
    exact h.setStream (by simp)
  · rw [hp]
    exact h.of_pending_eq hctx (by simp [pending, hctx, hbuf]) rfl
  · rw [hp]
    exact h.of_pending_eq hctx (by simp [pending, hctx, hbuf]) rfl
  · -- a fetch: the buffer gets the rows from the cursor on
    rw [hp]
    obtain ⟨r, hr, hD, hcur⟩ := advance_inbox h
    obtain ⟨lo, hlo, hrange⟩ := h.rows_range
    have hF := Queue.fetchInto_map ctx.sequenceNumber maxBufferSize hrange
    have hstart : max ctx.sequenceNumber lo ≤ r := max_le (hcur ctx hctx hbuf) (by omega)
    have hlastSeq := sequenceNumber_of_getLast? hF hlast
    have hpend : ({ sys with stream := some { ctx with
        buffer := Queue.fetchInto sys.rows ctx.sequenceNumber maxBufferSize,
        sequenceNumber := m.sequenceNumber + 1 } } : QsSystem S K C).pending =
        sys.inbox ++ Queue.fetchInto sys.rows ctx.sequenceNumber maxBufferSize := by
      simp [pending]
    refine { h with pending_sealed := ?_, pending_advance := ⟨max r (max ctx.sequenceNumber lo +
      min maxBufferSize (E.length - max ctx.sequenceNumber lo)), ?_, ?_⟩ }
    · intro x hx
      simp only [applyPoll, hpend, List.mem_append] at hx
      rcases hx with hx | hx
      · exact h.pending_sealed x (mem_pending_of_mem_inbox hx)
      · exact h.rows_sealed x (Queue.mem_of_mem_fetchInto hx)
    · simp only [applyPoll, hpend]
      rw [advance_append, hr, Option.bind_some, advance_of_range' hF hstart]
    · rintro c ⟨⟩
      simp only
      omega

theorem inv_ack {upTo : ℕ} (h : Inv prim secret E D sys) (hup : upTo ≤ sys.ratchet.sequenceNumber) :
    Inv prim secret E D { sys with rows := Queue.delete sys.rows upTo } := by
  obtain ⟨lo, hlo, hrange⟩ := h.rows_range
  have hup' : upTo ≤ D.length := by simpa [h.ratchet] using hup
  refine { h with rows_sealed := ?_, rows_range := ⟨max upTo lo, max_le hup' hlo, ?_⟩ }
  · intro m hm
    exact h.rows_sealed m (Queue.mem_delete.mp hm).1
  · exact Queue.delete_map hrange

theorem inv_init : Inv prim secret [] [] (init prim secret : QsSystem S K C) where
  record := rfl
  ratchet := rfl
  delivered := rfl
  delivered_le := le_rfl
  rows_sealed := by simp [init]
  rows_range := ⟨0, le_rfl, rfl⟩
  pending_sealed := by simp [init, pending]
  pending_advance := ⟨0, rfl, by simp [init]⟩

section Decrypt

variable {m : QueueMessage C} {rest : List (QueueMessage C)}

theorem pending_pop (hin : sys.inbox = m :: rest) (q : QueueRatchet S K) :
    sys.pending = m :: ({ sys with inbox := rest, ratchet := q } : QsSystem S K C).pending := by
  simp [pending, hin]

theorem decryptQsQueueMessage_of_inv (hprim : prim.DecryptsEncryption)
    (h : Inv prim secret E D sys) (hin : sys.inbox = m :: rest) :
    (∃ hlt : D.length < E.length, m.sequenceNumber = D.length ∧
      sys.ratchet.decryptQsQueueMessage prim m =
        .ok (some (E[D.length], QueueRatchet.chain prim secret (D.length + 1)))) ∨
    (m.sequenceNumber < D.length ∧ sys.ratchet.decryptQsQueueMessage prim m = .ok none) := by
  obtain ⟨r, hr, -⟩ := h.pending_advance
  rw [pending_pop hin sys.ratchet] at hr
  have hseq : sys.ratchet.sequenceNumber = D.length := by simp [h.ratchet]
  rcases Nat.lt_or_eq_of_le (le_of_advance_cons hr) with hlt | heq
  · exact .inr ⟨hlt, QueueRatchet.decryptQsQueueMessage_of_lt (hseq ▸ hlt)⟩
  · obtain ⟨hlt, hc⟩ := h.pending_sealed m (by rw [pending_pop hin sys.ratchet]; simp)
    obtain ⟨seq, c⟩ := m
    simp only at heq hlt hc
    subst heq
    have hdec : sys.ratchet.decrypt prim ⟨D.length, c⟩ =
        some (E[D.length], QueueRatchet.chain prim secret (D.length + 1)) := by
      simp [QueueRatchet.decrypt, h.ratchet, hprim _ _ _ hc, QueueRatchet.chain_ratchetForward]
    refine .inl ⟨hlt, rfl, ?_⟩
    rw [QueueRatchet.decryptQsQueueMessage_of_eq hseq.symm, hdec]

theorem decryptSound_of_inv (hprim : prim.DecryptsEncryption) (h : Inv prim secret E D sys)
    (hin : sys.inbox = m :: rest) :
    DecryptSound E D (.decrypt m ((sys.ratchet.decryptQsQueueMessage prim m).map
      (Option.map Prod.fst))) := by
  rcases decryptQsQueueMessage_of_inv hprim h hin with ⟨hlt, heq, hres⟩ | ⟨hlt, hres⟩
  · refine ⟨heq.le, fun _ => ⟨heq ▸ hlt, ?_⟩, fun h' => absurd heq (Nat.ne_of_lt h')⟩
    rw [hres]
    simp only [heq]
    rfl
  · refine ⟨hlt.le, fun h' => absurd h' (Nat.ne_of_lt hlt), fun _ => ?_⟩
    rw [hres]
    rfl

theorem inv_decrypt_next (h : Inv prim secret E D sys) (hin : sys.inbox = m :: rest)
    (hlt : D.length < E.length) (heq : m.sequenceNumber = D.length) :
    Inv prim secret E (D ++ [E[D.length]])
      { sys with inbox := rest, ratchet := QueueRatchet.chain prim secret (D.length + 1) } := by
  obtain ⟨r, hr, hcur⟩ := h.pending_advance
  obtain ⟨lo, hlo, hrange⟩ := h.rows_range
  rw [pending_pop hin (QueueRatchet.chain prim secret (D.length + 1)), advance_cons_of_eq heq] at hr
  have hlen : (D ++ [E[D.length]]).length = D.length + 1 := by simp
  constructor
  · exact h.record
  · rw [hlen]
  · rw [hlen, List.take_succ_eq_append_getElem hlt, ← h.delivered]
  · rw [hlen]
    exact hlt
  · exact h.rows_sealed
  · exact ⟨lo, by omega, hrange⟩
  · intro x hx
    apply h.pending_sealed x
    rw [pending_pop hin (QueueRatchet.chain prim secret (D.length + 1))]
    exact List.mem_cons_of_mem m hx
  · exact ⟨r, by rw [hlen]; exact hr, hcur⟩

theorem inv_decrypt_replay (h : Inv prim secret E D sys) (hin : sys.inbox = m :: rest)
    (hlt : m.sequenceNumber < D.length) : Inv prim secret E D { sys with inbox := rest } := by
  obtain ⟨r, hr, hcur⟩ := h.pending_advance
  rw [pending_pop hin sys.ratchet, advance_cons_of_lt hlt] at hr
  refine { h with pending_sealed := ?_, pending_advance := ⟨r, hr, hcur⟩ }
  intro x hx
  apply h.pending_sealed x
  rw [pending_pop hin sys.ratchet]
  exact List.mem_cons_of_mem m hx

end Decrypt

/-- Every step keeps the invariant, and a decryption returns what `DecryptSound` says. -/
theorem inv_step (hprim : prim.DecryptsEncryption) {a : QsEvent P C}
    (h : Inv prim secret E D sys) (hs : Step prim sys a sys') :
    Inv prim secret (E ++ enqueued [a]) (D ++ delivered [a]) sys' ∧ DecryptSound E D a := by
  cases hs with
  | enqueue he => exact ⟨by simpa [enqueued, delivered] using inv_enqueue h he, trivial⟩
  | listen => exact ⟨by simpa [enqueued, delivered] using inv_listen h, trivial⟩
  | disconnect => exact ⟨by simpa [enqueued, delivered] using inv_disconnect h, trivial⟩
  | poll hctx => exact ⟨by simpa [enqueued, delivered] using inv_poll h hctx, trivial⟩
  | ack hup => exact ⟨by simpa [enqueued, delivered] using inv_ack h hup, trivial⟩
  | decrypt hin =>
    refine ⟨?_, decryptSound_of_inv hprim h hin⟩
    rcases decryptQsQueueMessage_of_inv hprim h hin with ⟨hlt, heq, hres⟩ | ⟨hlt, hres⟩
    · rw [hres]
      simpa [enqueued, delivered, storedAfter, Except.map] using inv_decrypt_next h hin hlt heq
    · rw [hres]
      simpa [enqueued, delivered, storedAfter, Except.map] using inv_decrypt_replay h hin hlt

/-- Along any run from a state with the invariant, the invariant holds for what the run
enqueued and delivered, and every decryption is sound. -/
theorem inv_run (hprim : prim.DecryptsEncryption) (h : Inv prim secret E D sys)
    {l : List (QsEvent P C)} (hrun : Lts.Run (Step prim) sys l sys') :
    Inv prim secret (E ++ enqueued l) (D ++ delivered l) sys' ∧
      Lts.EveryStep (fun pre a => DecryptSound (E ++ enqueued pre) (D ++ delivered pre) a) l := by
  refine hrun.traceInvariant (P := fun l s => Inv prim secret (E ++ enqueued l) (D ++ delivered l) s ∧
    Lts.EveryStep (fun pre a => DecryptSound (E ++ enqueued pre) (D ++ delivered pre) a) l)
    ⟨by simpa using h, Lts.everyStep_nil⟩ ?_
  rintro l s a t ⟨hinv, hevery⟩ hs
  obtain ⟨hinv', hsound⟩ := inv_step hprim hinv hs
  exact ⟨by simpa using hinv', Lts.everyStep_snoc.mpr ⟨hevery, hsound⟩⟩

section Progress

theorem exists_run_fetch (h : Inv prim secret E D sys) (hin : sys.inbox = [])
    (hlt : D.length < E.length) :
    ∃ l sys' m, Lts.Run (Step prim) sys l sys' ∧ enqueued l = [] ∧ delivered l = [] ∧
      sys'.inbox = [m] ∧ m.sequenceNumber = D.length := by
  obtain ⟨lo, hlo, hrange⟩ := h.rows_range
  have hseq : sys.ratchet.sequenceNumber = D.length := by simp [h.ratchet]
  have hF := Queue.fetchInto_map D.length maxBufferSize hrange
  rw [max_eq_left hlo] at hF
  obtain ⟨k, hk⟩ : ∃ k, min maxBufferSize (E.length - D.length) = k + 1 :=
    ⟨min maxBufferSize (E.length - D.length) - 1, by simp only [maxBufferSize]; omega⟩
  rw [hk, List.range'_succ] at hF
  obtain ⟨m, F, hcons, hm⟩ : ∃ m F, Queue.fetchInto sys.rows D.length maxBufferSize = m :: F ∧
      m.sequenceNumber = D.length := by
    rcases hf : Queue.fetchInto sys.rows D.length maxBufferSize with _ | ⟨m, F⟩
    · rw [hf] at hF
      cases hF
    · rw [hf, List.map_cons, List.cons.injEq] at hF
      exact ⟨m, F, rfl, hF.1⟩
  obtain ⟨last, hlast⟩ : ∃ last, (m :: F).getLast? = some last :=
    ⟨_, List.getLast?_eq_some_getLast (List.cons_ne_nil m F)⟩
  let c₁ : QueueStreamContext C := ⟨sys.ratchet.sequenceNumber, [], .fetch, false⟩
  let c₂ : QueueStreamContext C := ⟨last.sequenceNumber + 1, m :: F, .fetch, false⟩
  have hp₂ : c₁.poll sys.rows = .next c₂ := by
    simp [c₁, c₂, QueueStreamContext.poll, QueueStreamContext.fetchNextMessages, hseq, hcons,
      hlast]
  let s₁ : QsSystem S K C := { sys with stream := some (.new sys.ratchet.sequenceNumber) }
  have st₁ : Step prim sys .listen s₁ := .listen
  have st₂ : Step prim s₁ .poll { s₁ with stream := some c₁ } :=
    Step.poll_of_eq (.new _) (p := .next c₁) rfl rfl
  have st₃ : Step prim { s₁ with stream := some c₁ } .poll { s₁ with stream := some c₂ } :=
    Step.poll_of_eq c₁ (p := .next c₂) rfl hp₂
  have st₄ : Step prim { s₁ with stream := some c₂ } .poll _ := Step.poll_of_eq c₂ rfl rfl
  refine ⟨[.listen, .poll, .poll, .poll], _, m, (((Lts.Run.single st₁).snoc st₂).snoc st₃).snoc st₄,
    rfl, rfl, ?_, hm⟩
  simp [applyPoll, QueueStreamContext.poll, c₂, s₁, hin]

/-- From any state with the invariant, some run that enqueues nothing more delivers every
payload enqueued so far. The measure is what is left to deliver plus what is received:
a decryption takes one received message, and with nothing received a fetch and a
decryption deliver the next payload. -/
theorem exists_run_complete (hprim : prim.DecryptsEncryption) (n : ℕ) :
    ∀ (D : List P) (sys : QsSystem S K C), E.length - D.length + sys.inbox.length = n →
      Inv prim secret E D sys →
      ∃ l sys', Lts.Run (Step prim) sys l sys' ∧ enqueued l = [] ∧ D ++ delivered l = E := by
  induction n using Nat.strong_induction_on with
  | _ n ih =>
  intro D sys hn h
  rcases hin : sys.inbox with _ | ⟨m, rest⟩
  · by_cases hlt : D.length < E.length
    · -- receive the next message and decrypt it
      obtain ⟨l₀, sys₀, m, hrun₀, he₀, hd₀, hin₀, hm⟩ := exists_run_fetch h hin hlt
      have h₀ : Inv prim secret E D sys₀ := by simpa [he₀, hd₀] using (inv_run hprim h hrun₀).1
      have hdec : Step prim sys₀ _ _ := .decrypt hin₀
      obtain ⟨h₁, -⟩ := inv_step hprim h₀ hdec
      rcases decryptQsQueueMessage_of_inv hprim h₀ hin₀ with ⟨hlt₀, -, hres⟩ | ⟨hlt', -⟩
      · have hd : delivered [QsEvent.decrypt m ((sys₀.ratchet.decryptQsQueueMessage prim m).map
            (Option.map Prod.fst))] = [E[D.length]] := by
          simp [hres, delivered, Except.map]
        rw [hd, enqueued_decrypt, List.append_nil] at h₁
        obtain ⟨l₁, sys', hrun₁, he₁, hd₁⟩ :=
          ih (E.length - (D.length + 1)) (by simp [hin] at hn; omega) _ _ (by simp) h₁
        refine ⟨l₀ ++ [_] ++ l₁, sys', (hrun₀.snoc hdec).append hrun₁, ?_, ?_⟩
        · rw [enqueued_append, enqueued_append, he₀, enqueued_decrypt, he₁]
          rfl
        · simp only [delivered_append, hd₀, hd, List.nil_append, ← List.append_assoc]
          exact hd₁
      · omega
    · -- everything enqueued is delivered
      refine ⟨[], sys, .nil, rfl, ?_⟩
      rw [delivered_nil, List.append_nil, h.delivered, List.take_of_length_le (by omega)]
  · -- decrypt the oldest received message
    have hdec : Step prim sys _ _ := .decrypt hin
    obtain ⟨h₁, -⟩ := inv_step hprim h hdec
    rw [enqueued_decrypt, List.append_nil] at h₁
    obtain ⟨l₁, sys', hrun₁, he₁, hd₁⟩ := ih _ (by
      simp only [hin, List.length_cons] at hn
      simp only [List.length_append]
      omega) _ _ rfl h₁
    refine ⟨[_] ++ l₁, sys', (Lts.Run.single hdec).append hrun₁, ?_, ?_⟩
    · rw [enqueued_append, enqueued_decrypt, he₁]
      rfl
    · rw [delivered_append, ← List.append_assoc]
      exact hd₁

end Progress

/-- Exactly-once, in-order delivery. Along every run from a fresh queue, the payloads
returned as `Ok(Some(_))` are a prefix of those enqueued, in order; the client's ratchet is
the shared chain at the number delivered; every decryption returns the next payload or
`Ok(None)` for a replay and never meets a message ahead of the ratchet; and some run that
enqueues nothing more delivers every payload enqueued. -/
theorem delivery_exactlyOnce (hprim : prim.DecryptsEncryption) {l : List (QsEvent P C)}
    {sys : QsSystem S K C} (hrun : Lts.Run (Step prim) (init prim secret) l sys) :
    delivered l = (enqueued l).take (delivered l).length ∧
    sys.ratchet = QueueRatchet.chain prim secret (delivered l).length ∧
    Lts.EveryStep (fun pre a => DecryptSound (enqueued pre) (delivered pre) a) l ∧
    ∃ l' sys', Lts.Run (Step prim) sys l' sys' ∧ enqueued l' = [] ∧
      delivered (l ++ l') = enqueued (l ++ l') := by
  obtain ⟨h, hevery⟩ := inv_run hprim inv_init hrun
  simp only [List.nil_append] at h hevery
  refine ⟨h.delivered, h.ratchet, hevery, ?_⟩
  obtain ⟨l', sys', hrun', he', hd'⟩ := exists_run_complete hprim _ _ _ rfl h
  refine ⟨l', sys', hrun', he', ?_⟩
  rw [delivered_append, enqueued_append, he', List.append_nil, hd']

/-- Two enqueues, a stream that delivers both, a decryption, a reconnect that fetches the second
message again while the client still holds it, its decryption, the replay, and the ack. -/
def replayTrace : List (QsEvent ℕ ℕ) :=
  [.enqueue 5, .enqueue 6, .listen, .poll, .poll, .poll, .poll, .decrypt ⟨0, 5⟩ (.ok (some 5)),
    .listen, .poll, .poll, .poll, .decrypt ⟨1, 6⟩ (.ok (some 6)), .decrypt ⟨1, 6⟩ (.ok none),
    .ack 2]

theorem delivery_exactlyOnce_replay :
    plainPrimitives.DecryptsEncryption ∧
    ∃ sys, Lts.Run (Step plainPrimitives) (init plainPrimitives 0) replayTrace sys ∧
      enqueued replayTrace = [5, 6] ∧ delivered replayTrace = [5, 6] ∧
      (delivered replayTrace = (enqueued replayTrace).take (delivered replayTrace).length ∧
        sys.ratchet = QueueRatchet.chain plainPrimitives 0 (delivered replayTrace).length ∧
        Lts.EveryStep (fun pre a => DecryptSound (enqueued pre) (delivered pre) a) replayTrace ∧
        ∃ l' sys', Lts.Run (Step plainPrimitives) sys l' sys' ∧ enqueued l' = [] ∧
          delivered (replayTrace ++ l') = enqueued (replayTrace ++ l')) := by
  let m₀ : QueueMessage ℕ := ⟨0, 5⟩
  let m₁ : QueueMessage ℕ := ⟨1, 6⟩
  have hsorted : ([m₀, m₁].map (·.sequenceNumber)).Pairwise (· ≤ ·) := by decide
  have r₂ : Lts.Run (Step plainPrimitives) (init plainPrimitives 0) [.enqueue 5, .enqueue 6]
      ⟨⟨(QueueRatchet.tryFrom plainPrimitives 0).ratchetForward plainPrimitives |>.ratchetForward
        plainPrimitives⟩, [m₀, m₁], none, [], QueueRatchet.tryFrom plainPrimitives 0⟩ :=
    (Lts.Run.single (Step.enqueue rfl)).snoc (Step.enqueue rfl)
  have hfetch₀ : (QueueStreamContext.mk 0 [] .fetch false).poll [m₀, m₁] =
      .next ⟨2, [m₀, m₁], .fetch, false⟩ := by
    simp [QueueStreamContext.poll, QueueStreamContext.fetchNextMessages,
      Queue.fetchInto_of_pairwise hsorted, maxBufferSize, m₀, m₁]
  have r₇ := (((r₂.snoc Step.listen).snoc (Step.poll rfl)).snoc
    (Step.poll_of_eq _ rfl hfetch₀)).snoc (Step.poll rfl) |>.snoc (Step.poll rfl)
  have r₈ := r₇.snoc (Step.decrypt rfl)
  have hfetch₁ : (QueueStreamContext.mk 1 [] .fetch false).poll [m₀, m₁] =
      .next ⟨2, [m₁], .fetch, false⟩ := by
    simp [QueueStreamContext.poll, QueueStreamContext.fetchNextMessages,
      Queue.fetchInto_of_pairwise hsorted, maxBufferSize, m₀, m₁]
  have r₁₂ := (((r₈.snoc Step.listen).snoc (Step.poll rfl)).snoc
    (Step.poll_of_eq _ rfl hfetch₁)).snoc (Step.poll rfl)
  have r₁₅ := ((r₁₂.snoc (Step.decrypt rfl)).snoc (Step.decrypt rfl)).snoc
    (Step.ack (Nat.le_refl 2))
  exact ⟨plainPrimitives_decryptsEncryption, _, r₁₅, rfl, rfl,
    delivery_exactlyOnce plainPrimitives_decryptsEncryption r₁₅⟩

end QsSystem

end Air
