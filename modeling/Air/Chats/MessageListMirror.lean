import Air.Chats.MessageList

/-! # The Dart list follows the window

From the default window and an empty Dart list, any sequence of calls runs without a panic on
the Rust side and without a `RangeError` on the Dart side, and the Dart list stays the window
newest first up to flight positions (`agrees_run`). The invariant `Agrees` says that, together
with the id index being the one `rebuild_message_ids_index` builds, which is what keeps the
indices of `update_message_in_place` and `remove_message` inside the window.

Each call is taken apart by a spec lemma that says what its window and its changes are; the
changes then act on the Dart list by three facts: a `Splice` that inserts, a `Splice` that
deletes, and a run of patches (`pushPatchChanges_agree`).
-/

namespace Air

open UiChatMessage

variable {β : Type}

/-! ## The id index -/

theorem rebuildMessageIdsIndex_eq (messages : List (UiChatMessage β)) (id : ℕ) :
    rebuildMessageIdsIndex messages id =
      (messages.map UiChatMessage.id).zipIdx.foldl
        (fun acc p => if p.1 = id then some p.2 else acc) none := by
  rw [rebuildMessageIdsIndex, List.zipIdx_map, List.foldl_map]
  rfl

theorem rebuildMessageIdsIndex_congr {ms ms' : List (UiChatMessage β)}
    (h : ms.map UiChatMessage.id = ms'.map UiChatMessage.id) :
    rebuildMessageIdsIndex ms = rebuildMessageIdsIndex ms' := by
  funext id
  rw [rebuildMessageIdsIndex_eq, rebuildMessageIdsIndex_eq, h]

theorem map_id_eq_of_map_erase_eq {ms ms' : List (UiChatMessage β)}
    (h : ms.map erase = ms'.map erase) :
    ms.map UiChatMessage.id = ms'.map UiChatMessage.id := by
  have := congrArg (List.map UiChatMessage.id) h
  simpa [List.map_map, Function.comp_def] using this

theorem rebuildMessageIdsIndex_spec {messages : List (UiChatMessage β)} {id i : ℕ}
    (h : rebuildMessageIdsIndex messages id = some i) :
    ∃ hi : i < messages.length, messages[i].id = id := by
  have key : ∀ (l : List (UiChatMessage β × ℕ)) (acc : Option ℕ),
      (∀ p ∈ l, p.1.id = id → ∃ hi : p.2 < messages.length, messages[p.2].id = id) →
      (∀ j, acc = some j → ∃ hj : j < messages.length, messages[j].id = id) →
      ∀ j, l.foldl (fun acc p => if p.1.id = id then some p.2 else acc) acc = some j →
        ∃ hj : j < messages.length, messages[j].id = id := by
    intro l
    induction l with
    | nil => intro acc _ hacc; exact hacc
    | cons p l ih =>
      intro acc hl hacc
      apply ih _ (fun q hq => hl q (List.mem_cons_of_mem p hq))
      intro j hj
      dsimp only at hj
      split_ifs at hj with hp
      · cases hj
        exact hl p List.mem_cons_self hp
      · exact hacc j hj
  refine key messages.zipIdx none ?_ (by simp) i h
  rintro ⟨m, j⟩ hp hpid
  obtain ⟨-, hlt, hm⟩ := List.mem_zipIdx hp
  simp only [Nat.zero_add, Nat.sub_zero] at hlt hm hpid ⊢
  rw [hm] at hpid
  exact ⟨hlt, hpid⟩

/-! ## Changes on the Dart list -/

theorem applyChange_splice_insert (l ms : List (UiChatMessage β)) (index : ℕ)
    (h : index ≤ l.length) :
    applyChange l (.splice index ms 0) = some (l.take index ++ ms ++ l.drop index) := by
  by_cases hms : ms = []
  · subst hms
    simp [applyChange]
  · simp [applyChange, hms, h]

theorem applyChange_splice_delete (l : List (UiChatMessage β)) (index d : ℕ)
    (h : index + d ≤ l.length) :
    applyChange l (.splice index [] d) = some (l.take index ++ l.drop (index + d)) := by
  rcases Nat.eq_zero_or_pos d with rfl | hd
  · simp [applyChange]
  · simp [applyChange, hd, h]

theorem applyTransition_eq (l : List (UiChatMessage β)) (t : MessageListTransition β) :
    applyTransition l t = t.changes.foldlM applyChange l := by
  unfold applyTransition
  split_ifs with h
  · rw [List.isEmpty_iff.mp h]
    rfl
  · rfl

theorem patchFor_eq (messages : List (UiChatMessage β)) (indices : List ℕ) (i : ℕ) :
    (if i ∈ indices then messages[i]?.map (MessageListChange.patch (newestIndex messages.length i))
      else none) =
      if h : i ∈ indices ∧ i < messages.length then
        some (.patch (newestIndex messages.length i) messages[i]) else none := by
  by_cases hmem : i ∈ indices <;> by_cases hlt : i < messages.length <;>
    simp [hmem, hlt]

/-- The patches for the indices `is` bring the Dart list to the window newest first, up to
positions, when it agrees with that everywhere no patch of them writes. -/
theorem foldlM_patches_agree (messages : List (UiChatMessage β)) (indices : List ℕ) :
    ∀ (is : List ℕ) (l : List (UiChatMessage β)), l.length = messages.length →
      (∀ j < l.length, (∀ i ∈ is, i ∈ indices → i < messages.length →
          newestIndex messages.length i ≠ j) →
        l[j]?.map erase = ((newestFirst messages).map erase)[j]?) →
      ∃ l', (is.filterMap fun i => if i ∈ indices then
          messages[i]?.map (MessageListChange.patch (newestIndex messages.length i)) else none).foldlM
            applyChange l = some l' ∧
        l'.map erase = (newestFirst messages).map erase
  | [], l, hlen, hagree => by
    refine ⟨l, rfl, List.ext_getElem? fun j => ?_⟩
    rw [List.getElem?_map]
    by_cases hj : j < l.length
    · exact hagree j hj (by simp)
    · rw [List.getElem?_eq_none (by omega), List.getElem?_eq_none (by simp [newestFirst]; omega)]
      rfl
  | i :: is, l, hlen, hagree => by
    rw [List.filterMap_cons, patchFor_eq]
    split_ifs with hi
    · -- the patch at the mirror of `i` writes the window's message there
      obtain ⟨hmem, hlt⟩ := hi
      have hwrite : newestIndex messages.length i < l.length := by
        simp only [newestIndex]
        omega
      have hstep : applyChange l (.patch (newestIndex messages.length i) messages[i]) =
          some (l.set (newestIndex messages.length i) messages[i]) := by
        simp [applyChange, hwrite]
      rw [List.foldlM_cons, hstep]
      apply foldlM_patches_agree messages indices is _ (by simp [hlen])
      intro j hj hnot
      rw [List.getElem?_set]
      split_ifs with hji
      · subst hji
        have hmirror : messages.length - 1 - newestIndex messages.length i = i := by
          simp only [newestIndex]
          omega
        rw [List.getElem?_map, newestFirst,
          List.getElem?_reverse (by omega : newestIndex messages.length i < messages.length),
          hmirror, List.getElem?_eq_getElem hlt]
      · exact hagree j (by simpa using hj) fun i' hi' hmem' hlt' => by
          rcases List.mem_cons.mp hi' with rfl | hi'
          · exact hji
          · exact hnot i' hi' hmem' hlt'
    · -- no patch for `i`
      apply foldlM_patches_agree messages indices is l hlen
      intro j hj hnot
      exact hagree j hj fun i' hi' hmem' hlt' => by
        rcases List.mem_cons.mp hi' with rfl | hi'
        · exact absurd ⟨hmem', hlt'⟩ hi
        · exact hnot i' hi' hmem' hlt'

/-- `push_patch_changes` brings the Dart list to the window newest first, up to positions,
when it agrees with that at every index it does not patch. -/
theorem pushPatchChanges_agree (messages l : List (UiChatMessage β)) (indices : List ℕ)
    (hlen : l.length = messages.length)
    (hagree : ∀ j < l.length, (∀ i ∈ indices, i < messages.length →
        newestIndex messages.length i ≠ j) →
      l[j]?.map erase = ((newestFirst messages).map erase)[j]?) :
    ∃ l', (pushPatchChanges messages indices).foldlM applyChange l = some l' ∧
      l'.map erase = (newestFirst messages).map erase :=
  foldlM_patches_agree messages indices _ l hlen fun j hj hnot =>
    hagree j hj fun i hi hlt => hnot i (List.mem_range.mpr hlt) hi hlt

theorem pushPatchChanges_of_agree (messages l : List (UiChatMessage β)) (indices : List ℕ)
    (h : l.map erase = (newestFirst messages).map erase) :
    ∃ l', (pushPatchChanges messages indices).foldlM applyChange l = some l' ∧
      l'.map erase = (newestFirst messages).map erase := by
  have hlen : l.length = messages.length := by
    simpa [newestFirst] using congrArg List.length h
  exact pushPatchChanges_agree messages l indices hlen fun j _ _ => by
    rw [← List.getElem?_map, h]

/-- Patches after splices: when the splices leave a mirror of the new window, the patches that
follow keep it one. -/
theorem foldlM_append_pushPatchChanges {messages l₀ l : List (UiChatMessage β)}
    (splices : List (MessageListChange β)) (indices : List ℕ)
    (hl : splices.foldlM applyChange l₀ = some l)
    (h : l.map erase = (newestFirst messages).map erase) :
    ∃ l', (splices ++ pushPatchChanges messages indices).foldlM applyChange l₀ = some l' ∧
      l'.map erase = (newestFirst messages).map erase := by
  obtain ⟨l', hl', hagree'⟩ := pushPatchChanges_of_agree messages l indices h
  refine ⟨l', ?_, hagree'⟩
  rw [List.foldlM_append, hl]
  exact hl'


/-! ## The window up to positions -/

@[simp] theorem map_erase_recomputeBoundary (messages : List (UiChatMessage β)) (k : ℕ)
    (unread : Option ℕ) :
    (recomputeBoundary messages k unread).1.map erase = messages.map erase := by
  unfold recomputeBoundary
  split_ifs <;> simp

@[simp] theorem length_recomputeBoundary (messages : List (UiChatMessage β)) (k : ℕ)
    (unread : Option ℕ) : (recomputeBoundary messages k unread).1.length = messages.length := by
  unfold recomputeBoundary
  split_ifs <;> simp

theorem map_erase_evictNewest (messages : List (UiChatMessage β)) (patchIndices : List ℕ)
    (unread : Option ℕ) :
    (evictNewest messages patchIndices unread).1.map erase = (messages.take maxWindow).map erase := by
  unfold evictNewest
  dsimp only
  split <;> simp

theorem map_erase_evictOldest (messages : List (UiChatMessage β)) (patchIndices : List ℕ)
    (unread : Option ℕ) (evictCount : ℕ) :
    (evictOldest messages patchIndices unread evictCount).1.map erase =
      (messages.drop evictCount).map erase := by
  unfold evictOldest
  dsimp only
  split_ifs <;> simp

@[simp] theorem map_erase_fromMessage (page : List (ChatMessage β)) :
    (page.map fromMessage).map erase = page.map fromMessage := by
  simp [Function.comp_def, erase, fromMessage]

/-! ## Each call keeps the Dart list a mirror of the window -/

/-- The Dart list mirrors the window: newest first, up to flight positions; and the id index is
the one built from the window. -/
structure Agrees (w : MessageListWorld β) : Prop where
  index : w.data.messageIdsIndex = rebuildMessageIdsIndex w.data.messages
  list : w.list.map erase = (newestFirst w.data.messages).map erase

theorem Agrees.length_eq {w : MessageListWorld β} (h : Agrees w) :
    w.list.length = w.data.messages.length := by
  simpa [newestFirst] using congrArg List.length h.list

theorem Agrees.prependOlder [DecidableEq β] {w : MessageListWorld β} (h : Agrees w)
    (newMessages : List (ChatMessage β)) (icc : Option Bool) (hasOlder : Bool) :
    ∃ w', w.step (.applyMessages newMessages icc (.prependOlder hasOlder)) = some w' ∧
      Agrees w' := by
  simp only [MessageListWorld.step, MessageListWorld.commit, MessageListData.applyMessages,
    applyTransition_eq]
  generalize hB : recomputeBoundary _ _ _ = boundary
  generalize hE : (if boundary.1.length - maxWindow > 0 then _ else boundary) = evicted
  set p := newMessages.map fromMessage
  have hlenL := h.length_eq
  have hB₁ : boundary.1.map erase = (p ++ w.data.messages).map erase := by
    rw [← hB, map_erase_recomputeBoundary, List.map_append, List.map_append,
      map_erase_computeFlightPositions]
  have hlenB : boundary.1.length = p.length + w.data.messages.length := by
    simpa using congrArg List.length hB₁
  obtain ⟨l, hl, hagree⟩ : ∃ l, ([MessageListChange.splice w.data.messages.length
      (newestFirst p) 0] ++ if boundary.1.length - maxWindow > 0 then
        [MessageListChange.splice 0 [] (boundary.1.length - maxWindow)] else []).foldlM
          applyChange w.list = some l ∧
      l.map erase = (newestFirst evicted.1).map erase := by
    have hins := applyChange_splice_insert w.list (newestFirst p) _ (le_of_eq hlenL.symm)
    rw [List.take_of_length_le (le_of_eq hlenL), List.drop_of_length_le (le_of_eq hlenL),
      List.append_nil] at hins
    have hL : w.list.map erase ++ (newestFirst p).map erase =
        newestFirst ((p ++ w.data.messages).map erase) := by
      rw [h.list]
      simp only [newestFirst, List.map_reverse, List.map_append, List.reverse_append]
    by_cases he : boundary.1.length - maxWindow > 0
    · rw [if_pos he] at hE ⊢
      have hdel := applyChange_splice_delete (w.list ++ newestFirst p) 0
        (boundary.1.length - maxWindow) (by simp [newestFirst]; omega)
      refine ⟨(w.list ++ newestFirst p).drop (boundary.1.length - maxWindow),
        by simp [hins, hdel], ?_⟩
      have hev : evicted.1.map erase = ((p ++ w.data.messages).map erase).take maxWindow := by
        rw [← hE, map_erase_evictNewest, List.map_take, hB₁]
      rw [List.map_drop, List.map_append, hL, newestFirst, newestFirst, List.map_reverse, hev,
        List.reverse_take, ← hB₁, List.length_map]
    · rw [if_neg he] at hE ⊢
      subst hE
      refine ⟨w.list ++ newestFirst p, by simp [hins], ?_⟩
      rw [List.map_append, hL, newestFirst, newestFirst, List.map_reverse, hB₁]

  obtain ⟨l', hl', hagree'⟩ := foldlM_append_pushPatchChanges _ evicted.2 hl hagree
  rw [hl', Option.map_some]
  exact ⟨_, rfl, rfl, hagree'⟩

theorem Agrees.appendNewer [DecidableEq β] {w : MessageListWorld β} (h : Agrees w)
    (newMessages : List (ChatMessage β)) (icc : Option Bool) (hasNewer : Bool) :
    ∃ w', w.step (.applyMessages newMessages icc (.appendNewer hasNewer)) = some w' ∧
      Agrees w' := by
  simp only [MessageListWorld.step, MessageListWorld.commit, MessageListData.applyMessages,
    applyTransition_eq]
  generalize hB : recomputeBoundary _ _ _ = boundary
  generalize hE : (if boundary.1.length - maxWindow > 0 then _ else boundary) = evicted
  set a := newMessages.map fromMessage
  have hlenL := h.length_eq
  have hB₁ : boundary.1.map erase = (w.data.messages ++ a).map erase := by
    rw [← hB, map_erase_recomputeBoundary, List.map_append, List.map_append,
      map_erase_computeFlightPositions]
  have hlenB : boundary.1.length = w.data.messages.length + a.length := by
    simpa using congrArg List.length hB₁
  obtain ⟨l, hl, hagree⟩ : ∃ l, ([MessageListChange.splice 0 (newestFirst a) 0] ++
      if boundary.1.length - maxWindow > 0 then
        [MessageListChange.splice (w.data.messages.length + a.length -
          (boundary.1.length - maxWindow)) [] (boundary.1.length - maxWindow)] else []).foldlM
          applyChange w.list = some l ∧
      l.map erase = (newestFirst evicted.1).map erase := by
    have hins := applyChange_splice_insert w.list (newestFirst a) 0 (Nat.zero_le _)
    rw [List.take_zero, List.drop_zero, List.nil_append] at hins
    have hL : (newestFirst a).map erase ++ w.list.map erase =
        newestFirst ((w.data.messages ++ a).map erase) := by
      rw [h.list]
      simp only [newestFirst, List.map_reverse, List.map_append, List.reverse_append]
    by_cases he : boundary.1.length - maxWindow > 0
    · rw [if_pos he] at hE ⊢
      have hdel := applyChange_splice_delete (newestFirst a ++ w.list)
        (w.data.messages.length + a.length - (boundary.1.length - maxWindow))
        (boundary.1.length - maxWindow) (by simp [newestFirst]; omega)
      rw [List.drop_of_length_le (by simp [newestFirst]; omega), List.append_nil] at hdel
      refine ⟨(newestFirst a ++ w.list).take
          (w.data.messages.length + a.length - (boundary.1.length - maxWindow)),
        by simp [hins, hdel], ?_⟩
      have hev : evicted.1.map erase =
          ((w.data.messages ++ a).map erase).drop (boundary.1.length - maxWindow) := by
        rw [← hE, map_erase_evictOldest, List.map_drop, hB₁]
      have hidx : ((w.data.messages ++ a).map erase).length -
          (w.data.messages.length + a.length - (boundary.1.length - maxWindow)) =
            boundary.1.length - maxWindow := by
        simp only [List.length_map, List.length_append]
        omega
      rw [List.map_take, List.map_append, hL, newestFirst, newestFirst, List.map_reverse, hev,
        List.take_reverse, hidx]
    · rw [if_neg he] at hE ⊢
      subst hE
      refine ⟨newestFirst a ++ w.list, by simp [hins], ?_⟩
      rw [List.map_append, hL, newestFirst, newestFirst, List.map_reverse, hB₁]
  obtain ⟨l', hl', hagree'⟩ := foldlM_append_pushPatchChanges _ evicted.2 hl hagree
  rw [hl', Option.map_some]
  exact ⟨_, rfl, rfl, hagree'⟩

theorem Agrees.replace [DecidableEq β] {w : MessageListWorld β}
    (newMessages : List (ChatMessage β)) (icc : Option Bool) (hasOlder hasNewer isAtBottom : Bool)
    (firstUnreadIndex : Option ℕ) (unreadCount : ℕ) (command : Option MessageListCommand) :
    ∃ w', w.step (.applyMessages newMessages icc
        (.replace hasOlder hasNewer isAtBottom firstUnreadIndex unreadCount command)) = some w' ∧
      Agrees w' := by
  simp only [MessageListWorld.step, MessageListWorld.commit, MessageListData.applyMessages,
    applyTransition_eq, List.foldlM_cons, List.foldlM_nil, applyChange, Option.bind_eq_bind,
    Option.bind_some]
  exact ⟨_, rfl, rfl, rfl⟩

theorem Agrees.clearFirstUnreadIndex [DecidableEq β] {w : MessageListWorld β} (h : Agrees w) :
    ∃ w', w.step .clearFirstUnreadIndex = some w' ∧ Agrees w' := by
  simp only [MessageListWorld.step, MessageListData.clearFirstUnreadIndex]
  cases hu : w.state.firstUnreadIndex with
  | none => exact ⟨w, rfl, h⟩
  | some u =>
    simp only [Option.map_some, MessageListWorld.commit, applyTransition_eq]
    generalize hM : recomputeFlightPositionsRange _ _ _ _ = M'
    have hM' : M'.map erase = w.data.messages.map erase := by
      rw [← hM, map_erase_recomputeFlightPositionsRange]
    obtain ⟨l', hl', hagree'⟩ := pushPatchChanges_of_agree M' w.list
      (List.range' (u - 1) (min (u + 1) w.data.messages.length - (u - 1)))
      (by rw [h.list, newestFirst, newestFirst, List.map_reverse, List.map_reverse, hM'])
    rw [hl', Option.map_some]
    refine ⟨_, rfl, ?_, hagree'⟩
    rw [h.index]
    exact rebuildMessageIdsIndex_congr (map_id_eq_of_map_erase_eq hM'.symm)

theorem Agrees.updateMessageInPlace [DecidableEq β] {w : MessageListWorld β} (h : Agrees w)
    (message : ChatMessage β) :
    ∃ w', w.step (.updateMessageInPlace message) = some w' ∧ Agrees w' := by
  simp only [MessageListWorld.step, MessageListData.updateMessageInPlace]
  cases hidx : w.data.messageIdsIndex message.id with
  | none => exact ⟨w, rfl, h⟩
  | some idx =>
    obtain ⟨hlt, hid⟩ := rebuildMessageIdsIndex_spec (h.index ▸ hidx)
    simp only [List.getElem?_eq_getElem hlt]
    split_ifs with heq
    · exact ⟨w, rfl, h⟩
    simp only [MessageListWorld.commit, applyTransition_eq]
    generalize hM : recomputeFlightPositionsRange _ _ _ _ = M'
    have hM' : M'.map erase = (w.data.messages.set idx (fromMessage message)).map erase := by
      rw [← hM, map_erase_recomputeFlightPositionsRange]
    have hlenM' : M'.length = w.data.messages.length := by
      simpa using congrArg List.length hM'
    obtain ⟨l', hl', hagree'⟩ := pushPatchChanges_agree M' w.list
      (List.range' (idx - 1) (min (idx + 2) w.data.messages.length - (idx - 1)))
      (by rw [h.length_eq, hlenM'])
      (fun j hj hnot => by
        have hne : newestIndex w.data.messages.length idx ≠ j :=
          hlenM' ▸ hnot idx (List.mem_range'_1.mpr (by omega)) (by omega)
        rw [← List.getElem?_map, h.list, newestFirst, newestFirst, List.map_reverse,
          List.map_reverse, hM', List.map_set, List.reverse_set _ (by simpa using hlt),
          List.getElem?_set_ne (by simpa [newestIndex] using hne)])
    rw [hl', Option.map_some]
    refine ⟨_, rfl, ?_, hagree'⟩
    rw [h.index]
    apply rebuildMessageIdsIndex_congr
    have hlt' : idx < (w.data.messages.map UiChatMessage.id).length := by simpa using hlt
    have hsame : (fromMessage message).id = (w.data.messages.map UiChatMessage.id)[idx] := by
      simp [fromMessage, ← hid]
    rw [map_id_eq_of_map_erase_eq hM', List.map_set, hsame, List.set_getElem_self]

theorem Agrees.removeMessage [DecidableEq β] {w : MessageListWorld β} (h : Agrees w)
    (messageId : ℕ) :
    ∃ w', w.step (.removeMessage messageId) = some w' ∧ Agrees w' := by
  simp only [MessageListWorld.step, MessageListData.removeMessage]
  cases hidx : w.data.messageIdsIndex messageId with
  | none => exact ⟨w, rfl, h⟩
  | some idx =>
    obtain ⟨hlt, -⟩ := rebuildMessageIdsIndex_spec (h.index ▸ hidx)
    dsimp only
    rw [if_pos hlt]
    simp only [MessageListWorld.commit, applyTransition_eq, List.foldlM_cons]
    have hlenL := h.length_eq
    have hdel := applyChange_splice_delete w.list (newestIndex w.data.messages.length idx) 1
      (by simp only [newestIndex]; omega)
    rw [hdel]
    generalize hM : recomputeFlightPositionsRange _ _ _ _ = M'
    have hM' : M'.map erase = (w.data.messages.eraseIdx idx).map erase := by
      rw [← hM, map_erase_recomputeFlightPositionsRange]
    have hcut : (w.list.take (newestIndex w.data.messages.length idx) ++
        w.list.drop (newestIndex w.data.messages.length idx + 1)).map erase =
          (newestFirst M').map erase := by
      have hend : newestIndex w.data.messages.length idx + 1 =
          (w.data.messages.map erase).length - idx := by
        simp only [newestIndex, List.length_map]
        omega
      rw [List.map_append, List.map_take, List.map_drop, h.list, newestFirst, newestFirst,
        List.map_reverse, List.map_reverse, hM', List.map_eraseIdx,
        List.reverse_eraseIdx _ (by simpa using hlt), hend]
      simp [newestIndex]
    obtain ⟨l', hl', hagree'⟩ := pushPatchChanges_of_agree M' _
      (List.range' (idx - 1) (min (idx + 1) (w.data.messages.eraseIdx idx).length - (idx - 1)))
      hcut
    simp only [Option.bind_eq_bind, Option.bind_some, hl', Option.map_some]
    exact ⟨_, rfl, rfl, hagree'⟩

theorem agrees_init : Agrees (MessageListWorld.init : MessageListWorld β) :=
  ⟨rfl, rfl⟩

/-- Every call runs through, and its transition keeps the Dart list a mirror of the window. -/
theorem Agrees.step [DecidableEq β] {w : MessageListWorld β} (h : Agrees w)
    (op : MessageListOp β) : ∃ w', w.step op = some w' ∧ Agrees w' := by
  cases op with
  | applyMessages newMessages icc direction =>
    cases direction with
    | replace hasOlder hasNewer isAtBottom firstUnreadIndex unreadCount command =>
      exact Agrees.replace newMessages icc hasOlder hasNewer isAtBottom firstUnreadIndex
        unreadCount command
    | prependOlder hasOlder => exact h.prependOlder newMessages icc hasOlder
    | appendNewer hasNewer => exact h.appendNewer newMessages icc hasNewer
  | updateMessageInPlace message => exact h.updateMessageInPlace message
  | removeMessage messageId => exact h.removeMessage messageId
  | clearFirstUnreadIndex => exact h.clearFirstUnreadIndex

theorem Agrees.run [DecidableEq β] {w : MessageListWorld β} (h : Agrees w)
    (ops : List (MessageListOp β)) : ∃ w', w.run ops = some w' ∧ Agrees w' := by
  induction ops generalizing w with
  | nil => exact ⟨w, rfl, h⟩
  | cons op ops ih =>
    obtain ⟨w₁, hstep, h₁⟩ := h.step op
    obtain ⟨w₂, hrun, h₂⟩ := ih h₁
    exact ⟨w₂, by simp [MessageListWorld.run, hstep, hrun], h₂⟩

/-- From the default window and an empty Dart list, every sequence of calls runs without a panic
or a `RangeError`, and the Dart list ends as the window newest first, up to flight positions. -/
theorem agrees_run [DecidableEq β] (ops : List (MessageListOp β)) :
    ∃ w, (MessageListWorld.init : MessageListWorld β).run ops = some w ∧ Agrees w :=
  agrees_init.run ops


/-- Two messages of one sender, sent at the same time. -/
def oneFlight : List (ChatMessage Unit) := [⟨1, 0, .content 7, ()⟩, ⟨2, 0, .content 7, ()⟩]

/-- Only up to positions: a page appended to an empty window is spliced into the Dart list with
every message alone in its flight, and no boundary patch follows; the window itself holds the
computed flight, the one `compute_flight_positions` gives. -/
theorem appendNewer_splices_unplaced :
    ∃ w, MessageListWorld.init.step (.applyMessages oneFlight none (.appendNewer false)) = some w ∧
      w.list = [⟨2, 0, .content 7, .single, ()⟩, ⟨1, 0, .content 7, .single, ()⟩] ∧
      newestFirst w.data.messages =
        [⟨2, 0, .content 7, .finish, ()⟩, ⟨1, 0, .content 7, .start, ()⟩] ∧
      computeFlightPositions w.data.messages w.state.firstUnreadIndex = w.data.messages := by
  obtain ⟨w, hw⟩ := Option.isSome_iff_exists.mp
    (show (MessageListWorld.init.step (.applyMessages oneFlight none (.appendNewer false))).isSome
      by decide)
  have hpart : ∀ {γ : Type} (f : MessageListWorld Unit → γ),
      some (f w) = (MessageListWorld.init.step
        (.applyMessages oneFlight none (.appendNewer false))).map f := fun f => by
    rw [hw, Option.map_some]
  refine ⟨w, hw, Option.some.inj ?_, Option.some.inj ?_, Option.some.inj ?_⟩
  · rw [hpart MessageListWorld.list]
    decide
  · rw [hpart fun w => newestFirst w.data.messages]
    decide
  · rw [hpart fun w => computeFlightPositions w.data.messages w.state.firstUnreadIndex,
      hpart fun w => w.data.messages]
    decide

end Air
