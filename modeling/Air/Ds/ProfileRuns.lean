import Air.Lts.Run
import Air.Ds.MemberProfiles

/-! # The profiles along every run of the DS

Each handler that changes a group's tree keeps `member_profiles` in step with it by hand:
`group_operation` (its closure inserts the sender's profile when the request carries one,
then `process_group_operation`), `resync` (`resync_client` and `rekey_sender_profile`),
`join_connection_group`, and `update_user_profile_key`, which changes a profile key only.
`self_remove` stores a proposal and changes neither.

From a new group, the profiles mirror the tree in every state that such operations reach,
as long as each commit is one openmls accepts (unique signature keys in the tree; an external
commit for a resync with a path, no Add and no leaf removed twice; a connection join without
SelfRemove proposals) and each AAD has a profile key for every Add proposal.
-/

namespace Air

open Mls

variable {K R E W : Type}

theorem resyncClient_eq_ok {s s' : DsGroupState K R E} {c : StagedCommit K R} {senderIndex : ℕ}
    (hok : s.resyncClient c senderIndex = .ok s') :
    c.sender = .newMemberCommit ∧ senderIndex ∈ removedClients c ∧
      (member s.leaves senderIndex).isSome ∧
      (∀ r ∈ (removedClients c).erase senderIndex, (member s.leaves r).isSome) ∧
      s' = ⟨c.apply s.leaves, rekeySenderProfile (removeProfiles s.memberProfiles
        ((removedClients c).erase senderIndex)) senderIndex (leftmostBlank (c.merged s.leaves))⟩ := by
  simp only [DsGroupState.resyncClient, Except.throw_bind] at hok
  split_ifs at hok
  simp only [Except.pure_eq_ok] at hok
  rename_i hs hsi hm hrc hrest
  subst hok
  refine ⟨not_not.mp hs, hrc, Option.isSome_iff_ne_none.mpr hm, fun r hr => ?_, rfl⟩
  exact Option.isSome_iff_ne_none.mpr fun hnone => hrest ⟨r, hr, hnone⟩

theorem mem_rekeySenderProfile {memberProfiles : AList fun _ : ℕ => MemberProfile R E}
    {oldIndex newIndex j : ℕ} (hold : oldIndex ∈ memberProfiles) :
    j ∈ rekeySenderProfile memberProfiles oldIndex newIndex ↔
      j = newIndex ∨ (j ∈ memberProfiles ∧ j ≠ oldIndex) := by
  obtain ⟨p, hp⟩ := Option.isSome_iff_exists.mp (AList.lookup_isSome.mpr hold)
  unfold rekeySenderProfile
  split_ifs with hne
  · rw [hp]
    simp only [AList.mem_insert, AList.mem_erase]
    tauto
  · -- the sender keeps its leaf, and its profile is already there
    rw [not_not.mp hne]
    constructor
    · intro hj
      by_cases hjo : j = oldIndex
      · exact .inl hjo
      · exact .inr ⟨hj, hjo⟩
    · rintro (rfl | ⟨hj, -⟩)
      · exact hold
      · exact hj

theorem KeyedByLeaf.rekeySenderProfile {memberProfiles : AList fun _ : ℕ => MemberProfile R E}
    (h : KeyedByLeaf memberProfiles) (oldIndex newIndex : ℕ) :
    KeyedByLeaf (Air.rekeySenderProfile memberProfiles oldIndex newIndex) := by
  unfold Air.rekeySenderProfile
  split_ifs
  · split
    · exact h
    · rename_i profile _
      exact (h.erase oldIndex).insert rfl
  · exact h

/-- `resync_client` moves the sender's profile to the leaf its external commit takes. That keeps
the profiles mirroring the tree when the commit has a path, no Add, and no leaf removed twice:
a leaf removed twice would take the sender's own profile with it. -/
theorem MirrorsTree.resyncClient {s s' : DsGroupState K R E} (h : MirrorsTree s)
    {c : StagedCommit K R} {senderIndex : ℕ} (hok : s.resyncClient c senderIndex = .ok s')
    (hadds : c.addProposals = []) (hpath : c.updatePathLeafNode.isSome)
    (hnodup : (removedClients c).Nodup) : MirrorsTree s' := by
  obtain ⟨hs, hsi, hocc, -, rfl⟩ := resyncClient_eq_ok hok
  obtain ⟨l, hl⟩ := Option.isSome_iff_exists.mp hpath
  have hkeys : c.addedKeys = [] := by simp [StagedCommit.addedKeys, hadds]
  have hmem : senderIndex ∈ removeProfiles s.memberProfiles ((removedClients c).erase senderIndex) :=
    mem_removeProfiles.mpr ⟨(h.mem_iff _).mpr hocc, hnodup.not_mem_erase⟩
  refine ⟨fun j => ?_, (h.keyed.removeProfiles _).rekeySenderProfile _ _⟩
  rw [mem_rekeySenderProfile hmem, mem_removeProfiles, h.mem_iff, hnodup.mem_erase_iff,
    StagedCommit.member_apply_newMemberCommit hs hl]
  by_cases hj : j = leftmostBlank (c.merged s.leaves)
  · simp [hj]
  rw [if_neg hj, StagedCommit.isSome_member_merged_of_addedKeys_eq_nil hkeys, ← removedClients_eq_removedLeaves]
  by_cases hjs : j = senderIndex
  · subst hjs
    simp [hj, hsi]
  · simp [hj, hjs]

theorem joinConnectionGroup_eq_ok [DecidableEq K] {s s' : DsGroupState K R E} {c : StagedCommit K R}
    {qsClientReference : R} {encryptedUserProfileKey : E}
    (hok : s.joinConnectionGroup c qsClientReference encryptedUserProfileKey = .ok s') :
    c.addProposals = [] ∧ c.updateProposals = [] ∧ c.removeProposals = [] ∧
      ∃ l sender, c.updatePathLeafNode = some l ∧
        findMember (c.apply s.leaves) l.signatureKey = some sender ∧
        s' = ⟨c.apply s.leaves,
          s.memberProfiles.insert sender ⟨sender, qsClientReference, encryptedUserProfileKey⟩⟩ := by
  simp only [DsGroupState.joinConnectionGroup] at hok
  split_ifs at hok with hprop hconn
  · simp at hok
  · simp at hok
  · simp at hok
  rename_i hprop _
  simp only [not_or, Nat.not_lt, Nat.le_zero, List.length_eq_zero_iff] at hprop
  obtain ⟨ha, hu, hr⟩ := hprop
  refine ⟨ha, hu, hr, ?_⟩
  split at hok
  · simp at hok
  · rename_i sender hfind
    simp only [Except.pure_eq_ok] at hok
    obtain ⟨l, hl, hfind⟩ := Option.bind_eq_some_iff.mp hfind
    exact ⟨l, sender, hl, hfind, hok.symm⟩

theorem MirrorsTree.joinConnectionGroup [DecidableEq K] {s s' : DsGroupState K R E}
    (h : MirrorsTree s) {c : StagedCommit K R} {qsClientReference : R} {encryptedUserProfileKey : E}
    (hok : s.joinConnectionGroup c qsClientReference encryptedUserProfileKey = .ok s')
    (hr : c.removedLeaves = []) (huniq : KeysUnique (c.apply s.leaves)) : MirrorsTree s' := by
  obtain ⟨ha, hu, -, l, sender, hl, hfind, rfl⟩ := joinConnectionGroup_eq_ok hok
  have hkeys : c.addedKeys = [] := by simp [StagedCommit.addedKeys, ha]
  have hm := StagedCommit.merged_eq_of_no_proposals hr hkeys hu s.leaves
  refine ⟨fun j => ?_, h.keyed.insert rfl⟩
  rw [AList.mem_insert, h.mem_iff]
  constructor
  · rintro (rfl | hj)
    · simp [member_of_findMember hfind]
    · exact StagedCommit.isSome_member_apply_of_merged (by rwa [hm])
  · intro hj
    rcases StagedCommit.member_apply_eq_merged_or c s.leaves j with heq | ⟨l', hl', hk⟩
    · right
      rwa [heq, hm] at hj
    · left
      obtain rfl : l' = l := Option.some.inj (hl'.symm.trans hl)
      exact Option.some.inj ((findMember_of_member huniq hk).symm.trans hfind)

theorem insertSenderProfile_leaves (s : DsGroupState K R E) (senderIndex : ℕ)
    (profile : Option (R × E)) : (insertSenderProfile s senderIndex profile).leaves = s.leaves := by
  cases profile <;> rfl

theorem MirrorsTree.insertSenderProfile {s : DsGroupState K R E} (h : MirrorsTree s)
    {senderIndex : ℕ} (hi : (member s.leaves senderIndex).isSome) (profile : Option (R × E)) :
    MirrorsTree (insertSenderProfile s senderIndex profile) := by
  rcases profile with _ | ⟨qsClientReference, encryptedUserProfileKey⟩
  · exact h
  refine ⟨fun j => ?_, h.keyed.insert rfl⟩
  simp only [Air.insertSenderProfile, AList.mem_insert, h.mem_iff]
  constructor
  · rintro (rfl | hj)
    · exact hi
    · exact hj
  · exact .inr

theorem MirrorsTree.updateUserProfileKey {s s' : DsGroupState K R E} (h : MirrorsTree s)
    {senderIndex : ℕ} {userProfileKey : E}
    (hok : s.updateUserProfileKey senderIndex userProfileKey = .ok s') : MirrorsTree s' := by
  unfold DsGroupState.updateUserProfileKey at hok
  split at hok
  · cases hok
  rename_i profile hp
  cases hok
  have hkey : profile.leafIndex = senderIndex := h.keyed senderIndex profile hp
  have hmem : senderIndex ∈ s.memberProfiles := AList.lookup_isSome.mp (by simp [hp])
  refine ⟨fun j => ?_, ?_⟩
  · simp only [AList.mem_insert, ← h.mem_iff]
    constructor
    · rintro (rfl | hj)
      · exact hmem
      · exact hj
    · exact .inr
  · exact h.keyed.insert hkey

/-- An operation of the DS handlers on a group's tree and profiles, with what it reads of the
request. -/
inductive ProfileOperation (K R E W : Type) where
  | groupOperation (senderIndex : ℕ) (senderProfile : Option (R × E)) (c : StagedCommit K R)
      (newEncryptedUserProfileKeys : List E) (addUsersInfo : Option (AddUsersInfo K R W))
  | resync (c : StagedCommit K R) (senderIndex : ℕ)
  | joinConnectionGroup (c : StagedCommit K R) (qsClientReference : R) (encryptedUserProfileKey : E)
  | updateUserProfileKey (senderIndex : ℕ) (userProfileKey : E)

/-- An accepted operation: its closure returns the new state. The sender of a group operation
is at its leaf, which `update_group_state` has verified. -/
inductive ProfileStep [DecidableEq K] [DecidableEq R] :
    DsGroupState K R E → ProfileOperation K R E W → DsGroupState K R E → Prop
  | groupOperation {s s' : DsGroupState K R E} {senderIndex : ℕ} {senderProfile : Option (R × E)}
      {c : StagedCommit K R} {keys : List E} {info : Option (AddUsersInfo K R W)} :
      (member s.leaves senderIndex).isSome →
      (insertSenderProfile s senderIndex senderProfile).processGroupOperation c keys info = .ok s' →
      ProfileStep s (.groupOperation senderIndex senderProfile c keys info) s'
  | resync {s s' : DsGroupState K R E} {c : StagedCommit K R} {senderIndex : ℕ} :
      s.resyncClient c senderIndex = .ok s' → ProfileStep s (.resync c senderIndex) s'
  | joinConnectionGroup {s s' : DsGroupState K R E} {c : StagedCommit K R} {qsClientReference : R}
      {encryptedUserProfileKey : E} :
      s.joinConnectionGroup c qsClientReference encryptedUserProfileKey = .ok s' →
      ProfileStep s (.joinConnectionGroup c qsClientReference encryptedUserProfileKey) s'
  | updateUserProfileKey {s s' : DsGroupState K R E} {senderIndex : ℕ} {userProfileKey : E} :
      s.updateUserProfileKey senderIndex userProfileKey = .ok s' →
      ProfileStep s (.updateUserProfileKey senderIndex userProfileKey) s'

/-- What openmls guarantees of the commit an operation carries, and an AAD with a profile key
for every Add proposal. -/
def ProfileOperation.WellFormed [DecidableEq K] (s : DsGroupState K R E) :
    ProfileOperation K R E W → Prop
  | .groupOperation _ _ c keys _ =>
    c.addProposals.length ≤ keys.length ∧ KeysUnique (c.apply s.leaves)
  | .resync c _ => c.addProposals = [] ∧ c.updatePathLeafNode.isSome ∧ (removedClients c).Nodup
  | .joinConnectionGroup c _ _ => c.removedLeaves = [] ∧ KeysUnique (c.apply s.leaves)
  | .updateUserProfileKey _ _ => True

theorem MirrorsTree.profileStep [DecidableEq K] [DecidableEq R] {s s' : DsGroupState K R E}
    {op : ProfileOperation K R E W} (h : MirrorsTree s) (hwf : op.WellFormed s)
    (hstep : ProfileStep s op s') : MirrorsTree s' := by
  cases hstep with
  | groupOperation hi hok =>
    obtain ⟨hkeys, huniq⟩ := hwf
    refine (h.insertSenderProfile hi _).processGroupOperation hok hkeys ?_
    rwa [insertSenderProfile_leaves]
  | resync hok =>
    obtain ⟨hadds, hpath, hnodup⟩ := hwf
    exact h.resyncClient hok hadds hpath hnodup
  | joinConnectionGroup hok =>
    obtain ⟨hr, huniq⟩ := hwf
    exact h.joinConnectionGroup hok hr huniq
  | updateUserProfileKey hok => exact h.updateUserProfileKey hok

/-- From a new group, the profiles mirror the tree in every state reached by well-formed
accepted operations: every member has exactly one profile, at its own leaf. -/
theorem mirrorsTree_of_reachable [DecidableEq K] [DecidableEq R] {creatorKey : K}
    {creatorEncryptedUserProfileKey : E} {creatorQueueConfig : R} {s : DsGroupState K R E}
    (hreach : Lts.Reachable (fun s (op : ProfileOperation K R E W) s' =>
        op.WellFormed s ∧ ProfileStep s op s')
      (DsGroupState.new creatorKey creatorEncryptedUserProfileKey creatorQueueConfig) s) :
    MirrorsTree s :=
  hreach.invariant (MirrorsTree.new _ _ _) fun _ _ _ h hstep => h.profileStep hstep.1 hstep.2

theorem mirrorsTree_of_reachable_profileKey :
    let s : DsGroupState ℕ ℕ ℕ := ⟨[some 0], (AList.insert 0 ⟨0, 0, 0⟩ ∅).insert 0 ⟨0, 0, 1⟩⟩
    Lts.Reachable (fun s (op : ProfileOperation ℕ ℕ ℕ ℕ) s' => op.WellFormed s ∧ ProfileStep s op s')
        (DsGroupState.new 0 0 0) s ∧ MirrorsTree s := by
  intro s
  have hreach : Lts.Reachable (fun s (op : ProfileOperation ℕ ℕ ℕ ℕ) s' =>
      op.WellFormed s ∧ ProfileStep s op s') (DsGroupState.new 0 0 0) s :=
    Lts.Reachable.refl.tail (a := .updateUserProfileKey 0 1) ⟨trivial, .updateUserProfileKey rfl⟩
  exact ⟨hreach, mirrorsTree_of_reachable hreach⟩

end Air
