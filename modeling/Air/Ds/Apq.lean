import Mathlib.Data.Finset.Dedup
import Air.Ds.Handlers
import Air.Ds.MemberProfiles

/-! # The T and PQ groups of an APQ group

An APQ group is two MLS groups, T and PQ, that move in step: every operation comes as a
pair of commits, and the DS accepts both or neither. That the two trees agree is stored
nowhere; it rests on the checks each pair passes. `process_apq_assisted_message` compares
the two commits' `MessageInfo`, which under the DS's `sender_equivalence` (`|_, _| true`)
compares the senders, the leaves of the Remove proposals as sets, and only the presence of
a path and the numbers of Adds and Updates. `validate_t_commit` then compares the added
signature keys pairwise and checks that every leaf the T commit removes holds the same key
in the PQ tree. `update_apq_group_state` accepts a member's next request only if its leaf
index and signature key are the same in both trees.

The PQ group's profiles are not read by any of this; its state is its tree.
-/

namespace Air

open Mls

variable {K R E W : Type}

structure CommitContent (K : Type) where
  pathCredential : Option K
  adds : List K
  removes : Finset ℕ
  updates : List K

/-- What `MessageType::new` reads off a staged commit; its removes are the leaves of the
Remove proposals only. -/
def CommitContent.new (c : StagedCommit K R) : CommitContent K :=
  ⟨c.updatePathLeafNode.map (·.signatureKey), c.addedKeys, c.removeProposals.toFinset,
    c.updateProposals.map (·.2.signatureKey)⟩

def CommitContent.eq (compare : K → K → Bool) (a b : CommitContent K) : Bool :=
  let samePathCredential :=
    match a.pathCredential, b.pathCredential with
    | some x, some y => compare x y
    | none, none => true
    | _, _ => false
  samePathCredential && decide (a.removes = b.removes) && a.adds.length == b.adds.length &&
    a.updates.length == b.updates.length && (a.adds.zip b.adds).all (fun p => compare p.1 p.2) &&
    (a.updates.zip b.updates).all (fun p => compare p.1 p.2)

structure MessageInfo (K : Type) where
  msgType : CommitContent K
  sender : Sender

def MessageInfo.new (c : StagedCommit K R) : MessageInfo K := ⟨.new c, c.sender⟩

def MessageInfo.eq (compare : K → K → Bool) (a b : MessageInfo K) : Bool :=
  a.msgType.eq compare b.msgType && a.sender == b.sender

/-- The `sender_equivalence` the DS passes: any two credentials are equivalent. -/
def dsSenderEquivalence : K → K → Bool := fun _ _ => true

/-- The check of `ApqPublicGroupMut::process_message` that the messages match up. The
`ApqInfo` checks on the new epochs hold of every pair of staged commits here, whose epochs
are one past their groups'. -/
def processApqMessage (senderEquivalence : K → K → Bool) (tc pqc : StagedCommit K R) :
    Except GroupOperationError Unit :=
  if (MessageInfo.new pqc).eq senderEquivalence (MessageInfo.new tc) then .ok ()
  else .error .invalidMessage

def validatePqCommit [DecidableEq K] [DecidableEq R] (pqc : StagedCommit K R)
    (pqAddUsersInfo : Option (AddUsersInfo K R W)) : Except GroupOperationError Unit := do
  let pqSenderIndex ← senderIndexOf pqc
  if pqSenderIndex.leafIndex ∈ removedClients pqc then throw .invalidMessage
  if pqc.addProposals.isEmpty then pure ()
  else
    match pqAddUsersInfo with
    | none => throw .invalidMessage
    | some pqAddUsersInfo => validateWelcomeOnly pqc.addProposals pqAddUsersInfo.welcomeJoiners

structure ApqGroupStates (K R E : Type) where
  t : DsGroupState K R E
  tEpoch : ℕ
  pq : Leaves K
  pqEpoch : ℕ

def ApqGroupStates.processApqGroupOperation [DecidableEq K] [DecidableEq R]
    (g : ApqGroupStates K R E) (tc pqc : StagedCommit K R) (newEncryptedUserProfileKeys : List E)
    (tAddUsersInfo pqAddUsersInfo : Option (AddUsersInfo K R W)) :
    Except GroupOperationError (ApqGroupStates K R E) := do
  processApqMessage dsSenderEquivalence tc pqc
  validatePqCommit pqc pqAddUsersInfo
  let v ← g.t.validateTCommit tc newEncryptedUserProfileKeys tAddUsersInfo (some g.pq) (some pqc)
  -- `accept_apq_processed_message` merges each commit into its group
  let t ← g.t.processTCommitValidation (tc.apply g.t.leaves) v
  pure ⟨t, g.tEpoch + 1, pqc.apply g.pq, g.pqEpoch + 1⟩

/-- The check of `update_apq_group_state` on the senders of a request: one leaf index for
both groups, holding the same signature key in both trees. -/
def checkApqSenders [DecidableEq K] (tLeaves pqLeaves : Leaves K) (tSenderIndex pqSenderIndex : ℕ) :
    Except Status Unit :=
  if tSenderIndex ≠ pqSenderIndex then
    .error ⟨.invalidArgument, "t and pq sender indices do not match"⟩
  else
    match member tLeaves tSenderIndex, member pqLeaves pqSenderIndex with
    | none, _ => .error ⟨.invalidArgument, "unknown sender"⟩
    | some _, none => .error ⟨.invalidArgument, "unknown PQ sender"⟩
    | some tSender, some pqSender =>
      if tSender ≠ pqSender then .error ⟨.invalidArgument, "t and pq credentials do not match"⟩
      else .ok ()

/-- The T and PQ trees are aligned: every leaf is blank in both or holds one signature key in
both. -/
def ApqGroupStates.Aligned (g : ApqGroupStates K R E) : Prop :=
  ∀ i, member g.t.leaves i = member g.pq i

theorem processApqMessage_eq_ok_iff {tc pqc : StagedCommit K R} :
    processApqMessage dsSenderEquivalence tc pqc = .ok () ↔
      pqc.sender = tc.sender ∧ pqc.removeProposals.toFinset = tc.removeProposals.toFinset ∧
      pqc.updatePathLeafNode.isSome = tc.updatePathLeafNode.isSome ∧
      pqc.addedKeys.length = tc.addedKeys.length ∧
      pqc.updateProposals.length = tc.updateProposals.length := by
  unfold processApqMessage MessageInfo.eq CommitContent.eq MessageInfo.new CommitContent.new
    dsSenderEquivalence
  cases pqc.updatePathLeafNode <;> cases tc.updatePathLeafNode <;> simp <;> tauto

theorem processApqGroupOperation_eq_ok [DecidableEq K] [DecidableEq R]
    {g g' : ApqGroupStates K R E} {tc pqc : StagedCommit K R} {keys : List E}
    {tInfo pqInfo : Option (AddUsersInfo K R W)}
    (h : g.processApqGroupOperation tc pqc keys tInfo pqInfo = .ok g') :
    ∃ i, tc.sender = .member i ∧ pqc.sender = .member i ∧ pqc.addedKeys = tc.addedKeys ∧
      g'.t.leaves = tc.apply g.t.leaves ∧ g'.pq = pqc.apply g.pq ∧
      g'.tEpoch = g.tEpoch + 1 ∧ g'.pqEpoch = g.pqEpoch + 1 ∧
      ∀ r ∈ removedClients tc, member g.pq r = member g.t.leaves r := by
  simp only [ApqGroupStates.processApqGroupOperation, Except.bind_eq_ok, Except.pure_eq_ok] at h
  obtain ⟨⟨⟩, hmsg, ⟨⟩, -, v, hv, t, ht, rfl⟩ := h
  obtain ⟨hsender, -, -, hadds, -⟩ := processApqMessage_eq_ok_iff.mp hmsg
  obtain ⟨i, hs, -, -, -, -, hck, hadd⟩ := validateTCommit_eq_ok hv
  refine ⟨i, hs, hsender.trans hs, ?_, processTCommitValidation_leaves ht, rfl, rfl, rfl,
    fun r hr => (checkRemovedClients_eq_ok hck r hr).2.2 g.pq rfl⟩
  rcases validateAddedUsersState_eq_ok hadd with ⟨ha, -⟩ | ⟨info, users, -, husers, -, hpq⟩
  · -- T adds nobody, and PQ as many
    have hnil : tc.addedKeys = [] := by simp [StagedCommit.addedKeys, ha]
    rw [hnil] at hadds ⊢
    exact List.eq_nil_of_length_eq_zero hadds
  · obtain ⟨rfl, hinfos⟩ := validateAddedUsers_eq_ok husers
    have hpq := hpq pqc rfl
    have hkeys : tc.addProposals.length ≤ keys.length := by
      have hlen := congrArg List.length hpq
      simp only [List.length_map, List.length_zip, hinfos, StagedCommit.addedKeys] at hlen hadds
      omega
    have hmap := addedUsers_eq_addProposals hinfos hkeys
    generalize (tc.addProposals.zip keys).zip info.encryptedWelcomeAttributionInfos = users
      at hpq hmap
    rw [hpq, StagedCommit.addedKeys, ← hmap, List.map_map]
    rfl

/-- An accepted pair keeps the trees aligned and moves both epochs on by one, when its two
commits also blank the same leaves, give the same members the same new keys, and end in the
same path key: what the checks leave out. -/
theorem ApqGroupStates.Aligned.processApqGroupOperation [DecidableEq K] [DecidableEq R]
    {g g' : ApqGroupStates K R E} {tc pqc : StagedCommit K R} {keys : List E}
    {tInfo pqInfo : Option (AddUsersInfo K R W)} (hal : g.Aligned)
    (h : g.processApqGroupOperation tc pqc keys tInfo pqInfo = .ok g')
    (hr : ∀ i, i ∈ tc.removedLeaves ↔ i ∈ pqc.removedLeaves)
    (hu : tc.updateProposals.map (fun u => (u.1, u.2.signatureKey)) =
      pqc.updateProposals.map (fun u => (u.1, u.2.signatureKey)))
    (hp : tc.updatePathLeafNode.map (·.signatureKey) =
      pqc.updatePathLeafNode.map (·.signatureKey)) :
    g'.Aligned ∧ g'.tEpoch = g.tEpoch + 1 ∧ g'.pqEpoch = g.pqEpoch + 1 := by
  obtain ⟨i, hs, hpqs, hadded, ht, hpq, htEpoch, hpqEpoch, -⟩ := processApqGroupOperation_eq_ok h
  refine ⟨fun j => ?_, htEpoch, hpqEpoch⟩
  rw [ht, hpq]
  exact StagedCommit.member_apply_congr hal (hs.trans hpqs.symm) hu hr hadded.symm hp j

def alignedGroups : ApqGroupStates ℕ ℕ ℕ :=
  ⟨⟨[some 0, some 1, some 2],
    ((AList.insert 0 ⟨0, 10, 100⟩ ∅).insert 1 ⟨1, 11, 101⟩).insert 2 ⟨2, 12, 102⟩⟩, 0,
    [some 0, some 1, some 2], 0⟩

/-- Member `0` commits the SelfRemove member `1` has proposed, with an update path that keeps its
signature key. -/
def selfRemoveCommit : StagedCommit ℕ ℕ := ⟨.member 0, [⟨.selfRemove, .member 1⟩], some ⟨0, none⟩⟩

/-- Member `0` commits no proposal, with the same update path, which an empty commit must carry. -/
def emptyCommit : StagedCommit ℕ ℕ := ⟨.member 0, [], some ⟨0, none⟩⟩

def addCommit : StagedCommit ℕ ℕ := ⟨.member 0, [⟨.add ⟨3, some 13⟩, .member 0⟩], none⟩

def addInfo : AddUsersInfo ℕ ℕ Unit := ⟨[⟨3, some 13⟩], [()]⟩

/-- The T commit carries member `1`'s SelfRemove and the PQ commit does not: the pair passes
every check, T blanks leaf `1` and PQ keeps it. The next add puts client `3` at leaf `1` of
T and leaf `3` of PQ, and every request of client `3` fails the sender check. -/
theorem processApqGroupOperation_misaligns :
    alignedGroups.Aligned ∧
      ∃ g, alignedGroups.processApqGroupOperation selfRemoveCommit emptyCommit []
          (none : Option (AddUsersInfo ℕ ℕ Unit)) none = .ok g ∧ ¬ g.Aligned ∧
        ∃ g', g.processApqGroupOperation addCommit addCommit [103] (some addInfo) (some addInfo) =
            .ok g' ∧
          member g'.t.leaves 1 = some 3 ∧
          ∀ pqSenderIndex, checkApqSenders g'.t.leaves g'.pq 1 pqSenderIndex ≠ .ok () := by
  refine ⟨fun i => rfl, _, rfl, fun h => absurd (h 1) (by decide), _, rfl, rfl, fun j => ?_⟩
  by_cases hj : 1 = j
  · subst hj
    decide
  · simp [checkApqSenders, hj]

end Air
