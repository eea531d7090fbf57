import Mathlib.Data.List.AList
import Air.Control.Except
import Air.Mls.Commit

/-! # Member profiles beside the MLS tree

`DsGroupState` keeps the MLS group and, by hand beside it, `member_profiles`: one
`MemberProfile` per member, keyed by its leaf index, from which the fan-out takes its
destination clients. `process_group_operation` merges a commit, then removes the profiles
of `removed_clients` and creates one for each added user, found after the merge by the
signature key of its key package. The added users are the commit's Add proposals zipped
with the AAD's `new_encrypted_user_profile_keys` and the welcome attribution infos;
`validate_added_users` checks the length of the attribution infos only, and a zip stops
at its shorter side. `resync_client` merges an external commit that re-adds its sender
at the leftmost blank leaf and moves the sender's profile there; `join_connection_group`
gives the joiner of a connection group a profile, found by its credential.

Credentials are identified with signature keys, and the merge is `Mls.StagedCommit.apply`.
The MLS group's epoch, proposal store and room state are left out; the checks on the room
state can only reject.
-/

namespace Air

open Mls

variable {K R E W : Type}

structure MemberProfile (R E : Type) where
  leafIndex : ℕ
  clientQueueConfig : R
  encryptedUserProfileKey : E
  deriving DecidableEq, Repr

/-- What the profile bookkeeping reads of a `DsGroupState`: the leaves of the MLS group,
whose leaf nodes carry their QS client reference as an extension, and `member_profiles`. -/
structure DsGroupState (K R E : Type) where
  leaves : Leaves K
  memberProfiles : AList fun _ : ℕ => MemberProfile R E

inductive GroupOperationError where
  | invalidMessage
  | missingQueueConfig
  | incompleteWelcome
  deriving DecidableEq, Repr

structure AddUsersInfo (K R W : Type) where
  welcomeJoiners : List (LeafNode K R)
  encryptedWelcomeAttributionInfos : List W

def DsGroupState.new (creatorKey : K) (creatorEncryptedUserProfileKey : E)
    (creatorQueueConfig : R) : DsGroupState K R E :=
  ⟨[some creatorKey], AList.insert 0 ⟨0, creatorQueueConfig, creatorEncryptedUserProfileKey⟩ ∅⟩

def removedClient (p : QueuedProposal K R) : Option ℕ :=
  match p.proposal with
  | .remove removed => some removed
  | .selfRemove =>
    match p.sender with
    | .member leafNodeIndex => some leafNodeIndex
    | _ => none
  | _ => none

def removedClients (c : StagedCommit K R) : List ℕ := c.queuedProposals.filterMap removedClient

def removeProfiles (memberProfiles : AList fun _ : ℕ => MemberProfile R E)
    (removedClients : List ℕ) : AList fun _ : ℕ => MemberProfile R E :=
  removedClients.foldl (fun m clientIndex => m.erase clientIndex) memberProfiles

/-- `validate_welcome_only`: each add proposal takes its joiner out of the welcome's set of
joiners, and none may be left over. -/
def validateWelcomeOnly [DecidableEq K] [DecidableEq R] (addProposals : List (LeafNode K R))
    (welcomeJoiners : List (LeafNode K R)) : Except GroupOperationError Unit :=
  match addProposals.foldl (fun remaining a => remaining.bind fun r =>
      if a ∈ r then some (r.erase a) else none) (some welcomeJoiners.dedup) with
  | some [] => .ok ()
  | _ => .error .incompleteWelcome

/-- `validate_added_users`: the added users are the add proposals zipped with the AAD's
profile keys and the attribution infos. -/
def validateAddedUsers [DecidableEq K] [DecidableEq R] (c : StagedCommit K R)
    (newEncryptedUserProfileKeys : List E) (addUsersInfo : AddUsersInfo K R W) :
    Except GroupOperationError (List ((LeafNode K R × E) × W)) := do
  if addUsersInfo.encryptedWelcomeAttributionInfos.length ≠ c.addProposals.length then
    throw .invalidMessage
  validateWelcomeOnly c.addProposals addUsersInfo.welcomeJoiners
  pure ((c.addProposals.zip newEncryptedUserProfileKeys).zip
    addUsersInfo.encryptedWelcomeAttributionInfos)

inductive SenderIndex where
  | member (leafIndex : ℕ)
  /-- An external commit, with the leaf of the client it re-adds. -/
  | external (leafIndex : ℕ)
  deriving DecidableEq, Repr

def SenderIndex.leafIndex : SenderIndex → ℕ
  | .member leafIndex => leafIndex
  | .external leafIndex => leafIndex

structure TCommitValidation (K R E W : Type) where
  senderIndex : SenderIndex
  addedUsers : Option (List ((LeafNode K R × E) × W))
  externalSenderInformation : Option (E × R)
  removedClients : List ℕ

/-- The sender index of `validate_t_commit`: a member's leaf, or for an external commit the
leaf its first Remove proposal names. -/
def senderIndexOf (c : StagedCommit K R) : Except GroupOperationError SenderIndex :=
  match c.sender, c.removeProposals with
  | .member leafIndex, _ => .ok (.member leafIndex)
  | .newMemberCommit, removed :: _ => .ok (.external removed)
  | _, _ => .error .invalidMessage

/-- The validation of `validate_t_commit` related to adding users. With a PQ commit, its Add
proposals must bring the added users' signature keys, pairwise and no more. -/
def validateAddedUsersState [DecidableEq K] [DecidableEq R] (c : StagedCommit K R)
    (newEncryptedUserProfileKeys : List E) (addUsersInfo : Option (AddUsersInfo K R W))
    (pqStagedCommit : Option (StagedCommit K R)) :
    Except GroupOperationError (Option (List ((LeafNode K R × E) × W))) :=
  if c.addProposals.isEmpty then .ok none
  else
    match addUsersInfo with
    | none => .error .invalidMessage
    | some addUsersInfo =>
      match validateAddedUsers c newEncryptedUserProfileKeys addUsersInfo with
      | .error e => .error e
      | .ok addedUsers =>
        if pqStagedCommit.any fun pq => pq.addedKeys != addedUsers.map (·.1.1.signatureKey) then
          .error .invalidMessage
        else .ok (some addedUsers)

def DsGroupState.externalSenderInformation (s : DsGroupState K R E) (c : StagedCommit K R) :
    SenderIndex → Except GroupOperationError (Option (E × R))
  | .external originalIndex =>
    if c.removeProposals.isEmpty then .error .invalidMessage
    else
      match s.memberProfiles.lookup originalIndex, c.updatePathLeafNode.bind (·.extension) with
      | some senderProfile, some clientQueueConfig =>
        .ok (some (senderProfile.encryptedUserProfileKey, clientQueueConfig))
      | _, _ => .error .invalidMessage
  | .member _ => .ok none

def checkRemovedClients [DecidableEq K] (leaves : Leaves K) (senderLeaf : ℕ)
    (pqLeaves : Option (Leaves K)) : List ℕ → Except GroupOperationError Unit
  | [] => .ok ()
  | removedIndex :: rest =>
    if removedIndex = senderLeaf then .error .invalidMessage
    else if member leaves removedIndex = none then .error .invalidMessage
    else if pqLeaves.any fun pq => member pq removedIndex != member leaves removedIndex then
      .error .invalidMessage
    else checkRemovedClients leaves senderLeaf pqLeaves rest

def DsGroupState.validateTCommit [DecidableEq K] [DecidableEq R] (s : DsGroupState K R E)
    (c : StagedCommit K R) (newEncryptedUserProfileKeys : List E)
    (addUsersInfo : Option (AddUsersInfo K R W)) (pqLeaves : Option (Leaves K))
    (pqStagedCommit : Option (StagedCommit K R)) :
    Except GroupOperationError (TCommitValidation K R E W) := do
  let senderIndex ← senderIndexOf c
  let _sender ← (member s.leaves senderIndex.leafIndex).getDM (throw .invalidMessage)
  let addedUsers ←
    validateAddedUsersState c newEncryptedUserProfileKeys addUsersInfo pqStagedCommit
  let externalSenderInformation ← s.externalSenderInformation c senderIndex
  checkRemovedClients s.leaves senderIndex.leafIndex pqLeaves (removedClients c)
  pure ⟨senderIndex, addedUsers, externalSenderInformation, removedClients c⟩

/-- The profiles `update_membership_profiles` builds, all before it inserts any: each added
user's member is found after the merge by its signature key. -/
def addedProfiles [DecidableEq K] (leaves : Leaves K) :
    List ((LeafNode K R × E) × W) → Except GroupOperationError (List (MemberProfile R E))
  | [] => .ok []
  | ((leafNode, encryptedUserProfileKey), _) :: rest =>
    match findMember leaves leafNode.signatureKey, leafNode.extension with
    | none, _ => .error .invalidMessage
    | some _, none => .error .missingQueueConfig
    | some leafIndex, some clientQueueConfig =>
      match addedProfiles leaves rest with
      | .error e => .error e
      | .ok profiles => .ok (⟨leafIndex, clientQueueConfig, encryptedUserProfileKey⟩ :: profiles)

def updateMembershipProfiles [DecidableEq K] (leaves : Leaves K)
    (memberProfiles : AList fun _ : ℕ => MemberProfile R E)
    (addedUsers : List ((LeafNode K R × E) × W)) :
    Except GroupOperationError (AList fun _ : ℕ => MemberProfile R E) :=
  match addedProfiles leaves addedUsers with
  | .error e => .error e
  | .ok clientProfiles =>
    .ok (clientProfiles.foldl (fun m clientProfile => m.insert clientProfile.leafIndex clientProfile)
      memberProfiles)

/-- What `process_group_operation` and `process_apq_group_operation` do to the T group's
profiles once its commit is accepted: process removes, update membership profiles for added
users, and process resync operations. -/
def DsGroupState.processTCommitValidation [DecidableEq K] (s : DsGroupState K R E)
    (leaves : Leaves K) (v : TCommitValidation K R E W) :
    Except GroupOperationError (DsGroupState K R E) := do
  let memberProfiles := removeProfiles s.memberProfiles v.removedClients
  let memberProfiles ← match v.addedUsers with
    | none => pure memberProfiles
    | some addedUsers => updateMembershipProfiles leaves memberProfiles addedUsers
  let memberProfiles := match v.externalSenderInformation with
    | none => memberProfiles
    | some (encryptedUserProfileKey, clientQueueConfig) =>
      memberProfiles.insert v.senderIndex.leafIndex
        ⟨v.senderIndex.leafIndex, clientQueueConfig, encryptedUserProfileKey⟩
  pure ⟨leaves, memberProfiles⟩

def DsGroupState.processGroupOperation [DecidableEq K] [DecidableEq R] (s : DsGroupState K R E)
    (c : StagedCommit K R) (newEncryptedUserProfileKeys : List E)
    (addUsersInfo : Option (AddUsersInfo K R W)) :
    Except GroupOperationError (DsGroupState K R E) := do
  let v ← s.validateTCommit c newEncryptedUserProfileKeys addUsersInfo none none
  s.processTCommitValidation (c.apply s.leaves) v

/-- The closure of `group_operation` before `group_operation` itself: the sender's profile
from the request's QS client reference and profile key, if it carries both. -/
def insertSenderProfile (s : DsGroupState K R E) (senderIndex : ℕ) (profile : Option (R × E)) :
    DsGroupState K R E :=
  match profile with
  | none => s
  | some (qsClientReference, encryptedUserProfileKey) =>
    let senderProfile : MemberProfile R E := ⟨senderIndex, qsClientReference, encryptedUserProfileKey⟩
    { s with memberProfiles := s.memberProfiles.insert senderIndex senderProfile }

inductive ResyncClientError where
  | invalidMessage
  deriving DecidableEq, Repr

def rekeySenderProfile (memberProfiles : AList fun _ : ℕ => MemberProfile R E)
    (oldIndex newIndex : ℕ) : AList fun _ : ℕ => MemberProfile R E :=
  if newIndex ≠ oldIndex then
    match memberProfiles.lookup oldIndex with
    | none => memberProfiles
    | some profile => (memberProfiles.erase oldIndex).insert newIndex { profile with leafIndex := newIndex }
  else memberProfiles

/-- `DsGroupState::resync_client`: the sender rejoins by an external commit at the leftmost
blank leaf once the commit's proposals are applied (`ext_commit_sender_index`). -/
def DsGroupState.resyncClient (s : DsGroupState K R E) (c : StagedCommit K R) (senderIndex : ℕ) :
    Except ResyncClientError (DsGroupState K R E) := do
  if c.sender ≠ .newMemberCommit then throw .invalidMessage
  if senderIndex ∉ c.removeProposals then throw .invalidMessage
  if member s.leaves senderIndex = none then throw .invalidMessage
  if senderIndex ∉ removedClients c then throw .invalidMessage
  -- `swap_remove` of the sender's first position
  let removedIndices := (removedClients c).erase senderIndex
  if ∃ removedIndex ∈ removedIndices, member s.leaves removedIndex = none then
    throw .invalidMessage
  let newSenderIndex := leftmostBlank (c.merged s.leaves)
  let leaves := c.apply s.leaves
  let memberProfiles := removeProfiles s.memberProfiles removedIndices
  pure ⟨leaves, rekeySenderProfile memberProfiles senderIndex newSenderIndex⟩

inductive JoinConnectionGroupError where
  | invalidMessage
  | notAConnectionGroup
  | processingError
  deriving DecidableEq, Repr

/-- `DsGroupState::join_connection_group`: the joiner's external commit carries no
proposals, and the joiner is found after the merge by the credential of its path. -/
def DsGroupState.joinConnectionGroup [DecidableEq K] (s : DsGroupState K R E) (c : StagedCommit K R)
    (qsClientReference : R) (encryptedUserProfileKey : E) :
    Except JoinConnectionGroupError (DsGroupState K R E) := do
  if 0 < c.addProposals.length ∨ 0 < c.updateProposals.length ∨ 0 < c.removeProposals.length then
    throw .invalidMessage
  if 1 < s.memberProfiles.entries.length then throw .notAConnectionGroup
  let leaves := c.apply s.leaves
  match c.updatePathLeafNode.bind fun leafNode => findMember leaves leafNode.signatureKey with
  | none => throw .processingError
  | some sender =>
    pure ⟨leaves, s.memberProfiles.insert sender ⟨sender, qsClientReference, encryptedUserProfileKey⟩⟩

inductive UpdateUserProfileKeyError where
  | unknownSender
  deriving DecidableEq, Repr

def DsGroupState.updateUserProfileKey (s : DsGroupState K R E) (senderIndex : ℕ) (userProfileKey : E) :
    Except UpdateUserProfileKeyError (DsGroupState K R E) :=
  match s.memberProfiles.lookup senderIndex with
  | none => .error .unknownSender
  | some clientProfile =>
    let clientProfile := { clientProfile with encryptedUserProfileKey := userProfileKey }
    .ok { s with memberProfiles := s.memberProfiles.insert senderIndex clientProfile }

def DsGroupState.otherDestinationClients (s : DsGroupState K R E) (senderIndex : ℕ) : List R :=
  s.memberProfiles.entries.filterMap fun e =>
    if e.1 ≠ senderIndex then some e.2.clientQueueConfig else none

/-! ## Profiles that mirror the tree -/

section Profiles

def KeyedByLeaf (memberProfiles : AList fun _ : ℕ => MemberProfile R E) : Prop :=
  ∀ i p, memberProfiles.lookup i = some p → p.leafIndex = i

/-- The profiles mirror the tree: there is one at each occupied leaf and none elsewhere, and
each sits at its own leaf index. The fan-out reaches a member exactly when this holds. -/
structure MirrorsTree (s : DsGroupState K R E) : Prop where
  mem_iff : ∀ i, i ∈ s.memberProfiles ↔ (member s.leaves i).isSome
  keyed : KeyedByLeaf s.memberProfiles

theorem KeyedByLeaf.insert {memberProfiles : AList fun _ : ℕ => MemberProfile R E}
    (h : KeyedByLeaf memberProfiles) {p : MemberProfile R E} {j : ℕ} (hp : p.leafIndex = j) :
    KeyedByLeaf (memberProfiles.insert j p) := by
  intro i q hq
  by_cases hi : i = j
  · subst hi
    rw [AList.lookup_insert] at hq
    cases hq
    exact hp
  · rw [AList.lookup_insert_ne hi] at hq
    exact h i q hq

theorem KeyedByLeaf.erase {memberProfiles : AList fun _ : ℕ => MemberProfile R E}
    (h : KeyedByLeaf memberProfiles) (i : ℕ) : KeyedByLeaf (memberProfiles.erase i) := by
  intro j p hp
  by_cases hj : j = i
  · subst hj
    rw [AList.lookup_erase] at hp
    cases hp
  · rw [AList.lookup_erase_ne hj] at hp
    exact h j p hp

theorem MirrorsTree.new (creatorKey : K) (creatorEncryptedUserProfileKey : E)
    (creatorQueueConfig : R) :
    MirrorsTree (DsGroupState.new creatorKey creatorEncryptedUserProfileKey creatorQueueConfig) where
  mem_iff i := by
    simp only [DsGroupState.new, AList.mem_insert, AList.notMem_empty, or_false]
    rcases i with _ | i <;> simp [member]
  keyed := KeyedByLeaf.insert (fun i p hp => by simp at hp) rfl

theorem lookup_removeProfiles (memberProfiles : AList fun _ : ℕ => MemberProfile R E)
    (removed : List ℕ) (i : ℕ) :
    (removeProfiles memberProfiles removed).lookup i =
      if i ∈ removed then none else memberProfiles.lookup i := by
  induction removed generalizing memberProfiles with
  | nil => simp [removeProfiles]
  | cons r removed ih =>
    simp only [removeProfiles, List.foldl_cons] at ih ⊢
    rw [ih]
    by_cases hi : i ∈ removed
    · simp [hi]
    · by_cases hr : i = r
      · subst hr
        simp [AList.lookup_erase]
      · simp [hi, hr, AList.lookup_erase_ne hr]

theorem mem_removeProfiles {memberProfiles : AList fun _ : ℕ => MemberProfile R E}
    {removed : List ℕ} {i : ℕ} :
    i ∈ removeProfiles memberProfiles removed ↔ i ∈ memberProfiles ∧ i ∉ removed := by
  rw [← AList.lookup_isSome, ← AList.lookup_isSome, lookup_removeProfiles]
  by_cases hi : i ∈ removed <;> simp [hi]

theorem mem_foldl_insert (memberProfiles : AList fun _ : ℕ => MemberProfile R E)
    (profiles : List (MemberProfile R E)) (i : ℕ) :
    i ∈ profiles.foldl (fun m p => m.insert p.leafIndex p) memberProfiles ↔
      i ∈ memberProfiles ∨ ∃ p ∈ profiles, p.leafIndex = i := by
  induction profiles generalizing memberProfiles with
  | nil => simp
  | cons p ps ih =>
    rw [List.foldl_cons, ih, AList.mem_insert]
    constructor
    · rintro ((rfl | h) | ⟨q, hq, rfl⟩)
      · exact .inr ⟨p, List.mem_cons_self .., rfl⟩
      · exact .inl h
      · exact .inr ⟨q, List.mem_cons_of_mem p hq, rfl⟩
    · rintro (h | ⟨q, hq, rfl⟩)
      · exact .inl (.inr h)
      · rcases List.mem_cons.mp hq with rfl | hq
        · exact .inl (.inl rfl)
        · exact .inr ⟨q, hq, rfl⟩

theorem KeyedByLeaf.removeProfiles {memberProfiles : AList fun _ : ℕ => MemberProfile R E}
    (h : KeyedByLeaf memberProfiles) (removed : List ℕ) :
    KeyedByLeaf (Air.removeProfiles memberProfiles removed) := by
  induction removed generalizing memberProfiles with
  | nil => exact h
  | cons r removed ih => exact ih (h.erase r)

theorem KeyedByLeaf.foldl_insert {memberProfiles : AList fun _ : ℕ => MemberProfile R E}
    (h : KeyedByLeaf memberProfiles) (profiles : List (MemberProfile R E)) :
    KeyedByLeaf (profiles.foldl (fun m p => m.insert p.leafIndex p) memberProfiles) := by
  induction profiles generalizing memberProfiles with
  | nil => exact h
  | cons p ps ih => exact ih (h.insert rfl)

theorem removedClients_eq_removedLeaves (c : StagedCommit K R) :
    removedClients c = c.removedLeaves := by
  unfold removedClients StagedCommit.removedLeaves
  congr 1
  funext p
  rcases p with ⟨_ | _ | _ | _, _ | _ | _ | _⟩ <;> rfl

theorem mem_removedClients_of_mem_removeProposals {c : StagedCommit K R} {r : ℕ}
    (h : r ∈ c.removeProposals) : r ∈ removedClients c := by
  obtain ⟨p, hp, hr⟩ := List.mem_filterMap.mp h
  refine List.mem_filterMap.mpr ⟨p, hp, ?_⟩
  rcases p with ⟨_ | _ | _ | _, _⟩ <;> simp_all [removedClient]

theorem checkRemovedClients_eq_ok [DecidableEq K] {leaves : Leaves K} {senderLeaf : ℕ}
    {pqLeaves : Option (Leaves K)} {removed : List ℕ}
    (h : checkRemovedClients leaves senderLeaf pqLeaves removed = .ok ()) :
    ∀ r ∈ removed, r ≠ senderLeaf ∧ (member leaves r).isSome ∧
      ∀ pq ∈ pqLeaves, member pq r = member leaves r := by
  induction removed with
  | nil => simp
  | cons r rest ih =>
    simp only [checkRemovedClients] at h
    split at h
    · cases h
    split at h
    · cases h
    split at h
    · cases h
    rename_i hne hmem hpq
    rintro r' (_ | ⟨_, hr'⟩)
    · refine ⟨hne, Option.isSome_iff_ne_none.mpr hmem, fun pq hpq' => ?_⟩
      rw [Option.mem_def] at hpq'
      subst hpq'
      simpa using hpq
    · exact ih h r' hr'

theorem validateAddedUsers_eq_ok [DecidableEq K] [DecidableEq R] {c : StagedCommit K R}
    {keys : List E} {addUsersInfo : AddUsersInfo K R W} {users : List ((LeafNode K R × E) × W)}
    (h : validateAddedUsers c keys addUsersInfo = .ok users) :
    users = (c.addProposals.zip keys).zip addUsersInfo.encryptedWelcomeAttributionInfos ∧
      addUsersInfo.encryptedWelcomeAttributionInfos.length = c.addProposals.length := by
  unfold validateAddedUsers at h
  by_cases hlen : addUsersInfo.encryptedWelcomeAttributionInfos.length = c.addProposals.length
  · rcases hw : validateWelcomeOnly c.addProposals addUsersInfo.welcomeJoiners with e | ⟨⟩ <;>
      simp [hlen, hw, bind, Except.bind, pure, Except.pure] at h
    exact ⟨h.symm, hlen⟩
  · simp [hlen, bind, Except.bind, throw, throwThe, MonadExceptOf.throw] at h

theorem addedUsers_eq_addProposals {c : StagedCommit K R} {keys : List E} {infos : List W}
    (hinfos : infos.length = c.addProposals.length) (hkeys : c.addProposals.length ≤ keys.length) :
    ((c.addProposals.zip keys).zip infos).map (·.1.1) = c.addProposals := by
  have hzip : (c.addProposals.zip keys).length ≤ infos.length := by
    rw [List.length_zip, hinfos]
    exact Nat.min_le_left _ _
  show List.map (Prod.fst ∘ Prod.fst) _ = _
  rw [← List.map_map, List.map_fst_zip hzip, List.map_fst_zip hkeys]

theorem validateAddedUsersState_eq_ok [DecidableEq K] [DecidableEq R] {c : StagedCommit K R}
    {keys : List E} {info : Option (AddUsersInfo K R W)} {pqStagedCommit : Option (StagedCommit K R)}
    {addedUsers : Option (List ((LeafNode K R × E) × W))}
    (h : validateAddedUsersState c keys info pqStagedCommit = .ok addedUsers) :
    c.addProposals = [] ∧ addedUsers = none ∨
      ∃ addUsersInfo users, info = some addUsersInfo ∧
        validateAddedUsers c keys addUsersInfo = .ok users ∧ addedUsers = some users ∧
        ∀ pq ∈ pqStagedCommit, pq.addedKeys = users.map (·.1.1.signatureKey) := by
  unfold validateAddedUsersState at h
  split at h
  · rename_i ha
    cases h
    exact .inl ⟨List.isEmpty_iff.mp ha, rfl⟩
  split at h
  · cases h
  rename_i addUsersInfo
  split at h
  · cases h
  rename_i users hv
  split at h
  · cases h
  rename_i hpq
  cases h
  refine .inr ⟨addUsersInfo, users, rfl, hv, rfl, fun pq hpq' => ?_⟩
  rw [Option.mem_def] at hpq'
  subst hpq'
  simpa using hpq

/-- What a successful `validate_t_commit` has established: the commit comes from a member at
an occupied leaf, its removed clients passed their check, and its added users passed
theirs. External commits never pass: the client one re-adds is among its removed clients,
and the check refuses a removed client at the sender's leaf. -/
theorem validateTCommit_eq_ok [DecidableEq K] [DecidableEq R] {s : DsGroupState K R E}
    {c : StagedCommit K R} {keys : List E} {info : Option (AddUsersInfo K R W)}
    {pqLeaves : Option (Leaves K)} {pqStagedCommit : Option (StagedCommit K R)}
    {v : TCommitValidation K R E W}
    (h : s.validateTCommit c keys info pqLeaves pqStagedCommit = .ok v) :
    ∃ i, c.sender = .member i ∧ v.senderIndex = .member i ∧ v.externalSenderInformation = none ∧
      v.removedClients = removedClients c ∧ (member s.leaves i).isSome ∧
      checkRemovedClients s.leaves i pqLeaves (removedClients c) = .ok () ∧
      validateAddedUsersState c keys info pqStagedCommit = .ok v.addedUsers := by
  simp only [DsGroupState.validateTCommit, Except.bind_eq_ok, Except.getDM_eq_ok,
    Except.pure_eq_ok] at h
  obtain ⟨senderIndex, hsi, sender, hsender, addedUsers, hadd, ext, hext, ⟨⟩, hck, rfl⟩ := h
  unfold senderIndexOf at hsi
  split at hsi
  · rename_i i hs
    cases hsi
    cases hext
    exact ⟨i, hs, rfl, rfl, rfl, Option.isSome_iff_exists.mpr ⟨sender, hsender⟩, hck, hadd⟩
  · -- the client an external commit re-adds is among its removed clients
    rename_i removed tail hs hr
    cases hsi
    have hrem : removed ∈ removedClients c :=
      mem_removedClients_of_mem_removeProposals (by simp [hr])
    exact absurd rfl (checkRemovedClients_eq_ok hck removed hrem).1
  · cases hsi

theorem addedProfiles_leafIndex [DecidableEq K] {leaves : Leaves K}
    {users : List ((LeafNode K R × E) × W)} {profiles : List (MemberProfile R E)}
    (h : addedProfiles leaves users = .ok profiles) (i : ℕ) :
    (∃ p ∈ profiles, p.leafIndex = i) ↔
      ∃ u ∈ users, findMember leaves u.1.1.signatureKey = some i := by
  induction users generalizing profiles with
  | nil =>
    cases h
    simp
  | cons u users ih =>
    obtain ⟨⟨leafNode, key⟩, w⟩ := u
    simp only [addedProfiles] at h
    split at h
    · cases h
    · cases h
    · rename_i leafIndex clientQueueConfig hfind hext
      split at h
      · cases h
      · rename_i rest hrest
        cases h
        simp only [List.mem_cons, exists_eq_or_imp, ih hrest, hfind, Option.some.injEq]

theorem processTCommitValidation_leaves [DecidableEq K] {s t : DsGroupState K R E}
    {leaves : Leaves K} {v : TCommitValidation K R E W}
    (h : s.processTCommitValidation leaves v = .ok t) : t.leaves = leaves := by
  unfold DsGroupState.processTCommitValidation at h
  rcases hu : v.addedUsers with _ | addedUsers <;>
    rcases he : v.externalSenderInformation with _ | ⟨encryptedUserProfileKey, clientQueueConfig⟩ <;>
    simp only [hu, he, Except.bind_eq_ok, Except.pure_eq_ok] at h <;>
    obtain ⟨_, -, rfl⟩ := h <;> rfl

theorem MirrorsTree.apply {s : DsGroupState K R E} (h : MirrorsTree s) {c : StagedCommit K R}
    {i : ℕ} (hs : c.sender = .member i) (hi : (member s.leaves i).isSome)
    (hr : i ∉ removedClients c) (profiles : List (MemberProfile R E))
    (hprof : ∀ j, (∃ p ∈ profiles, p.leafIndex = j) ↔
      ∃ k ∈ c.addedKeys, member (c.apply s.leaves) j = some k) :
    MirrorsTree ⟨c.apply s.leaves, profiles.foldl (fun m p => m.insert p.leafIndex p)
      (removeProfiles s.memberProfiles (removedClients c))⟩ where
  mem_iff j := by
    rw [removedClients_eq_removedLeaves] at hr ⊢
    rw [mem_foldl_insert, mem_removeProfiles, h.mem_iff, hprof]
    exact (StagedCommit.isSome_member_apply_iff hs hi hr j).symm
  keyed := (h.keyed.removeProfiles _).foldl_insert profiles

/-- `process_group_operation` keeps the profiles mirroring the tree, provided the AAD has a
profile key for every Add proposal and the merged tree has no signature key twice. -/
theorem MirrorsTree.processGroupOperation [DecidableEq K] [DecidableEq R]
    {s s' : DsGroupState K R E} {c : StagedCommit K R} {keys : List E}
    {info : Option (AddUsersInfo K R W)} (h : MirrorsTree s)
    (hok : s.processGroupOperation c keys info = .ok s')
    (hkeys : c.addProposals.length ≤ keys.length) (huniq : KeysUnique (c.apply s.leaves)) :
    MirrorsTree s' := by
  simp only [DsGroupState.processGroupOperation, Except.bind_eq_ok] at hok
  obtain ⟨v, hv, hok⟩ := hok
  obtain ⟨i, hs, -, hext, hrem, hi, hck, hadd⟩ := validateTCommit_eq_ok hv
  have hr : i ∉ removedClients c := fun hmem => (checkRemovedClients_eq_ok hck i hmem).1 rfl
  simp only [DsGroupState.processTCommitValidation, hext, hrem] at hok
  rcases validateAddedUsersState_eq_ok hadd with ⟨ha, hnone⟩ | ⟨addUsersInfo, users, -, husers, hsome, -⟩
  · -- nothing added: the profiles of the removed clients go
    simp only [hnone, Except.bind_eq_ok, Except.pure_eq_ok] at hok
    obtain ⟨_, rfl, rfl⟩ := hok
    refine h.apply hs hi hr [] fun j => ?_
    simp [StagedCommit.addedKeys, ha]
  · obtain ⟨rfl, hinfos⟩ := validateAddedUsers_eq_ok husers
    simp only [hsome, updateMembershipProfiles, Except.bind_eq_ok, Except.pure_eq_ok] at hok
    obtain ⟨memberProfiles, hm, rfl⟩ := hok
    split at hm
    · cases hm
    rename_i profiles hp
    cases hm
    refine h.apply hs hi hr profiles fun j => ?_
    have hmap := addedUsers_eq_addProposals hinfos hkeys
    generalize (c.addProposals.zip keys).zip addUsersInfo.encryptedWelcomeAttributionInfos = users
      at hmap hp
    rw [addedProfiles_leafIndex hp, StagedCommit.addedKeys, ← hmap]
    simp [findMember_eq_some_iff huniq]

def createdGroup : DsGroupState ℕ ℕ ℕ := .new 0 100 10

/-- Member `0` adds clients `1` and `2`, with queue configs `11` and `12`. -/
def addTwoCommit : StagedCommit ℕ ℕ :=
  ⟨.member 0, [⟨.add ⟨1, some 11⟩, .member 0⟩, ⟨.add ⟨2, some 12⟩, .member 0⟩], none⟩

/-- With one profile key in the AAD for two Add proposals the commit is accepted, client `2`
joins at leaf `2` without a profile, and the fan-out to the group leaves it out. -/
theorem processGroupOperation_drops_profile :
    ∃ s, createdGroup.processGroupOperation addTwoCommit [101]
        (some ⟨[⟨1, some 11⟩, ⟨2, some 12⟩], [(), ()]⟩) = .ok s ∧
      member s.leaves 2 = some 2 ∧ s.memberProfiles.lookup 2 = none ∧
      s.otherDestinationClients 0 = [11] ∧ ¬ MirrorsTree s :=
  ⟨_, rfl, rfl, rfl, rfl, fun h => absurd ((h.mem_iff 2).mpr rfl) (by decide)⟩

end Profiles

end Air
