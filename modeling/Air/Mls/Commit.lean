import Air.Mls.Tree

/-! # Commits and their proposals

A commit carries proposals: an Add brings the leaf node of a key package, a Remove names a
leaf, an Update gives its sender a new leaf node, and a SelfRemove removes its sender.
Merging the commit applies the updates, then the removes, then the adds, and last the
committer's new leaf node from its update path; the joiner of an external commit takes the
leftmost blank leaf once the proposals are applied.

What a merge does to the members depends only on the members before it, on the blanked
leaves as a set, and on the signature keys the commit brings (`member_apply_congr`).
-/

namespace Mls

variable {K X : Type*}

inductive Sender where
  | member (leafIndex : ℕ)
  | external
  | newMemberProposal
  | newMemberCommit
  deriving DecidableEq, Repr

/-- A leaf node: its signature key, and the application's extension if it carries one. -/
structure LeafNode (K X : Type*) where
  signatureKey : K
  extension : Option X
  deriving DecidableEq, Repr

inductive Proposal (K X : Type*) where
  | add (leafNode : LeafNode K X)
  | remove (removed : ℕ)
  | update (leafNode : LeafNode K X)
  | selfRemove
  deriving DecidableEq, Repr

structure QueuedProposal (K X : Type*) where
  proposal : Proposal K X
  sender : Sender
  deriving DecidableEq, Repr

/-- A commit that has been validated and not yet merged. -/
structure StagedCommit (K X : Type*) where
  sender : Sender
  queuedProposals : List (QueuedProposal K X)
  updatePathLeafNode : Option (LeafNode K X)
  deriving DecidableEq, Repr

namespace StagedCommit

def addProposals (c : StagedCommit K X) : List (LeafNode K X) :=
  c.queuedProposals.filterMap fun p =>
    match p.proposal with
    | .add leafNode => some leafNode
    | _ => none

def removeProposals (c : StagedCommit K X) : List ℕ :=
  c.queuedProposals.filterMap fun p =>
    match p.proposal with
    | .remove removed => some removed
    | _ => none

def updateProposals (c : StagedCommit K X) : List (ℕ × LeafNode K X) :=
  c.queuedProposals.filterMap fun p =>
    match p.proposal, p.sender with
    | .update leafNode, .member i => some (i, leafNode)
    | _, _ => none

/-- The leaves its Remove and SelfRemove proposals blank. -/
def removedLeaves (c : StagedCommit K X) : List ℕ :=
  c.queuedProposals.filterMap fun p =>
    match p.proposal, p.sender with
    | .remove removed, _ => some removed
    | .selfRemove, .member i => some i
    | _, _ => none

def addedKeys (c : StagedCommit K X) : List K := c.addProposals.map (·.signatureKey)

def updated (c : StagedCommit K X) (leaves : Leaves K) : Leaves K :=
  (c.updateProposals.map fun u => (u.1, u.2.signatureKey)).foldl (fun l u => replace l u.1 u.2)
    leaves

/-- The tree once the proposals are applied. -/
def merged (c : StagedCommit K X) (leaves : Leaves K) : Leaves K :=
  merge (c.updated leaves) c.removedLeaves c.addedKeys

/-- Merging the commit into the tree. -/
def apply (c : StagedCommit K X) (leaves : Leaves K) : Leaves K :=
  match c.sender, c.updatePathLeafNode with
  | .member i, some leafNode => replace (c.merged leaves) i leafNode.signatureKey
  | .newMemberCommit, some leafNode => add (c.merged leaves) leafNode.signatureKey
  | _, _ => c.merged leaves

theorem isSome_member_updated (c : StagedCommit K X) (leaves : Leaves K) (j : ℕ) :
    (member (c.updated leaves) j).isSome = (member leaves j).isSome := by
  unfold updated
  induction c.updateProposals.map (fun u => (u.1, u.2.signatureKey)) generalizing leaves with
  | nil => rfl
  | cons u us ih => rw [List.foldl_cons, ih, isSome_member_replace]

theorem member_updated_congr {leaves leaves' : Leaves K}
    (h : ∀ i, member leaves i = member leaves' i) {c c' : StagedCommit K X}
    (hu : c.updateProposals.map (fun u => (u.1, u.2.signatureKey)) =
      c'.updateProposals.map (fun u => (u.1, u.2.signatureKey))) (j : ℕ) :
    member (c.updated leaves) j = member (c'.updated leaves') j := by
  unfold updated
  rw [hu]
  induction c'.updateProposals.map (fun u => (u.1, u.2.signatureKey)) generalizing leaves leaves' with
  | nil => exact h j
  | cons u us ih =>
    apply ih
    intro i
    simp [h]

theorem isSome_member_merged_of_addedKeys_eq_nil {c : StagedCommit K X} (h : c.addedKeys = [])
    (leaves : Leaves K) (j : ℕ) :
    (member (c.merged leaves) j).isSome ↔ (member leaves j).isSome ∧ j ∉ c.removedLeaves := by
  rw [merged, merge, h, List.foldl_nil, member_foldl_blank]
  split_ifs with hj
  · simp [hj]
  · simp [hj, isSome_member_updated]

theorem merged_eq_of_no_proposals {c : StagedCommit K X} (hr : c.removedLeaves = [])
    (ha : c.addedKeys = []) (hu : c.updateProposals = []) (leaves : Leaves K) :
    c.merged leaves = leaves := by
  simp [merged, updated, merge, hr, ha, hu]

theorem member_apply_eq_merged_or (c : StagedCommit K X) (leaves : Leaves K) (j : ℕ) :
    member (c.apply leaves) j = member (c.merged leaves) j ∨
      ∃ l, c.updatePathLeafNode = some l ∧ member (c.apply leaves) j = some l.signatureKey := by
  unfold apply
  rcases c.sender with i | _ | _ | _ <;> rcases c.updatePathLeafNode with _ | l
  case member.some =>
    rw [member_replace]
    split_ifs
    · exact .inr ⟨l, rfl, rfl⟩
    · exact .inl rfl
  case newMemberCommit.some =>
    rw [member_add]
    split_ifs
    · exact .inr ⟨l, rfl, rfl⟩
    · exact .inl rfl
  all_goals exact .inl rfl

theorem isSome_member_apply_of_merged {c : StagedCommit K X} {leaves : Leaves K} {j : ℕ}
    (h : (member (c.merged leaves) j).isSome) : (member (c.apply leaves) j).isSome := by
  unfold apply
  rcases c.sender with i | _ | _ | _ <;> rcases c.updatePathLeafNode with _ | l
  case member.some => rwa [isSome_member_replace]
  case newMemberCommit.some =>
    rw [member_add]
    split_ifs
    · rfl
    · exact h
  all_goals exact h

section FromMember

variable {c : StagedCommit K X} {i : ℕ} (hs : c.sender = .member i)
include hs

theorem member_apply_of_ne (leaves : Leaves K) {j : ℕ} (hj : j ≠ i) :
    member (c.apply leaves) j = member (c.merged leaves) j := by
  unfold apply
  rw [hs]
  cases c.updatePathLeafNode with
  | none => rfl
  | some leafNode => simp [hj]

theorem isSome_member_apply (leaves : Leaves K) (j : ℕ) :
    (member (c.apply leaves) j).isSome = (member (c.merged leaves) j).isSome := by
  unfold apply
  rw [hs]
  cases c.updatePathLeafNode with
  | none => rfl
  | some leafNode => exact isSome_member_replace _ _ _ _

/-- What the merge of a commit from a member who keeps its leaf does to occupancy: a leaf is
occupied afterwards if it was and is not removed, or if an added member is there. -/
theorem isSome_member_apply_iff {leaves : Leaves K} (hi : (member leaves i).isSome)
    (hr : i ∉ c.removedLeaves) (j : ℕ) :
    (member (c.apply leaves) j).isSome ↔
      ((member leaves j).isSome ∧ j ∉ c.removedLeaves) ∨
        ∃ k ∈ c.addedKeys, member (c.apply leaves) j = some k := by
  constructor
  · intro hj
    obtain ⟨k, hk⟩ := Option.isSome_iff_exists.mp hj
    by_cases hji : j = i
    · subst hji
      exact .inl ⟨hi, hr⟩
    · rw [member_apply_of_ne hs leaves hji] at hk
      rcases member_foldl_add_eq_some hk with hk' | hk'
      · rw [member_foldl_blank] at hk'
        split at hk'
        · cases hk'
        · rename_i hjr
          refine .inl ⟨?_, hjr⟩
          rw [← isSome_member_updated c, hk']
          rfl
      · exact .inr ⟨k, hk', (member_apply_of_ne hs leaves hji).trans hk⟩
  · rintro (⟨hj, hjr⟩ | ⟨k, -, hk⟩)
    · -- an occupied leaf that is not removed stays occupied through the adds
      have hblank : member (c.removedLeaves.foldl blank (c.updated leaves)) j ≠ none := by
        rw [member_foldl_blank, if_neg hjr, ← Option.isSome_iff_ne_none, isSome_member_updated]
        exact hj
      rw [isSome_member_apply hs, merged, merge, member_foldl_add_of_ne_none hblank]
      exact Option.isSome_iff_ne_none.mpr hblank
    · simp [hk]

end FromMember

theorem member_apply_newMemberCommit {c : StagedCommit K X} (hs : c.sender = .newMemberCommit)
    {leafNode : LeafNode K X} (hp : c.updatePathLeafNode = some leafNode) (leaves : Leaves K)
    (j : ℕ) :
    member (c.apply leaves) j =
      if j = leftmostBlank (c.merged leaves) then some leafNode.signatureKey
      else member (c.merged leaves) j := by
  unfold apply
  rw [hs, hp]
  exact member_add _ _ _

/-- Two trees with the same members stay so under commits from the same sender that blank
the same leaves and bring the same signature keys. -/
theorem member_apply_congr {leaves leaves' : Leaves K} (h : ∀ i, member leaves i = member leaves' i)
    {c c' : StagedCommit K X} (hs : c.sender = c'.sender)
    (hu : c.updateProposals.map (fun u => (u.1, u.2.signatureKey)) =
      c'.updateProposals.map (fun u => (u.1, u.2.signatureKey)))
    (hr : ∀ i, i ∈ c.removedLeaves ↔ i ∈ c'.removedLeaves) (ha : c.addedKeys = c'.addedKeys)
    (hp : c.updatePathLeafNode.map (·.signatureKey) = c'.updatePathLeafNode.map (·.signatureKey))
    (j : ℕ) : member (c.apply leaves) j = member (c'.apply leaves') j := by
  have hmerge : ∀ j, member (c.merged leaves) j = member (c'.merged leaves') j := by
    unfold merged
    rw [ha]
    exact member_merge_congr (member_updated_congr h hu) hr c'.addedKeys
  unfold apply
  rw [hs]
  cases hpc : c.updatePathLeafNode with
  | none =>
    cases hpc' : c'.updatePathLeafNode with
    | none => cases c'.sender <;> exact hmerge j
    | some l' => simp [hpc, hpc'] at hp
  | some l =>
    cases hpc' : c'.updatePathLeafNode with
    | none => simp [hpc, hpc'] at hp
    | some l' =>
      have hk : l.signatureKey = l'.signatureKey := by simpa [hpc, hpc'] using hp
      cases c'.sender with
      | member i => simp [hk, hmerge]
      | newMemberCommit => simp [hk, hmerge, leftmostBlank_congr hmerge]
      | external => exact hmerge j
      | newMemberProposal => exact hmerge j

end StagedCommit

end Mls
