import Mathlib.Data.List.Basic

/-! # Messages sent from inside a transaction

A request handler works inside a database transaction and sends messages to other
services. A message that has left cannot be recalled: if it leaves before the commit and
the commit then fails, its receivers act on a change the database does not hold. The
trace of a handler lists its sends and its commit in the order they happen; it is safe
when every send comes after the commit, and then a trace without a commit sends nothing.
-/

namespace Outbox

variable {D : Type*}

/-- What a handler does that others can observe. -/
inductive Event (D : Type*) where
  | send (d : D)
  | commit
  deriving DecidableEq, Repr

def sent : List (Event D) → List D
  | [] => []
  | .send d :: tr => d :: sent tr
  | .commit :: tr => sent tr

/-- Every message of the trace is sent after a commit. -/
def SendsAfterCommit (tr : List (Event D)) : Prop :=
  ∀ pre d post, tr = pre ++ .send d :: post → .commit ∈ pre

@[simp] theorem sent_nil : sent ([] : List (Event D)) = [] := rfl

@[simp] theorem sent_send_cons (d : D) (tr : List (Event D)) :
    sent (.send d :: tr) = d :: sent tr := rfl

@[simp] theorem sent_commit_cons (tr : List (Event D)) : sent (.commit :: tr) = sent tr := rfl

@[simp] theorem sent_append (tr tr' : List (Event D)) : sent (tr ++ tr') = sent tr ++ sent tr' := by
  induction tr with
  | nil => rfl
  | cons e tr ih => cases e <;> simp [ih]

@[simp] theorem sent_map_send (ds : List D) : sent (ds.map .send) = ds := by
  induction ds with
  | nil => rfl
  | cons d ds ih => simp [ih]

theorem send_mem_iff {d : D} {tr : List (Event D)} : Event.send d ∈ tr ↔ d ∈ sent tr := by
  induction tr with
  | nil => simp
  | cons e tr ih => cases e <;> simp [ih]

theorem sendsAfterCommit_of_sent_eq_nil {tr : List (Event D)} (h : sent tr = []) :
    SendsAfterCommit tr := by
  rintro pre d post rfl
  simp at h

theorem sendsAfterCommit_append_commit {tr : List (Event D)} (h : sent tr = [])
    (post : List (Event D)) : SendsAfterCommit (tr ++ .commit :: post) := by
  intro pre d post' heq
  obtain ⟨mid, rfl, hmid⟩ | ⟨mid, rfl, hmid⟩ := List.append_eq_append_iff.mp heq
  · cases mid with
    | nil =>
      simp only [List.nil_append, List.cons.injEq, reduceCtorEq, false_and] at hmid
    | cons e mid =>
      obtain ⟨rfl, -⟩ := List.cons.inj hmid
      simp
  · cases mid with
    | nil =>
      simp only [List.nil_append, List.cons.injEq, reduceCtorEq, false_and] at hmid
    | cons e mid =>
      obtain ⟨rfl, -⟩ := List.cons.inj hmid
      simp at h

theorem sendsAfterCommit_commit_cons (post : List (Event D)) : SendsAfterCommit (.commit :: post) :=
  sendsAfterCommit_append_commit sent_nil post

theorem sent_eq_nil_of_commit_not_mem {tr : List (Event D)} (h : SendsAfterCommit tr)
    (hc : Event.commit ∉ tr) : sent tr = [] := by
  rcases hs : sent tr with _ | ⟨d, ds⟩
  · rfl
  · have hd : Event.send d ∈ tr := send_mem_iff.mpr (by simp [hs])
    obtain ⟨pre, post, rfl⟩ := List.append_of_mem hd
    exact absurd (List.mem_append_left _ (h pre d post rfl)) hc

end Outbox
