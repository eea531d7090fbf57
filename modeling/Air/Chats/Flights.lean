import Mathlib.Data.List.Basic
import Mathlib.Algebra.Order.AbsoluteValue.Basic

/-! # Flights of messages

Consecutive content messages of one sender, less than a minute apart, form a flight, and each
message shows its place in it: alone, first, in the middle or last. `UiFlightPosition::calculate`
finds the place from the message and its two neighbours; the message list computes it for a
range of its window, with the unread divider as one more break between two messages.

Only the position is ever written; the grouping reads the sender and the timestamp. So a
recomputation gives every message of its range the place `positionAt` names, read off the window
before it (`recomputeFlightPositionsRange_eq`), and leaves the rest of each message alone.
-/

namespace Air

inductive UiFlightPosition where
  | single
  | start
  | middle
  | finish
  deriving DecidableEq, Repr

inductive UiMessage where
  | content (sender : ℕ)
  | display
  deriving DecidableEq, Repr

/-- `UiChatMessage`. `details` stands for the fields nothing here reads but the comparison in
`update_message_in_place`: the status, the reactions, the reply and the content itself. -/
structure UiChatMessage (β : Type) where
  id : ℕ
  timestamp : ℤ
  message : UiMessage
  position : UiFlightPosition
  details : β
  deriving DecidableEq, Repr

namespace UiChatMessage

variable {β : Type}

def timeThreshold : ℤ := 60 * 10 ^ 9

/-- `UiFlightPosition::flight_break_condition`: two content messages stay in one flight when one
sender wrote them less than a minute apart; any other message breaks the flight. -/
def flightBreakCondition (a b : UiChatMessage β) : Bool :=
  match a.message, b.message with
  | .content aSender, .content bSender =>
    aSender != bSender || decide (timeThreshold ≤ |b.timestamp - a.timestamp|)
  | _, _ => true

def calculate (message : UiChatMessage β) (prev next : Option (UiChatMessage β)) :
    UiFlightPosition :=
  match prev, next with
  | none, none => .single
  | some prev, none => if flightBreakCondition prev message then .single else .finish
  | none, some next => if flightBreakCondition message next then .single else .start
  | some prev, some next =>
    match flightBreakCondition prev message, flightBreakCondition message next with
    | true, true => .single
    | true, false => .start
    | false, true => .finish
    | false, false => .middle

def erase (m : UiChatMessage β) : UiChatMessage β := { m with position := .single }

@[simp] theorem id_erase (m : UiChatMessage β) : m.erase.id = m.id := rfl

@[simp] theorem timestamp_erase (m : UiChatMessage β) : m.erase.timestamp = m.timestamp := rfl

@[simp] theorem message_erase (m : UiChatMessage β) : m.erase.message = m.message := rfl

@[simp] theorem erase_erase (m : UiChatMessage β) : m.erase.erase = m.erase := rfl

@[simp] theorem erase_setPosition (m : UiChatMessage β) (p : UiFlightPosition) :
    ({ m with position := p } : UiChatMessage β).erase = m.erase := rfl

theorem flightBreakCondition_congr {a a' b b' : UiChatMessage β} (ha : a.erase = a'.erase)
    (hb : b.erase = b'.erase) : flightBreakCondition a b = flightBreakCondition a' b' := by
  have ha₁ : a.message = a'.message := by simpa using congrArg UiChatMessage.message ha
  have ha₂ : a.timestamp = a'.timestamp := by simpa using congrArg UiChatMessage.timestamp ha
  have hb₁ : b.message = b'.message := by simpa using congrArg UiChatMessage.message hb
  have hb₂ : b.timestamp = b'.timestamp := by simpa using congrArg UiChatMessage.timestamp hb
  simp only [flightBreakCondition, ha₁, ha₂, hb₁, hb₂]

theorem eq_or_of_map_erase_eq {o o' : Option (UiChatMessage β)}
    (h : o.map erase = o'.map erase) :
    (o = none ∧ o' = none) ∨ ∃ a a', o = some a ∧ o' = some a' ∧ a.erase = a'.erase := by
  cases o <;> cases o' <;> simp_all

theorem calculate_congr {m m' : UiChatMessage β} {prev prev' next next' : Option (UiChatMessage β)}
    (hm : m.erase = m'.erase) (hprev : prev.map erase = prev'.map erase)
    (hnext : next.map erase = next'.map erase) :
    calculate m prev next = calculate m' prev' next' := by
  rcases eq_or_of_map_erase_eq hprev with ⟨rfl, rfl⟩ | ⟨p, p', rfl, rfl, hp⟩ <;>
    rcases eq_or_of_map_erase_eq hnext with ⟨rfl, rfl⟩ | ⟨q, q', rfl, rfl, hq⟩
  · rfl
  · simp only [calculate, flightBreakCondition_congr hm hq]
  · simp only [calculate, flightBreakCondition_congr hp hm]
  · simp only [calculate, flightBreakCondition_congr hp hm, flightBreakCondition_congr hm hq]

end UiChatMessage

open UiChatMessage

variable {β : Type}

/-- The place `calculate` gives the message `m` at index `i` of `messages`, the unread divider
at `flightBreakAt` hiding the neighbour across it. -/
def positionAt (messages : List (UiChatMessage β)) (flightBreakAt : Option ℕ) (i : ℕ)
    (m : UiChatMessage β) : UiFlightPosition :=
  let prev := if i > 0 ∧ flightBreakAt ≠ some i then messages[i - 1]? else none
  let next := if flightBreakAt = some (i + 1) then none else messages[i + 1]?
  calculate m prev next

/-- `recompute_flight_positions_range`: the loop over `start..min end len`, in place. -/
def recomputeFlightPositionsRange (messages : List (UiChatMessage β)) (start stop : ℕ)
    (flightBreakAt : Option ℕ) : List (UiChatMessage β) :=
  (List.range' start (min stop messages.length - start)).foldl
    (fun ms i => ms.modify i fun m => { m with position := positionAt ms flightBreakAt i m })
    messages

def computeFlightPositions (messages : List (UiChatMessage β)) (flightBreakAt : Option ℕ) :
    List (UiChatMessage β) :=
  recomputeFlightPositionsRange messages 0 messages.length flightBreakAt


theorem positionAt_congr {ms ms' : List (UiChatMessage β)} (h : ms.map erase = ms'.map erase)
    (fb : Option ℕ) (i : ℕ) {m m' : UiChatMessage β} (hm : m.erase = m'.erase) :
    positionAt ms fb i m = positionAt ms' fb i m' := by
  have hget : ∀ j, ms[j]?.map erase = ms'[j]?.map erase := fun j => by
    rw [← List.getElem?_map, ← List.getElem?_map, h]
  simp only [positionAt]
  apply calculate_congr hm
  · split_ifs <;> simp [hget]
  · split_ifs <;> simp [hget]

/-- What one pass of the loop over the indices `is` does: each of them gets its place, read off
the window as it was, since the loop changes positions only. -/
theorem foldl_modify_position (messages : List (UiChatMessage β)) (fb : Option ℕ) :
    ∀ (is : List ℕ) (ms : List (UiChatMessage β)), ms.map erase = messages.map erase →
      is.foldl (fun ms i => ms.modify i fun m => { m with position := positionAt ms fb i m }) ms =
        ms.mapIdx fun i m =>
          if i ∈ is then { m with position := positionAt messages fb i m } else m
  | [], ms, _ => by
    apply List.ext_getElem (by simp)
    intro i h₁ h₂
    simp
  | j :: is, ms, hms => by
    have hstep : (ms.modify j fun m => { m with position := positionAt ms fb j m }).map erase =
        messages.map erase := by
      rw [← hms]
      apply List.ext_getElem (by simp)
      intro i h₁ h₂
      simp only [List.getElem_map, List.getElem_modify]
      split_ifs <;> rfl
    rw [List.foldl_cons, foldl_modify_position messages fb is _ hstep]
    apply List.ext_getElem (by simp)
    intro i h₁ h₂
    simp only [List.getElem_mapIdx, List.getElem_modify, List.mem_cons]
    by_cases hi : i ∈ is
    · simp only [hi, or_true, if_true]
      split_ifs <;> congr 1
    · simp only [hi, or_false, if_false]
      split_ifs with hj hj' hj'
      · subst hj
        congr 1
        exact positionAt_congr hms fb _ rfl
      · exact absurd hj.symm hj'
      · exact absurd hj'.symm hj
      · rfl

/-- `recompute_flight_positions_range` gives each message of `start..end` the place read off the
window, and leaves the others as they are. -/
theorem recomputeFlightPositionsRange_eq (messages : List (UiChatMessage β)) (start stop : ℕ)
    (fb : Option ℕ) :
    recomputeFlightPositionsRange messages start stop fb =
      messages.mapIdx fun i m =>
        if start ≤ i ∧ i < stop then { m with position := positionAt messages fb i m } else m := by
  rw [recomputeFlightPositionsRange, foldl_modify_position messages fb _ _ rfl]
  apply List.ext_getElem (by simp)
  intro i h₁ h₂
  have hi : i < messages.length := by simpa using h₁
  simp only [List.getElem_mapIdx, List.mem_range'_1]
  congr 1
  apply propext
  omega

@[simp] theorem length_recomputeFlightPositionsRange (messages : List (UiChatMessage β))
    (start stop : ℕ) (fb : Option ℕ) :
    (recomputeFlightPositionsRange messages start stop fb).length = messages.length := by
  simp [recomputeFlightPositionsRange_eq]

@[simp] theorem map_erase_recomputeFlightPositionsRange (messages : List (UiChatMessage β))
    (start stop : ℕ) (fb : Option ℕ) :
    (recomputeFlightPositionsRange messages start stop fb).map erase = messages.map erase := by
  rw [recomputeFlightPositionsRange_eq]
  apply List.ext_getElem (by simp)
  intro i h₁ h₂
  simp only [List.getElem_map, List.getElem_mapIdx]
  split_ifs <;> rfl

@[simp] theorem length_computeFlightPositions (messages : List (UiChatMessage β))
    (fb : Option ℕ) : (computeFlightPositions messages fb).length = messages.length :=
  length_recomputeFlightPositionsRange _ _ _ _

@[simp] theorem map_erase_computeFlightPositions (messages : List (UiChatMessage β))
    (fb : Option ℕ) : (computeFlightPositions messages fb).map erase = messages.map erase :=
  map_erase_recomputeFlightPositionsRange _ _ _ _


end Air
