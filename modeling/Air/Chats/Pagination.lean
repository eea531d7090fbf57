import Mathlib

/-! # Cursor pagination of a chat's messages

`load_before`, `load_after`, `load_starting_from` and `load_around` of
`coreclient/src/chats/messages/persistence.rs`. Each runs one query per page: the rows of the
chat on one side of a `(timestamp, message_id)` cursor, ordered from the cursor outwards, with
`LIMIT limit + 1`; `decode_row` then skips the rows that fail to decode, and `trim_sentinel`
says there are more when more than `limit` rows are left.

The sentinel row is counted after the undecodable rows are dropped, so one such row among the
`limit + 1` fetched hides everything beyond it: the page says there is nothing more. When every
row on the cursor's side decodes, each page is exact (`loadPage_eq_exactPage`) and loading
older pages from the oldest one loaded until the flag turns false returns every row, in order
(`olderPages_eq_decodable`).
-/

namespace Air

variable {κ α : Type}

def decodeRows (rows : List (κ × Option α)) : List (κ × α) :=
  rows.filterMap fun r => r.2.map (r.1, ·)

def trimSentinel (messages : List (κ × α)) (limit : ℕ) (reverse : Bool) : List (κ × α) × Bool :=
  let hasMore := messages.length > limit
  let messages := messages.take limit
  (if reverse then messages.reverse else messages, hasMore)

/-- `limit + 1` on `u32`, which wraps in the release profile. -/
def fetchLimit (limit : ℕ) : ℕ := (limit + 1) % 2 ^ 32

section DecodeRows

variable {rows : List (κ × Option α)}

theorem decodeRows_take (hdec : ∀ r ∈ rows, r.2.isSome) (n : ℕ) :
    decodeRows (rows.take n) = (decodeRows rows).take n := by
  induction rows generalizing n with
  | nil => simp [decodeRows]
  | cons r rows ih =>
    obtain ⟨m, hm⟩ := Option.isSome_iff_exists.mp (hdec r List.mem_cons_self)
    cases n with
    | zero => simp [decodeRows]
    | succ n =>
      have ih' := ih (fun s hs => hdec s (List.mem_cons_of_mem r hs)) n
      simp only [decodeRows] at ih' ⊢
      simp [hm, ih']

theorem decodeRows_filter (p : κ → Bool) :
    decodeRows (rows.filter fun r => p r.1) = (decodeRows rows).filter fun r => p r.1 := by
  induction rows with
  | nil => rfl
  | cons r rows ih =>
    rcases r with ⟨k, _ | m⟩ <;> by_cases hk : p k <;>
      simp_all [decodeRows]

theorem decodeRows_reverse : decodeRows rows.reverse = (decodeRows rows).reverse :=
  List.filterMap_reverse

end DecodeRows

theorem trimSentinel_take_succ (messages : List (κ × α)) (limit : ℕ) (reverse : Bool) :
    trimSentinel (messages.take (limit + 1)) limit reverse =
      (if reverse then (messages.take limit).reverse else messages.take limit,
        decide (limit < messages.length)) := by
  simp only [trimSentinel, List.take_take, Nat.min_eq_left (Nat.le_succ limit), List.length_take,
    gt_iff_lt, Prod.mk.injEq, true_and, decide_eq_decide]
  omega

variable [LinearOrder κ]

/-- The rows of one chat in the `message` table, in ascending order of their keys
`(timestamp, message_id)`, which are distinct and which SQLite compares as row values, as `κ`
orders them. A row carries its message when it decodes into a `SqlChatMessage`, `none` when it
does not. -/
structure MessageTable (κ α : Type) [LinearOrder κ] where
  rows : List (κ × Option α)
  sorted : rows.Pairwise fun r s => r.1 < s.1

def MessageTable.select (t : MessageTable κ α) (keyFilter : κ → Bool) (descending : Bool)
    (limit : ℕ) : List (κ × Option α) :=
  let matching := t.rows.filter fun r => keyFilter r.1
  (if descending then matching.reverse else matching).take limit

/-- One page: the query with the sentinel row, the decoding, and `trim_sentinel`, which puts a
descending page back in ascending order. -/
def loadPage (t : MessageTable κ α) (keyFilter : κ → Bool) (descending : Bool) (limit : ℕ) :
    List (κ × α) × Bool :=
  trimSentinel (decodeRows (t.select keyFilter descending (fetchLimit limit))) limit descending

def loadBefore (t : MessageTable κ α) (before : κ) (limit : ℕ) : List (κ × α) × Bool :=
  loadPage t (fun k => k < before) true limit

def loadAfter (t : MessageTable κ α) (after : κ) (limit : ℕ) : List (κ × α) × Bool :=
  loadPage t (fun k => after < k) false limit

def loadStartingFrom (t : MessageTable κ α) (start : κ) (limit : ℕ) : List (κ × α) × Bool :=
  loadPage t (fun k => start ≤ k) false limit

def loadAround (t : MessageTable κ α) (anchor : κ) (halfLimit : ℕ) : List (κ × α) × Bool × Bool :=
  let (backward, hasOlder) := loadPage t (fun k => k ≤ anchor) true halfLimit
  let (forward, hasNewer) := loadPage t (fun k => anchor < k) false halfLimit
  (backward ++ forward, hasOlder, hasNewer)

/-- Loading older pages as `handle_load_older` does, from a window whose oldest message has
key `k`: each page is loaded before the oldest message so far, and the next one is asked for
while the page says older messages exist. The pages, oldest first. -/
def olderPages (t : MessageTable κ α) (limit : ℕ) : ℕ → κ → List (κ × α)
  | 0, _ => []
  | fuel + 1, k =>
    let (page, hasOlder) := loadBefore t k limit
    match page.head? with
    | none => []
    | some (k', _) => (if hasOlder then olderPages t limit fuel k' else []) ++ page

/-! ## Exact pages -/

def MessageTable.decodable (t : MessageTable κ α) (keyFilter : κ → Bool) : List (κ × α) :=
  decodeRows (t.rows.filter fun r => keyFilter r.1)

/-- What a page means: the `limit` decodable rows nearest the cursor, in ascending order, and
whether decodable rows lie beyond them. -/
def exactPage (t : MessageTable κ α) (keyFilter : κ → Bool) (descending : Bool) (limit : ℕ) :
    List (κ × α) × Bool :=
  let rows := t.decodable keyFilter
  (if descending then rows.rtake limit else rows.take limit, limit < rows.length)

theorem pairwise_decodeRows {rows : List (κ × Option α)} (h : rows.Pairwise fun r s => r.1 < s.1) :
    (decodeRows rows).Pairwise fun r s => r.1 < s.1 := by
  refine List.Pairwise.filterMap _ ?_ h
  intro r s hrs r' hr s' hs
  rw [Option.map_eq_some_iff] at hr hs
  obtain ⟨_, -, rfl⟩ := hr
  obtain ⟨_, -, rfl⟩ := hs
  exact hrs

/-- When every row on the cursor's side decodes and `limit + 1` fits a `u32`, a page is
exact. -/
theorem loadPage_eq_exactPage (t : MessageTable κ α) (keyFilter : κ → Bool) (descending : Bool)
    {limit : ℕ} (hdec : ∀ r ∈ t.rows, keyFilter r.1 → r.2.isSome) (hlimit : limit + 1 < 2 ^ 32) :
    loadPage t keyFilter descending limit = exactPage t keyFilter descending limit := by
  have hall : ∀ r ∈ t.rows.filter (fun r => keyFilter r.1), r.2.isSome := fun r hr => by
    rw [List.mem_filter] at hr
    exact hdec r hr.1 hr.2
  have hall_rev : ∀ r ∈ (t.rows.filter fun r => keyFilter r.1).reverse, r.2.isSome :=
    fun r hr => hall r (List.mem_reverse.mp hr)
  have hfetch : fetchLimit limit = limit + 1 := Nat.mod_eq_of_lt hlimit
  have hselect : decodeRows (t.select keyFilter descending (limit + 1)) =
      (if descending then (t.decodable keyFilter).reverse else t.decodable keyFilter).take
        (limit + 1) := by
    cases descending with
    | true => rw [MessageTable.select, if_pos rfl, decodeRows_take hall_rev, decodeRows_reverse]; rfl
    | false => exact decodeRows_take hall _
  rw [loadPage, hfetch, hselect, trimSentinel_take_succ]
  cases descending with
  | true => simp [exactPage, List.rtake_eq_reverse_take_reverse]
  | false => simp [exactPage]

/-! ## Loading older pages -/

theorem MessageTable.mem_decodable {t : MessageTable κ α} {keyFilter : κ → Bool} {r : κ × α}
    (h : r ∈ t.decodable keyFilter) : keyFilter r.1 = true := by
  rw [MessageTable.decodable, decodeRows_filter, List.mem_filter] at h
  exact h.2

theorem MessageTable.pairwise_decodable (t : MessageTable κ α) (keyFilter : κ → Bool) :
    (t.decodable keyFilter).Pairwise fun r s => r.1 < s.1 :=
  pairwise_decodeRows (t.sorted.filter _)

theorem filter_lt_getElem {β : Type} {rows : List (κ × β)}
    (hsorted : rows.Pairwise fun r s => r.1 < s.1) {j : ℕ} (hj : j < rows.length) :
    rows.filter (fun r => r.1 < rows[j].1) = rows.take j := by
  induction rows generalizing j with
  | nil => exact absurd hj (Nat.not_lt_zero _)
  | cons r rows ih =>
    rw [List.pairwise_cons] at hsorted
    cases j with
    | zero =>
      rw [List.filter_eq_nil_iff.mpr, List.take_zero]
      intro s hs
      rcases List.mem_cons.mp hs with rfl | hs
      · simp
      · simpa using le_of_lt (hsorted.1 s hs)
    | succ j =>
      have hj' : j < rows.length := Nat.lt_of_succ_lt_succ hj
      have hlt : r.1 < rows[j].1 := hsorted.1 _ (List.getElem_mem hj')
      rw [List.getElem_cons_succ, List.filter_cons_of_pos (by simpa using hlt), List.take_succ_cons,
        ih hsorted.2 hj']

theorem decodable_lt_getElem (t : MessageTable κ α) (k : κ) {j : ℕ}
    (hj : j < (t.decodable fun x => x < k).length) :
    (t.decodable fun x => x < (t.decodable fun x => x < k)[j].1) =
      (t.decodable fun x => x < k).take j := by
  have hbelow : (t.decodable fun x => x < k)[j].1 < k := by
    simpa using MessageTable.mem_decodable (List.getElem_mem hj)
  have hfilter : (t.rows.filter fun r => decide (r.1 < (t.decodable fun x => x < k)[j].1)) =
      (t.rows.filter fun r => decide (r.1 < k)).filter
        fun r => decide (r.1 < (t.decodable fun x => x < k)[j].1) := by
    rw [List.filter_filter]
    congr 1
    funext r
    by_cases hr : r.1 < (t.decodable fun x => x < k)[j].1
    · simp [hr, lt_trans hr hbelow]
    · simp [hr]
  rw [MessageTable.decodable, hfilter,
    decodeRows_filter (fun x => decide (x < (t.decodable fun x => x < k)[j].1))]
  exact filter_lt_getElem (t.pairwise_decodable _) hj

/-- When every row below the window decodes, loading older pages until the flag turns false
returns every row below it, each once and in order, given one load per row. The induction is
on the loads left; each page is the last `limit` rows below the cursor, and the next cursor is
its oldest row. -/
theorem olderPages_eq_decodable (t : MessageTable κ α) {limit : ℕ} (hpos : 0 < limit)
    (hlimit : limit + 1 < 2 ^ 32) (fuel : ℕ) :
    ∀ k, (∀ r ∈ t.rows, r.1 < k → r.2.isSome) → (t.decodable fun x => x < k).length ≤ fuel →
      olderPages t limit fuel k = t.decodable fun x => x < k := by
  induction fuel with
  | zero =>
    intro k _ hfuel
    have hnil : (t.decodable fun x => x < k) = [] := List.eq_nil_of_length_eq_zero (Nat.le_zero.mp hfuel)
    rw [hnil]
    rfl
  | succ fuel ih =>
    intro k hdec hfuel
    set rows := t.decodable fun x => x < k with hrows
    have hpage : loadBefore t k limit = (rows.rtake limit, decide (limit < rows.length)) :=
      loadPage_eq_exactPage t _ true (fun r hr hk => hdec r hr (by simpa using hk)) hlimit
    rw [olderPages, hpage]
    by_cases hmore : limit < rows.length
    · -- a full page: the rest lies before its oldest row
      have hj : rows.length - limit < rows.length := by omega
      have hhead : (rows.rtake limit).head? = some rows[rows.length - limit] := by
        rw [List.rtake, List.head?_drop, List.getElem?_eq_getElem hj]
      have hnext : (t.decodable fun x => x < rows[rows.length - limit].1) =
          rows.take (rows.length - limit) := decodable_lt_getElem t k hj
      have hrest := ih rows[rows.length - limit].1
        (fun r hr hlt => hdec r hr (lt_trans hlt
          (by simpa using MessageTable.mem_decodable (List.getElem_mem hj))))
        (by rw [hnext, List.length_take]; omega)
      simp only [hhead, hmore, decide_true, if_true]
      rw [hrest, hnext, List.rtake, List.take_append_drop]
    · -- the last page holds all that is left
      have hall : rows.rtake limit = rows := by
        rw [List.rtake, Nat.sub_eq_zero_of_le (by omega), List.drop_zero]
      rw [hall]
      cases hr : rows with
      | nil => rfl
      | cons r rest =>
        rw [hr, List.length_cons] at hmore
        simp [hmore]

def decodableBelowCursor : MessageTable ℕ Unit where
  rows := [(1, some ()), (2, some ()), (3, some ()), (5, none)]
  sorted := by decide

theorem olderPages_eq_decodable_threeRows :
    (∀ r ∈ decodableBelowCursor.rows, r.1 < 4 → r.2.isSome) ∧
      (decodableBelowCursor.decodable fun x => x < 4).length ≤ 3 ∧
      olderPages decodableBelowCursor 1 3 4 = [(1, ()), (2, ()), (3, ())] := by
  have hdec : ∀ r ∈ decodableBelowCursor.rows, r.1 < 4 → r.2.isSome := by decide
  have hlen : (decodableBelowCursor.decodable fun x => x < 4).length ≤ 3 := by decide
  refine ⟨hdec, hlen, ?_⟩
  rw [olderPages_eq_decodable _ Nat.one_pos (by decide) 3 4 hdec hlen]
  decide

/-- Three messages below a cursor at `4`, the newest of which does not decode. -/
def newestUndecodable : MessageTable ℕ Unit where
  rows := [(1, some ()), (2, some ()), (3, none)]
  sorted := by decide

/-- With a page of one message, the fetched rows are `3` and `2`; only `2` decodes, so the
page says there is nothing older, though message `1` decodes, and loading stops there. -/
theorem loadBefore_hides_older :
    loadBefore newestUndecodable 4 1 = ([(2, ())], false) ∧
      exactPage newestUndecodable (fun k => k < 4) true 1 = ([(2, ())], true) ∧
      olderPages newestUndecodable 1 3 4 = [(2, ())] ∧
      (newestUndecodable.decodable fun k => k < 4) = [(1, ()), (2, ())] := by
  decide

end Air
