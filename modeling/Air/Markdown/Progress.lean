import Air.Markdown.Parse
import Air.Control.StateExcept

/-! # The parser makes progress

The fuel of the model is not in the source: `try_parse_markdown` runs until the events run out.
This module shows that the model never needs more fuel than twice the number of events and a
little: with that much, every call leaves a suffix of the events it was given, each block takes
at least one event, and no call runs out of fuel. It also shows where the one panic of the
source comes from: with no empty `Text` event, the implicit paragraph always has an element to
index, and `parse_markdown` returns a message.

Each function gets a specification in `Parses`, and one induction on the fuel proves all ten of
them together (`Bounds`): a call at `fuel + 1` runs its callees at `fuel`, on no more events
than it was given, and each loop runs again only after it has taken an event.
-/

namespace Air
namespace Markdown

open StateT (Spec)

/-! ## The loops over consecutive events -/

theorem mergeTexts_suffix (events : List RangedEvent) (fullText : String) (stop : ℕ) :
    (mergeTexts events fullText stop).2.2 <:+ events := by
  fun_induction mergeTexts events fullText stop with
  | case1 _ _ _ rest _ _ ih => exact ih.trans (List.suffix_cons _ rest)
  | case2 => exact List.suffix_refl _

theorem mergeTexts_fst (events : List RangedEvent) (fullText : String) (stop : ℕ) :
    ∃ t, (mergeTexts events fullText stop).1 = fullText ++ t := by
  fun_induction mergeTexts events fullText stop with
  | case1 _ _ s _ fullText _ ih =>
    obtain ⟨t, ht⟩ := ih
    exact ⟨s ++ t, by rw [ht, String.append_assoc]⟩
  | case2 fullText => exact ⟨"", String.append_empty.symm⟩

theorem append_ne_empty {s : String} (t : String) (h : s ≠ "") : s ++ t ≠ "" := by
  intro hst
  have hnil : s.toList ++ t.toList = [] := by rw [← String.toList_append, hst]; rfl
  exact h (String.toList_eq_nil_iff.mp (List.append_eq_nil_iff.mp hnil).1)

theorem codeLines_suffix (events : List RangedEvent) : (codeLines events).2 <:+ events := by
  fun_induction codeLines events with
  | case1 _ _ _ rest _ ih => exact ih.trans (List.suffix_cons _ rest)
  | case2 => exact List.suffix_refl _

theorem htmlLines_suffix (events : List RangedEvent) : (htmlLines events).2 <:+ events := by
  fun_induction htmlLines events with
  | case1 _ _ _ rest _ ih => exact ih.trans (List.suffix_cons _ rest)
  | case2 _ _ _ rest _ ih => exact ih.trans (List.suffix_cons _ rest)
  | case3 => exact List.suffix_refl _

theorem collectLinks_ne_nil {str : String} (h : str ≠ "") (start stop : ℕ) :
    collectLinks start stop str ≠ [] := by
  unfold collectLinks
  cases hm : findIter str with
  | nil =>
    obtain ⟨c, cs, hcs⟩ := List.exists_cons_of_ne_nil (mt String.toList_eq_nil_iff.mp h)
    have hpos : 0 < str.utf8ByteSize := by
      rw [← byteLen_toList, hcs, byteLen_cons]
      exact Nat.add_pos_left c.utf8Size_pos _
    simp [pushMatches, hpos]
  | cons m ms => simp [pushMatches]

/-! ## What a parsing function does -/

/-- No `Text` event among `events` has an empty string. -/
def TextsNonempty (events : List RangedEvent) : Prop :=
  ∀ e ∈ events, ∀ s, e.event = .text s → s ≠ ""

theorem TextsNonempty.suffix {events rest : List RangedEvent} (h : TextsNonempty events)
    (hs : rest <:+ events) : TextsNonempty rest :=
  fun e he => h e (hs.subset he)

theorem TextsNonempty.head_text {e : RangedEvent} {tail : List RangedEvent} {str : String}
    (h : TextsNonempty (e :: tail)) (he : e.event = .text str) : str ≠ "" :=
  h e List.mem_cons_self str he

/-- What a parsing function does when its fuel is enough: it leaves a suffix of the events it
was given, with a value and a rest that `post` describes; and it fails neither for want of fuel
nor, when no text is empty, with a panic. -/
def Parses {α : Type} (m : ParseM α) (events : List RangedEvent)
    (post : α → List RangedEvent → Prop) : Prop :=
  Spec m events (fun a rest => rest <:+ events ∧ post a rest)
    (fun e => e ≠ .outOfFuel ∧ (TextsNonempty events → e ≠ .panic))

section Rules

variable {α β : Type} {m : ParseM α} {es : List RangedEvent}
  {P : α → List RangedEvent → Prop} {Q : β → List RangedEvent → Prop}

theorem Parses.pure {a : α} (h : P a es) : Parses (pure a) es P :=
  Spec.pure ⟨List.suffix_refl es, h⟩

theorem Parses.fail {e : Error} : Parses (fail e : ParseM α) es P :=
  Spec.throw ⟨Failure.noConfusion, fun _ => Failure.noConfusion⟩

theorem Parses.mono {P' : α → List RangedEvent → Prop} (h : Parses m es P)
    (hP : ∀ a rest, rest <:+ es → P a rest → P' a rest) : Parses m es P' :=
  Spec.mono h (fun a rest ⟨hs, hp⟩ => ⟨hs, hP a rest hs hp⟩) fun _ he => he

theorem Parses.weaken (h : Parses m es P) : Parses m es fun _ _ => True :=
  h.mono fun _ _ _ _ => trivial

/-- Sequencing: the rest of the block starts from a suffix of the events. -/
theorem Parses.bind {f : α → ParseM β} (hm : Parses m es P)
    (hf : ∀ a rest, rest <:+ es → P a rest → Parses (f a) rest Q) :
    Parses (m >>= f) es Q := by
  refine Spec.bind hm fun a rest ⟨hsuf, ha⟩ => ?_
  refine Spec.mono (hf a rest hsuf ha) ?_ ?_
  · rintro b rest' ⟨hsuf', hb⟩
    exact ⟨hsuf'.trans hsuf, hb⟩
  · rintro e ⟨hfuel, hpanic⟩
    exact ⟨hfuel, fun hne => hpanic (hne.suffix hsuf)⟩

theorem Parses.of_suffix {rest : List RangedEvent} {m' : ParseM α} (h : Parses m' rest P)
    (hs : rest <:+ es) (hrun : m es = m' rest) : Parses m es P := by
  unfold Parses Spec
  rw [hrun]
  refine Spec.mono h ?_ ?_
  · rintro a rest' ⟨hsuf, ha⟩
    exact ⟨hsuf.trans hs, ha⟩
  · rintro err ⟨hfuel, hpanic⟩
    exact ⟨hfuel, fun hne => hpanic (hne.suffix hs)⟩

theorem Parses.map {g : α → β} (h : Parses m es fun a rest => Q (g a) rest) :
    Parses (g <$> m) es Q :=
  Spec.map h

theorem Parses.get_bind {f : List RangedEvent → ParseM β} (h : Parses (f es) es Q) :
    Parses (get >>= f) es Q :=
  h

theorem Parses.modifyGet_bind {f : List RangedEvent → α × List RangedEvent}
    {k : α → ParseM β} (h : (f es).2 <:+ es) (hk : Parses (k (f es).1) (f es).2 Q) :
    Parses (modifyGet f >>= k) es Q :=
  Parses.of_suffix hk h rfl

theorem Parses.peek_bind {f : RangedEvent → ParseM β}
    (h : ∀ e tail, es = e :: tail → Parses (f e) es Q) : Parses (peekEvent >>= f) es Q := by
  cases es with
  | nil => exact (Parses.fail : Parses (Markdown.fail .expectedMoreEvents : ParseM β) [] Q)
  | cons e tail => exact h e tail rfl

theorem Parses.next_bind {f : RangedEvent → ParseM β}
    (h : ∀ e tail, es = e :: tail → Parses (f e) tail Q) : Parses (nextEvent >>= f) es Q := by
  cases es with
  | nil => exact (Parses.fail : Parses (Markdown.fail .expectedMoreEvents : ParseM β) [] Q)
  | cons e tail => exact Parses.of_suffix (h e tail rfl) (List.suffix_cons e tail) rfl

theorem Parses.nextOpt_bind {f : Option RangedEvent → ParseM β}
    (hnil : es = [] → Parses (f none) es Q)
    (hcons : ∀ e tail, es = e :: tail → Parses (f (some e)) tail Q) :
    Parses (nextEvent? >>= f) es Q := by
  cases es with
  | nil => exact hnil rfl
  | cons e tail => exact Parses.of_suffix (hcons e tail rfl) (List.suffix_cons e tail) rfl

theorem Parses.fail_bind {e : Error} {f : α → ParseM β} :
    Parses (Markdown.fail e >>= f) es Q := by
  have hfail : Parses (Markdown.fail e : ParseM α) es fun _ _ => False := Parses.fail
  exact Parses.bind hfail fun _ _ _ h => h.elim

theorem Parses.container {inner : ParseM α} {close : Event}
    (h : ∀ e tail, es = e :: tail → Parses inner tail fun _ _ => True) :
    Parses (Markdown.container inner close) es fun _ rest => rest.length + 2 ≤ es.length := by
  unfold Markdown.container
  refine Parses.next_bind fun start tail htail => ?_
  refine Parses.bind (h start tail htail) fun value rest hrest _ => ?_
  refine Parses.next_bind fun stop tail' htail' => ?_
  dsimp only
  split_ifs
  · exact Parses.fail_bind
  · refine Parses.pure ?_
    have hlen := hrest.length_le
    simp only [htail, htail', List.length_cons] at hlen ⊢
    omega

theorem Parses.check_none {ev : Event} {e : Error} {k : ParseM β} :
    Parses (if Option.map (fun x : RangedEvent => x.event) none ≠ some ev then
      (Markdown.fail e : ParseM Unit) >>= fun _ => k else k) [] Q := by
  rw [if_pos (by simp)]
  exact Parses.fail_bind

theorem Parses.ne_outOfFuel (h : Parses m es P) : m es ≠ .error .outOfFuel :=
  Spec.ne_error h fun he => he.1 rfl

theorem Parses.ne_panic (h : Parses m es P) (hne : TextsNonempty es) : m es ≠ .error .panic :=
  Spec.ne_error h fun he => he.2 hne rfl

theorem Parses.of_eq_ok {a : α} {rest : List RangedEvent} (h : Parses m es P)
    (hm : m es = .ok (a, rest)) : rest <:+ es ∧ P a rest := by
  have hspec : Spec m es (fun a rest => rest <:+ es ∧ P a rest) _ := h
  exact hspec.of_eq_ok hm

end Rules

/-! ## The specifications -/

def Event.opensParagraph : Event → Bool
  | .start .emphasis | .start .strong | .start .strikethrough | .start (.link _)
  | .start (.image _) | .text _ | .inlineHtml _ | .code _ | .taskListMarker _ | .softBreak
  | .hardBreak => true
  | _ => false

def OpensParagraph (events : List RangedEvent) : Prop :=
  ∃ e tail, events = e :: tail ∧ e.event.opensParagraph = true

/-- What the inline loop returns from `events`, given the elements `acc`: those and maybe more;
and when the events open a paragraph, at least one event taken and, with no empty text, at
least one element more. -/
def InlinePost (acc : List RangedInlineElement) (events : List RangedEvent)
    (r : List RangedInlineElement) (rest : List RangedEvent) : Prop :=
  acc <+: r ∧
    (OpensParagraph events → rest.length < events.length ∧ (TextsNonempty events → r ≠ acc))

/-- The specifications of the ten parsing functions at one fuel. Each holds once the fuel is at
least twice the number of events and a constant of the function: one more for a function than
for what it calls with the same events, and a loop calls itself again only on two events
fewer. -/
structure Bounds (source : String) (fuel : ℕ) : Prop where
  block : ∀ es depth, 2 * es.length + 3 ≤ fuel →
    Parses (parseBlockElement source fuel depth) es fun _ rest => rest.length < es.length
  blocksUntil : ∀ es depth close blocks, 2 * es.length + 4 ≤ fuel →
    Parses (parseBlocksUntil source fuel depth close blocks) es fun _ rest =>
      rest.length < es.length
  inline : ∀ es depth, 2 * es.length + 2 ≤ fuel →
    Parses (parseInlineElements fuel depth) es (InlinePost [] es)
  inlineLoop : ∀ es depth acc, 2 * es.length + 1 ≤ fuel →
    Parses (parseInlineLoop fuel depth acc) es (InlinePost acc es)
  listItems : ∀ es depth, 2 * es.length + 4 ≤ fuel →
    Parses (parseListItems source fuel depth) es fun _ _ => True
  itemsLoop : ∀ es depth items, 2 * es.length + 3 ≤ fuel →
    Parses (parseItemsLoop source fuel depth items) es fun _ _ => True
  tableContent : ∀ es depth, 2 * es.length + 3 ≤ fuel →
    Parses (parseTableContent source fuel depth) es fun _ _ => True
  rowsLoop : ∀ es depth rows, 2 * es.length + 3 ≤ fuel →
    Parses (parseRowsLoop source fuel depth rows) es fun _ _ => True
  tableCells : ∀ es depth, 2 * es.length + 4 ≤ fuel →
    Parses (parseTableCells source fuel depth) es fun _ _ => True
  cellsLoop : ∀ es depth cells, 2 * es.length + 3 ≤ fuel →
    Parses (parseCellsLoop source fuel depth cells) es fun _ _ => True

theorem Bounds.zero (source : String) : Bounds source 0 where
  block _ _ h := by omega
  blocksUntil _ _ _ _ h := by omega
  inline _ _ h := by omega
  inlineLoop _ _ _ h := by omega
  listItems _ _ h := by omega
  itemsLoop _ _ _ h := by omega
  tableContent _ _ h := by omega
  rowsLoop _ _ _ h := by omega
  tableCells _ _ h := by omega
  cellsLoop _ _ _ h := by omega

/-! ## Fuel and lengths -/

section Lengths

variable {fuel : ℕ} {es : List RangedEvent}

theorem length_lt_of_suffix_tail {e : RangedEvent} {tail rest : List RangedEvent}
    (hes : es = e :: tail) (hrest : rest <:+ tail) : rest.length < es.length := by
  have := hrest.length_le
  simp only [hes, List.length_cons]
  omega

theorem fuel_of_tail {e : RangedEvent} {tail : List RangedEvent} {c : ℕ} (hes : es = e :: tail)
    (hfuel : 2 * es.length + c ≤ fuel + 1) : 2 * tail.length + (c + 1) ≤ fuel := by
  simp only [hes, List.length_cons] at hfuel
  omega

end Lengths

/-! ## Inline elements -/

section Inline

variable {source : String} {fuel depth : ℕ} {acc : List RangedInlineElement}
  {es : List RangedEvent}

theorem InlinePost.refl {e : RangedEvent} {tail : List RangedEvent} (hes : es = e :: tail)
    (he : e.event.opensParagraph = false) : InlinePost acc es acc es := by
  refine ⟨List.prefix_refl acc, fun ⟨e', tail', hes', he'⟩ => ?_⟩
  rw [hes] at hes'
  obtain ⟨rfl, -⟩ := List.cons.inj hes'
  rw [he] at he'
  exact absurd he' Bool.false_ne_true

theorem InlinePost.of_push {xs r : List RangedInlineElement} {rest : List RangedEvent}
    (hlt : rest.length < es.length) (hpre : acc ++ xs <+: r)
    (hxs : TextsNonempty es → xs ≠ []) : InlinePost acc es r rest := by
  refine ⟨(List.prefix_append acc xs).trans hpre, fun _ => ⟨hlt, fun hne hr => hxs hne ?_⟩⟩
  have hlen := hpre.length_le
  rw [hr, List.length_append] at hlen
  exact List.eq_nil_of_length_eq_zero (by omega)

theorem inlineLoop_next (hb : Bounds source fuel) (hfuel : 2 * es.length + 1 ≤ fuel + 1)
    (x : RangedEvent → RangedInlineElement) :
    Parses (nextEvent >>= fun v => parseInlineLoop fuel depth (acc ++ [x v])) es
      (InlinePost acc es) := by
  refine Parses.next_bind fun e tail hes => ?_
  have htail := fuel_of_tail hes hfuel
  refine (hb.inlineLoop tail depth _ (by omega)).mono fun r rest hrest ⟨hpre, _⟩ => ?_
  exact InlinePost.of_push (length_lt_of_suffix_tail hes hrest) hpre fun _ => List.cons_ne_nil _ _

theorem inlineLoop_container (hb : Bounds source fuel) (hfuel : 2 * es.length + 1 ≤ fuel + 1)
    (close : Event)
    (y : RangedEvent → List RangedInlineElement → RangedEvent → RangedInlineElement)
    (k : RangedEvent × List RangedInlineElement × RangedEvent → ParseM (List RangedInlineElement))
    (hk : ∀ start inline stop,
      k (start, inline, stop) = parseInlineLoop fuel depth (acc ++ [y start inline stop])) :
    Parses (container (parseInlineElements fuel (depth + 1)) close >>= k) es
      (InlinePost acc es) := by
  refine Parses.bind (Parses.container fun e tail hes =>
    (hb.inline tail (depth + 1) (by have := fuel_of_tail hes hfuel; omega)).weaken)
    fun ⟨start, inline, stop⟩ mid _ hmid => ?_
  rw [hk]
  refine (hb.inlineLoop mid depth _ (by omega)).mono fun r rest hrest ⟨hpre, _⟩ => ?_
  have hlt : rest.length < es.length := by
    have := hrest.length_le
    omega
  exact InlinePost.of_push hlt hpre fun _ => List.cons_ne_nil _ _

theorem inlineLoop_text (hb : Bounds source fuel) (hfuel : 2 * es.length + 1 ≤ fuel + 1)
    {str : String} (hstr : TextsNonempty es → str ≠ "") :
    Parses (nextEvent >>= fun textEvent =>
      modifyGet (fun events =>
        let merged := mergeTexts events str textEvent.stop
        ((merged.1, merged.2.1), merged.2.2)) >>= fun x =>
      parseInlineLoop fuel depth (acc ++ collectLinks textEvent.start x.2 x.1)) es
        (InlinePost acc es) := by
  refine Parses.next_bind fun e tail hes => Parses.modifyGet_bind (mergeTexts_suffix _ _ _) ?_
  dsimp only
  have hsuf := mergeTexts_suffix tail str e.stop
  have htail := fuel_of_tail hes hfuel
  have hlen := hsuf.length_le
  refine (hb.inlineLoop _ depth _ (by omega)).mono fun r rest hrest ⟨hpre, _⟩ => ?_
  have hlt := length_lt_of_suffix_tail hes (hrest.trans hsuf)
  obtain ⟨t, ht⟩ := mergeTexts_fst tail str e.stop
  refine InlinePost.of_push hlt hpre fun hne => collectLinks_ne_nil ?_ _ _
  rw [ht]
  exact append_ne_empty t (hstr hne)

theorem Bounds.inlineLoop_succ (hb : Bounds source fuel) (es : List RangedEvent) (depth : ℕ)
    (acc : List RangedInlineElement) (hfuel : 2 * es.length + 1 ≤ fuel + 1) :
    Parses (parseInlineLoop (fuel + 1) depth acc) es (InlinePost acc es) := by
  rw [parseInlineLoop]
  refine Parses.peek_bind fun peek tail hes => ?_
  -- the arms in the order of the source's match
  split
  iterate 5 exact inlineLoop_container hb hfuel _ _ _ fun _ _ _ => rfl
  · rename_i h
    exact inlineLoop_text hb hfuel fun hne => (hes ▸ hne).head_text h
  iterate 4 exact inlineLoop_next hb hfuel _
  · rename_i h
    exact Parses.pure (InlinePost.refl hes (by rw [h]; rfl))
  · exact inlineLoop_next hb hfuel _
  iterate 9
    rename_i h
    exact Parses.pure (InlinePost.refl hes (by rw [h]; rfl))
  all_goals exact Parses.fail

theorem Bounds.inline_succ (hb : Bounds source fuel) (es : List RangedEvent) (depth : ℕ)
    (hfuel : 2 * es.length + 2 ≤ fuel + 1) :
    Parses (parseInlineElements (fuel + 1) depth) es (InlinePost [] es) := by
  rw [parseInlineElements]
  split_ifs
  · exact Parses.fail_bind
  · exact hb.inlineLoop es depth [] (by omega)

end Inline

/-! ## Blocks -/

section Blocks

variable {source : String} {fuel depth : ℕ} {es : List RangedEvent}

theorem block_container {α : Type} {inner : ParseM α} {close : Event}
    (hinner : ∀ e tail, es = e :: tail → Parses inner tail fun _ _ => True)
    (k : RangedEvent × α × RangedEvent → ParseM RangedBlockElement)
    (hk : ∀ x, ∃ b, k x = pure b) :
    Parses (container inner close >>= k) es fun _ rest => rest.length < es.length := by
  refine Parses.bind (Parses.container hinner) fun x mid _ hmid => ?_
  obtain ⟨b, hb⟩ := hk x
  rw [hb]
  exact Parses.pure (by omega)

/-- The implicit paragraph: its inline elements take the event that opened it and, with no
empty text, are not empty, so `inner[0]` and `inner[inner.len() - 1]` exist. -/
theorem block_implicitParagraph (hb : Bounds source fuel) (hfuel : 2 * es.length + 2 ≤ fuel)
    (hopen : OpensParagraph es)
    (k : List RangedInlineElement → ParseM RangedBlockElement)
    (hk : ∀ x xs, ∃ b, k (x :: xs) = pure b) (hnil : k [] = throw .panic) :
    Parses (parseInlineElements fuel (depth + 1) >>= k) es fun _ rest =>
      rest.length < es.length := by
  refine Spec.bind (hb.inline es (depth + 1) hfuel) fun inner rest ⟨hsuf, hpost⟩ => ?_
  obtain ⟨hlt, hne⟩ := hpost.2 hopen
  cases inner with
  | nil =>
    rw [hnil]
    exact ⟨Failure.noConfusion, fun htexts => absurd rfl (hne htexts)⟩
  | cons x xs =>
    obtain ⟨b, hkb⟩ := hk x xs
    rw [hkb]
    exact ⟨hsuf, hlt⟩

theorem block_lines {α : Type} (lines : List RangedEvent → α × List RangedEvent)
    (hlines : ∀ events, (lines events).2 <:+ events)
    (k : RangedEvent → α → RangedEvent → ParseM RangedBlockElement)
    (hk : ∀ start value stop rest, Parses (k start value stop) rest fun _ rest' => rest' = rest) :
    Parses (nextEvent >>= fun start => modifyGet lines >>= fun value => nextEvent >>= fun stop =>
      k start value stop) es fun _ rest => rest.length < es.length := by
  refine Parses.next_bind fun start tail hes => Parses.modifyGet_bind (hlines tail) ?_
  refine Parses.next_bind fun stop tail' htail' => ?_
  refine (hk start _ stop tail').mono fun _ rest _ hrest => ?_
  have htail : tail' <:+ tail := by
    have h := hlines tail
    rw [htail'] at h
    exact (List.suffix_cons stop tail').trans h
  exact length_lt_of_suffix_tail hes (hrest ▸ htail)

theorem block_check {c : Prop} [Decidable c] {e : Error} {b : RangedBlockElement}
    {rest : List RangedEvent} :
    Parses (if c then (Markdown.fail e : ParseM Unit) >>= fun _ => pure b else pure b) rest
      fun _ rest' => rest' = rest := by
  split_ifs
  · exact Parses.fail_bind
  · exact Parses.pure rfl

theorem Bounds.block_succ (hb : Bounds source fuel) (es : List RangedEvent) (depth : ℕ)
    (hfuel : 2 * es.length + 3 ≤ fuel + 1) :
    Parses (parseBlockElement source (fuel + 1) depth) es fun _ rest =>
      rest.length < es.length := by
  rw [parseBlockElement]
  dsimp only
  split_ifs
  · exact Parses.fail_bind
  refine Parses.peek_bind fun peek tail hes => ?_
  -- the arms in the order of the source's match
  split
  iterate 2 exact block_container (fun _ tail' h => (hb.inline tail' (depth + 1)
      (by have := fuel_of_tail h hfuel; omega)).weaken) _ fun _ => ⟨_, rfl⟩
  · refine block_container (fun _ tail' h => ?_) _ fun _ => ⟨_, rfl⟩
    have hitems := (hb.listItems tail' (depth + 1) (fuel_of_tail h hfuel)).weaken
    split
    · exact Parses.map hitems
    · exact Parses.map hitems
  · exact block_container (fun _ tail' h => (hb.tableContent tail' (depth + 1)
      (by have := fuel_of_tail h hfuel; omega)).weaken) _ fun _ => ⟨_, rfl⟩
  · refine Parses.next_bind fun _ tail' h => ?_
    refine Parses.bind (hb.blocksUntil tail' depth _ [] (fuel_of_tail h hfuel))
      fun _ rest hrest _ => Parses.pure (length_lt_of_suffix_tail h hrest)
  · exact block_lines codeLines codeLines_suffix _ fun _ _ _ _ => block_check
  · exact Parses.next_bind fun _ tail' h =>
      Parses.pure (length_lt_of_suffix_tail h (List.suffix_refl tail'))
  iterate 11
    rename_i h
    exact block_implicitParagraph hb (by omega) ⟨peek, tail, hes, by rw [h]; rfl⟩ _
      (fun _ _ => ⟨_, rfl⟩) rfl
  iterate 2 exact Parses.fail
  · exact block_lines htmlLines htmlLines_suffix _ fun _ _ _ _ => block_check
  all_goals exact Parses.fail

theorem Bounds.blocksUntil_succ (hb : Bounds source fuel) (es : List RangedEvent) (depth : ℕ)
    (close : Event) (blocks : List RangedBlockElement) (hfuel : 2 * es.length + 4 ≤ fuel + 1) :
    Parses (parseBlocksUntil source (fuel + 1) depth close blocks) es fun _ rest =>
      rest.length < es.length := by
  rw [parseBlocksUntil]
  refine Parses.peek_bind fun _ _ _ => ?_
  split_ifs
  · -- the end event closes the loop
    exact Parses.next_bind fun _ tail' h =>
      Parses.pure (length_lt_of_suffix_tail h (List.suffix_refl tail'))
  · -- one more block, which takes an event, and the loop again
    refine Parses.bind (hb.block es (depth + 1) (by omega)) fun _ mid _ hmid => ?_
    refine (hb.blocksUntil mid depth close _ (by omega)).mono fun _ rest hrest _ => ?_
    have := hrest.length_le
    omega

theorem Bounds.listItems_succ (hb : Bounds source fuel) (es : List RangedEvent) (depth : ℕ)
    (hfuel : 2 * es.length + 4 ≤ fuel + 1) :
    Parses (parseListItems source (fuel + 1) depth) es fun _ _ => True := by
  rw [parseListItems]
  split_ifs
  · exact Parses.fail_bind
  · exact hb.itemsLoop es depth [] (by omega)

theorem Bounds.itemsLoop_succ (hb : Bounds source fuel) (es : List RangedEvent) (depth : ℕ)
    (items : List (List RangedBlockElement)) (hfuel : 2 * es.length + 3 ≤ fuel + 1) :
    Parses (parseItemsLoop source (fuel + 1) depth items) es fun _ _ => True := by
  rw [parseItemsLoop]
  dsimp only
  refine Parses.peek_bind fun _ _ _ => ?_
  split
  · -- an item: its blocks up to its end, and the loop again
    refine Parses.next_bind fun _ tail' h => ?_
    have htail := fuel_of_tail h hfuel
    refine Parses.bind (hb.blocksUntil tail' depth _ [] htail) fun _ mid _ hmid => ?_
    exact hb.itemsLoop mid depth _ (by omega)
  · exact Parses.pure trivial
  · exact Parses.fail

theorem Bounds.tableCells_succ (hb : Bounds source fuel) (es : List RangedEvent) (depth : ℕ)
    (hfuel : 2 * es.length + 4 ≤ fuel + 1) :
    Parses (parseTableCells source (fuel + 1) depth) es fun _ _ => True := by
  rw [parseTableCells]
  split_ifs
  · exact Parses.fail_bind
  · exact hb.cellsLoop es depth [] (by omega)

theorem Bounds.cellsLoop_succ (hb : Bounds source fuel) (es : List RangedEvent) (depth : ℕ)
    (cells : List (List RangedBlockElement)) (hfuel : 2 * es.length + 3 ≤ fuel + 1) :
    Parses (parseCellsLoop source (fuel + 1) depth cells) es fun _ _ => True := by
  rw [parseCellsLoop]
  dsimp only
  refine Parses.peek_bind fun _ _ _ => ?_
  split
  · -- a cell: its blocks up to its end, and the loop again
    refine Parses.next_bind fun _ tail' h => ?_
    have htail := fuel_of_tail h hfuel
    refine Parses.bind (hb.blocksUntil tail' depth _ [] htail) fun _ mid _ hmid => ?_
    exact hb.cellsLoop mid depth _ (by omega)
  · exact Parses.pure trivial
  · exact Parses.pure trivial
  · exact Parses.fail

theorem Bounds.rowsLoop_succ (hb : Bounds source fuel) (es : List RangedEvent) (depth : ℕ)
    (rows : List (List (List RangedBlockElement))) (hfuel : 2 * es.length + 3 ≤ fuel + 1) :
    Parses (parseRowsLoop source (fuel + 1) depth rows) es fun _ _ => True := by
  rw [parseRowsLoop]
  dsimp only
  refine Parses.peek_bind fun _ _ _ => ?_
  split
  · -- a row: its cells, the end of the row, and the loop again
    refine Parses.next_bind fun _ tail' h => ?_
    have htail := fuel_of_tail h hfuel
    refine Parses.bind (hb.tableCells tail' (depth + 1) htail) fun _ mid hmid _ => ?_
    refine Parses.nextOpt_bind (fun hnil => hnil ▸ Parses.check_none) fun _ tail'' h'' => ?_
    split_ifs
    · exact Parses.fail_bind
    · have hlen := hmid.length_le
      rw [h'', List.length_cons] at hlen
      exact hb.rowsLoop tail'' depth _ (by omega)
  · exact Parses.pure trivial
  · exact Parses.fail

theorem Bounds.tableContent_succ (hb : Bounds source fuel) (es : List RangedEvent) (depth : ℕ)
    (hfuel : 2 * es.length + 3 ≤ fuel + 1) :
    Parses (parseTableContent source (fuel + 1) depth) es fun _ _ => True := by
  rw [parseTableContent]
  dsimp only
  split_ifs
  · exact Parses.fail_bind
  refine Parses.nextOpt_bind (fun hnil => hnil ▸ Parses.check_none) fun _ tail h => ?_
  split_ifs
  · exact Parses.fail_bind
  have htail := fuel_of_tail h hfuel
  refine Parses.bind (hb.tableCells tail (depth + 1) (by omega)) fun _ mid hmid _ => ?_
  refine Parses.nextOpt_bind (fun hnil => hnil ▸ Parses.check_none) fun _ tail' h' => ?_
  split_ifs
  · exact Parses.fail_bind
  have hlen := hmid.length_le
  rw [h', List.length_cons] at hlen
  exact Parses.bind (hb.rowsLoop tail' depth [] (by omega)) fun _ _ _ _ => Parses.pure trivial

theorem Bounds.succ (hb : Bounds source fuel) : Bounds source (fuel + 1) where
  block := hb.block_succ
  blocksUntil := hb.blocksUntil_succ
  inline := hb.inline_succ
  inlineLoop := hb.inlineLoop_succ
  listItems := hb.listItems_succ
  itemsLoop := hb.itemsLoop_succ
  tableContent := hb.tableContent_succ
  rowsLoop := hb.rowsLoop_succ
  tableCells := hb.tableCells_succ
  cellsLoop := hb.cellsLoop_succ

/-- Every fuel meets the ten specifications. -/
theorem bounds (source : String) : ∀ fuel, Bounds source fuel
  | 0 => Bounds.zero source
  | fuel + 1 => (bounds source fuel).succ

end Blocks

/-! ## The whole message -/

/-- The loop of `try_parse_markdown` runs until it has taken every event. -/
theorem parseBlocks_parses (source : String) : ∀ fuel (es : List RangedEvent)
    (result : List RangedBlockElement), 2 * es.length + 4 ≤ fuel →
      Parses (parseBlocks source fuel result) es fun _ rest => rest = []
  | 0, _, _, h => by omega
  | fuel + 1, es, result, h => by
    rw [parseBlocks]
    refine Parses.get_bind ?_
    split_ifs with hempty
    · exact Parses.pure (List.isEmpty_iff.mp hempty)
    · -- a block takes at least one event
      refine Parses.bind ((bounds source fuel).block es 1 (by omega)) fun _ mid _ hmid => ?_
      exact parseBlocks_parses source fuel mid _ (by omega)

theorem TextsNonempty.rangedEvents {parsed : List (Event × ℕ × ℕ)}
    (h : ∀ p ∈ parsed, ∀ s, p.1 = .text s → s ≠ "") : TextsNonempty (rangedEvents parsed) := by
  intro e he s hs
  obtain ⟨p, hp, rfl⟩ := List.mem_map.mp he
  exact h p hp s hs

section Entry

variable (pulldown : String → List (Event × ℕ × ℕ)) (fuel : ℕ) (string : String)

/-- With fuel enough and no empty `Text` event, `try_parse_markdown` returns a message or one
of its `Error`s: it neither panics nor runs out of fuel. -/
theorem tryParseMarkdown_ok_or_error (hfuel : 2 * (pulldown string).length + 4 ≤ fuel)
    (htexts : ∀ p ∈ pulldown string, ∀ s, p.1 = .text s → s ≠ "") :
    (∃ c, tryParseMarkdown pulldown fuel string = .ok c) ∨
      ∃ e, tryParseMarkdown pulldown fuel string = .error (.error e) := by
  have h := parseBlocks_parses string fuel (rangedEvents (pulldown string)) []
    (by simpa [rangedEvents] using hfuel)
  unfold tryParseMarkdown
  cases hrun : parseBlocks string fuel [] (rangedEvents (pulldown string)) with
  | ok r => exact .inl ⟨⟨r.1⟩, rfl⟩
  | error e =>
    refine .inr ?_
    cases e with
    | error e => exact ⟨e, rfl⟩
    | panic => exact absurd hrun (h.ne_panic (TextsNonempty.rangedEvents htexts))
    | outOfFuel => exact absurd hrun h.ne_outOfFuel

/-- With fuel enough and no empty `Text` event, `parse_markdown` returns a message: an `Error`
becomes an error block, and nothing panics. -/
theorem parseMarkdown_ok (hfuel : 2 * (pulldown string).length + 4 ≤ fuel)
    (htexts : ∀ p ∈ pulldown string, ∀ s, p.1 = .text s → s ≠ "") :
    ∃ c, parseMarkdown pulldown fuel string = .ok c := by
  unfold parseMarkdown
  rcases tryParseMarkdown_ok_or_error pulldown fuel string hfuel htexts with ⟨c, hc⟩ | ⟨e, he⟩
  · rw [hc]
    exact ⟨c, rfl⟩
  · rw [he]
    exact ⟨_, rfl⟩

end Entry

theorem parseMarkdown_ok_paragraph :
    ∃ c, parseMarkdown (fun _ => [(.start .paragraph, 0, 2), (.text "hi", 0, 2),
      (.endTag .paragraph, 0, 2)]) 10 "hi" = .ok c :=
  parseMarkdown_ok _ 10 "hi" (by decide) (by
    intro p hp s hs
    simp only [List.mem_cons, List.not_mem_nil, or_false] at hp
    rcases hp with rfl | rfl | rfl <;> simp only [Event.text.injEq, reduceCtorEq] at hs
    exact hs ▸ by decide)

end Markdown
end Air
