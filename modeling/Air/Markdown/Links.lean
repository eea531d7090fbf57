import Air.Markdown.Elements

/-! # `collect_links` cuts its text into pieces

`collect_links` appends the text between the matches of `URL_RE` and the matches themselves, as
links, with the text after the last match at the end. The pieces partition the text: their texts
put together are the text, their ranges follow each other from `start` to `end`, two texts are
never next to each other, and each link has one child, the text of its URL over the link's own
range.

Each property is proved of the loop over the matches, `pushMatches`, by induction on the
matches, and carried to `collectLinks` over the trailing text. The texts need the matches in
order and on character boundaries, the ranges need them in order and `start + |str|` to fit in a
`u32`; the pieces and their neighbours are what they are for any matches.
-/

namespace Air
namespace Markdown

/-! ## Pieces -/

/-- The text an element shows: a `Text`'s payload, a `Link`'s `dest_url`. -/
def InlineElement.shownText : InlineElement → String
  | .text s => s
  | .link destUrl _ => destUrl
  | _ => ""

def InlineElement.isText : InlineElement → Bool
  | .text _ => true
  | _ => false

/-- A piece `collect_links` appends: a text, or a link whose one child is the text of its URL
over the link's own range. -/
def IsPiece (e : RangedInlineElement) : Prop :=
  (∃ s, e.element = .text s) ∨
    ∃ destUrl, e.element = .link destUrl [⟨e.start, e.stop, .text destUrl⟩]

def NotBothText (e e' : RangedInlineElement) : Prop :=
  ¬(e.element.isText ∧ e'.element.isText)

theorem isPiece_text (a b : ℕ) (s : String) : IsPiece ⟨a, b, .text s⟩ :=
  .inl ⟨s, rfl⟩

theorem NotBothText.of_left {e e' : RangedInlineElement} (h : e.element.isText = false) :
    NotBothText e e' := fun h' => by simp [h] at h'

theorem NotBothText.of_right {e e' : RangedInlineElement} (h : e'.element.isText = false) :
    NotBothText e e' := fun h' => by simp [h] at h'

theorem isChain_ite_singleton {p : Prop} [Decidable p] (e : RangedInlineElement) :
    (if p then [e] else []).IsChain NotBothText := by
  split
  · exact List.isChain_singleton e
  · exact List.isChain_nil

/-- The ranges of `els` follow each other from `a` to `b` without gap or overlap, none empty. -/
def Tiles : List RangedInlineElement → ℕ → ℕ → Prop
  | [], a, b => a = b
  | e :: els, a, b => e.start = a ∧ e.start < e.stop ∧ Tiles els e.stop b

theorem Tiles.append : ∀ {l l' : List RangedInlineElement} {a b c : ℕ},
    Tiles l a b → Tiles l' b c → Tiles (l ++ l') a c
  | [], _, _, _, _, rfl, h' => h'
  | _ :: _, _, _, _, _, ⟨ha, hlt, h⟩, h' => ⟨ha, hlt, Tiles.append h h'⟩

theorem Tiles.singleton {e : RangedInlineElement} {a b : ℕ} (ha : e.start = a) (hab : a < b)
    (hb : e.stop = b) : Tiles [e] a b :=
  ⟨ha, by rw [ha, hb]; exact hab, hb⟩

/-- `els` is `str`, placed at byte `start`, cut into pieces. -/
structure Partition (start : ℕ) (str : String) (els : List RangedInlineElement) : Prop where
  texts : String.join (els.map fun e => e.element.shownText) = str
  tiles : Tiles els start (start + str.utf8ByteSize)
  noAdjacentTexts : els.IsChain NotBothText
  pieces : ∀ e ∈ els, IsPiece e

/-! ## The loop over the matches -/

section Loop

variable (start : ℕ) (str : String)

theorem pushMatches_pieces (ms : List (ℕ × ℕ)) (lastEnd : ℕ) :
    ∀ e ∈ (pushMatches start str ms lastEnd).1, IsPiece e := by
  fun_induction pushMatches start str ms lastEnd with
  | case1 => simp
  | case2 mStart mEnd ms lastEnd gap text link rest ih =>
    intro e he
    rcases List.mem_append.mp he with hgap | he
    · -- the gap before the match is a text
      obtain ⟨-, hgap⟩ := List.mem_ite_nil_right.mp hgap
      rw [List.mem_singleton.mp hgap]
      exact isPiece_text _ _ _
    · rcases List.mem_cons.mp he with rfl | hrest
      · exact .inr ⟨text, rfl⟩
      · exact ih e hrest

theorem pushMatches_getLast?_isText (ms : List (ℕ × ℕ)) (lastEnd : ℕ) :
    ∀ e ∈ (pushMatches start str ms lastEnd).1.getLast?, e.element.isText = false := by
  fun_induction pushMatches start str ms lastEnd with
  | case1 => simp
  | case2 mStart mEnd ms lastEnd gap text link rest ih =>
    intro e he
    rw [List.getLast?_append, List.getLast?_cons, Option.some_or, Option.mem_def,
      Option.some.injEq] at he
    cases hlast : rest.1.getLast? with
    | none =>
      rw [← he, hlast]
      rfl
    | some e' =>
      rw [← he, hlast]
      exact ih e' hlast

theorem pushMatches_isChain (ms : List (ℕ × ℕ)) (lastEnd : ℕ) :
    (pushMatches start str ms lastEnd).1.IsChain NotBothText := by
  fun_induction pushMatches start str ms lastEnd with
  | case1 => exact List.isChain_nil
  | case2 mStart mEnd ms lastEnd gap text link rest ih =>
    have hlink : link.element.isText = false := rfl
    refine (isChain_ite_singleton _).append (ih.cons fun _ _ => NotBothText.of_left hlink) ?_
    intro _ _ _ hy
    rw [List.head?_cons, Option.mem_def, Option.some.injEq] at hy
    exact NotBothText.of_right (hy ▸ hlink)

theorem pushMatches_snd_mem {hi : ℕ} (ms : List (ℕ × ℕ)) (lastEnd : ℕ)
    (h : Ordered ms lastEnd hi) :
    lastEnd ≤ (pushMatches start str ms lastEnd).2 ∧ (pushMatches start str ms lastEnd).2 ≤ hi := by
  fun_induction pushMatches start str ms lastEnd with
  | case1 => exact ⟨Nat.le_refl _, h⟩
  | case2 mStart mEnd ms lastEnd gap text link rest ih =>
    obtain ⟨hlo, hlt, hrest⟩ : lastEnd ≤ mStart ∧ mStart < mEnd ∧ Ordered ms mEnd hi := h
    have hrest' : mEnd ≤ rest.2 ∧ rest.2 ≤ hi := ih hrest
    show lastEnd ≤ rest.2 ∧ rest.2 ≤ hi
    exact ⟨by omega, hrest'.2⟩

theorem pushMatches_snd_boundary (ms : List (ℕ × ℕ)) (lastEnd : ℕ)
    (hms : ∀ m ∈ ms, IsBoundary str.toList m.2) (hlast : IsBoundary str.toList lastEnd) :
    IsBoundary str.toList (pushMatches start str ms lastEnd).2 := by
  fun_induction pushMatches start str ms lastEnd with
  | case1 => exact hlast
  | case2 mStart mEnd ms lastEnd gap text link rest ih =>
    exact ih (fun m hm => hms m (List.mem_cons_of_mem _ hm)) (hms _ List.mem_cons_self)

theorem addU32_of_lt {x : ℕ} (h : start + x < 2 ^ 32) : addU32 start x = start + x := by
  unfold addU32
  rw [Nat.mod_eq_of_lt (by omega : x < 2 ^ 32), Nat.mod_eq_of_lt h]

/-- The loop's pieces cover the bytes from `lastEnd` to where it ends, placed at `start`, when
the matches are in order and end by `hi` with `start + hi` a `u32`. -/
theorem pushMatches_tiles {hi : ℕ} (hhi : start + hi < 2 ^ 32) (ms : List (ℕ × ℕ))
    (lastEnd : ℕ) (h : Ordered ms lastEnd hi) :
    Tiles (pushMatches start str ms lastEnd).1 (start + lastEnd)
      (start + (pushMatches start str ms lastEnd).2) := by
  fun_induction pushMatches start str ms lastEnd with
  | case1 => rfl
  | case2 mStart mEnd ms lastEnd gap text link rest ih =>
    obtain ⟨hlo, hlt, hrest⟩ : lastEnd ≤ mStart ∧ mStart < mEnd ∧ Ordered ms mEnd hi := h
    have hend : mEnd ≤ hi := hrest.le
    have hlast : addU32 start lastEnd = start + lastEnd := addU32_of_lt start (by omega)
    have hstart : addU32 start mStart = start + mStart := addU32_of_lt start (by omega)
    have hstop : addU32 start mEnd = start + mEnd := addU32_of_lt start (by omega)
    have hgap : Tiles gap (start + lastEnd) (start + mStart) := by
      simp only [gap]
      split
      · exact Tiles.singleton hlast (by omega) hstart
      · show start + lastEnd = start + mStart
        omega
    have hlink : Tiles (link :: rest.1) (start + mStart) (start + rest.2) := by
      refine ⟨hstart, ?_, ?_⟩
      · show addU32 start mStart < addU32 start mEnd
        rw [hstart, hstop]
        omega
      · show Tiles rest.1 (addU32 start mEnd) (start + rest.2)
        rw [hstop]
        exact ih hrest
    exact hgap.append hlink

/-- The loop's texts put together are the text from `lastEnd` to where it ends, when the
matches are in order and on character boundaries. -/
theorem pushMatches_texts {hi : ℕ} (ms : List (ℕ × ℕ)) (lastEnd : ℕ)
    (hms : ∀ m ∈ ms, IsBoundary str.toList m.1 ∧ IsBoundary str.toList m.2)
    (hlast : IsBoundary str.toList lastEnd) (h : Ordered ms lastEnd hi) :
    String.join ((pushMatches start str ms lastEnd).1.map fun e => e.element.shownText) =
      slice str lastEnd (pushMatches start str ms lastEnd).2 := by
  fun_induction pushMatches start str ms lastEnd with
  | case1 => simp [slice_self hlast]
  | case2 mStart mEnd ms lastEnd gap text link rest ih =>
    obtain ⟨hlo, hlt, hrest⟩ : lastEnd ≤ mStart ∧ mStart < mEnd ∧ Ordered ms mEnd hi := h
    obtain ⟨hbStart, hbEnd⟩ : IsBoundary str.toList mStart ∧ IsBoundary str.toList mEnd :=
      hms _ List.mem_cons_self
    have hms' : ∀ m ∈ ms, IsBoundary str.toList m.1 ∧ IsBoundary str.toList m.2 :=
      fun m hm => hms m (List.mem_cons_of_mem _ hm)
    have hbRest : IsBoundary str.toList rest.2 :=
      pushMatches_snd_boundary start str ms mEnd (fun m hm => (hms' m hm).2) hbEnd
    have hleRest : mEnd ≤ rest.2 := (pushMatches_snd_mem start str ms mEnd hrest).1
    have hgap : String.join (gap.map fun e => e.element.shownText) = slice str lastEnd mStart := by
      simp only [gap]
      split
      · rw [List.map_singleton, String.join_cons, String.join_nil, String.append_empty]
        rfl
      · rw [List.map_nil, String.join_nil, show mStart = lastEnd by omega, slice_self hlast]
    rw [List.map_append, String.join_append, hgap, List.map_cons, String.join_cons, ih hms' hbEnd
      hrest]
    show slice str lastEnd mStart ++ (text ++ slice str mEnd rest.2) = slice str lastEnd rest.2
    rw [← String.append_assoc, slice_append_slice hlast hbStart hbEnd hlo hlt.le,
      slice_append_slice hlast hbEnd hbRest (by omega) hleRest]

end Loop

/-! ## `collect_links` -/

section CollectLinks

variable (start : ℕ) (str : String)

theorem collectLinks_pieces (stop : ℕ) : ∀ e ∈ collectLinks start stop str, IsPiece e := by
  intro e he
  rcases List.mem_append.mp he with he | he
  · exact pushMatches_pieces start str _ 0 e he
  · obtain ⟨-, he⟩ := List.mem_ite_nil_right.mp he
    rw [List.mem_singleton.mp he]
    exact isPiece_text _ _ _

theorem collectLinks_isChain (stop : ℕ) : (collectLinks start stop str).IsChain NotBothText := by
  refine (pushMatches_isChain start str _ 0).append (isChain_ite_singleton _) ?_
  intro x hx _ _
  exact NotBothText.of_left (pushMatches_getLast?_isText start str _ 0 x hx)

theorem collectLinks_texts (stop : ℕ) :
    String.join ((collectLinks start stop str).map fun e => e.element.shownText) = str := by
  have hord := findIter_ordered str
  have hb := findIter_boundary str
  have hend := pushMatches_snd_mem start str _ 0 hord
  have hbEnd := pushMatches_snd_boundary start str _ 0 (fun m hm => (hb m hm).2)
    (isBoundary_zero _)
  have hbLen : IsBoundary str.toList str.utf8ByteSize := by
    simpa using isBoundary_byteLen str.toList
  unfold collectLinks
  rw [List.map_append, String.join_append,
    pushMatches_texts start str _ 0 hb (isBoundary_zero _) hord]
  split
  · rw [List.map_singleton, String.join_cons, String.join_nil, String.append_empty]
    show slice str 0 _ ++ slice str _ str.utf8ByteSize = str
    rw [slice_append_slice (isBoundary_zero _) hbEnd hbLen hend.1 hend.2,
      slice_zero_utf8ByteSize]
  · rw [List.map_nil, String.join_nil, String.append_empty,
      show (pushMatches start str (findIter str) 0).2 = str.utf8ByteSize by omega,
      slice_zero_utf8ByteSize]

theorem collectLinks_tiles (h : start + str.utf8ByteSize < 2 ^ 32) :
    Tiles (collectLinks start (start + str.utf8ByteSize) str) start
      (start + str.utf8ByteSize) := by
  have hord := findIter_ordered str
  have hend := pushMatches_snd_mem start str _ 0 hord
  have hpushed := pushMatches_tiles start str h _ 0 hord
  rw [Nat.add_zero] at hpushed
  refine hpushed.append ?_
  split
  · next hlt =>
    have hat : addU32 start (pushMatches start str (findIter str) 0).2 =
        start + (pushMatches start str (findIter str) 0).2 := addU32_of_lt start (by omega)
    exact Tiles.singleton hat (by omega) rfl
  · show _ = _
    omega

theorem collectLinks_partition (h : start + str.utf8ByteSize < 2 ^ 32) :
    Partition start str (collectLinks start (start + str.utf8ByteSize) str) :=
  ⟨collectLinks_texts start str _, collectLinks_tiles start str h,
    collectLinks_isChain start str _, collectLinks_pieces start str _⟩

theorem collectLinks_partition_link :
    3 + "go https://a.b, x".utf8ByteSize < 2 ^ 32 ∧
      Partition 3 "go https://a.b, x"
        (collectLinks 3 (3 + "go https://a.b, x".utf8ByteSize) "go https://a.b, x") :=
  ⟨by decide, collectLinks_partition 3 "go https://a.b, x" (by decide)⟩

end CollectLinks

end Markdown
end Air
