import Mathlib
import Air.Markdown.Url

/-! # The elements of a parsed message

`MessageContent` is a list of blocks; blocks hold inline elements or other blocks; and each of
them carries the byte range of the source it was parsed from, which the Dart renderer slices the
raw UTF-8 bytes with. The ranges are `u32` in the source; they are `ℕ` here, every value of them
coming from a `u32` field or a wrapping `u32` sum.

`collect_links` is the one place where the code computes a range instead of copying one from an
event: it cuts merged text into the pieces between the matches of `URL_RE` and the matches
themselves, and places them at `start` plus their byte offset in the text.
-/

namespace Air
namespace Markdown

mutual

/-- `InlineElement`. `Spoiler` is built by no code path here but is part of the type. -/
inductive InlineElement where
  | text (s : String)
  | code (s : String)
  | link (destUrl : String) (children : List RangedInlineElement)
  | bold (children : List RangedInlineElement)
  | italic (children : List RangedInlineElement)
  | strikethrough (children : List RangedInlineElement)
  | spoiler (children : List RangedInlineElement)
  | image (url : String)
  | taskListMarker (checked : Bool)

structure RangedInlineElement where
  start : ℕ
  stop : ℕ
  element : InlineElement

end

structure RangedCodeBlock where
  start : ℕ
  stop : ℕ
  value : String

mutual

inductive BlockElement where
  | paragraph (children : List RangedInlineElement)
  | heading (children : List RangedInlineElement)
  | quote (children : List RangedBlockElement)
  | unorderedList (items : List (List RangedBlockElement))
  | orderedList (first : ℕ) (items : List (List RangedBlockElement))
  | table (head : List (List RangedBlockElement)) (rows : List (List (List RangedBlockElement)))
  | horizontalRule
  | codeBlock (lines : List RangedCodeBlock)
  | error (message : String)

structure RangedBlockElement where
  start : ℕ
  stop : ℕ
  element : BlockElement

end

structure MessageContent where
  elements : List RangedBlockElement

/-! ## `collect_links` -/

/-- `start + x as u32` in a release build: `x` cut to 32 bits and the sum wrapping. -/
def addU32 (start x : ℕ) : ℕ := (start + x % 2 ^ 32) % 2 ^ 32

/-- The loop of `collect_links` over the matches, from `last_end`: the elements it pushes, a gap
of text before each match that does not start at `last_end` and the link, and the final
`last_end`. -/
def pushMatches (start : ℕ) (str : String) : List (ℕ × ℕ) → ℕ → List RangedInlineElement × ℕ
  | [], lastEnd => ([], lastEnd)
  | (mStart, mEnd) :: ms, lastEnd =>
    let gap : List RangedInlineElement :=
      if mStart > lastEnd then
        [⟨addU32 start lastEnd, addU32 start mStart, .text (slice str lastEnd mStart)⟩]
      else []
    let text := slice str mStart mEnd
    let link : RangedInlineElement :=
      ⟨addU32 start mStart, addU32 start mEnd,
        .link text [⟨addU32 start mStart, addU32 start mEnd, .text text⟩]⟩
    let rest := pushMatches start str ms mEnd
    (gap ++ link :: rest.1, rest.2)

/-- `collect_links(start, end, str, elements)`: the elements it appends. The trailing text ends
at `end` itself, the others at `start` plus an offset in `str`. -/
def collectLinks (start stop : ℕ) (str : String) : List RangedInlineElement :=
  let pushed := pushMatches start str (findIter str) 0
  pushed.1 ++
    if pushed.2 < str.utf8ByteSize then
      [⟨addU32 start pushed.2, stop, .text (slice str pushed.2 str.utf8ByteSize)⟩]
    else []

end Markdown
end Air
