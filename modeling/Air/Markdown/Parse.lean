import Air.Markdown.Elements

/-! # The markdown parser

`try_parse_markdown` runs pulldown-cmark over the message and turns its flat stream of ranged
events into the element tree, with five mutually recursive functions that share one peekable
iterator: `parse_block_element`, `parse_inline_elements`, `parse_list_items`,
`parse_table_content` and `parse_table_cells`.

The iterator is the list of events not yet consumed, threaded as the state of `ParseM`, and the
functions fail as the source does, with an `Error`, or with a panic. pulldown-cmark itself is a
parameter: the model reads whatever events it yields. Each function and each of its loops takes
fuel, one unit per call and per iteration; running out of it is a third way to fail that the
source does not have.
-/

namespace Air
namespace Markdown

def maxDepth : ℕ := 50

/-! ## Events -/

inductive HeadingLevel where
  | h1 | h2 | h3 | h4 | h5 | h6
  deriving DecidableEq, Repr

/-- `pulldown_cmark::Tag`, with the payloads the parser reads: a heading's level, a list's first
number and the destination of a link or an image. -/
inductive Tag where
  | paragraph
  | heading (level : HeadingLevel)
  | blockQuote
  | codeBlock
  | htmlBlock
  | list (firstNumber : Option ℕ)
  | item
  | footnoteDefinition
  | definitionList
  | definitionListTitle
  | definitionListDefinition
  | table
  | tableHead
  | tableRow
  | tableCell
  | emphasis
  | strong
  | strikethrough
  | superscript
  | subscript
  | link (destUrl : String)
  | image (destUrl : String)
  | metadataBlock
  deriving DecidableEq, Repr

/-- `pulldown_cmark::TagEnd`. The block quote's kind is only matched with `..`, so it is left
out. -/
inductive TagEnd where
  | paragraph
  | heading (level : HeadingLevel)
  | blockQuote
  | codeBlock
  | htmlBlock
  | list (ordered : Bool)
  | item
  | footnoteDefinition
  | definitionList
  | definitionListTitle
  | definitionListDefinition
  | table
  | tableHead
  | tableRow
  | tableCell
  | emphasis
  | strong
  | strikethrough
  | superscript
  | subscript
  | link
  | image
  | metadataBlock
  deriving DecidableEq, Repr

inductive Event where
  | start (tag : Tag)
  | endTag (tag : TagEnd)
  | text (s : String)
  | code (s : String)
  | inlineMath (s : String)
  | displayMath (s : String)
  | html (s : String)
  | inlineHtml (s : String)
  | footnoteReference (label : String)
  | softBreak
  | hardBreak
  | rule
  | taskListMarker (checked : Bool)
  deriving DecidableEq, Repr

structure RangedEvent where
  start : ℕ
  stop : ℕ
  event : Event
  deriving DecidableEq, Repr

/-! ## Errors and the parser monad -/

inductive Error where
  | expectedMoreEvents
  | expectedSpecificTag
  | tableContentNotInTable
  | listItemNotInList
  | metadataBlocksNotSupported
  | footnotesNotSupported
  | definitionListsNotSupported
  | blockElementInline
  | htmlNotInBlock
  | mathNotSupported
  | depthLimitReached
  | invalidUtf8
  deriving DecidableEq, Repr

def Error.toText : Error → String
  | .expectedMoreEvents => "expected more events"
  | .expectedSpecificTag => "expected specific tag"
  | .tableContentNotInTable => "table content not in table"
  | .listItemNotInList => "list item not in list"
  | .metadataBlocksNotSupported => "metadata blocks not supported"
  | .footnotesNotSupported => "footnotes not supported"
  | .definitionListsNotSupported => "definition lists not supported"
  | .blockElementInline => "block element inline"
  | .htmlNotInBlock => "HTML not in block"
  | .mathNotSupported => "math not supported"
  | .depthLimitReached => "depth limit reached"
  | .invalidUtf8 => "invalid UTF-8"

/-- How a run stops without a result: an `Error` returned, a panic, or the model's fuel spent. -/
inductive Failure where
  | error (e : Error)
  | panic
  | outOfFuel
  deriving DecidableEq, Repr

abbrev ParseM := StateT (List RangedEvent) (Except Failure)

def fail {α : Type} (e : Error) : ParseM α := throw (.error e)

def peekEvent : ParseM RangedEvent := do
  match (← get) with
  | [] => fail .expectedMoreEvents
  | e :: _ => pure e

def nextEvent? : ParseM (Option RangedEvent) := do
  match (← get) with
  | [] => pure none
  | e :: es => set es; pure (some e)

def nextEvent : ParseM RangedEvent := do
  match (← nextEvent?) with
  | none => fail .expectedMoreEvents
  | some e => pure e

/-! ## Runs of events the parser reads in a loop of its own -/

/-- The inline `Text` branch's `while let`: the consecutive `Text` events after the first, their
text appended to `fullText`, and the end of the last one. -/
def mergeTexts : List RangedEvent → String → ℕ → String × ℕ × List RangedEvent
  | ⟨_, stop, .text s⟩ :: rest, fullText, _ => mergeTexts rest (fullText ++ s) stop
  | rest, fullText, stop => (fullText, stop, rest)

def trimNewline (s : String) : String :=
  if s.toList.getLast? = some '\n' then String.ofList s.toList.dropLast else s

def codeLines : List RangedEvent → List RangedCodeBlock × List RangedEvent
  | ⟨start, stop, .text s⟩ :: rest =>
    let lines := codeLines rest
    (⟨start, stop, trimNewline s⟩ :: lines.1, lines.2)
  | rest => ([], rest)

def htmlLines : List RangedEvent → List RangedInlineElement × List RangedEvent
  | ⟨start, stop, .html s⟩ :: rest | ⟨start, stop, .text s⟩ :: rest =>
    let lines := htmlLines rest
    (collectLinks start stop s ++ lines.1, lines.2)
  | rest => ([], rest)

def isAtx (source : String) (start stop : ℕ) : Bool :=
  match byteRange source.toList start stop with
  | some cs => (cs.dropWhile (inRanges whiteSpace)).head? == some '#'
  | none => false

/-- The shape every container branch shares: the start event, what `inner` parses inside, and
the end event, which must be `close`. -/
def container {α : Type} (inner : ParseM α) (close : Event) :
    ParseM (RangedEvent × α × RangedEvent) := do
  let start ← nextEvent
  let value ← inner
  let stop ← nextEvent
  if stop.event ≠ close then fail .expectedSpecificTag
  pure (start, value, stop)

/-! ## The parser -/

mutual

/-- `parse_block_element`. -/
def parseBlockElement (source : String) : ℕ → ℕ → ParseM RangedBlockElement
  | 0, _ => throw .outOfFuel
  | fuel + 1, depth => do
    if depth > maxDepth then fail .depthLimitReached
    let peek ← peekEvent
    match peek.event with
    | .start .paragraph =>
      let (start, inline, stop) ←
        container (parseInlineElements fuel (depth + 1)) (.endTag .paragraph)
      pure ⟨start.start, stop.stop, .paragraph inline⟩
    | .start (.heading level) =>
      let (start, inline, stop) ←
        container (parseInlineElements fuel (depth + 1)) (.endTag (.heading level))
      -- only headings written with `#` stay headings; a Setext heading becomes a paragraph
      let element :=
        if isAtx source start.start start.stop then BlockElement.heading inline else .paragraph inline
      pure ⟨start.start, stop.stop, element⟩
    | .start (.list number) =>
      let items := parseListItems source fuel (depth + 1)
      let (start, value, stop) ← container (match number with
        | some s => BlockElement.orderedList s <$> items
        | none => BlockElement.unorderedList <$> items) (.endTag (.list number.isSome))
      pure ⟨start.start, stop.stop, value⟩
    | .start .table =>
      let (start, value, stop) ←
        container (parseTableContent source fuel (depth + 1)) (.endTag .table)
      pure ⟨start.start, stop.stop, value⟩
    | .start .blockQuote =>
      let start ← nextEvent
      let (quoteBlocks, stop) ← parseBlocksUntil source fuel depth (.endTag .blockQuote) []
      pure ⟨start.start, stop.stop, .quote quoteBlocks⟩
    | .start .codeBlock =>
      let start ← nextEvent
      let value ← modifyGet codeLines
      let stop ← nextEvent
      if stop.event ≠ .endTag .codeBlock then fail .expectedSpecificTag
      pure ⟨start.start, stop.stop, .codeBlock value⟩
    | .rule =>
      let item ← nextEvent
      pure ⟨item.start, item.stop, .horizontalRule⟩
    | .start .emphasis | .start .strong | .start .strikethrough | .start (.link _)
    | .start (.image _) | .text _ | .inlineHtml _ | .code _ | .taskListMarker _ | .softBreak
    | .hardBreak =>
      -- the implicit paragraph: `inner[0]` and `inner[inner.len() - 1]` panic on no elements
      let inner ← parseInlineElements fuel (depth + 1)
      match inner.head?, inner.getLast? with
      | some first, some last => pure ⟨first.start, last.stop, .paragraph inner⟩
      | _, _ => throw .panic
    | .inlineMath _ | .displayMath _ => fail .mathNotSupported
    | .start .htmlBlock =>
      let start ← nextEvent
      let value ← modifyGet htmlLines
      let stop ← nextEvent
      if stop.event ≠ .endTag .htmlBlock then fail .expectedSpecificTag
      pure ⟨start.start, stop.stop, .paragraph value⟩
    | .html _ => fail .htmlNotInBlock
    | .start .item => fail .listItemNotInList
    | .start .footnoteDefinition | .footnoteReference _ => fail .footnotesNotSupported
    | .start .superscript | .start .subscript => fail .mathNotSupported
    | .start .definitionList | .start .definitionListTitle | .start .definitionListDefinition =>
      fail .definitionListsNotSupported
    | .start .tableHead | .start .tableRow | .start .tableCell => fail .tableContentNotInTable
    | .start .metadataBlock => fail .metadataBlocksNotSupported
    | .endTag _ => fail .expectedSpecificTag
termination_by structural fuel _ => fuel

/-- The loops of block quotes, list items and table cells: blocks at `depth + 1` until the event
`close`, which is consumed and returned. -/
def parseBlocksUntil (source : String) :
    ℕ → ℕ → Event → List RangedBlockElement → ParseM (List RangedBlockElement × RangedEvent)
  | 0, _, _, _ => throw .outOfFuel
  | fuel + 1, depth, close, blocks => do
    let peek ← peekEvent
    if peek.event = close then
      let stop ← nextEvent
      pure (blocks, stop)
    else
      let block ← parseBlockElement source fuel (depth + 1)
      parseBlocksUntil source fuel depth close (blocks ++ [block])
termination_by structural fuel _ _ _ => fuel

def parseInlineElements : ℕ → ℕ → ParseM (List RangedInlineElement)
  | 0, _ => throw .outOfFuel
  | fuel + 1, depth => do
    if depth > maxDepth then fail .depthLimitReached
    parseInlineLoop fuel depth []
termination_by structural fuel _ => fuel

def parseInlineLoop : ℕ → ℕ → List RangedInlineElement → ParseM (List RangedInlineElement)
  | 0, _, _ => throw .outOfFuel
  | fuel + 1, depth, result => do
    let peek ← peekEvent
    match peek.event with
    | .start .emphasis =>
      let (start, inline, stop) ←
        container (parseInlineElements fuel (depth + 1)) (.endTag .emphasis)
      parseInlineLoop fuel depth (result ++ [⟨start.start, stop.stop, .italic inline⟩])
    | .start .strong =>
      let (start, inline, stop) ←
        container (parseInlineElements fuel (depth + 1)) (.endTag .strong)
      parseInlineLoop fuel depth (result ++ [⟨start.start, stop.stop, .bold inline⟩])
    | .start .strikethrough =>
      let (start, inline, stop) ←
        container (parseInlineElements fuel (depth + 1)) (.endTag .strikethrough)
      parseInlineLoop fuel depth (result ++ [⟨start.start, stop.stop, .strikethrough inline⟩])
    | .start (.link destUrl) =>
      let (start, inline, stop) ←
        container (parseInlineElements fuel (depth + 1)) (.endTag .link)
      parseInlineLoop fuel depth (result ++ [⟨start.start, stop.stop, .link destUrl inline⟩])
    | .start (.image destUrl) =>
      let (start, _, stop) ← container (parseInlineElements fuel (depth + 1)) (.endTag .image)
      parseInlineLoop fuel depth (result ++ [⟨start.start, stop.stop, .image destUrl⟩])
    | .text str =>
      let textEvent ← nextEvent
      let (fullText, stop) ← modifyGet fun events =>
        let merged := mergeTexts events str textEvent.stop
        ((merged.1, merged.2.1), merged.2.2)
      parseInlineLoop fuel depth (result ++ collectLinks textEvent.start stop fullText)
    | .code str =>
      let value ← nextEvent
      parseInlineLoop fuel depth (result ++ [⟨value.start, value.stop, .code str⟩])
    | .softBreak | .hardBreak =>
      let value ← nextEvent
      parseInlineLoop fuel depth (result ++ [⟨value.start, value.stop, .text "\n"⟩])
    | .taskListMarker checked =>
      let value ← nextEvent
      parseInlineLoop fuel depth (result ++ [⟨value.start, value.stop, .taskListMarker checked⟩])
    | .endTag _ => pure result
    | .inlineHtml str =>
      let value ← nextEvent
      parseInlineLoop fuel depth (result ++ [⟨value.start, value.stop, .text str⟩])
    | .start .paragraph | .start (.heading _) | .start .blockQuote | .start .codeBlock
    | .start (.list _) | .start .table | .start .htmlBlock | .rule | .html _ => pure result
    | .start .tableHead | .start .tableRow | .start .tableCell => fail .tableContentNotInTable
    | .start .metadataBlock => fail .metadataBlocksNotSupported
    | .start .item => fail .listItemNotInList
    | .start .footnoteDefinition | .footnoteReference _ => fail .footnotesNotSupported
    | .start .superscript | .start .subscript => fail .mathNotSupported
    | .start .definitionList | .start .definitionListTitle | .start .definitionListDefinition =>
      fail .definitionListsNotSupported
    | .inlineMath _ | .displayMath _ => fail .mathNotSupported
termination_by structural fuel _ _ => fuel

def parseListItems (source : String) : ℕ → ℕ → ParseM (List (List RangedBlockElement))
  | 0, _ => throw .outOfFuel
  | fuel + 1, depth => do
    if depth > maxDepth then fail .depthLimitReached
    parseItemsLoop source fuel depth []
termination_by structural fuel _ => fuel

def parseItemsLoop (source : String) :
    ℕ → ℕ → List (List RangedBlockElement) → ParseM (List (List RangedBlockElement))
  | 0, _, _ => throw .outOfFuel
  | fuel + 1, depth, items => do
    let peek ← peekEvent
    match peek.event with
    | .start .item =>
      let _ ← nextEvent
      let (itemBlocks, _) ← parseBlocksUntil source fuel depth (.endTag .item) []
      parseItemsLoop source fuel depth (items ++ [itemBlocks])
    | .endTag _ => pure items
    | _ => fail .expectedSpecificTag
termination_by structural fuel _ _ => fuel

/-- `parse_table_content`. Its head and row checks take the next event with `iter.next()`,
whatever it is. -/
def parseTableContent (source : String) : ℕ → ℕ → ParseM BlockElement
  | 0, _ => throw .outOfFuel
  | fuel + 1, depth => do
    if depth > maxDepth then fail .depthLimitReached
    let first ← nextEvent?
    if first.map (·.event) ≠ some (.start .tableHead) then fail .expectedSpecificTag
    let tableHead ← parseTableCells source fuel (depth + 1)
    let headEnd ← nextEvent?
    if headEnd.map (·.event) ≠ some (.endTag .tableHead) then fail .expectedSpecificTag
    let tableRows ← parseRowsLoop source fuel depth []
    pure (.table tableHead tableRows)
termination_by structural fuel _ => fuel

def parseRowsLoop (source : String) : ℕ → ℕ → List (List (List RangedBlockElement)) →
    ParseM (List (List (List RangedBlockElement)))
  | 0, _, _ => throw .outOfFuel
  | fuel + 1, depth, tableRows => do
    let peek ← peekEvent
    match peek.event with
    | .start .tableRow =>
      let _ ← nextEvent
      let cells ← parseTableCells source fuel (depth + 1)
      let rowEnd ← nextEvent?
      if rowEnd.map (·.event) ≠ some (.endTag .tableRow) then fail .expectedSpecificTag
      parseRowsLoop source fuel depth (tableRows ++ [cells])
    | .endTag .table => pure tableRows
    | _ => fail .expectedSpecificTag
termination_by structural fuel _ _ => fuel

def parseTableCells (source : String) : ℕ → ℕ → ParseM (List (List RangedBlockElement))
  | 0, _ => throw .outOfFuel
  | fuel + 1, depth => do
    if depth > maxDepth then fail .depthLimitReached
    parseCellsLoop source fuel depth []
termination_by structural fuel _ => fuel

def parseCellsLoop (source : String) :
    ℕ → ℕ → List (List RangedBlockElement) → ParseM (List (List RangedBlockElement))
  | 0, _, _ => throw .outOfFuel
  | fuel + 1, depth, cells => do
    let peek ← peekEvent
    match peek.event with
    | .start .tableCell =>
      let _ ← nextEvent
      let (cellBlocks, _) ← parseBlocksUntil source fuel depth (.endTag .tableCell) []
      parseCellsLoop source fuel depth (cells ++ [cellBlocks])
    | .endTag .tableHead | .endTag .tableRow => pure cells
    | _ => fail .expectedSpecificTag
termination_by structural fuel _ _ => fuel

end

def parseBlocks (source : String) : ℕ → List RangedBlockElement → ParseM (List RangedBlockElement)
  | 0, _ => throw .outOfFuel
  | fuel + 1, result => do
    if (← get).isEmpty then pure result
    else
      let block ← parseBlockElement source fuel 1
      parseBlocks source fuel (result ++ [block])

/-! ## Entry points -/

def saturateU32 (n : ℕ) : ℕ := min n (2 ^ 32 - 1)

def rangedEvents (parsed : List (Event × ℕ × ℕ)) : List RangedEvent :=
  parsed.map fun p => ⟨saturateU32 p.2.1, saturateU32 p.2.2, p.1⟩

/-- `MessageContent::try_parse_markdown`, over `pulldown`, the offset iterator of
`Parser::new_ext` with strikethrough, tables and task lists on. -/
def tryParseMarkdown (pulldown : String → List (Event × ℕ × ℕ)) (fuel : ℕ) (string : String) :
    Except Failure MessageContent :=
  (fun r => ⟨r.1⟩) <$> parseBlocks string fuel [] (rangedEvents (pulldown string))

def MessageContent.error (message : String) : MessageContent :=
  ⟨[⟨0, saturateU32 message.length, .error message⟩]⟩

/-- `MessageContent::parse_markdown`: an `Error` becomes an error block; a panic is not caught. -/
def parseMarkdown (pulldown : String → List (Event × ℕ × ℕ)) (fuel : ℕ) (string : String) :
    Except Failure MessageContent :=
  match tryParseMarkdown pulldown fuel string with
  | .error (.error e) => .ok (MessageContent.error ("Invalid message: " ++ e.toText))
  | r => r

/-! ## Two event streams the parser mishandles -/

/-- A `Text` event with no text, closed at once: the inline run yields no element, and the
implicit paragraph indexes the empty list. `parse_markdown` does not catch the panic. -/
theorem emptyText_implicitParagraph_panics (source : String) (a b c d : ℕ) (t : TagEnd)
    (rest : List (Event × ℕ × ℕ)) (fuel : ℕ) :
    tryParseMarkdown (fun _ => (.text "", a, b) :: (.endTag t, c, d) :: rest) (fuel + 5) source =
        .error .panic ∧
      parseMarkdown (fun _ => (.text "", a, b) :: (.endTag t, c, d) :: rest) (fuel + 5) source =
        .error .panic :=
  ⟨rfl, rfl⟩

/-- A message that starts with the entity reference `&nGt;` and then a URL: 16 bytes. -/
def entityUrl : String := "&nGt;https://a.b"

/-- The events pulldown-cmark yields for `entityUrl`: the reference is decoded to its two code
points, U+226B U+20D2, six bytes of text in a `Text` event of its own over five bytes of source. -/
def entityUrlEvents : List (Event × ℕ × ℕ) :=
  [(.start .paragraph, 0, 16), (.text "\u226B\u20D2", 0, 5), (.text "https://a.b", 5, 16),
    (.endTag .paragraph, 0, 16)]

/-- The merged text is one byte longer than its source, and `collect_links` places the link by
offsets in the text: the link ends at byte 17 of a 16-byte message, past the end of its
paragraph, though every event lies within the message. -/
theorem entityUrl_link_overruns (fuel : ℕ) :
    entityUrl.utf8ByteSize = 16 ∧
      (∀ e ∈ entityUrlEvents, e.2.1 ≤ e.2.2 ∧ e.2.2 ≤ entityUrl.utf8ByteSize) ∧
      tryParseMarkdown (fun _ => entityUrlEvents) (fuel + 6) entityUrl =
        .ok ⟨[⟨0, 16, .paragraph [⟨0, 6, .text "\u226B\u20D2"⟩,
          ⟨6, 17, .link "https://a.b" [⟨6, 17, .text "https://a.b"⟩]⟩]⟩]⟩ :=
  ⟨by decide, by decide, rfl⟩

end Markdown
end Air
