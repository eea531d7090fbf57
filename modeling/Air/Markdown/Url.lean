import Mathlib.Data.List.Basic
import Mathlib.Data.Option.Basic

/-! # Byte positions and the URL pattern

`markdown.rs` reports every element of a message as a range of bytes of its UTF-8 source, reads
the source back with `str::get(start..end)`, and finds links in text with `URL_RE`:

    (?i)(?:mailto:|https?://)[^\p{Cc}\p{Cf}\s<>""{}\^⟨⟩`\\]*[^\p{Cc}\p{Cf}\s<>""{}\^⟨⟩`\\\.,;:!\?\)\]]

Text is a list of characters here, and a byte position is the number of bytes of the characters
before it (`byteLen`). The pattern is matched as the regex crate does, leftmost-first: at each
position the alternatives in order, the star as long as it can go and then back to the last
character the final class admits; `findIter` continues after each match, as `find_iter` does.
-/

namespace Air

/-! ## Bytes -/

def byteLen : List Char → ℕ
  | [] => 0
  | c :: cs => c.utf8Size + byteLen cs

@[simp] theorem byteLen_nil : byteLen [] = 0 := rfl

@[simp] theorem byteLen_cons (c : Char) (cs : List Char) :
    byteLen (c :: cs) = c.utf8Size + byteLen cs := rfl

@[simp] theorem byteLen_append (l m : List Char) : byteLen (l ++ m) = byteLen l + byteLen m := by
  induction l with
  | nil => simp
  | cons c cs ih => simp [ih, Nat.add_assoc]

@[simp] theorem byteLen_toList (s : String) : byteLen s.toList = s.utf8ByteSize := by
  induction s using String.push_induction with
  | empty => simp
  | push s c ih => simp [ih]

def takeBytes : List Char → ℕ → Option (List Char)
  | _, 0 => some []
  | [], _ + 1 => none
  | c :: cs, n + 1 =>
    if c.utf8Size ≤ n + 1 then (takeBytes cs (n + 1 - c.utf8Size)).map (c :: ·) else none

/-- `s.get(b..e)` on the characters of `s`: the characters between bytes `b` and `e`, if both
are character boundaries and `b ≤ e ≤ |s|`. -/
def byteRange : List Char → ℕ → ℕ → Option (List Char)
  | cs, 0, e => takeBytes cs e
  | [], _ + 1, _ => none
  | c :: cs, b + 1, e =>
    if c.utf8Size ≤ b + 1 ∧ c.utf8Size ≤ e then byteRange cs (b + 1 - c.utf8Size) (e - c.utf8Size)
    else none

/-- `&s[b..e]`. The code slices only at the ends of matches of `URL_RE`, which are character
boundaries, so the slice that panics on a broken boundary is not reached. -/
def slice (s : String) (b e : ℕ) : String :=
  String.ofList ((byteRange s.toList b e).getD [])

def IsBoundary (cs : List Char) (p : ℕ) : Prop :=
  ∃ pre, pre <+: cs ∧ byteLen pre = p

theorem isBoundary_zero (cs : List Char) : IsBoundary cs 0 :=
  ⟨[], List.nil_prefix, rfl⟩

theorem isBoundary_byteLen (cs : List Char) : IsBoundary cs (byteLen cs) :=
  ⟨cs, List.prefix_refl cs, rfl⟩

theorem exists_byteLen_cons_eq_succ (c : Char) (cs : List Char) :
    ∃ n, byteLen (c :: cs) = n + 1 :=
  Nat.exists_eq_add_one.mpr (Nat.lt_of_lt_of_le c.utf8Size_pos (Nat.le_add_right _ _))

theorem takeBytes_byteLen_append (pre rest : List Char) :
    takeBytes (pre ++ rest) (byteLen pre) = some pre := by
  induction pre with
  | nil => simp [takeBytes]
  | cons c pre ih =>
    obtain ⟨n, hn⟩ := exists_byteLen_cons_eq_succ c pre
    rw [byteLen_cons] at hn
    rw [List.cons_append, byteLen_cons, hn, takeBytes, if_pos (by omega),
      show n + 1 - c.utf8Size = byteLen pre by omega, ih]
    rfl

theorem byteRange_byteLen_append (pre mid rest : List Char) :
    byteRange (pre ++ mid ++ rest) (byteLen pre) (byteLen pre + byteLen mid) = some mid := by
  induction pre with
  | nil =>
    rw [List.nil_append, byteLen_nil, Nat.zero_add, byteRange, takeBytes_byteLen_append]
  | cons c pre ih =>
    obtain ⟨n, hn⟩ := exists_byteLen_cons_eq_succ c pre
    rw [byteLen_cons] at hn
    rw [List.cons_append, List.cons_append, byteLen_cons, hn, byteRange, if_pos (by omega),
      show n + 1 - c.utf8Size = byteLen pre by omega,
      show n + 1 + byteLen mid - c.utf8Size = byteLen pre + byteLen mid by omega, ih]

theorem slice_of_toList_eq {s : String} {pre mid rest : List Char}
    (h : s.toList = pre ++ mid ++ rest) :
    slice s (byteLen pre) (byteLen pre + byteLen mid) = String.ofList mid := by
  rw [slice, h, byteRange_byteLen_append]
  rfl

theorem slice_zero_utf8ByteSize (s : String) : slice s 0 s.utf8ByteSize = s := by
  have h : slice s (byteLen []) (byteLen [] + byteLen s.toList) = String.ofList s.toList :=
    slice_of_toList_eq (List.append_nil s.toList).symm
  rwa [byteLen_nil, Nat.zero_add, byteLen_toList, String.ofList_toList] at h

theorem slice_self {s : String} {a : ℕ} (ha : IsBoundary s.toList a) : slice s a a = "" := by
  obtain ⟨pre, ⟨rest, hrest⟩, rfl⟩ := ha
  have hs : s.toList = pre ++ [] ++ rest := by
    rw [List.append_nil]
    exact hrest.symm
  have h := slice_of_toList_eq hs
  rwa [byteLen_nil, Nat.add_zero, String.ofList_nil] at h

theorem prefix_of_byteLen_le {cs p q : List Char} (hp : p <+: cs) (hq : q <+: cs)
    (h : byteLen p ≤ byteLen q) : p <+: q := by
  rcases List.prefix_or_prefix_of_prefix hp hq with hpq | ⟨t, rfl⟩
  · exact hpq
  · -- `q ++ t` has no more bytes than `q`, so `t` has none and is empty
    cases t with
    | nil => exact (List.append_nil q).symm ▸ List.prefix_refl q
    | cons c t =>
      have := c.utf8Size_pos
      rw [byteLen_append, byteLen_cons] at h
      omega

theorem slice_append_slice {s : String} {a b c : ℕ} (ha : IsBoundary s.toList a)
    (hb : IsBoundary s.toList b) (hc : IsBoundary s.toList c) (hab : a ≤ b) (hbc : b ≤ c) :
    slice s a b ++ slice s b c = slice s a c := by
  obtain ⟨p, hp, rfl⟩ := ha
  obtain ⟨q, hq, rfl⟩ := hb
  obtain ⟨r, hr, rfl⟩ := hc
  obtain ⟨x, rfl⟩ := prefix_of_byteLen_le hp hq hab
  obtain ⟨y, rfl⟩ := prefix_of_byteLen_le hq hr hbc
  obtain ⟨z, hz⟩ := hr
  have hx : slice s (byteLen p) (byteLen (p ++ x)) = String.ofList x := by
    have hs : s.toList = p ++ x ++ (y ++ z) := by rw [← hz, List.append_assoc _ y]
    rw [byteLen_append]
    exact slice_of_toList_eq hs
  have hy : slice s (byteLen (p ++ x)) (byteLen (p ++ x ++ y)) = String.ofList y := by
    rw [byteLen_append (p ++ x)]
    exact slice_of_toList_eq hz.symm
  have hxy : slice s (byteLen p) (byteLen (p ++ x ++ y)) = String.ofList (x ++ y) := by
    have hs : s.toList = p ++ (x ++ y) ++ z := by rw [← hz, List.append_assoc p]
    rw [List.append_assoc, byteLen_append p]
    exact slice_of_toList_eq hs
  rw [hx, hy, hxy, String.ofList_append]

/-! ## Character classes -/

def inRanges (rs : List (ℕ × ℕ)) (c : Char) : Bool :=
  rs.any fun r => r.1 ≤ c.toNat && c.toNat ≤ r.2

/-- `\s`: the Unicode property `White_Space`, also what `str::trim_start` removes. -/
def whiteSpace : List (ℕ × ℕ) :=
  [(0x09, 0x0D), (0x20, 0x20), (0x85, 0x85), (0xA0, 0xA0), (0x1680, 0x1680), (0x2000, 0x200A),
    (0x2028, 0x2029), (0x202F, 0x202F), (0x205F, 0x205F), (0x3000, 0x3000)]

def control : List (ℕ × ℕ) := [(0x00, 0x1F), (0x7F, 0x9F)]

def format : List (ℕ × ℕ) :=
  [(0xAD, 0xAD), (0x600, 0x605), (0x61C, 0x61C), (0x6DD, 0x6DD), (0x70F, 0x70F), (0x890, 0x891),
    (0x8E2, 0x8E2), (0x180E, 0x180E), (0x200B, 0x200F), (0x202A, 0x202E), (0x2060, 0x2064),
    (0x2066, 0x206F), (0xFEFF, 0xFEFF), (0xFFF9, 0xFFFB), (0x110BD, 0x110BD), (0x110CD, 0x110CD),
    (0x13430, 0x1343F), (0x1BCA0, 0x1BCA3), (0x1D173, 0x1D17A), (0xE0001, 0xE0001),
    (0xE0020, 0xE007F)]

def urlDelimiters : List Char :=
  ['<', '>', '\x22', '\x7b', '\x7d', '^', '⟨', '⟩', '\x60', '\\']

def urlTrailing : List Char := ['.', ',', ';', ':', '!', '?', ')', ']']

/-- The complement of the starred class `[^\p{Cc}\p{Cf}\s<>""{}\^⟨⟩`\\]`. -/
def excludedFromUrl (c : Char) : Bool :=
  inRanges control c || inRanges format c || inRanges whiteSpace c || urlDelimiters.contains c

/-! ## Matching at one position -/

/-- `c` matches the pattern letter `p` under `(?i)`: simple case folding, which for the letters of
`mailto:` and `http` is ASCII case, and which also folds the long s `ſ` to `s`. -/
def foldsTo (p c : Char) : Bool :=
  c.toLower == p || (p == 's' && c == 'ſ')

def matchPrefix : List Char → List Char → Option (List Char)
  | [], cs => some cs
  | _ :: _, [] => none
  | p :: ps, c :: cs => if foldsTo p c then matchPrefix ps cs else none

/-- The length of the part after the scheme: the longest run outside the starred class's
complement, cut back to its last character that is not trailing punctuation. -/
def urlBody (cs : List Char) : Option ℕ :=
  let run := cs.takeWhile fun c => !excludedFromUrl c
  let n := (run.reverse.dropWhile fun c => urlTrailing.contains c).length
  if n = 0 then none else some n

/-- The number of characters `URL_RE` matches at the start of `cs`: the alternatives in order,
`mailto:`, then `https://` (the `s?` tries the `s` first), then `http://`. -/
def urlMatchAt (cs : List Char) : Option ℕ :=
  let after (p : String) := (matchPrefix p.toList cs).bind fun rest =>
    (urlBody rest).map (p.length + ·)
  after "mailto:" <|> after "https://" <|> after "http://"

theorem urlBody_pos {cs : List Char} {n : ℕ} (h : urlBody cs = some n) : 0 < n := by
  simp only [urlBody] at h
  split_ifs at h with h0
  cases h
  omega

theorem urlMatchAt_pos {cs : List Char} {n : ℕ} (h : urlMatchAt cs = some n) : 0 < n := by
  have halt : ∀ p : String,
      ((matchPrefix p.toList cs).bind fun rest => (urlBody rest).map (p.length + ·)) = some n →
        0 < n := by
    intro p hp
    obtain ⟨rest, -, hb⟩ := Option.bind_eq_some_iff.mp hp
    obtain ⟨k, hk, rfl⟩ := Option.map_eq_some_iff.mp hb
    have := urlBody_pos hk
    omega
  simp only [urlMatchAt, Option.orElse_eq_some] at h
  rcases h with h | ⟨-, h | ⟨-, h⟩⟩ <;> exact halt _ h

/-! ## All matches -/

/-- `find_iter` over the characters `cs` that start at byte `offset`: the byte ranges of the
matches. After a match of `n` characters the scan skips its other `n - 1` characters. -/
def scan : List Char → ℕ → ℕ → List (ℕ × ℕ)
  | [], _, _ => []
  | c :: cs, offset, skip + 1 => scan cs (offset + c.utf8Size) skip
  | c :: cs, offset, 0 =>
    match urlMatchAt (c :: cs) with
    | some n => (offset, offset + byteLen ((c :: cs).take n)) :: scan cs (offset + c.utf8Size) (n - 1)
    | none => scan cs (offset + c.utf8Size) 0

/-- `URL_RE.find_iter(str)`, as byte ranges of `str`. -/
def findIter (str : String) : List (ℕ × ℕ) :=
  scan str.toList 0 0

/-! ## Order of the matches -/

/-- Matches that are non-empty, in increasing order without overlap, start at or after `lo`
and end by `hi`. -/
def Ordered : List (ℕ × ℕ) → ℕ → ℕ → Prop
  | [], lo, hi => lo ≤ hi
  | m :: ms, lo, hi => lo ≤ m.1 ∧ m.1 < m.2 ∧ Ordered ms m.2 hi

theorem Ordered.mono : ∀ {ms : List (ℕ × ℕ)} {lo lo' hi : ℕ}, Ordered ms lo hi → lo' ≤ lo →
    Ordered ms lo' hi
  | [], _, _, _, h, hle => Nat.le_trans hle h
  | _ :: _, _, _, _, ⟨hlo, hrest⟩, hle => ⟨Nat.le_trans hle hlo, hrest⟩

theorem scan_ordered (cs : List Char) (offset skip : ℕ) :
    Ordered (scan cs offset skip) (offset + byteLen (cs.take skip)) (offset + byteLen cs) := by
  induction cs generalizing offset skip with
  | nil => simp [scan, Ordered]
  | cons c cs ih =>
    cases skip with
    | succ skip =>
      have h := ih (offset + c.utf8Size) skip
      simp only [scan, List.take_succ_cons, byteLen_cons, ← Nat.add_assoc]
      exact h
    | zero =>
      simp only [scan]
      split
      · next n hn =>
        obtain ⟨k, rfl⟩ : ∃ k, n = k + 1 := Nat.exists_eq_add_one.mpr (urlMatchAt_pos hn)
        have h := ih (offset + c.utf8Size) k
        have hc := c.utf8Size_pos
        simp only [List.take_succ_cons, byteLen_cons, Nat.add_sub_cancel, ← Nat.add_assoc] at h ⊢
        exact ⟨by simp, by omega, h⟩
      · have h := ih (offset + c.utf8Size) 0
        simp only [List.take_zero, byteLen_nil, Nat.add_zero, byteLen_cons, ← Nat.add_assoc] at h ⊢
        exact h.mono (Nat.le_add_right _ _)

theorem findIter_ordered (str : String) : Ordered (findIter str) 0 str.utf8ByteSize := by
  have h := scan_ordered str.toList 0 0
  simpa [findIter] using h

theorem Ordered.le : ∀ {ms : List (ℕ × ℕ)} {lo hi : ℕ}, Ordered ms lo hi → lo ≤ hi
  | [], _, _, h => h
  | _ :: _, _, _, ⟨hlo, hlt, hrest⟩ => by
    have := hrest.le
    omega

theorem scan_boundary (cs : List Char) (offset skip : ℕ) :
    ∀ m ∈ scan cs offset skip,
      ∃ p q, p <+: cs ∧ q <+: cs ∧ m = (offset + byteLen p, offset + byteLen q) := by
  induction cs generalizing offset skip with
  | nil => simp [scan]
  | cons c cs ih =>
    have hrest : ∀ skip', ∀ m ∈ scan cs (offset + c.utf8Size) skip',
        ∃ p q, p <+: c :: cs ∧ q <+: c :: cs ∧ m = (offset + byteLen p, offset + byteLen q) := by
      intro skip' m hm
      obtain ⟨p, q, hp, hq, rfl⟩ := ih (offset + c.utf8Size) skip' m hm
      exact ⟨c :: p, c :: q, List.cons_prefix_cons.mpr ⟨rfl, hp⟩,
        List.cons_prefix_cons.mpr ⟨rfl, hq⟩, by simp [Nat.add_assoc]⟩
    cases skip with
    | succ skip =>
      simp only [scan]
      exact hrest skip
    | zero =>
      simp only [scan]
      split
      · next n hn =>
        intro m hm
        rcases List.mem_cons.mp hm with rfl | hm
        · exact ⟨[], _, List.nil_prefix, List.take_prefix n _, rfl⟩
        · exact hrest _ m hm
      · exact hrest 0

theorem findIter_boundary (str : String) :
    ∀ m ∈ findIter str, IsBoundary str.toList m.1 ∧ IsBoundary str.toList m.2 := by
  intro m hm
  obtain ⟨p, q, hp, hq, rfl⟩ := scan_boundary str.toList 0 0 m hm
  exact ⟨⟨p, hp, (Nat.zero_add _).symm⟩, ⟨q, hq, (Nat.zero_add _).symm⟩⟩

example : findIter "Visit https://example.com now!" = [(6, 25)] := by decide

example : findIter "HTTPſ://x.y, mailto:a@b." = [(0, 12), (14, 24)] := by decide

end Air
