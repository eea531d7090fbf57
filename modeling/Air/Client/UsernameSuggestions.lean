import Mathlib
import Air.Common.Username

/-! # Username suggestions

`username_from_display` of `applogic/src/api/username_suggestions.rs` suggests a username for a
display name. It keeps the first three tokens of the name (`first_tokens`), transliterates them
to ASCII with `deunicode` and lowercases them. Their letters and digits become words joined by
single dashes, with no digit first and no dash last, and `user` when nothing is left. The base
is cut to leave room for a dash and a random five digit suffix (`truncate_clean`).

`deunicode` and the Unicode classes `char::is_whitespace` and `char::is_alphanumeric` are
parameters. `deunicode` returns ASCII text, on which `str::to_lowercase` is `Char.toLower` of every
character, and from the loop on the name is ASCII, so its length in bytes is its length.

Whatever the display name, the transliteration and the suffix drawn from `10000..100000`, the
suggestion passes `Username::validate`, and what follows its last dash is the suffix
(`usernameFromDisplay_valid`). `first_tokens` returns at most its limit of tokens, each a word of
alphanumeric characters or a single other symbol (`firstTokens_spec`).
-/

namespace Air.UsernameSuggestions

open Username (ValidUsername)

def maxUsernameLength : ℕ := 63

def suffixLength : ℕ := 5

def hyphenLength : ℕ := 1

def maxBaseLength : ℕ := 58

/-- `char::is_ascii_punctuation`: the codes from `!` to `/`, from `:` to `@`, from `[` to the
backquote and from `{` to `~`. -/
def isAsciiPunctuation (c : Char) : Bool :=
  decide (33 ≤ c.toNat ∧ c.toNat ≤ 47 ∨ 58 ≤ c.toNat ∧ c.toNat ≤ 64 ∨
    91 ≤ c.toNat ∧ c.toNat ≤ 96 ∨ 123 ≤ c.toNat ∧ c.toNat ≤ 126)

section Tokens

variable (isWhitespace isAlphanumeric : Char → Bool) (limit : ℕ)

/-- The loop of `first_tokens` over the characters left, with the tokens so far and the current
one; it returns as soon as `limit` tokens are pushed. -/
def firstTokensLoop : List Char → List (List Char) → List Char → List (List Char)
  | [], tokens, current =>
    if current ≠ [] ∧ tokens.length < limit then tokens ++ [current] else tokens
  | ch :: rest, tokens, current =>
    if isWhitespace ch then
      if current ≠ [] then
        if (tokens ++ [current]).length = limit then tokens ++ [current]
        else firstTokensLoop rest (tokens ++ [current]) []
      else firstTokensLoop rest tokens current
    else if isAlphanumeric ch then firstTokensLoop rest tokens (current ++ [ch])
    else if isAsciiPunctuation ch then
      if current ≠ [] then
        if (tokens ++ [current]).length = limit then tokens ++ [current]
        else firstTokensLoop rest (tokens ++ [current]) []
      else firstTokensLoop rest tokens current
    else if current ≠ [] ∧ (tokens ++ [current]).length = limit then tokens ++ [current]
    else
      let tokens := (if current ≠ [] then tokens ++ [current] else tokens) ++ [[ch]]
      if tokens.length = limit then tokens else firstTokensLoop rest tokens []

def firstTokens (display : List Char) : List (List Char) :=
  firstTokensLoop isWhitespace isAlphanumeric limit display [] []

end Tokens

def slugStep : List Char × Bool × Bool → Char → List Char × Bool × Bool
  | (out, lastWasDash, started), ch =>
    if ch.isAlphanum then
      if !started && ch.isDigit then (out, lastWasDash, started)
      else (out ++ [ch], false, true)
    else if started && !lastWasDash then (out ++ ['-'], true, started)
    else (out, lastWasDash, started)

/-- `truncate_clean`: cut to `maxLen`, pop the dashes left at the end, and fall back to `user`. -/
def truncateClean (out : List Char) (maxLen : ℕ) : List Char :=
  if out.length > maxLen then
    let out := (out.take maxLen).rdropWhile (· == '-')
    if out = [] then "user".toList else out
  else out

/-- `username_from_display` up to the suffix, from the lowercased ASCII text. -/
def usernameBase (ascii : List Char) : List Char :=
  let (out, lastWasDash, _) := ascii.foldl slugStep ([], false, false)
  let out := if lastWasDash then out.dropLast else out
  let out := if out = [] then "user".toList else out
  let out := truncateClean out maxBaseLength
  truncateClean out (maxUsernameLength - suffixLength - hyphenLength)

/-- `username_from_display`, with the random suffix as an argument. -/
def usernameFromDisplay (isWhitespace isAlphanumeric : Char → Bool) (deunicode : String → String)
    (display : String) (suffix : ℕ) : String :=
  let truncatedInput :=
    " ".intercalate ((firstTokens isWhitespace isAlphanumeric 3 display.toList).map String.ofList)
  let ascii := (deunicode truncatedInput).toList.map Char.toLower
  String.ofList (usernameBase ascii ++ '-' :: (toString suffix).toList)

/-! ## The tokens -/

section Tokens

variable {isWhitespace isAlphanumeric : Char → Bool} {limit : ℕ}

/-- A token of `first_tokens`: a word of alphanumeric characters that are not whitespace, or a
single character that is neither whitespace, alphanumeric nor ASCII punctuation. -/
def IsToken (isWhitespace isAlphanumeric : Char → Bool) (t : List Char) : Prop :=
  (t ≠ [] ∧ ∀ c ∈ t, isWhitespace c = false ∧ isAlphanumeric c = true) ∨
  ∃ c, t = [c] ∧ isWhitespace c = false ∧ isAlphanumeric c = false ∧ isAsciiPunctuation c = false

def TokensOk (isWhitespace isAlphanumeric : Char → Bool) (limit : ℕ)
    (tokens : List (List Char)) : Prop :=
  tokens.length ≤ limit ∧ ∀ t ∈ tokens, IsToken isWhitespace isAlphanumeric t

def IsWord (isWhitespace isAlphanumeric : Char → Bool) (current : List Char) : Prop :=
  ∀ c ∈ current, isWhitespace c = false ∧ isAlphanumeric c = true

theorem isToken_push {tokens : List (List Char)} {current : List Char}
    (htok : ∀ t ∈ tokens, IsToken isWhitespace isAlphanumeric t) (hne : current ≠ [])
    (hcur : IsWord isWhitespace isAlphanumeric current) :
    ∀ t ∈ tokens ++ [current], IsToken isWhitespace isAlphanumeric t := by
  intro t ht
  rcases List.mem_append.mp ht with ht | ht
  · exact htok t ht
  · rw [List.mem_singleton.mp ht]
    exact .inl ⟨hne, hcur⟩

/-- The loop, started with fewer than `limit` tokens and a word, returns what `first_tokens`
returns. The induction is on the characters left; each step either returns at the limit or
goes on with fewer than `limit` tokens. -/
theorem firstTokensLoop_spec (display : List Char) :
    ∀ tokens current, tokens.length < limit →
      (∀ t ∈ tokens, IsToken isWhitespace isAlphanumeric t) →
      IsWord isWhitespace isAlphanumeric current →
      TokensOk isWhitespace isAlphanumeric limit
        (firstTokensLoop isWhitespace isAlphanumeric limit display tokens current) := by
  induction display with
  | nil =>
    intro tokens current hlen htok hcur
    rw [firstTokensLoop]
    split_ifs with hpush
    · exact ⟨by simp only [List.length_append, List.length_singleton]; omega,
        isToken_push htok hpush.1 hcur⟩
    · exact ⟨hlen.le, htok⟩
  | cons ch rest ih =>
    intro tokens current hlen htok hcur
    have hnext : ∀ tokens' : List (List Char), tokens'.length ≤ limit →
        (∀ t ∈ tokens', IsToken isWhitespace isAlphanumeric t) →
        TokensOk isWhitespace isAlphanumeric limit (if tokens'.length = limit then tokens'
          else firstTokensLoop isWhitespace isAlphanumeric limit rest tokens' []) := by
      intro tokens' hle htok'
      by_cases hfull : tokens'.length = limit
      · rw [if_pos hfull]
        exact ⟨hle, htok'⟩
      · rw [if_neg hfull]
        exact ih tokens' [] (by omega) htok' (by simp [IsWord])
    have hend : TokensOk isWhitespace isAlphanumeric limit (if current ≠ [] then
        (if (tokens ++ [current]).length = limit then tokens ++ [current]
          else firstTokensLoop isWhitespace isAlphanumeric limit rest (tokens ++ [current]) [])
        else firstTokensLoop isWhitespace isAlphanumeric limit rest tokens current) := by
      by_cases hne : current ≠ []
      · rw [if_pos hne]
        exact hnext _ (by simp only [List.length_append, List.length_singleton]; omega)
          (isToken_push htok hne hcur)
      · rw [if_neg hne]
        exact ih tokens current hlen htok hcur
    rw [firstTokensLoop]
    by_cases hws : isWhitespace ch = true
    · rw [if_pos hws]
      exact hend
    rw [if_neg hws]
    by_cases halnum : isAlphanumeric ch = true
    · rw [if_pos halnum]
      refine ih tokens _ hlen htok fun c hc => ?_
      rcases List.mem_append.mp hc with hc | hc
      · exact hcur c hc
      · rw [List.mem_singleton.mp hc]
        exact ⟨Bool.eq_false_iff.mpr hws, halnum⟩
    rw [if_neg halnum]
    by_cases hpunct : isAsciiPunctuation ch = true
    · rw [if_pos hpunct]
      exact hend
    rw [if_neg hpunct]
    by_cases hfull : current ≠ [] ∧ (tokens ++ [current]).length = limit
    · rw [if_pos hfull]
      exact ⟨hfull.2.le, isToken_push htok hfull.1 hcur⟩
    rw [if_neg hfull]
    refine hnext _ ?_ ?_
    · by_cases hne : current ≠ []
      · have hlt := not_and.mp hfull hne
        simp only [if_pos hne, List.length_append, List.length_singleton] at hlt ⊢
        omega
      · simp only [if_neg hne, List.length_append, List.length_singleton]
        omega
    · intro t ht
      rcases List.mem_append.mp ht with ht | ht
      · by_cases hne : current ≠ []
        · rw [if_pos hne] at ht
          exact isToken_push htok hne hcur t ht
        · rw [if_neg hne] at ht
          exact htok t ht
      · rw [List.mem_singleton.mp ht]
        exact .inr ⟨ch, rfl, Bool.eq_false_iff.mpr hws, Bool.eq_false_iff.mpr halnum,
          Bool.eq_false_iff.mpr hpunct⟩

/-- `first_tokens` returns at most `limit` tokens, each a word of alphanumeric characters or a
single other symbol: whitespace and ASCII punctuation only separate them. -/
theorem firstTokens_spec (hlimit : 0 < limit) (display : List Char) :
    TokensOk isWhitespace isAlphanumeric limit (firstTokens isWhitespace isAlphanumeric limit display) :=
  firstTokensLoop_spec display [] [] hlimit (by simp) (by simp [IsWord])

theorem firstTokens_spec_longName :
    0 < 3 ∧ TokensOk Char.isWhitespace Char.isAlphanum 3
      (firstTokens Char.isWhitespace Char.isAlphanum 3 "Very Long Display Name".toList) :=
  ⟨by decide, firstTokens_spec (by decide) _⟩

end Tokens

/-! ## The base -/

/-- What the loop and the truncations keep: lowercase letters, digits and single dashes, a letter
first and no dash last. -/
structure IsBase (cs : List Char) : Prop where
  chars : ∀ c ∈ cs, c = '-' ∨ c.isDigit = true ∨ c.isLower = true
  single_dashes : cs.IsChain fun a b => ¬(a = '-' ∧ b = '-')
  head : ∀ c ∈ cs.head?, c.isLower = true
  last : ∀ c ∈ cs.getLast?, c ≠ '-'
  ne_nil : cs ≠ []

theorem isBase_user : IsBase "user".toList := by
  rw [show "user".toList = ['u', 's', 'e', 'r'] by decide]
  exact ⟨by simp [Char.isLower], by decide, by simp [Char.isLower], by simp, by simp⟩

theorem isBase_of_prefix {l l₁ : List Char}
    (hchars : ∀ c ∈ l, c = '-' ∨ c.isDigit = true ∨ c.isLower = true)
    (hchain : l.IsChain fun a b => ¬(a = '-' ∧ b = '-')) (hhead : ∀ c ∈ l.head?, c.isLower = true)
    (hp : l₁ <+: l) (hne : l₁ ≠ []) (hlast : ∀ c ∈ l₁.getLast?, c ≠ '-') : IsBase l₁ where
  chars c hc := hchars c (hp.subset hc)
  single_dashes := hchain.infix hp.isInfix
  head c hc := by
    obtain ⟨t, rfl⟩ := hp
    exact hhead c (by rwa [List.head?_append_of_ne_nil _ hne])
  last := hlast
  ne_nil := hne

theorem IsBase.truncateClean {out : List Char} (h : IsBase out) (maxLen : ℕ) :
    IsBase (truncateClean out maxLen) := by
  unfold UsernameSuggestions.truncateClean
  dsimp only
  split_ifs with hlen hnil
  · exact isBase_user
  · refine isBase_of_prefix h.chars h.single_dashes h.head
      ((List.rdropWhile_prefix _ _).trans (List.take_prefix _ _)) hnil ?_
    intro c hc
    have hlast := List.rdropWhile_last_not (· == '-') (out.take maxLen) hnil
    rw [List.getLast?_eq_some_getLast hnil, Option.mem_some_iff] at hc
    rw [← hc]
    simpa using hlast
  · exact h

theorem length_truncateClean_le (out : List Char) {maxLen : ℕ} (hmax : 4 ≤ maxLen) :
    (truncateClean out maxLen).length ≤ maxLen := by
  unfold truncateClean
  dsimp only
  split_ifs with hlen hnil
  · simpa using hmax
  · calc ((out.take maxLen).rdropWhile (· == '-')).length
        ≤ (out.take maxLen).length := (List.rdropWhile_prefix _ _).length_le
      _ ≤ maxLen := List.length_take_le _ _
  · omega

/-! ## The loop -/

/-- What the loop keeps of `(out, last_was_dash, started)`: base characters in single dashes, a
letter first, nothing before it starts, and `last_was_dash` exactly when `out` ends in a dash. -/
structure Slug (acc : List Char × Bool × Bool) : Prop where
  chars : ∀ c ∈ acc.1, c = '-' ∨ c.isDigit = true ∨ c.isLower = true
  single_dashes : acc.1.IsChain fun a b => ¬(a = '-' ∧ b = '-')
  head : ∀ c ∈ acc.1.head?, c.isLower = true
  started : acc.1 = [] ↔ acc.2.2 = false
  last : acc.1.getLast? = some '-' ↔ acc.2.1 = true

theorem slug_init : Slug ([], false, false) :=
  ⟨by simp, by simp, by simp, by simp, by simp⟩

theorem isDigit_or_isLower {c : Char} (h : c.isAlphanum = true) (hu : c.isUpper = false) :
    c.isDigit = true ∨ c.isLower = true := by
  simp only [Char.isAlphanum, Char.isAlpha, hu, Bool.false_or, Bool.or_eq_true] at h
  exact h.symm

theorem ne_dash_of_isAlphanum {c : Char} (h : c.isAlphanum = true) : c ≠ '-' := by
  rintro rfl
  exact absurd h (by decide)

theorem isChain_append_of_ne {out : List Char} {c : Char}
    (hchain : out.IsChain fun a b => ¬(a = '-' ∧ b = '-')) (h : c ≠ '-' ∨ out.getLast? ≠ some '-') :
    (out ++ [c]).IsChain fun a b => ¬(a = '-' ∧ b = '-') := by
  rw [List.isChain_append]
  refine ⟨hchain, List.isChain_singleton c, ?_⟩
  intro x hx y hy
  rw [List.head?_cons, Option.mem_some_iff] at hy
  subst hy
  rintro ⟨rfl, rfl⟩
  simp_all

theorem Slug.step {acc : List Char × Bool × Bool} (h : Slug acc) {ch : Char}
    (hu : ch.isUpper = false) : Slug (slugStep acc ch) := by
  obtain ⟨out, lastWasDash, started⟩ := acc
  obtain ⟨hchars, hchain, hhead, hstarted, hlast⟩ := h
  simp only at hchars hchain hhead hstarted hlast
  simp only [slugStep]
  split_ifs with halnum hskip hdash
  · exact ⟨hchars, hchain, hhead, hstarted, hlast⟩
  · -- a letter or digit is kept; it is first only before the loop started, so not a digit
    have hne := ne_dash_of_isAlphanum halnum
    refine ⟨?_, isChain_append_of_ne hchain (.inl hne), ?_, by simp, by simp [hne]⟩
    · intro c hc
      rcases List.mem_append.mp hc with hc | hc
      · exact hchars c hc
      · rw [List.mem_singleton.mp hc]
        exact .inr (isDigit_or_isLower halnum hu)
    · intro c hc
      by_cases hout : out = []
      · subst hout
        have hs : started = false := hstarted.mp rfl
        simp only [hs, Bool.not_false, Bool.true_and, Bool.not_eq_true] at hskip
        simp only [List.nil_append, List.head?_cons, Option.mem_some_iff] at hc
        subst hc
        simpa [hskip] using isDigit_or_isLower halnum hu
      · exact hhead c (by rwa [List.head?_append_of_ne_nil _ hout] at hc)
  · -- a separator after a kept character becomes one dash
    simp only [Bool.and_eq_true, Bool.not_eq_true'] at hdash
    have hout : out ≠ [] := fun h => by simp [hstarted.mp h] at hdash
    refine ⟨?_, isChain_append_of_ne hchain (.inr fun h => by simp [hlast.mp h] at hdash), ?_,
      by simp [hdash.1], by simp⟩
    · intro c hc
      rcases List.mem_append.mp hc with hc | hc
      · exact hchars c hc
      · exact .inl (List.mem_singleton.mp hc)
    · intro c hc
      exact hhead c (by rwa [List.head?_append_of_ne_nil _ hout] at hc)
  · exact ⟨hchars, hchain, hhead, hstarted, hlast⟩

theorem slug_foldl (ascii : List Char) (hu : ∀ c ∈ ascii, c.isUpper = false) :
    ∀ acc, Slug acc → Slug (ascii.foldl slugStep acc) := by
  induction ascii with
  | nil => exact fun _ h => h
  | cons ch rest ih =>
    intro acc h
    exact ih (fun c hc => hu c (List.mem_cons_of_mem _ hc)) _ (h.step (hu ch (List.mem_cons_self ..)))

theorem isBase_pop {out : List Char} {lastWasDash started : Bool}
    (h : Slug (out, lastWasDash, started)) :
    IsBase (if (if lastWasDash then out.dropLast else out) = [] then "user".toList
      else if lastWasDash then out.dropLast else out) := by
  obtain ⟨hchars, hchain, hhead, -, hlast⟩ := h
  simp only at hchars hchain hhead hlast
  cases lastWasDash with
  | true =>
    simp only [if_true]
    by_cases hnil : out.dropLast = []
    · rw [if_pos hnil]
      exact isBase_user
    rw [if_neg hnil]
    have hout : out ≠ [] := fun h => by simp [h] at hnil
    refine isBase_of_prefix hchars hchain hhead (List.dropLast_prefix out) hnil ?_
    have hdash : out.getLast hout = '-' := by
      simpa [List.getLast?_eq_some_getLast hout] using hlast.mpr rfl
    rw [← List.dropLast_append_getLast hout, hdash, List.isChain_append] at hchain
    intro c hc hcd
    exact hchain.2.2 c hc '-' rfl ⟨hcd, rfl⟩
  | false =>
    simp only [Bool.false_eq_true, if_false]
    by_cases hnil : out = []
    · rw [if_pos hnil]
      exact isBase_user
    rw [if_neg hnil]
    refine isBase_of_prefix hchars hchain hhead (List.prefix_refl out) hnil ?_
    intro c hc hcd
    subst hcd
    exact absurd (hlast.mp (Option.mem_def.mp hc)) (by decide)

theorem isBase_usernameBase (ascii : List Char) (hu : ∀ c ∈ ascii, c.isUpper = false) :
    IsBase (usernameBase ascii) ∧ (usernameBase ascii).length ≤ 57 := by
  have hslug := slug_foldl ascii hu _ slug_init
  obtain ⟨out, lastWasDash, started⟩ := ascii.foldl slugStep ([], false, false)
  refine ⟨((isBase_pop hslug).truncateClean _).truncateClean _,
    length_truncateClean_le _ (by decide)⟩

/-! ## The suggestion -/

theorem length_toString {n : ℕ} (h₁ : 10000 ≤ n) (h₂ : n < 100000) :
    (toString n).toList.length = 5 := by
  have hdigits : (toString n).toList = Nat.toDigits 10 n := Nat.toList_repr
  have hle : (Nat.toDigits 10 n).length ≤ 5 :=
    (Nat.length_toDigits_le_iff (by decide) (by decide)).mpr h₂
  have hgt : ¬(Nat.toDigits 10 n).length ≤ 4 := fun h =>
    absurd ((Nat.length_toDigits_le_iff (by decide) (by decide)).mp h) (by omega)
  rw [hdigits]
  omega

theorem isDigit_of_mem_toString {n : ℕ} {c : Char} (h : c ∈ (toString n).toList) :
    c.isDigit = true := by
  have hdigits : (toString n).toList = Nat.toDigits 10 n := Nat.toList_repr
  exact Nat.isDigit_of_mem_toDigits (by decide) (by decide) (hdigits ▸ h)

theorem ne_dash_of_isDigit {c : Char} (h : c.isDigit = true) : c ≠ '-' := by
  rintro rfl
  exact absurd h (by decide)

theorem isDigit_eq_false_of_isLower {c : Char} (h : c.isLower = true) : c.isDigit = false := by
  simp only [Char.isLower, Char.isDigit, Bool.and_eq_true, decide_eq_true_eq,
    UInt32.le_iff_toNat_le, Bool.and_eq_false_iff, decide_eq_false_iff_not, Nat.not_le] at h ⊢
  have : 'a'.val.toNat = 97 := rfl
  have : '9'.val.toNat = 57 := rfl
  omega

theorem validUsername_append_suffix {base : List Char} (hb : IsBase base) (hlen : base.length ≤ 57)
    {suffix : ℕ} (h₁ : 10000 ≤ suffix) (h₂ : suffix < 100000) :
    ValidUsername (base ++ '-' :: (toString suffix).toList) := by
  have hdigits := length_toString h₁ h₂
  have hpos : 0 < base.length := List.length_pos_iff_ne_nil.mpr hb.ne_nil
  constructor
  · simp only [List.length_append, List.length_cons, hdigits, Username.minUsernameLength]
    omega
  · simp only [List.length_append, List.length_cons, hdigits, Username.maxUsernameLength]
    omega
  · intro c hc
    rw [Username.mem_usernameChars_iff]
    rcases List.mem_append.mp hc with hc | hc
    · exact hb.chars c hc
    · rcases List.mem_cons.mp hc with rfl | hc
      · exact .inl rfl
      · exact .inr (.inl (isDigit_of_mem_toString hc))
  · -- the suffix holds no dash, and the base does not end in one
    rw [List.isChain_append]
    refine ⟨hb.single_dashes, ?_, ?_⟩
    · rw [List.isChain_iff_getElem]
      rintro i hi ⟨-, hdash⟩
      have hmem : ('-' :: (toString suffix).toList)[i + 1] ∈ (toString suffix).toList := by
        simp
      exact ne_dash_of_isDigit (isDigit_of_mem_toString hmem) hdash
    · rintro x hx y hy ⟨hxd, -⟩
      exact hb.last x hx hxd
  · intro c hc
    rw [List.head?_append_of_ne_nil _ hb.ne_nil] at hc
    exact isDigit_eq_false_of_isLower (hb.head c hc)

theorem afterLastDash_append_suffix (base : List Char) (suffix : ℕ) :
    ((base ++ '-' :: (toString suffix).toList).reverse.takeWhile (· ≠ '-')).reverse =
      (toString suffix).toList := by
  have hdigits : ∀ c ∈ (toString suffix).toList.reverse, decide (c ≠ '-') = true := fun c hc =>
    decide_eq_true (ne_dash_of_isDigit (isDigit_of_mem_toString (List.mem_reverse.mp hc)))
  rw [List.reverse_append, List.reverse_cons, List.append_assoc, List.takeWhile_append_of_pos hdigits]
  simp

/-- Whatever the display name, the transliteration and the suffix drawn from `10000..100000`, the
suggestion passes `Username::validate`, and what follows its last dash is the suffix. -/
theorem usernameFromDisplay_valid (isWhitespace isAlphanumeric : Char → Bool)
    (deunicode : String → String) (display : String) {suffix : ℕ} (h₁ : 10000 ≤ suffix)
    (h₂ : suffix < 100000) :
    Username.validate (usernameFromDisplay isWhitespace isAlphanumeric deunicode display suffix) =
        .ok () ∧
      ((usernameFromDisplay isWhitespace isAlphanumeric deunicode display suffix).toList.reverse.takeWhile
        (· ≠ '-')).reverse = (toString suffix).toList := by
  unfold usernameFromDisplay
  dsimp only
  rw [Username.validate_ofList_eq_ok_iff, String.toList_ofList]
  have hu : ∀ c ∈ (deunicode (" ".intercalate ((firstTokens isWhitespace isAlphanumeric 3
      display.toList).map String.ofList))).toList.map Char.toLower, c.isUpper = false := by
    intro c hc
    obtain ⟨d, -, rfl⟩ := List.mem_map.mp hc
    exact Char.isUpper_toLower_eq_false d
  obtain ⟨hbase, hlen⟩ := isBase_usernameBase _ hu
  exact ⟨validUsername_append_suffix hbase hlen h₁ h₂, afterLastDash_append_suffix _ _⟩

theorem usernameFromDisplay_valid_maria :
    Username.validate (usernameFromDisplay Char.isWhitespace Char.isAlphanum id "Maria Ivanenko"
        12345) = .ok () ∧
      ((usernameFromDisplay Char.isWhitespace Char.isAlphanum id "Maria Ivanenko"
        12345).toList.reverse.takeWhile (· ≠ '-')).reverse = (toString 12345).toList :=
  usernameFromDisplay_valid Char.isWhitespace Char.isAlphanum id "Maria Ivanenko" (by decide)
    (by decide)

end Air.UsernameSuggestions
