import Mathlib
import Air.Common.Identifiers

/-! # Usernames

`Username::validate` of `common/src/identifiers/username.rs` reads a username as UTF-8 bytes:
it wants between `MIN_USERNAME_LENGTH` and `MAX_USERNAME_LENGTH` of them, each from
`USERNAME_CHARSET`, no two dashes in a row and no digit first. Every byte of the charset is
ASCII, and a character that is not ASCII encodes to bytes of 128 and more, so a username passes
exactly when its characters are lowercase letters, digits and single dashes, 5 to 63 of them,
not starting with a digit (`validate_ofList_eq_ok_iff`).
-/

namespace Air.Username

def minUsernameLength : ℕ := 5

def maxUsernameLength : ℕ := 63

def usernameChars : List Char := "-0123456789abcdefghijklmnopqrstuvwxyz".toList

def usernameCharset : List UInt8 := usernameChars.map Char.toUInt8

def dash : UInt8 := 45

inductive UsernameValidationError where
  | tooShort
  | tooLong
  | invalidCharacter
  | consecutiveDashes
  | leadingDigit
  deriving DecidableEq, Repr

/-- `Username::validate`. The loop over the bytes and the one over their windows of two stop at
the first byte, or pair, that fails. -/
def validate (plaintext : String) : Except UsernameValidationError Unit :=
  let bytes := asBytes plaintext
  if bytes.length < minUsernameLength then .error .tooShort
  else if bytes.length > maxUsernameLength then .error .tooLong
  else if bytes.any (· ∉ usernameCharset) then .error .invalidCharacter
  else if (bytes.zip bytes.tail).any (fun pair => pair.1 = dash ∧ pair.2 = dash) then
    .error .consecutiveDashes
  else match plaintext.toList.head? with
    | some firstChar => if firstChar.isDigit then .error .leadingDigit else .ok ()
    | none => .ok ()

/-- A name `validate` accepts, over its characters. -/
structure ValidUsername (cs : List Char) : Prop where
  length_ge : minUsernameLength ≤ cs.length
  length_le : cs.length ≤ maxUsernameLength
  chars : ∀ c ∈ cs, c ∈ usernameChars
  single_dashes : cs.IsChain fun a b => ¬(a = '-' ∧ b = '-')
  head : ∀ c ∈ cs.head?, c.isDigit = false

/-! ## Windows of two -/

section Windows

variable {α : Type*}

theorem any_zip_tail_eq_false_iff (R : α → α → Prop) [DecidableRel R] (l : List α) :
    (l.zip l.tail).any (fun p => decide (R p.1 p.2)) = false ↔ l.IsChain fun a b => ¬R a b := by
  induction l with
  | nil => simp
  | cons a l ih =>
    cases l with
    | nil => simp
    | cons b l =>
      rw [List.tail_cons, List.zip_cons_cons, List.any_cons, List.isChain_cons_cons, ← ih]
      simp

theorem isChain_congr_of_mem {R S : α → α → Prop} {l : List α}
    (h : ∀ a ∈ l, ∀ b ∈ l, (R a b ↔ S a b)) : l.IsChain R ↔ l.IsChain S := by
  rw [List.IsChain.iff_mem, List.IsChain.iff_mem (R := S)]
  exact List.IsChain.iff fun a b =>
    ⟨fun ⟨ha, hb, hr⟩ => ⟨ha, hb, (h a ha b hb).mp hr⟩,
      fun ⟨ha, hb, hs⟩ => ⟨ha, hb, (h a ha b hb).mpr hs⟩⟩

end Windows

/-! ## Bytes of ASCII characters -/

section Ascii

variable {c : Char} {cs : List Char}

theorem toNat_toUInt8_of_lt (hc : c.toNat < 128) : c.toUInt8.toNat = c.toNat := by
  rw [← Char.toUInt8_val, UInt32.toNat_toUInt8]
  exact Nat.mod_eq_of_lt (by change c.toNat < 256; omega)

theorem eq_of_toUInt8_eq {d : Char} (hc : c.toNat < 128) (hd : d.toNat < 128)
    (h : c.toUInt8 = d.toUInt8) : c = d := by
  rw [← Char.toNat_inj, ← toNat_toUInt8_of_lt hc, ← toNat_toUInt8_of_lt hd, h]

theorem utf8EncodeChar_of_lt (hc : c.toNat < 128) : String.utf8EncodeChar c = [c.toUInt8] := by
  apply String.utf8EncodeChar_eq_singleton
  rw [Char.utf8Size_eq_one_iff, UInt32.le_iff_toNat_le]
  exact Nat.le_of_lt_succ hc

theorem lt_of_mem_utf8EncodeChar {b : UInt8} (hb : b ∈ String.utf8EncodeChar c)
    (hlt : b.toNat < 128) : c.toNat < 128 := by
  by_contra hc
  have hv : ¬c.val.toNat ≤ 127 := by
    change ¬c.toNat ≤ 127
    omega
  simp only [String.utf8EncodeChar, if_neg hv] at hb
  split_ifs at hb <;>
    simp only [List.mem_cons, List.not_mem_nil, or_false] at hb <;>
    rcases hb with rfl | rfl | rfl | rfl <;>
    simp only [UInt8.toNat_ofNat', Nat.reducePow] at hlt <;>
    omega

theorem asBytes_ofList (cs : List Char) :
    asBytes (String.ofList cs) = cs.flatMap String.utf8EncodeChar := by
  simp [asBytes, String.toByteArray_ofList, List.utf8Encode, List.data_toByteArray]

theorem asBytes_ofList_of_lt (hcs : ∀ c ∈ cs, c.toNat < 128) :
    asBytes (String.ofList cs) = cs.map Char.toUInt8 := by
  rw [asBytes_ofList]
  induction cs with
  | nil => rfl
  | cons c cs ih =>
    rw [List.flatMap_cons, utf8EncodeChar_of_lt (hcs c (List.mem_cons_self ..)), List.map_cons,
      ih fun d hd => hcs d (List.mem_cons_of_mem _ hd)]
    rfl

end Ascii

/-! ## The charset -/

theorem usernameChars_spec :
    ∀ c ∈ usernameChars, c.toNat < 128 ∧ (c = '-' ∨ c.isDigit = true ∨ c.isLower = true) := by
  have h : usernameChars.all (fun c => decide (c.toNat < 128) && (c == '-' || c.isDigit ||
      c.isLower)) = true := by
    decide
  simpa [Bool.or_eq_true, or_assoc] using h

theorem usernameChars_lt {c : Char} (h : c ∈ usernameChars) : c.toNat < 128 :=
  (usernameChars_spec c h).1

theorem lower_mem_usernameChars : ∀ k < 26, Char.ofNat (97 + k) ∈ usernameChars := by
  decide

theorem digit_mem_usernameChars : ∀ k < 10, Char.ofNat (48 + k) ∈ usernameChars := by
  decide

theorem mem_usernameChars_iff {c : Char} :
    c ∈ usernameChars ↔ c = '-' ∨ c.isDigit = true ∨ c.isLower = true := by
  refine ⟨fun h => (usernameChars_spec c h).2, ?_⟩
  rintro (rfl | h | h)
  · decide
  · have hc : 48 ≤ c.toNat ∧ c.toNat ≤ 57 := by
      simp only [Char.isDigit, Bool.and_eq_true, decide_eq_true_eq, UInt32.le_iff_toNat_le] at h
      exact h
    rw [← Char.ofNat_toNat c, show c.toNat = 48 + (c.toNat - 48) by omega]
    exact digit_mem_usernameChars _ (by omega)
  · have hc : 97 ≤ c.toNat ∧ c.toNat ≤ 122 := by
      simp only [Char.isLower, Bool.and_eq_true, decide_eq_true_eq, UInt32.le_iff_toNat_le] at h
      exact h
    rw [← Char.ofNat_toNat c, show c.toNat = 97 + (c.toNat - 97) by omega]
    exact lower_mem_usernameChars _ (by omega)

theorem toUInt8_mem_usernameCharset_iff {c : Char} (hc : c.toNat < 128) :
    c.toUInt8 ∈ usernameCharset ↔ c ∈ usernameChars := by
  refine ⟨fun h => ?_, List.mem_map_of_mem⟩
  obtain ⟨d, hd, hdc⟩ := List.mem_map.mp h
  exact eq_of_toUInt8_eq (usernameChars_lt hd) hc hdc ▸ hd

theorem toUInt8_eq_dash_iff {c : Char} (hc : c.toNat < 128) : c.toUInt8 = dash ↔ c = '-' :=
  ⟨fun h => eq_of_toUInt8_eq hc (by decide) h, fun h => h ▸ rfl⟩

/-- The bytes of a name are all in the charset exactly when its characters are. -/
theorem mem_usernameCharset_iff {cs : List Char} :
    (∀ b ∈ asBytes (String.ofList cs), b ∈ usernameCharset) ↔ ∀ c ∈ cs, c ∈ usernameChars := by
  constructor
  · intro h c hc
    have hbytes : ∀ b ∈ String.utf8EncodeChar c, b ∈ usernameCharset := fun b hb =>
      h b (by rw [asBytes_ofList]; exact List.mem_flatMap.mpr ⟨c, hc, hb⟩)
    have hfirst : (String.utf8EncodeChar c).head! ∈ String.utf8EncodeChar c := by
      apply List.head!_mem_self
      rw [← List.length_pos_iff_ne_nil, String.length_utf8EncodeChar]
      exact Char.utf8Size_pos c
    have hascii : c.toNat < 128 := by
      obtain ⟨d, hd, hdb⟩ := List.mem_map.mp (hbytes _ hfirst)
      refine lt_of_mem_utf8EncodeChar hfirst ?_
      rw [← hdb]
      rw [toNat_toUInt8_of_lt (usernameChars_lt hd)]
      exact usernameChars_lt hd
    rw [← toUInt8_mem_usernameCharset_iff hascii]
    exact hbytes _ (by simp [utf8EncodeChar_of_lt hascii])
  · intro h b hb
    rw [asBytes_ofList_of_lt fun c hc => usernameChars_lt (h c hc)] at hb
    obtain ⟨c, hc, rfl⟩ := List.mem_map.mp hb
    exact (toUInt8_mem_usernameCharset_iff (usernameChars_lt (h c hc))).mpr (h c hc)

/-! ## What `validate` accepts -/

/-- `validate` over the bytes: every check passes. -/
theorem validate_eq_ok_iff (s : String) :
    validate s = .ok () ↔
      minUsernameLength ≤ (asBytes s).length ∧ (asBytes s).length ≤ maxUsernameLength ∧
      (∀ b ∈ asBytes s, b ∈ usernameCharset) ∧
      ((asBytes s).IsChain fun a b => ¬(a = dash ∧ b = dash)) ∧
      ∀ c ∈ s.toList.head?, c.isDigit = false := by
  rw [← any_zip_tail_eq_false_iff]
  unfold validate
  dsimp only
  split_ifs with h₁ h₂ h₃ h₄
  · simp only [false_iff]
    omega
  · simp only [false_iff]
    omega
  · simp only [List.any_eq_true, decide_eq_true_eq] at h₃
    obtain ⟨b, hb, hnot⟩ := h₃
    simp only [false_iff]
    exact fun h => hnot (h.2.2.1 b hb)
  · simp only [false_iff]
    exact fun h => by rw [h.2.2.2.1] at h₄; cases h₄
  · -- every check on the bytes passed; what is left is the first character
    simp only [List.any_eq_true, decide_eq_true_eq, not_exists, not_and, not_not] at h₃
    simp only [Bool.not_eq_true] at h₄
    have hbytes : minUsernameLength ≤ (asBytes s).length ∧ (asBytes s).length ≤ maxUsernameLength ∧
        (∀ b ∈ asBytes s, b ∈ usernameCharset) ∧
        ((asBytes s).zip (asBytes s).tail).any (fun p => decide (p.1 = dash ∧ p.2 = dash)) = false :=
      ⟨by omega, by omega, h₃, h₄⟩
    split
    · rename_i c hc
      rw [hc]
      split_ifs with hd
      · exact iff_of_false (by simp) fun h => absurd (h.2.2.2.2 c rfl) (by simp [hd])
      · exact iff_of_true rfl ⟨hbytes.1, hbytes.2.1, hbytes.2.2.1, hbytes.2.2.2, by simpa using hd⟩
    · rename_i hc
      rw [hc]
      exact iff_of_true rfl ⟨hbytes.1, hbytes.2.1, hbytes.2.2.1, hbytes.2.2.2, by simp⟩

/-- `validate` accepts a name exactly when its characters are lowercase letters, digits and single
dashes, 5 to 63 of them, not starting with a digit. -/
theorem validate_ofList_eq_ok_iff (cs : List Char) :
    validate (String.ofList cs) = .ok () ↔ ValidUsername cs := by
  rw [validate_eq_ok_iff, String.toList_ofList, mem_usernameCharset_iff]
  have hbytes (hchars : ∀ c ∈ cs, c ∈ usernameChars) :
      asBytes (String.ofList cs) = cs.map Char.toUInt8 :=
    asBytes_ofList_of_lt fun c hc => usernameChars_lt (hchars c hc)
  have hdash (hchars : ∀ c ∈ cs, c ∈ usernameChars) :
      (cs.map Char.toUInt8).IsChain (fun a b => ¬(a = dash ∧ b = dash)) ↔
        cs.IsChain fun a b => ¬(a = '-' ∧ b = '-') := by
    rw [List.isChain_map]
    apply isChain_congr_of_mem
    intro a ha b hb
    rw [toUInt8_eq_dash_iff (usernameChars_lt (hchars a ha)),
      toUInt8_eq_dash_iff (usernameChars_lt (hchars b hb))]
  constructor
  · rintro ⟨hge, hle, hchars, hchain, hhead⟩
    rw [hbytes hchars, List.length_map] at hge hle
    rw [hbytes hchars, hdash hchars] at hchain
    exact ⟨hge, hle, hchars, hchain, hhead⟩
  · rintro ⟨hge, hle, hchars, hchain, hhead⟩
    rw [hbytes hchars, List.length_map, hdash hchars]
    exact ⟨hge, hle, hchars, hchain, hhead⟩

end Air.Username
