import Air.Control.Except
import Mathlib.Data.Vector.Basic

/-! # Byte codecs that read from the front

A decoder reads a value from the front of a byte string and returns the bytes after it. Its
law against an encoder is the round trip: decoding what was encoded, with anything after it,
gives the value back and leaves the rest untouched. Codecs of records are those of their
fields one after another (`encPair`, `decPair`), exact decoding refuses trailing bytes, and a
fixed-width byte array is written raw.

A byte vector is written behind a length prefix. `VarBytes` is such a codec with its laws as
fields, and `quicVarBytes` the one whose prefix is the variable-length integer of QUIC, of at
most four bytes and in its shortest form, as `tls_codec` writes the vectors of MLS.
-/

namespace Codec

variable {ε α β : Type}

/-- `dec` reads back what `enc` writes of every value satisfying `P`, whatever follows it. -/
def RoundTrips (enc : α → Except ε (List UInt8)) (dec : List UInt8 → Except ε (α × List UInt8))
    (P : α → Prop) : Prop :=
  ∀ a, P a → ∀ e, enc a = .ok e → ∀ rest, dec (e ++ rest) = .ok (a, rest)

/-! ## Records -/

def encPair (encA : α → Except ε (List UInt8)) (encB : β → Except ε (List UInt8)) (p : α × β) :
    Except ε (List UInt8) := do
  let ea ← encA p.1
  let eb ← encB p.2
  pure (ea ++ eb)

def decPair (decA : List UInt8 → Except ε (α × List UInt8))
    (decB : List UInt8 → Except ε (β × List UInt8)) (bytes : List UInt8) :
    Except ε ((α × β) × List UInt8) := do
  let (a, rest) ← decA bytes
  let (b, rest) ← decB rest
  pure ((a, b), rest)

theorem encPair_eq_ok {encA : α → Except ε (List UInt8)} {encB : β → Except ε (List UInt8)}
    {p : α × β} {e : List UInt8} :
    encPair encA encB p = .ok e ↔ ∃ ea eb, encA p.1 = .ok ea ∧ encB p.2 = .ok eb ∧ e = ea ++ eb := by
  simp only [encPair, Except.bind_eq_ok, Except.pure_eq_ok]
  constructor
  · rintro ⟨ea, hea, eb, heb, rfl⟩
    exact ⟨ea, eb, hea, heb, rfl⟩
  · rintro ⟨ea, eb, hea, heb, rfl⟩
    exact ⟨ea, hea, eb, heb, rfl⟩

theorem roundTrips_pair {encA : α → Except ε (List UInt8)} {decA : List UInt8 → Except ε (α × List UInt8)}
    {encB : β → Except ε (List UInt8)} {decB : List UInt8 → Except ε (β × List UInt8)}
    {P : α → Prop} {Q : β → Prop} (hA : RoundTrips encA decA P) (hB : RoundTrips encB decB Q) :
    RoundTrips (encPair encA encB) (decPair decA decB) fun p => P p.1 ∧ Q p.2 := by
  rintro ⟨a, b⟩ ⟨ha, hb⟩ e he rest
  obtain ⟨ea, eb, hea, heb, rfl⟩ := encPair_eq_ok.mp he
  have hfirst := hA a ha ea hea (eb ++ rest)
  have hsecond := hB b hb eb heb rest
  rw [decPair, List.append_assoc, hfirst]
  simp only [bind, Except.bind, hsecond]
  rfl

theorem roundTrips_comap {γ : Type} {enc : α → Except ε (List UInt8)}
    {dec : List UInt8 → Except ε (α × List UInt8)} {P : α → Prop} (h : RoundTrips enc dec P)
    (fields : γ → α) (build : α → γ) (hbuild : ∀ c, build (fields c) = c) :
    RoundTrips (fun c => enc (fields c)) (fun bytes => (fun p => (build p.1, p.2)) <$> dec bytes)
      fun c => P (fields c) := by
  intro c hc e he rest
  show (fun p => (build p.1, p.2)) <$> dec (e ++ rest) = _
  rw [h (fields c) hc e he rest]
  simp only [Functor.map, Except.map, hbuild]

/-! ## Exact decoding -/

def decExact (trailing : ε) (dec : List UInt8 → Except ε (α × List UInt8)) (bytes : List UInt8) :
    Except ε α := do
  let (a, rest) ← dec bytes
  if rest.isEmpty then pure a else throw trailing

theorem decExact_of_roundTrips {enc : α → Except ε (List UInt8)}
    {dec : List UInt8 → Except ε (α × List UInt8)} {P : α → Prop} (h : RoundTrips enc dec P)
    (trailing : ε) {a : α} (ha : P a) {e : List UInt8} (he : enc a = .ok e) :
    decExact trailing dec e = .ok a := by
  have hdec := h a ha e he []
  rw [List.append_nil] at hdec
  simp only [decExact, hdec, bind, Except.bind, List.isEmpty_nil, if_true]
  rfl

/-! ## Fixed-width byte arrays -/

def encFixed {n : ℕ} (v : Vector UInt8 n) : Except ε (List UInt8) := .ok v.toList

def decFixed (eos : ε) (n : ℕ) (bytes : List UInt8) : Except ε (Vector UInt8 n × List UInt8) :=
  if h : n ≤ bytes.length then
    .ok (⟨(bytes.take n).toArray, by simp only [List.size_toArray, List.length_take]; omega⟩,
      bytes.drop n)
  else .error eos

theorem roundTrips_fixed (eos : ε) (n : ℕ) :
    RoundTrips (encFixed (ε := ε) (n := n)) (decFixed eos n) fun _ => True := by
  intro v _ e he rest
  cases he
  have hlen : n ≤ (v.toList ++ rest).length := by simp
  rw [decFixed, dif_pos hlen]
  have htake : (v.toList ++ rest).take n = v.toList := by
    rw [List.take_append_of_le_length (by simp), List.take_of_length_le (by simp)]
  have hdrop : (v.toList ++ rest).drop n = rest := List.drop_left' (by simp)
  simp only [htake, hdrop]
  rfl

/-! ## Length-prefixed byte vectors -/

/-- A codec of byte vectors behind a length prefix, with its laws: vectors up to `maxLen`
bytes are written, in `serializedLen` bytes, and read back; and an empty input has no
prefix to read. -/
structure VarBytes (ε : Type) where
  encode : List UInt8 → Except ε (List UInt8)
  serializedLen : List UInt8 → ℕ
  decode : List UInt8 → Except ε (List UInt8 × List UInt8)
  maxLen : ℕ
  encode_ok : ∀ v, v.length ≤ maxLen → ∃ e, encode v = .ok e
  length_encode : ∀ v e, encode v = .ok e → e.length = serializedLen v
  roundTrips : RoundTrips encode decode fun _ => True
  decode_nil : ∃ err, decode [] = .error err

/-- The variable-length integer of QUIC in one, two or four bytes: the top two bits of the
first byte give the width, the rest of the bits the number, most significant first. -/
def lengthPrefix (n : ℕ) : List UInt8 :=
  if n < 2 ^ 6 then [n.toUInt8]
  else if n < 2 ^ 14 then [(2 ^ 6 + n / 2 ^ 8).toUInt8, n.toUInt8]
  else [(2 ^ 7 + n / 2 ^ 24).toUInt8, (n / 2 ^ 16).toUInt8, (n / 2 ^ 8).toUInt8, n.toUInt8]

/-- Reads a length prefix: the eight-byte width is `invalid`, and so is a number not written
in its shortest form; input that ends inside the prefix is `eos`. -/
def readPrefix (eos invalid : ε) : List UInt8 → Except ε (ℕ × List UInt8)
  | [] => .error eos
  | b :: rest =>
    match b.toNat / 2 ^ 6, rest with
    | 0, rest => .ok (b.toNat % 2 ^ 6, rest)
    | 1, c :: rest =>
      let n := b.toNat % 2 ^ 6 * 2 ^ 8 + c.toNat
      if 2 ^ 6 ≤ n then .ok (n, rest) else .error invalid
    | 2, c₁ :: c₂ :: c₃ :: rest =>
      let n := ((b.toNat % 2 ^ 6 * 2 ^ 8 + c₁.toNat) * 2 ^ 8 + c₂.toNat) * 2 ^ 8 + c₃.toNat
      if 2 ^ 14 ≤ n then .ok (n, rest) else .error invalid
    | 3, _ => .error invalid
    | _, _ => .error eos

theorem readPrefix_lengthPrefix (eos invalid : ε) {n : ℕ} (hn : n < 2 ^ 30) (rest : List UInt8) :
    readPrefix eos invalid (lengthPrefix n ++ rest) = .ok (n, rest) := by
  have hbyte : ∀ m : ℕ, m.toUInt8.toNat = m % 2 ^ 8 := fun m => by simp
  unfold lengthPrefix
  split_ifs with h₁ h₂
  · -- one byte: the number itself
    have hb : n.toUInt8.toNat = n := by rw [hbyte]; omega
    have htag : n / 2 ^ 6 = 0 := Nat.div_eq_of_lt h₁
    simp only [List.singleton_append, readPrefix, hb, htag, Nat.mod_eq_of_lt h₁]
  · -- two bytes: tag `01`, then fourteen bits
    have hb : (2 ^ 6 + n / 2 ^ 8).toUInt8.toNat = 2 ^ 6 + n / 2 ^ 8 := by rw [hbyte]; omega
    have htag : (2 ^ 6 + n / 2 ^ 8) / 2 ^ 6 = 1 := by omega
    have hn' : (2 ^ 6 + n / 2 ^ 8) % 2 ^ 6 * 2 ^ 8 + n % 2 ^ 8 = n := by omega
    simp only [List.cons_append, List.nil_append, readPrefix, hb, htag, hbyte, hn']
    rw [if_pos (by omega)]
  · -- four bytes: tag `10`, then thirty bits
    have hb : (2 ^ 7 + n / 2 ^ 24).toUInt8.toNat = 2 ^ 7 + n / 2 ^ 24 := by rw [hbyte]; omega
    have htag : (2 ^ 7 + n / 2 ^ 24) / 2 ^ 6 = 2 := by omega
    have hn' : (((2 ^ 7 + n / 2 ^ 24) % 2 ^ 6 * 2 ^ 8 + n / 2 ^ 16 % 2 ^ 8) * 2 ^ 8 +
        n / 2 ^ 8 % 2 ^ 8) * 2 ^ 8 + n % 2 ^ 8 = n := by omega
    simp only [List.cons_append, List.nil_append, readPrefix, hb, htag, hbyte, hn']
    rw [if_pos (by omega)]

def quicEncode (invalid : ε) (v : List UInt8) : Except ε (List UInt8) :=
  if v.length < 2 ^ 30 then .ok (lengthPrefix v.length ++ v) else .error invalid

def quicDecode (eos invalid : ε) (bytes : List UInt8) : Except ε (List UInt8 × List UInt8) := do
  let (n, rest) ← readPrefix eos invalid bytes
  if n ≤ rest.length then pure (rest.take n, rest.drop n) else throw eos

theorem quicDecode_quicEncode (eos invalid : ε) :
    RoundTrips (quicEncode invalid) (quicDecode eos invalid) fun _ => True := by
  intro v _ e he rest
  rw [quicEncode] at he
  split_ifs at he with hv
  cases he
  have hlen : v.length ≤ (v ++ rest).length := by simp
  rw [quicDecode, List.append_assoc, readPrefix_lengthPrefix eos invalid hv]
  simp only [bind, Except.bind, if_pos hlen, List.take_left, List.drop_left]
  rfl

/-- A length written in more bytes than it needs is refused. -/
example : readPrefix (ε := ℕ) 0 1 [0x40, 0x03] = .error 1 := by decide

example : quicDecode (ε := ℕ) 0 1 [0x03, 7, 8, 9, 5] = .ok ([7, 8, 9], [5]) := by decide

def quicVarBytes (eos invalid : ε) : VarBytes ε where
  encode := quicEncode invalid
  serializedLen v := (lengthPrefix v.length).length + v.length
  decode := quicDecode eos invalid
  maxLen := 2 ^ 30 - 1
  encode_ok v hv := ⟨_, if_pos (by omega)⟩
  length_encode v e he := by
    rw [quicEncode] at he
    split_ifs at he
    cases he
    exact List.length_append
  roundTrips := quicDecode_quicEncode eos invalid
  decode_nil := ⟨eos, rfl⟩

end Codec
