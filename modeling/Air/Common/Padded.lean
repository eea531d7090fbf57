import Air.Common.Padme
import Air.Control.Except

/-! # Length-padded AEAD encryption

`common/src/crypto/aead/padded.rs`. A value is encoded with `PersistenceCodec`, then framed
as `pad_len (u32 LE) ‖ pad_len zero bytes ‖ content` of total length
`max(floor, padme_len(4 + content.len()))`, and the frame is encrypted. Decryption reads the
prefix back, skips the padding and decodes the rest.

The AEAD and the codec are parameters, with the laws a round trip needs: the AEAD decrypts,
under a key and an AAD, what it encrypted under them, and its ciphertext length depends on
the plaintext length only; the codec decodes what it encoded. Lengths are `usize` on a 64-bit
target; a slice holds at most `isize::MAX` bytes.
-/

namespace Air

inductive EncryptionError where
  | randomnessError
  | encryptionError
  | serializationError
  | ratchetForwardError
  deriving DecidableEq, Repr

inductive DecryptionError where
  | decryptionError
  | deserializationError
  | serializationError
  | ratchetForwardError
  deriving DecidableEq, Repr

def padPrefixLen : ℕ := 4

def isizeMax : ℕ := 2 ^ 63 - 1

def u32ToLeBytes (n : ℕ) : List UInt8 := [n, n / 2 ^ 8, n / 2 ^ 16, n / 2 ^ 24].map UInt8.ofNat

def u32FromLeBytes (bytes : List UInt8) : ℕ :=
  bytes.foldr (fun b acc => b.toNat + 2 ^ 8 * acc) 0

def resize {α : Type*} (v : List α) (newLen : ℕ) (value : α) : List α :=
  v.take newLen ++ List.replicate (newLen - v.length) value

def checkedAdd (a b : ℕ) : Option ℕ := if a + b ≤ usizeMax then some (a + b) else none

/-- The padding `pad` puts before `content`. -/
def padLenOf (content : List UInt8) (floor : ℕ) : ℕ :=
  max floor (padmeLen (padPrefixLen + content.length)) - padPrefixLen - content.length

def pad (content : List UInt8) (floor : ℕ) : Except EncryptionError (List UInt8) :=
  let padLen := padLenOf content floor
  -- u32::try_from(pad_len)
  if padLen < 2 ^ 32 then
    .ok (resize (u32ToLeBytes padLen) (padPrefixLen + padLen) 0 ++ content)
  else .error .serializationError

def unpad (plaintext : List UInt8) : Except DecryptionError (List UInt8) := do
  -- plaintext.get(..PAD_PREFIX_LEN)
  let padLenPrefix ← if padPrefixLen ≤ plaintext.length then pure (plaintext.take padPrefixLen)
    else throw .deserializationError
  let padLen := u32FromLeBytes padLenPrefix
  let contentStart := checkedAdd padPrefixLen padLen
  (contentStart.bind fun start =>
    if start ≤ plaintext.length then some (plaintext.drop start) else none).getDM
    (throw .deserializationError)

/-- `PersistenceCodec`, the versioned CBOR codec; its errors are not told apart. -/
structure PersistenceCodec (α : Type) where
  toVec : α → Option (List UInt8)
  fromSlice : List UInt8 → Option α

def PersistenceCodec.Inverts {α : Type} (codec : PersistenceCodec α) : Prop :=
  ∀ x bytes, codec.toVec x = some bytes → codec.fromSlice bytes = some x

/-- An AEAD under `AeadKey`: encryption of a message with an AAD, decryption of a ciphertext
with an AAD, and the length of a ciphertext. -/
structure AeadScheme (Key Ct : Type) where
  encrypt : Key → List UInt8 → List UInt8 → Except EncryptionError Ct
  decrypt : Key → Ct → List UInt8 → Except DecryptionError (List UInt8)
  ciphertextLen : Ct → ℕ

variable {Key Ct α β : Type}

def AeadScheme.Correct (aead : AeadScheme Key Ct) : Prop :=
  ∀ key msg aad ct, aead.encrypt key msg aad = .ok ct → aead.decrypt key ct aad = .ok msg

/-- The length of a ciphertext depends on the length of the plaintext only, as for AES-GCM. -/
def AeadScheme.LengthDetermined (aead : AeadScheme Key Ct) : Prop :=
  ∀ key key' msg msg' aad aad' ct ct', aead.encrypt key msg aad = .ok ct →
    aead.encrypt key' msg' aad' = .ok ct' → msg.length = msg'.length →
    aead.ciphertextLen ct = aead.ciphertextLen ct'

section Encryption

variable (aead : AeadScheme Key Ct) (codec : PersistenceCodec α)

def padAndSerialize (content : α) (floor : ℕ) : Except EncryptionError (List UInt8) := do
  let content ← (codec.toVec content).getDM (throw .serializationError)
  pad content floor

/-- `PaddedAeadEncryptable::encrypt_padded`, with the type's `PAD_FLOOR`. -/
def encryptPadded (padFloor : ℕ) (x : α) (key : Key) : Except EncryptionError Ct := do
  let plaintext ← padAndSerialize codec x padFloor
  aead.encrypt key plaintext []

def encryptPaddedWithAad (aadCodec : PersistenceCodec β) (padFloor : ℕ) (x : α) (key : Key)
    (aad : β) : Except EncryptionError Ct := do
  let plaintext ← padAndSerialize codec x padFloor
  let aad ← (aadCodec.toVec aad).getDM (throw .serializationError)
  aead.encrypt key plaintext aad

def decryptPadded (key : Key) (ciphertext : Ct) : Except DecryptionError α := do
  let plaintext ← aead.decrypt key ciphertext []
  let content ← unpad plaintext
  (codec.fromSlice content).getDM (throw .deserializationError)

def decryptPaddedWithAad (aadCodec : PersistenceCodec β) (key : Key) (ciphertext : Ct)
    (aad : β) : Except DecryptionError α := do
  let aad ← (aadCodec.toVec aad).getDM (throw .serializationError)
  let plaintext ← aead.decrypt key ciphertext aad
  let content ← unpad plaintext
  (codec.fromSlice content).getDM (throw .deserializationError)

end Encryption

/-! ## The frame -/

theorem u32FromLeBytes_u32ToLeBytes {n : ℕ} (hn : n < 2 ^ 32) : u32FromLeBytes (u32ToLeBytes n) = n := by
  simp only [u32FromLeBytes, u32ToLeBytes, List.map_cons, List.map_nil, List.foldr_cons,
    List.foldr_nil, UInt8.toNat_ofNat']
  omega

theorem length_u32ToLeBytes (n : ℕ) : (u32ToLeBytes n).length = padPrefixLen := rfl

theorem resize_of_le {γ : Type*} {v : List γ} {n : ℕ} (h : v.length ≤ n) (value : γ) :
    resize v n value = v ++ List.replicate (n - v.length) value := by
  simp [resize, List.take_of_length_le h]

theorem pad_eq_ok {content padded : List UInt8} {floor : ℕ} :
    pad content floor = .ok padded ↔ padLenOf content floor < 2 ^ 32 ∧
      padded = u32ToLeBytes (padLenOf content floor) ++
        List.replicate (padLenOf content floor) 0 ++ content := by
  simp only [pad]
  split
  · rename_i hfit
    rw [resize_of_le (by simp [length_u32ToLeBytes]), length_u32ToLeBytes,
      Nat.add_sub_cancel_left]
    simp only [Except.ok.injEq]
    exact ⟨fun h => ⟨hfit, h.symm⟩, fun h => h.2.symm⟩
  · rename_i hfit
    constructor
    · intro h
      cases h
    · intro h
      exact absurd h.1 hfit

theorem unpad_frame {padLen : ℕ} (hpad : padLen < 2 ^ 32) (content : List UInt8) :
    unpad (u32ToLeBytes padLen ++ List.replicate padLen 0 ++ content) = .ok content := by
  have hlen : (u32ToLeBytes padLen ++ List.replicate padLen 0 ++ content).length =
      padPrefixLen + padLen + content.length := by
    simp only [List.length_append, length_u32ToLeBytes, List.length_replicate]
  have hprefix : (u32ToLeBytes padLen ++ List.replicate padLen 0 ++ content).take padPrefixLen =
      u32ToLeBytes padLen := by
    rw [List.append_assoc, List.take_left' (length_u32ToLeBytes padLen)]
  have hstart : checkedAdd padPrefixLen padLen = some (padPrefixLen + padLen) := by
    unfold checkedAdd usizeMax padPrefixLen
    rw [if_pos (by omega)]
  have hdrop : (u32ToLeBytes padLen ++ List.replicate padLen 0 ++ content).drop
      (padPrefixLen + padLen) = content :=
    List.drop_left' (by simp only [List.length_append, length_u32ToLeBytes, List.length_replicate])
  have hfits : padPrefixLen + padLen ≤ padPrefixLen + padLen + content.length := by omega
  simp only [unpad, hlen, if_pos (Nat.le_trans (Nat.le_add_right _ padLen) hfits), pure_bind,
    hprefix, u32FromLeBytes_u32ToLeBytes hpad, hstart, Option.bind_some, if_pos hfits, hdrop]
  rfl

theorem padLenOf_add {content : List UInt8} (hc : content.length ≤ isizeMax) (floor : ℕ) :
    padPrefixLen + padLenOf content floor + content.length =
      max floor (padmeLen (padPrefixLen + content.length)) := by
  have hle : padPrefixLen + content.length ≤ padmeLen (padPrefixLen + content.length) :=
    le_padmeLen (by unfold padPrefixLen isizeMax at *; omega)
  unfold padLenOf
  omega

theorem pad_unpad {content padded : List UInt8} {floor : ℕ} (h : pad content floor = .ok padded) :
    unpad padded = .ok content := by
  obtain ⟨hfit, rfl⟩ := pad_eq_ok.mp h
  exact unpad_frame hfit content

theorem length_pad {content padded : List UInt8} {floor : ℕ} (hc : content.length ≤ isizeMax)
    (h : pad content floor = .ok padded) :
    padded.length = max floor (padmeLen (padPrefixLen + content.length)) := by
  obtain ⟨-, rfl⟩ := pad_eq_ok.mp h
  rw [← padLenOf_add hc floor]
  simp [length_u32ToLeBytes]
  omega

/-! ## Encryption and decryption -/

section Laws

variable {aead : AeadScheme Key Ct} {codec : PersistenceCodec α}

theorem padAndSerialize_eq_ok {x : α} {floor : ℕ} {plaintext : List UInt8} :
    padAndSerialize codec x floor = .ok plaintext ↔
      ∃ content, codec.toVec x = some content ∧ pad content floor = .ok plaintext := by
  simp [padAndSerialize]

theorem encryptPadded_eq_ok {padFloor : ℕ} {x : α} {key : Key} {ct : Ct} :
    encryptPadded aead codec padFloor x key = .ok ct ↔ ∃ plaintext,
      (∃ content, codec.toVec x = some content ∧ pad content padFloor = .ok plaintext) ∧
        aead.encrypt key plaintext [] = .ok ct := by
  simp only [encryptPadded, Except.bind_eq_ok, padAndSerialize_eq_ok]

theorem encryptPaddedWithAad_eq_ok {aadCodec : PersistenceCodec β} {padFloor : ℕ} {x : α}
    {key : Key} {aad : β} {ct : Ct} :
    encryptPaddedWithAad aead codec aadCodec padFloor x key aad = .ok ct ↔ ∃ plaintext,
      (∃ content, codec.toVec x = some content ∧ pad content padFloor = .ok plaintext) ∧
        ∃ aadBytes, aadCodec.toVec aad = some aadBytes ∧
          aead.encrypt key plaintext aadBytes = .ok ct := by
  simp only [encryptPaddedWithAad, Except.bind_eq_ok, padAndSerialize_eq_ok, Except.getDM_eq_ok]

theorem decryptPadded_of_unpad (hinv : codec.Inverts) {key : Key} {ct : Ct} {x : α}
    {content plaintext : List UInt8} (hx : codec.toVec x = some content)
    (hdec : aead.decrypt key ct [] = .ok plaintext) (hunpad : unpad plaintext = .ok content) :
    decryptPadded aead codec key ct = .ok x := by
  simp [decryptPadded, hdec, hunpad, hinv x content hx, bind, Except.bind, Option.getDM]

theorem decryptPaddedWithAad_of_unpad (hinv : codec.Inverts) {aadCodec : PersistenceCodec β}
    {key : Key} {ct : Ct} {x : α} {aad : β} {aadBytes content plaintext : List UInt8}
    (hx : codec.toVec x = some content) (haad : aadCodec.toVec aad = some aadBytes)
    (hdec : aead.decrypt key ct aadBytes = .ok plaintext) (hunpad : unpad plaintext = .ok content) :
    decryptPaddedWithAad aead codec aadCodec key ct aad = .ok x := by
  simp [decryptPaddedWithAad, haad, hdec, hunpad, hinv x content hx, bind, Except.bind, pure,
    Except.pure, Option.getDM]

end Laws

/-- The frame round trip with its exact length, and, under a correct AEAD and an inverting
codec, the padded encryptions decrypt to the value, and two values whose encodings fall in
the same Padmé bucket encrypt to ciphertexts of one length. -/
theorem padded_roundTrip (aead : AeadScheme Key Ct) (codec : PersistenceCodec α)
    (aadCodec : PersistenceCodec β) (hcorrect : aead.Correct)
    (hlength : aead.LengthDetermined) (hinv : codec.Inverts) (padFloor : ℕ) :
    (∀ (content : List UInt8) (floor : ℕ), content.length ≤ isizeMax →
      padLenOf content floor < 2 ^ 32 →
      ∃ padded, pad content floor = .ok padded ∧
        padded.length = max floor (padmeLen (padPrefixLen + content.length)) ∧
        unpad padded = .ok content) ∧
    (∀ (x : α) (key : Key) (ct : Ct), encryptPadded aead codec padFloor x key = .ok ct →
      decryptPadded aead codec key ct = .ok x) ∧
    (∀ (x : α) (key : Key) (aad : β) (ct : Ct),
      encryptPaddedWithAad aead codec aadCodec padFloor x key aad = .ok ct →
      decryptPaddedWithAad aead codec aadCodec key ct aad = .ok x) ∧
    (∀ (x y : α) (bx byt : List UInt8) (key key' : Key) (cx cy : Ct),
      codec.toVec x = some bx → codec.toVec y = some byt →
      bx.length ≤ isizeMax → byt.length ≤ isizeMax →
      padmeLen (padPrefixLen + bx.length) = padmeLen (padPrefixLen + byt.length) →
      encryptPadded aead codec padFloor x key = .ok cx →
      encryptPadded aead codec padFloor y key' = .ok cy →
      aead.ciphertextLen cx = aead.ciphertextLen cy) := by
  refine ⟨?frame, ?plain, ?withAad, ?bucket⟩
  case frame =>
    intro content floor hc hfit
    have hpad : pad content floor = .ok (u32ToLeBytes (padLenOf content floor) ++
        List.replicate (padLenOf content floor) 0 ++ content) := pad_eq_ok.mpr ⟨hfit, rfl⟩
    exact ⟨_, hpad, length_pad hc hpad, pad_unpad hpad⟩
  case plain =>
    intro x key ct hok
    obtain ⟨plaintext, ⟨content, hx, hpad⟩, henc⟩ := encryptPadded_eq_ok.mp hok
    exact decryptPadded_of_unpad hinv hx (hcorrect _ _ _ _ henc) (pad_unpad hpad)
  case withAad =>
    intro x key aad ct hok
    obtain ⟨plaintext, ⟨content, hx, hpad⟩, aadBytes, haad, henc⟩ :=
      encryptPaddedWithAad_eq_ok.mp hok
    exact decryptPaddedWithAad_of_unpad hinv hx haad (hcorrect _ _ _ _ henc) (pad_unpad hpad)
  case bucket =>
    intro x y bx byt key key' cx cy hx hy hbx hby hbucket hcx hcy
    obtain ⟨px, ⟨cx', hx', hpx⟩, hencx⟩ := encryptPadded_eq_ok.mp hcx
    obtain ⟨py, ⟨cy', hy', hpy⟩, hency⟩ := encryptPadded_eq_ok.mp hcy
    obtain rfl : cx' = bx := Option.some.inj (hx'.symm.trans hx)
    obtain rfl : cy' = byt := Option.some.inj (hy'.symm.trans hy)
    apply hlength _ _ _ _ _ _ _ _ hencx hency
    rw [length_pad hbx hpx, length_pad hby hpy, hbucket]

/-- An AEAD whose ciphertext is the message, and the identity codec on bytes. -/
def plainAead : AeadScheme Unit (List UInt8) := ⟨fun _ msg _ => .ok msg, fun _ ct _ => .ok ct, List.length⟩

def bytesCodec : PersistenceCodec (List UInt8) := ⟨some, some⟩

theorem plainAead_correct : plainAead.Correct := by
  intro key msg aad ct h
  cases h
  rfl

theorem plainAead_lengthDetermined : plainAead.LengthDetermined := by
  intro key key' msg msg' aad aad' ct ct' h h' hlen
  cases h
  cases h'
  exact hlen

theorem bytesCodec_inverts : bytesCodec.Inverts := by
  intro x bytes h
  cases h
  rfl

theorem padded_roundTrip_plain :
    ∃ ct, encryptPadded plainAead bytesCodec 128 [1, 2, 3] () = .ok ct ∧
      decryptPadded plainAead bytesCodec () ct = .ok [1, 2, 3] :=
  ⟨_, rfl, (padded_roundTrip plainAead bytesCodec bytesCodec plainAead_correct
    plainAead_lengthDetermined bytesCodec_inverts 128).2.1 [1, 2, 3] () _ rfl⟩

end Air
