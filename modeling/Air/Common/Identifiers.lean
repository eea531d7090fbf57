import Air.Data.Codec

/-! # Identifiers and their TLS codecs

`Fqdn`, `QualifiedGroupId` and `UserId` of `common/src/identifiers/mod.rs`, with the TLS
codecs of `tls_codec_impls.rs` and the derived ones. url's `Host::parse` is the parameter
`hostParse` over its error type; the byte vectors of `tls_codec` are a `Codec.VarBytes`, whose
laws are all the proofs use. Rust strings are Lean strings: both are valid UTF-8 bytes.

An `Fqdn` holds any `Host`: `from_str` builds only domains of at most 100 bytes that
`Host::parse` returns, but `From<Host>` and serde build any. The encoder writes nothing at all
for an IP host, and the decoder parses the name with `from_str`. So a value reads back after
its encoding exactly when its name parses back to it (`fqdn_roundTrip_iff`), and an IP host
never does.
-/

namespace Air

open Codec

/-- `url::Host<String>`. -/
inductive Host where
  | domain (name : String)
  | ipv4 (addr : UInt32)
  | ipv6 (addr : BitVec 128)
  deriving DecidableEq, Repr

structure Fqdn where
  domain : Host
  deriving DecidableEq, Repr

inductive FqdnError (υ : Type) where
  | notADomainName
  | urlError (error : υ)

def FqdnError.toText {υ : Type} [ToString υ] : FqdnError υ → String
  | .notADomainName => "The given string does not represent a valid domain name."
  | .urlError error => toString error

inductive TlsError where
  | decodingError (msg : String)
  | endOfStream
  | trailingData
  | invalidVectorLength
  deriving DecidableEq, Repr

def asBytes (s : String) : List UInt8 := s.toByteArray.data.toList

def fromUtf8 (v : List UInt8) : Option String := String.fromUTF8? ⟨v.toArray⟩

theorem fromUtf8_asBytes (s : String) : fromUtf8 (asBytes s) = some s := by
  have hbytes : (⟨(asBytes s).toArray⟩ : ByteArray) = s.toByteArray := rfl
  rw [fromUtf8, hbytes, String.fromUTF8?, dif_pos s.isValidUTF8]
  rfl

structure QualifiedGroupId where
  groupUuid : Vector UInt8 16
  owningDomain : Fqdn
  deriving DecidableEq

structure UserId where
  uuid : Vector UInt8 16
  domain : Fqdn
  deriving DecidableEq

section Codecs

variable {υ : Type} (hostParse : String → Except υ Host) (vec : VarBytes TlsError)

/-! ## Encoding -/

def Fqdn.ofHost (value : Host) : Fqdn := ⟨value⟩

def Fqdn.fromStr (s : String) : Except (FqdnError υ) Fqdn :=
  if s.utf8ByteSize > 100 then .error .notADomainName else
  match hostParse s with
  | .error e => .error (.urlError e)
  | .ok (.domain d) => .ok ⟨.domain d⟩
  | .ok _ => .error .notADomainName

def tlsStrSerializedLen (s : String) : ℕ := vec.serializedLen (asBytes s)

def tlsStrSerialize (s : String) : Except TlsError (List UInt8) := vec.encode (asBytes s)

def TlsString.tlsDeserializeBytes (bytes : List UInt8) : Except TlsError (String × List UInt8) := do
  let (string, rest) ← vec.decode bytes
  let string ← (fromUtf8 string).getDM (throw (.decodingError "Couldn't decode string."))
  pure (string, rest)

def Fqdn.tlsSerializedLen (f : Fqdn) : ℕ :=
  match f.domain with
  | .domain domain => tlsStrSerializedLen vec domain
  | _ => 0

def Fqdn.tlsSerialize (f : Fqdn) : Except TlsError (List UInt8) :=
  match f.domain with
  | .domain domain => tlsStrSerialize vec domain
  | _ => .ok []

/-- The derived `TlsSerialize`: the group's UUID as sixteen raw bytes, then the domain. -/
def QualifiedGroupId.tlsSerialize (q : QualifiedGroupId) : Except TlsError (List UInt8) :=
  encPair encFixed (Fqdn.tlsSerialize vec) (q.groupUuid, q.owningDomain)

/-- `impl From<QualifiedGroupId> for GroupId`: a failed serialization is the `unwrap`'s panic,
`none`. -/
def groupIdOfQualified (q : QualifiedGroupId) : Option (List UInt8) :=
  match q.tlsSerialize vec with
  | .ok groupIdBytes => some groupIdBytes
  | .error _ => none

def UserId.tlsSerialize (u : UserId) : Except TlsError (List UInt8) :=
  encPair encFixed (Fqdn.tlsSerialize vec) (u.uuid, u.domain)

/-! ## `Fqdn` -/


/-- The name an `Fqdn` holds parses back to it: what `from_str` returns when `Host::parse`
gives its own domains back and the domain it returned fits the 100 bytes. -/
def Fqdn.Canonical (f : Fqdn) : Prop :=
  ∃ d, f.domain = .domain d ∧ Fqdn.fromStr hostParse d = .ok f

theorem length_asBytes (s : String) : (asBytes s).length = s.utf8ByteSize := by
  simp [asBytes]

theorem Fqdn.fromStr_eq_ok {s : String} {f : Fqdn} :
    Fqdn.fromStr hostParse s = .ok f ↔
      s.utf8ByteSize ≤ 100 ∧ ∃ d, hostParse s = .ok (.domain d) ∧ f = ⟨.domain d⟩ := by
  unfold Fqdn.fromStr
  split_ifs with hlen
  · simp only [false_iff, not_and]
    omega
  · rw [Nat.not_lt] at hlen
    simp only [hlen, true_and]
    split
    · rename_i heq
      simp [heq]
    · rename_i heq
      simp [heq, eq_comm]
    · -- an IP address
      rename_i hip heq
      simp only [reduceCtorEq, false_iff, heq, Except.ok.injEq, not_exists, not_and]
      intro d hd
      exact absurd hd (hip d)

theorem Fqdn.fromStr_domain {s : String} {f : Fqdn} (h : Fqdn.fromStr hostParse s = .ok f) :
    ∃ d, f.domain = .domain d := by
  obtain ⟨-, d, -, rfl⟩ := (Fqdn.fromStr_eq_ok hostParse).mp h
  exact ⟨d, rfl⟩

theorem Fqdn.canonical_of_fromStr
    (hstable : ∀ s d, hostParse s = .ok (.domain d) → hostParse d = .ok (.domain d))
    {s : String} {f : Fqdn} (h : Fqdn.fromStr hostParse s = .ok f)
    (hfits : ∀ d, f.domain = .domain d → d.utf8ByteSize ≤ 100) : f.Canonical hostParse := by
  obtain ⟨-, d, hparse, rfl⟩ := (Fqdn.fromStr_eq_ok hostParse).mp h
  exact ⟨d, rfl, (Fqdn.fromStr_eq_ok hostParse).mpr ⟨hfits d rfl, d, hstable s d hparse, rfl⟩⟩

theorem TlsString.roundTrips :
    RoundTrips (tlsStrSerialize vec) (TlsString.tlsDeserializeBytes vec) fun _ => True := by
  intro s _ e he rest
  have hdec := vec.roundTrips (asBytes s) trivial e he rest
  simp only [TlsString.tlsDeserializeBytes, hdec, fromUtf8_asBytes, bind, Except.bind,
    Option.getDM]
  rfl

theorem Fqdn.tlsSerialize_ok {f : Fqdn} (h100 : 100 ≤ vec.maxLen) (hf : f.Canonical hostParse) :
    ∃ e, f.tlsSerialize vec = .ok e := by
  obtain ⟨d, hd, hparse⟩ := hf
  have hlen := ((Fqdn.fromStr_eq_ok hostParse).mp hparse).1
  unfold Fqdn.tlsSerialize
  rw [hd]
  exact vec.encode_ok _ (by rw [length_asBytes]; omega)

theorem QualifiedGroupId.tlsSerialize_ok {q : QualifiedGroupId} (h100 : 100 ≤ vec.maxLen)
    (hq : q.owningDomain.Canonical hostParse) : ∃ e, q.tlsSerialize vec = .ok e := by
  obtain ⟨e, he⟩ := Fqdn.tlsSerialize_ok hostParse vec h100 hq
  exact ⟨q.groupUuid.toList ++ e, encPair_eq_ok.mpr ⟨_, _, rfl, he, rfl⟩⟩

/-! ## Decoding -/

variable [ToString υ]

def Fqdn.tlsDeserializeBytes (bytes : List UInt8) : Except TlsError (Fqdn × List UInt8) := do
  let (domainString, rest) ← TlsString.tlsDeserializeBytes vec bytes
  let domain ← (Fqdn.fromStr hostParse domainString).mapError fun error =>
    .decodingError ("Couldn't decode domain string: " ++ error.toText)
  pure (domain, rest)

def QualifiedGroupId.tlsDeserializeBytes (bytes : List UInt8) :
    Except TlsError (QualifiedGroupId × List UInt8) :=
  (fun ((groupUuid, owningDomain), rest) => (⟨groupUuid, owningDomain⟩, rest)) <$>
    decPair (decFixed .endOfStream 16) (Fqdn.tlsDeserializeBytes hostParse vec) bytes

/-- `impl TryFrom<&GroupId> for QualifiedGroupId`: `tls_deserialize_exact_bytes`. -/
def QualifiedGroupId.tryFrom (groupId : List UInt8) : Except TlsError QualifiedGroupId :=
  decExact .trailingData (QualifiedGroupId.tlsDeserializeBytes hostParse vec) groupId

def UserId.tlsDeserializeBytes (bytes : List UInt8) : Except TlsError (UserId × List UInt8) :=
  (fun ((uuid, domain), rest) => (⟨uuid, domain⟩, rest)) <$>
    decPair (decFixed .endOfStream 16) (Fqdn.tlsDeserializeBytes hostParse vec) bytes

theorem Fqdn.tlsDeserializeBytes_eq_ok {bytes rest : List UInt8} {f : Fqdn} :
    Fqdn.tlsDeserializeBytes hostParse vec bytes = .ok (f, rest) ↔
      ∃ s, TlsString.tlsDeserializeBytes vec bytes = .ok (s, rest) ∧
        Fqdn.fromStr hostParse s = .ok f := by
  simp only [Fqdn.tlsDeserializeBytes, Except.bind_eq_ok, Except.mapError_eq_ok,
    Except.pure_eq_ok, Prod.mk.injEq]
  constructor
  · rintro ⟨⟨s, rest'⟩, hs, g, hg, rfl, rfl⟩
    exact ⟨s, hs, hg⟩
  · rintro ⟨s, hs, hf⟩
    exact ⟨(s, rest), hs, f, hf, rfl, rfl⟩

/-- An `Fqdn` reads back after its encoding, whatever follows, exactly when it is canonical. -/
theorem fqdn_roundTrip_iff {f : Fqdn} {e : List UInt8} (he : f.tlsSerialize vec = .ok e)
    (rest : List UInt8) :
    Fqdn.tlsDeserializeBytes hostParse vec (e ++ rest) = .ok (f, rest) ↔ f.Canonical hostParse := by
  rw [Fqdn.tlsDeserializeBytes_eq_ok]
  unfold Fqdn.tlsSerialize at he
  split at he
  · -- a domain: the string read is its name
    rename_i d hd
    have hstr := TlsString.roundTrips vec d trivial e he rest
    constructor
    · rintro ⟨s, hs, hf⟩
      rw [hstr] at hs
      cases hs
      exact ⟨d, hd, hf⟩
    · rintro ⟨d', hd', hf⟩
      rw [hd] at hd'
      cases hd'
      exact ⟨d, hstr, hf⟩
  · -- an IP host: `from_str` never returns it
    rename_i hip
    constructor
    · rintro ⟨s, -, hf⟩
      obtain ⟨d, hd⟩ := Fqdn.fromStr_domain hostParse hf
      exact absurd hd (hip d)
    · rintro ⟨d, hd, -⟩
      exact absurd hd (hip d)

theorem Fqdn.roundTrips :
    RoundTrips (Fqdn.tlsSerialize vec) (Fqdn.tlsDeserializeBytes hostParse vec)
      (Fqdn.Canonical hostParse) :=
  fun _ hf _ he rest => (fqdn_roundTrip_iff hostParse vec he rest).mpr hf

theorem uuidFqdn_roundTrips :
    RoundTrips (encPair encFixed (Fqdn.tlsSerialize vec))
      (decPair (decFixed .endOfStream 16) (Fqdn.tlsDeserializeBytes hostParse vec))
      fun p : Vector UInt8 16 × Fqdn => True ∧ p.2.Canonical hostParse :=
  roundTrips_pair (roundTrips_fixed TlsError.endOfStream 16) (Fqdn.roundTrips hostParse vec)

theorem QualifiedGroupId.roundTrips :
    RoundTrips (QualifiedGroupId.tlsSerialize vec) (QualifiedGroupId.tlsDeserializeBytes hostParse vec)
      fun q => q.owningDomain.Canonical hostParse := by
  intro q hq
  exact roundTrips_comap (uuidFqdn_roundTrips hostParse vec) (fun q => (q.groupUuid, q.owningDomain))
    (fun p => ⟨p.1, p.2⟩) (fun _ => rfl) q ⟨trivial, hq⟩

theorem UserId.roundTrips :
    RoundTrips (UserId.tlsSerialize vec) (UserId.tlsDeserializeBytes hostParse vec)
      fun u => u.domain.Canonical hostParse := by
  intro u hu
  exact roundTrips_comap (uuidFqdn_roundTrips hostParse vec) (fun u => (u.uuid, u.domain))
    (fun p => ⟨p.1, p.2⟩) (fun _ => rfl) u ⟨trivial, hu⟩

/-- A group id whose domain is canonical converts to a `GroupId` without the panic, and back. -/
theorem tryFrom_groupIdOfQualified {q : QualifiedGroupId} (h100 : 100 ≤ vec.maxLen)
    (hq : q.owningDomain.Canonical hostParse) :
    ∃ g, groupIdOfQualified vec q = some g ∧ QualifiedGroupId.tryFrom hostParse vec g = .ok q := by
  obtain ⟨e, he⟩ := QualifiedGroupId.tlsSerialize_ok hostParse vec h100 hq
  refine ⟨e, by rw [groupIdOfQualified, he], ?_⟩
  exact decExact_of_roundTrips (QualifiedGroupId.roundTrips hostParse vec) _ hq he

theorem Fqdn.tlsDeserializeBytes_nil : ∃ err, Fqdn.tlsDeserializeBytes hostParse vec [] = .error err := by
  obtain ⟨err, herr⟩ := vec.decode_nil
  refine ⟨err, ?_⟩
  simp only [Fqdn.tlsDeserializeBytes, TlsString.tlsDeserializeBytes, herr]
  rfl

/-- An `Fqdn` of an IPv4 host, as `From<Host>` and serde build it, encodes to no bytes: its
decoding reads what follows as a name and never gives it back, and fails on an empty input. A
group id with it as its owning domain becomes its sixteen UUID bytes, with no panic, and does
not convert back. -/
theorem ipFqdn_roundTrip_fails (addr : UInt32) (groupUuid : Vector UInt8 16) :
    (Fqdn.ofHost (.ipv4 addr)).tlsSerialize vec = .ok [] ∧
      (Fqdn.ofHost (.ipv4 addr)).tlsSerializedLen vec = 0 ∧
      (∀ rest, Fqdn.tlsDeserializeBytes hostParse vec ([] ++ rest) ≠ .ok (Fqdn.ofHost (.ipv4 addr), rest)) ∧
      (∃ err, Fqdn.tlsDeserializeBytes hostParse vec [] = .error err) ∧
      groupIdOfQualified vec ⟨groupUuid, Fqdn.ofHost (.ipv4 addr)⟩ = some groupUuid.toList ∧
      ∃ err, QualifiedGroupId.tryFrom hostParse vec groupUuid.toList = .error err := by
  have hser : (Fqdn.ofHost (.ipv4 addr)).tlsSerialize vec = .ok [] := rfl
  have hgroup : (⟨groupUuid, Fqdn.ofHost (.ipv4 addr)⟩ : QualifiedGroupId).tlsSerialize vec =
      .ok groupUuid.toList := encPair_eq_ok.mpr ⟨_, _, rfl, hser, (List.append_nil _).symm⟩
  obtain ⟨err, herr⟩ := Fqdn.tlsDeserializeBytes_nil hostParse vec
  refine ⟨hser, rfl, fun rest h => ?_, ⟨err, herr⟩, by rw [groupIdOfQualified, hgroup], err, ?_⟩
  · -- only a canonical name reads back, and an IP host has no name
    obtain ⟨d, hd, -⟩ := (fqdn_roundTrip_iff hostParse vec hser rest).mp h
    cases hd
  · -- the sixteen bytes are the UUID, and no bytes are left for the domain
    have hfixed := roundTrips_fixed TlsError.endOfStream 16 groupUuid trivial _ rfl []
    rw [List.append_nil] at hfixed
    simp only [QualifiedGroupId.tryFrom, decExact, QualifiedGroupId.tlsDeserializeBytes, decPair,
      hfixed, bind, Except.bind, herr]
    rfl

end Codecs

/-- A group id whose owning domain `from_str` built converts to a `GroupId` without the panic, and
back, when `Host::parse` gives the domains it returns back as they are and the one it returned
fits the 100 bytes. -/
theorem groupId_roundTrip_of_fromStr {υ : Type} [ToString υ] (hostParse : String → Except υ Host)
    (vec : VarBytes TlsError) (h100 : 100 ≤ vec.maxLen)
    (hstable : ∀ s d, hostParse s = .ok (.domain d) → hostParse d = .ok (.domain d))
    {s : String} {f : Fqdn} (hf : Fqdn.fromStr hostParse s = .ok f)
    (hfits : ∀ d, f.domain = .domain d → d.utf8ByteSize ≤ 100) (groupUuid : Vector UInt8 16) :
    ∃ g, groupIdOfQualified vec ⟨groupUuid, f⟩ = some g ∧
      QualifiedGroupId.tryFrom hostParse vec g = .ok ⟨groupUuid, f⟩ :=
  tryFrom_groupIdOfQualified hostParse vec h100
    (Fqdn.canonical_of_fromStr hostParse hstable hf hfits)

def domainHost (s : String) : Except Unit Host := .ok (.domain s)

theorem groupId_roundTrip_of_fromStr_example :
    100 ≤ (quicVarBytes TlsError.endOfStream .invalidVectorLength).maxLen ∧
      (∀ s d, domainHost s = .ok (.domain d) → domainHost d = .ok (.domain d)) ∧
      Fqdn.fromStr domainHost "example.com" = .ok ⟨.domain "example.com"⟩ ∧
      (∀ d, (⟨.domain "example.com"⟩ : Fqdn).domain = .domain d → d.utf8ByteSize ≤ 100) ∧
      ∃ g, groupIdOfQualified (quicVarBytes .endOfStream .invalidVectorLength)
          ⟨Vector.replicate 16 0, ⟨.domain "example.com"⟩⟩ = some g ∧
        QualifiedGroupId.tryFrom domainHost (quicVarBytes .endOfStream .invalidVectorLength) g =
          .ok ⟨Vector.replicate 16 0, ⟨.domain "example.com"⟩⟩ := by
  have h100 : 100 ≤ (quicVarBytes TlsError.endOfStream .invalidVectorLength).maxLen := by decide
  have hstable : ∀ s d, domainHost s = .ok (.domain d) → domainHost d = .ok (.domain d) := by
    intro s d h
    simp only [domainHost, Except.ok.injEq, Host.domain.injEq] at h ⊢
  have hf : Fqdn.fromStr domainHost "example.com" = .ok ⟨.domain "example.com"⟩ := rfl
  have hfits : ∀ d, (⟨.domain "example.com"⟩ : Fqdn).domain = .domain d → d.utf8ByteSize ≤ 100 := by
    intro d hd
    cases hd
    decide
  exact ⟨h100, hstable, hf, hfits,
    groupId_roundTrip_of_fromStr domainHost _ h100 hstable hf hfits (Vector.replicate 16 0)⟩

end Air
