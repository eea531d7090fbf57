import Mathlib.Logic.Function.Iterate
import Mathlib.Tactic.Common

/-! # The queue ratchet

`QueueRatchet` of `common/src/crypto/ratchet/mod.rs`: a sequence number, a secret
and the key derived from the secret. `ratchet_forward` derives the next secret
from the current one and the key from the new secret; `encrypt` and `decrypt`
use the current key and then ratchet forward.

The two KDF derivations and the AEAD are parameters. The derivations are total:
they expand a `KDF_KEY_SIZE` key to a fixed output length, for which the HKDF
expansion cannot fail. The AEAD may fail in both directions.

Every ratchet built from one secret by `try_from` and ratchet steps is determined
by its sequence number (`chain`), which is what keeps the server's and the
client's ratchet in lockstep.
-/

namespace Air

/-- The primitives the queue ratchet is built on. -/
structure RatchetPrimitives (Secret Key Payload Ciphertext : Type*) where
  /-- `RatchetSecret::derive(&secret, &Vec::new())` -/
  deriveSecret : Secret → Secret
  /-- `RatchetKey::derive(&secret, &Vec::new())` -/
  deriveKey : Secret → Key
  /-- `AeadEncryptable::encrypt` -/
  encrypt : Key → Payload → Option Ciphertext
  /-- `AeadDecryptable::decrypt` -/
  decrypt : Key → Ciphertext → Option Payload

def RatchetPrimitives.DecryptsEncryption {S K P C : Type*} (prim : RatchetPrimitives S K P C) :
    Prop :=
  ∀ k p c, prim.encrypt k p = some c → prim.decrypt k c = some p

def plainPrimitives : RatchetPrimitives ℕ ℕ ℕ ℕ :=
  ⟨id, id, fun _ p => some p, fun _ c => some c⟩

theorem plainPrimitives_decryptsEncryption : plainPrimitives.DecryptsEncryption := by
  intro k p c h
  simpa [plainPrimitives] using h.symm

structure QueueRatchet (Secret Key : Type*) where
  sequenceNumber : ℕ
  secret : Secret
  key : Key

/-- `QueueMessage`: a ciphertext tagged with the sequence number it was encrypted at. -/
structure QueueMessage (Ciphertext : Type*) where
  sequenceNumber : ℕ
  ciphertext : Ciphertext

variable {S K P C : Type*} (prim : RatchetPrimitives S K P C)

namespace QueueRatchet

def tryFrom (secret : S) : QueueRatchet S K := ⟨0, secret, prim.deriveKey secret⟩

def ratchetForward (r : QueueRatchet S K) : QueueRatchet S K :=
  let secret := prim.deriveSecret r.secret
  ⟨r.sequenceNumber + 1, secret, prim.deriveKey secret⟩

/-- `QueueRatchet::encrypt`: the message carries the current sequence number. -/
def encrypt (r : QueueRatchet S K) (payload : P) : Option (QueueMessage C × QueueRatchet S K) :=
  (prim.encrypt r.key payload).map fun ciphertext =>
    (⟨r.sequenceNumber, ciphertext⟩, r.ratchetForward prim)

/-- `QueueRatchet::decrypt`: the current key, whatever sequence number the message carries. -/
def decrypt (r : QueueRatchet S K) (m : QueueMessage C) : Option (P × QueueRatchet S K) :=
  (prim.decrypt r.key m.ciphertext).map fun plaintext => (plaintext, r.ratchetForward prim)

def chain (secret : S) (n : ℕ) : QueueRatchet S K := (ratchetForward prim)^[n] (tryFrom prim secret)

variable {prim}

@[simp] theorem ratchetForward_sequenceNumber (r : QueueRatchet S K) :
    (r.ratchetForward prim).sequenceNumber = r.sequenceNumber + 1 := rfl

@[simp] theorem tryFrom_sequenceNumber (secret : S) :
    (tryFrom prim secret : QueueRatchet S K).sequenceNumber = 0 := rfl

theorem chain_succ (secret : S) (n : ℕ) :
    (chain prim secret (n + 1) : QueueRatchet S K) = (chain prim secret n).ratchetForward prim :=
  Function.iterate_succ_apply' _ _ _

@[simp] theorem chain_zero (secret : S) : (chain prim secret 0 : QueueRatchet S K) = tryFrom prim secret :=
  rfl

@[simp] theorem chain_sequenceNumber (secret : S) (n : ℕ) :
    (chain prim secret n : QueueRatchet S K).sequenceNumber = n := by
  induction n with
  | zero => rfl
  | succ n ih => rw [chain_succ, ratchetForward_sequenceNumber, ih]

@[simp] theorem iterate_ratchetForward_sequenceNumber (r : QueueRatchet S K) (n : ℕ) :
    ((ratchetForward prim)^[n] r).sequenceNumber = r.sequenceNumber + n := by
  induction n with
  | zero => rfl
  | succ n ih => rw [Function.iterate_succ_apply', ratchetForward_sequenceNumber, ih, Nat.add_assoc]

theorem chain_ratchetForward (secret : S) (n : ℕ) :
    (chain prim secret n : QueueRatchet S K).ratchetForward prim = chain prim secret (n + 1) :=
  (chain_succ secret n).symm

theorem encrypt_eq_some {r r' : QueueRatchet S K} {payload : P} {m : QueueMessage C}
    (h : r.encrypt prim payload = some (m, r')) :
    prim.encrypt r.key payload = some m.ciphertext ∧ m.sequenceNumber = r.sequenceNumber ∧
      r' = r.ratchetForward prim := by
  simp only [encrypt, Option.map_eq_some_iff, Prod.mk.injEq] at h
  obtain ⟨c, hc, rfl, rfl⟩ := h
  exact ⟨hc, rfl, rfl⟩

end QueueRatchet

end Air
