import Invokr.SinglePass
import Invokr.Pagination

namespace Invokr

/-- AES-256-GCM, which decrypts what it has encrypted under the same key and nonce. -/
structure Aes256Gcm where
  encrypt : List UInt8 → List UInt8 → List UInt8 → Except String (List UInt8)
  decrypt : List UInt8 → List UInt8 → List UInt8 → Except String (List UInt8)
  inverse : ∀ key nonce plaintext ciphertext, encrypt key nonce plaintext = .ok ciphertext →
    decrypt key nonce ciphertext = .ok plaintext

namespace Crypto

/-- What may panic, which is `none`. -/
abbrev Fallible := ExceptT String Option

def panics {α : Type} : Fallible α := ExceptT.mk none

/-- `char::to_digit(16)`. -/
def digit16 (c : Char) : Option Nat :=
  if '0' ≤ c ∧ c ≤ '9' then some (c.toNat - 48)
  else if 'a' ≤ c ∧ c ≤ 'f' then some (c.toNat - 87)
  else if 'A' ≤ c ∧ c ≤ 'F' then some (c.toNat - 55)
  else none

def invalidDigit : String := "invalid digit found in string"

def digits16 (n : Nat) (c : Char) : Except String Nat :=
  match digit16 c with
  | none => .error invalidDigit
  | some d => if 255 < 16 * n + d then .error "number too large to fit in target type" else .ok (16 * n + d)

/-- `u8::from_str_radix(_, 16)`, which takes a plus sign before the digits. -/
def u8FromStrRadix16 (src : List Char) : Except String UInt8 :=
  if src = [] then .error "cannot parse integer from empty string"
  else if src = ['+'] || src = ['-'] then .error invalidDigit
  else ((if src.head? = some '+' then src.tail else src).foldlM digits16 0).map UInt8.ofNat

/-- `(0..len).step_by(2)`. -/
def stepByTwo (len : Nat) : List Nat := (List.range ((len + 1) / 2)).map (2 * ·)

def hexDecode (hex : String) : Fallible (List UInt8) :=
  if String.utf8Len hex.toList ≠ 64 then throw "Encryption key must be 64 hex chars (32 bytes)"
  else (stepByTwo (String.utf8Len hex.toList)).mapM fun i => do
    let pair ← (InPlace.slice hex.toList i (i + 2) : Fallible (List Char))
    ExceptT.mk (some (u8FromStrRadix16 pair))

/-- `Aes256Gcm::new_from_slice`. -/
def newFromSlice (keyBytes : List UInt8) : Fallible Unit :=
  if keyBytes.length = 32 then return () else throw "Invalid key length: Invalid Length"

/-- `Nonce::from_slice`. -/
def nonceFromSlice (bytes : List UInt8) : Fallible (List UInt8) := if bytes.length = 12 then return bytes else panics

/-- The nonce is what `fill_bytes` has drawn. -/
def encrypt (aes : Aes256Gcm) (nonceBytes : List UInt8) (plaintext keyHex : String) : Fallible (List UInt8) := do
  let keyBytes ← hexDecode keyHex
  newFromSlice keyBytes
  let nonce ← nonceFromSlice nonceBytes
  match aes.encrypt keyBytes nonce plaintext.toUTF8.data.toList with
  | .error e => throw ("Encryption failed: " ++ e)
  | .ok ciphertext => return nonceBytes ++ ciphertext

/-- `slice::split_at`. -/
def splitAt (bytes : List UInt8) (mid : Nat) : Fallible (List UInt8 × List UInt8) :=
  if mid ≤ bytes.length then return (bytes.take mid, bytes.drop mid) else panics

/-- The message of a text that is not UTF-8 is left to the standard library. -/
def decrypt (aes : Aes256Gcm) (utf8Error : List UInt8 → String) (encrypted : List UInt8) (keyHex : String) : Fallible String := do
  if encrypted.length < 12 then throw "Encrypted data too short"
  let keyBytes ← hexDecode keyHex
  newFromSlice keyBytes
  let (nonceBytes, ciphertext) ← splitAt encrypted 12
  let nonce ← nonceFromSlice nonceBytes
  match aes.decrypt keyBytes nonce ciphertext with
  | .error e => throw ("Decryption failed: " ++ e)
  | .ok plaintext =>
    match String.fromUTF8? ⟨plaintext.toArray⟩ with
    | some text => return text
    | none => throw (utf8Error plaintext)

end Crypto

end Invokr
