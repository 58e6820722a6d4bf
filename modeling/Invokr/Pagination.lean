import Invokr.Base64

namespace Invokr

structure PaginationParams where
  cursor : Option String
  limit : Int

def defaultLimit : Int := 50

def PaginationParams.effectiveLimit (p : PaginationParams) : Int := max 1 (min p.limit 200)

/-- A cursor that is no base64 of UTF-8 text counts as none. -/
def PaginationParams.decodeCursor (p : PaginationParams) : Option String := do
  let c ← p.cursor
  let bytes ← Base64.decode c.toList
  String.fromUTF8? ⟨bytes.toArray⟩

def encodeCursor (value : String) : String := String.ofList (Base64.encode value.toUTF8.data.toList)

structure PaginatedResponse (α : Type) where
  data : List α
  cursor : Option String

theorem fromUTF8_toUTF8 (s : String) : String.fromUTF8? s.toUTF8 = some s := by
  unfold String.fromUTF8?
  split
  next => simp [String.fromUTF8, String.toUTF8]
  next h => exact absurd s.isValidUTF8 h

theorem decodeCursor_encodeCursor (value : String) (limit : Int) :
    PaginationParams.decodeCursor ⟨some (encodeCursor value), limit⟩ = some value := by
  have bytes : (⟨value.toUTF8.data.toList.toArray⟩ : ByteArray) = value.toUTF8 := by rw [Array.toArray_toList]
  simp only [PaginationParams.decodeCursor, encodeCursor, String.toList_ofList, Base64.decode_encode, Option.bind_eq_bind,
    Option.bind_some, bytes, fromUTF8_toUTF8]

theorem effectiveLimit_pos (p : PaginationParams) : 0 < p.effectiveLimit := by
  unfold PaginationParams.effectiveLimit
  omega

end Invokr
