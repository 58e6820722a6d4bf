import Invokr.Json
import Invokr.Like
import Mathlib.Data.List.Sort

namespace Invokr

open TextLib

/-- The text PostgreSQL gives back for a number in a `JSONB` column. -/
abbrev NumericText := Num → { s : String // s.toList.all isNumberChar = true }

/-- The order of an object's keys in a `JSONB` column: shorter ones first, then by their bytes. -/
def jsonbKeyLe (a b : String × List Char) : Prop := a.1.utf8ByteSize < b.1.utf8ByteSize ∨ a.1.utf8ByteSize = b.1.utf8ByteSize ∧ a.1 ≤ b.1

instance : DecidableRel jsonbKeyLe := fun a b =>
  inferInstanceAs (Decidable (a.1.utf8ByteSize < b.1.utf8ByteSize ∨ a.1.utf8ByteSize = b.1.utf8ByteSize ∧ a.1 ≤ b.1))

namespace Json

mutual

/-- `spec::TEXT` of a `JSONB` column. -/
def jsonbChars (numeric : NumericText) : Json → List Char
  | .null => "null".toList
  | .bool b => if b then "true".toList else "false".toList
  | .num n => (numeric n).val.toList
  | .str s => quote s
  | .arr items => '[' :: ((", ".toList).intercalate (jsonbItems numeric items) ++ [']'])
  | .obj fields => '\x7b' ::
      ((", ".toList).intercalate (((jsonbFields numeric fields).insertionSort jsonbKeyLe).map Prod.snd) ++ ['\x7d'])

def jsonbItems (numeric : NumericText) : List Json → List (List Char)
  | [] => []
  | j :: rest => j.jsonbChars numeric :: jsonbItems numeric rest

def jsonbFields (numeric : NumericText) : List (String × Json) → List (String × List Char)
  | [] => []
  | (k, v) :: rest => (k, quote k ++ (": ".toList ++ v.jsonbChars numeric)) :: jsonbFields numeric rest

end

mutual

/-- The strings of a value, those that are keys included. -/
def strings : Json → List String
  | .str s => [s]
  | .arr items => stringsItems items
  | .obj fields => stringsFields fields
  | _ => []

def stringsItems : List Json → List String
  | [] => []
  | j :: rest => j.strings ++ stringsItems rest

def stringsFields : List (String × Json) → List String
  | [] => []
  | (k, v) :: rest => k :: (v.strings ++ stringsFields rest)

end

end Json

/-- `spec::TEXT LIKE '%{{secret.' || name || '}}%'` -/
def mentionsSecret (numeric : NumericText) (spec : Json) (name : String) : Bool :=
  fits id (wilds ("%\x7b\x7bsecret.".toList ++ (name.toList ++ "\x7d\x7d%".toList))) (spec.jsonbChars numeric)

end Invokr
