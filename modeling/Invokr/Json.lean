import Mathlib.Data.List.Basic
import Mathlib.Algebra.Group.Int.Defs
import Mathlib.Algebra.Group.Nat.Defs

namespace Invokr

def isNumberChar (c : Char) : Bool := c.isDigit || c = '-' || c = '+' || c = '.' || c = 'e' || c = 'E'

/-- A number as `serde_json` keeps it; of a float only its text is used. -/
inductive Num where
  | int (n : Int)
  | float (text : { s : String // s.toList.all isNumberChar = true })
  deriving DecidableEq, Repr

inductive Json where
  | null
  | bool (b : Bool)
  | num (n : Num)
  | str (s : String)
  | arr (items : List Json)
  | obj (fields : List (String × Json))
  deriving Repr

def hexDigit (n : Nat) : Char := if n < 10 then Char.ofNat (48 + n) else Char.ofNat (87 + n)

def escapeChar (c : Char) : List Char :=
  if c = '"' then ['\\', '"']
  else if c = '\\' then ['\\', '\\']
  else if c.toNat = 8 then ['\\', 'b']
  else if c.toNat = 12 then ['\\', 'f']
  else if c = '\n' then ['\\', 'n']
  else if c = '\r' then ['\\', 'r']
  else if c = '\t' then ['\\', 't']
  else if c.toNat < 32 then ['\\', 'u', '0', '0', hexDigit (c.toNat / 16), hexDigit (c.toNat % 16)]
  else [c]

def quote (s : String) : List Char := '"' :: s.toList.flatMap escapeChar ++ ['"']

/-- `serde_json::Map::insert`: the keys stay in increasing order. -/
def insertField (k : String) (v : Json) : List (String × Json) → List (String × Json)
  | [] => [(k, v)]
  | (k', v') :: rest =>
    if k = k' then (k, v) :: rest
    else if k < k' then (k, v) :: (k', v') :: rest
    else (k', v') :: insertField k v rest

namespace Json

def object (fields : List (String × Json)) : Json := .obj (fields.foldl (fun m f => insertField f.1 f.2 m) [])

def get (j : Json) (key : String) : Option Json :=
  match j with
  | .obj fields => fields.lookup key
  | _ => none

def asObject : Json → Option (List (String × Json))
  | .obj fields => some fields
  | _ => none

def asStr : Json → Option String
  | .str s => some s
  | _ => none

def asArray : Json → Option (List Json)
  | .arr items => some items
  | _ => none

def asI64 : Json → Option Int
  | .num (.int n) => if -2 ^ 63 ≤ n ∧ n < 2 ^ 63 then some n else none
  | _ => none

def asU64 : Json → Option Nat
  | .num (.int n) => if 0 ≤ n ∧ n < 2 ^ 64 then some n.toNat else none
  | _ => none

def isNull : Json → Bool
  | .null => true
  | _ => false

def int (n : Int) : Json := .num (.int n)

mutual

/-- The characters of the compact text `Value::to_string` writes. -/
def chars : Json → List Char
  | .null => "null".toList
  | .bool b => if b then "true".toList else "false".toList
  | .num (.int n) => (toString n).toList
  | .num (.float t) => t.val.toList
  | .str s => quote s
  | .arr items => '[' :: charsItems items ++ [']']
  | .obj fields => '\x7b' :: charsFields fields ++ ['\x7d']

def charsItems : List Json → List Char
  | [] => []
  | [j] => j.chars
  | j :: rest => j.chars ++ ',' :: charsItems rest

def charsFields : List (String × Json) → List Char
  | [] => []
  | [(k, v)] => quote k ++ ':' :: v.chars
  | (k, v) :: rest => quote k ++ ':' :: v.chars ++ ',' :: charsFields rest

end

def text (j : Json) : String := String.ofList j.chars

end Json

/-- PostgreSQL has no text with the character U+0000. -/
def textAccepts (s : String) : Bool := s.toList.all fun c => c.toNat ≠ 0

mutual

/-- A `JSONB` column takes a value unless one of its strings holds the character U+0000. -/
def jsonbAccepts : Json → Bool
  | .str s => textAccepts s
  | .arr items => jsonbAcceptsItems items
  | .obj fields => jsonbAcceptsFields fields
  | _ => true

def jsonbAcceptsItems : List Json → Bool
  | [] => true
  | j :: rest => jsonbAccepts j && jsonbAcceptsItems rest

def jsonbAcceptsFields : List (String × Json) → Bool
  | [] => true
  | (k, v) :: rest => textAccepts k && jsonbAccepts v && jsonbAcceptsFields rest

end

end Invokr
