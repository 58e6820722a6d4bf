import Invokr.Json

namespace Invokr

/-- The text before the first occurrence of `pat` and the text after it. -/
def splitAt (pat : List Char) : List Char → Option (List Char × List Char)
  | [] => if pat.isEmpty then some ([], []) else none
  | c :: rest =>
    if pat.isPrefixOf (c :: rest) then some ([], (c :: rest).drop pat.length)
    else (splitAt pat rest).map fun r => (c :: r.1, r.2)

/-- The characters `str::trim` removes. -/
def isWhitespace (c : Char) : Bool :=
  (9 ≤ c.toNat && c.toNat ≤ 13) || c.toNat = 32 || c.toNat = 133 || c.toNat = 160 || c.toNat = 5760 ||
    (8192 ≤ c.toNat && c.toNat ≤ 8202) || c.toNat = 8232 || c.toNat = 8233 || c.toNat = 8239 ||
    c.toNat = 8287 || c.toNat = 12288

def trim (s : List Char) : List Char := ((s.dropWhile isWhitespace).reverse.dropWhile isWhitespace).reverse

def openMark : List Char := ['\x7b', '\x7b']

def closeMark : List Char := ['\x7d', '\x7d']

/-- The namespaces a template may name. -/
structure Scope where
  input : List (String × Json)
  config : List (String × Json)
  secrets : List (String × String)
  execution : List (String × Json)

def stripPrefix (pat : String) (var : List Char) : Option String :=
  if pat.toList.isPrefixOf var then some (String.ofList (var.drop pat.length)) else none

def unresolved (var : List Char) : String := "Unresolved template variable: " ++ String.ofList var

def resolveVariable (scope : Scope) (var : List Char) : Except String Json :=
  match stripPrefix "input." var with
  | some key => (scope.input.lookup key).elim (.error (unresolved var)) .ok
  | none =>
    match stripPrefix "config." var with
    | some key => (scope.config.lookup key).elim (.error (unresolved var)) .ok
    | none =>
      match stripPrefix "secret." var with
      | some key => (scope.secrets.lookup key).elim (.error (unresolved var)) fun v => .ok (.str v)
      | none =>
        match stripPrefix "execution." var with
        | some key => (scope.execution.lookup key).elim (.error (unresolved var)) .ok
        | none => .error ("Unknown template namespace in: " ++ String.ofList var)

def isSingleTemplate (s : List Char) : Option (List Char) :=
  let trimmed := trim s
  if openMark.isPrefixOf trimmed && closeMark.isSuffixOf trimmed then
    let inner := trim ((trimmed.drop 2).take (trimmed.length - 4))
    if (splitAt openMark inner).isNone then some inner else none
  else none

def replacement : Json → List Char
  | .str s => s.toList
  | other => other.chars

/-- The interpolation loop; each round goes on behind the text it has put in, so the fuel is the
length of what is left. -/
def interpolate (scope : Scope) : Nat → List Char → Except String (List Char)
  | 0, rest => .ok rest
  | fuel + 1, rest =>
    match splitAt openMark rest with
    | none => .ok rest
    | some (before, after) =>
      match splitAt closeMark after with
      | none => .ok rest
      | some (var, tail) => do
        let resolved ← resolveVariable scope (trim var)
        let done ← interpolate scope fuel tail
        return before ++ replacement resolved ++ done

def resolveString (scope : Scope) (s : String) : Except String Json :=
  match isSingleTemplate s.toList with
  | some var => resolveVariable scope var
  | none => (interpolate scope s.length s.toList).map fun r => .str (String.ofList r)

mutual

def resolve (scope : Scope) : Json → Except String Json
  | .str s => resolveString scope s
  | .obj fields => (resolveFields scope fields []).map .obj
  | .arr items => (resolveItems scope items).map .arr
  | other => .ok other

def resolveItems (scope : Scope) : List Json → Except String (List Json)
  | [] => .ok []
  | j :: rest => do
    let head ← resolve scope j
    let tail ← resolveItems scope rest
    return head :: tail

def resolveFields (scope : Scope) : List (String × Json) → List (String × Json) → Except String (List (String × Json))
  | [], result => .ok result
  | (k, v) :: rest, result => do
    let key ← resolveString scope k
    let value ← resolve scope v
    resolveFields scope rest (insertField (String.ofList (replacement key)) value result)

end

/-- The names `load_secrets` finds in the text of a spec, in order; the fuel is the text's length. -/
def secretNames : Nat → List Char → List String
  | 0, _ => []
  | fuel + 1, rest =>
    match splitAt (openMark ++ "secret.".toList) rest with
    | none => []
    | some (_, after) =>
      match splitAt closeMark after with
      | none => []
      | some (name, tail) => String.ofList name :: secretNames fuel tail

/-- `build_schema_name` and the tables' names allow letters, digits and the underscore. -/
def isWordChar (c : Char) : Bool := c.isAlphanum || c = '_'

def validateSchemaName (name : String) : Bool := name ≠ "" && name.toList.all isWordChar

end Invokr
