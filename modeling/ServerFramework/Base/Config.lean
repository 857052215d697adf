import Mathlib.Algebra.Group.Int.Defs
import Mathlib.Algebra.Group.Nat.Defs
import ServerFramework.Library.Runs

namespace ServerFramework.Base
open Library

-- A `char` of the source is one of the first 256 of these.
abbrev Text := List Char

inductive StdException
  | invalidArgument
  | outOfRange
  deriving DecidableEq, Repr

-- `δ` stands for `double`.
inductive ConfigValue (δ : Type)
  | null
  | bool (b : Bool)
  | int (i : Int)
  | int64 (i : Int)
  | double (d : δ)
  | string (s : Text)
  | ints (is : List Int)
  | int64s (is : List Int)
  | doubles (ds : List δ)
  | strings (ss : List Text)
  deriving DecidableEq, Repr

/-- A node; the entries of `children_` have different keys, in no particular order. -/
inductive ConfigNode (δ : Type)
  | mk (value : Option (ConfigValue δ)) (children : List (Text × ConfigNode δ))

namespace ConfigNode

variable {δ : Type}

def value : ConfigNode δ → Option (ConfigValue δ)
  | mk value _ => value

def children : ConfigNode δ → List (Text × ConfigNode δ)
  | mk _ children => children

def empty : ConfigNode δ := mk none []

def assign (key : Text) (node : ConfigNode δ) : List (Text × ConfigNode δ) → List (Text × ConfigNode δ)
  | [] => [(key, node)]
  | (other, child) :: rest =>
      if other = key then (key, node) :: rest else (other, child) :: assign key node rest

def getKey (node : ConfigNode δ) (key : Text) : Option (ConfigNode δ) := node.children.lookup key

def putChild (key : Text) (child node : ConfigNode δ) : ConfigNode δ :=
  mk node.value (assign key child node.children)

def setKey (key : Text) (v : ConfigValue δ) (node : ConfigNode δ) : ConfigNode δ :=
  putChild key (mk (some v) []) node

/-- Entries of an `unordered_map` do not move, so the path of keys to a node stands for its address. -/
def follow (node : ConfigNode δ) : List Text → Option (ConfigNode δ)
  | [] => some node
  | key :: path => (node.getKey key).bind fun child => child.follow path

def modify (f : ConfigNode δ → ConfigNode δ) : List Text → ConfigNode δ → ConfigNode δ
  | [], node => f node
  | key :: path, node =>
      match node.getKey key with
      | none => node
      | some child => putChild key (child.modify f path) node

end ConfigNode

/-! ## The standard library -/

-- `std::isspace` in the "C" locale
def isStdSpace (c : Char) : Bool := c ∈ [' ', '\t', '\n', '\x0b', '\x0c', '\r']

def signOf : Text → Int × Text
  | '-' :: rest => (-1, rest)
  | '+' :: rest => (1, rest)
  | text => (1, text)

def strtol (text : Text) : Option Int :=
  let (sign, rest) := signOf (text.dropWhile isStdSpace)
  let digits := rest.takeWhile Char.isDigit
  if digits.isEmpty then none else some (sign * Nat.ofDigitChars 10 digits 0)

def Fits (bits : Nat) (v : Int) : Prop := -2 ^ (bits - 1) ≤ v ∧ v < 2 ^ (bits - 1)

instance (bits : Nat) (v : Int) : Decidable (Fits bits v) :=
  inferInstanceAs (Decidable (-2 ^ (bits - 1) ≤ v ∧ v < 2 ^ (bits - 1)))

def stringToInt (bits : Nat) (text : Text) : Except StdException Int :=
  match strtol text with
  | none => .error .invalidArgument
  | some v => if Fits bits v then .ok v else .error .outOfRange

def stoi : Text → Except StdException Int := stringToInt 32

def stoll : Text → Except StdException Int := stringToInt 64

/-- An `std::istream`: what is left to read, or failed for good after a read past the end. -/
inductive Stream
  | good (rest : Text)
  | failed
  deriving DecidableEq, Repr

/-- `is.get(c)`: the new value of `c` and the stream, which has failed when `c` keeps its value. -/
def Stream.get : Stream → Char → Char × Stream
  | .good (d :: rest), _ => (d, .good rest)
  | .good [], c => (c, .failed)
  | .failed, c => (c, .failed)

def Stream.putback : Stream → Char → Stream
  | .good rest, c => .good (c :: rest)
  | .failed, _ => .failed

@[simp] theorem Stream.get_good (d : Char) (rest : Text) (c : Char) :
    (Stream.good (d :: rest)).get c = (d, .good rest) := rfl

@[simp] theorem Stream.get_failed (c : Char) : Stream.failed.get c = (c, .failed) := rfl

@[simp] theorem Stream.putback_good (rest : Text) (c : Char) :
    (Stream.good rest).putback c = .good (c :: rest) := rfl

@[simp] theorem Stream.putback_failed (c : Char) : Stream.failed.putback c = .failed := rfl

/-! ## `json_parser` -/

namespace JsonParser

def isSpace (c : Char) : Bool := c == ' ' || c == '\t' || c == '\n' || c == '\r'

def skipSpaces : Text → Stream
  | [] => .failed
  | c :: rest => if isSpace c then skipSpaces rest else .good (c :: rest)

def skipWs : Stream → Stream
  | .good text => skipSpaces text
  | .failed => .failed

@[simp] theorem skipWs_failed : skipWs .failed = .failed := rfl

def unescape (n : Char) : Char :=
  if n = 'n' then '\n' else if n = 't' then '\t' else if n = 'r' then '\r' else n

-- What the uninitialised locals `n` of `parse_string` and `c` of `parse_value` hold when their `get` fails.
variable {δ : Type} (n₀ c₀ : Char) (stod : Text → Except StdException δ)

def stringBody : Text → Text × Stream
  | [] => ([], .failed)
  | c :: rest =>
      if c = '\\' then
        match rest with
        | [] => ([unescape n₀], .failed)
        | n :: rest =>
            let (s, is) := stringBody rest
            (unescape n :: s, is)
      else if c = '"' then ([], .good rest)
      else
        let (s, is) := stringBody rest
        (c :: s, is)

def parseString : Stream → Text × Stream
  | .good (_ :: rest) => stringBody n₀ rest
  | .good [] => ([], .failed)
  | .failed => ([], .failed)

@[simp] theorem parseString_good (c : Char) (rest : Text) :
    parseString n₀ (.good (c :: rest)) = stringBody n₀ rest := rfl

@[simp] theorem parseString_failed : parseString n₀ .failed = ([], .failed) := rfl

def arrayBody : Char × Stream × List Text → (Char × Stream × List Text) ⊕ (Stream × List Text)
  | (c, is, arr) =>
      let (c, is) := (skipWs is).get c
      if c = ']' then .inr (is, arr)
      else
        let (s, is) := parseString n₀ (is.putback c)
        let (c, is) := (skipWs is).get c
        if c = ']' then .inr (is.putback c, arr ++ [s])
        else if c ≠ ',' then .inr (is.putback c, arr ++ [s])
        else .inl (c, is, arr ++ [s])

def arrayValue (arr : List Text) : Except StdException (ConfigValue δ) :=
  if arr.all fun s => (stoi s).isOk then .int64s <$> arr.mapM stoll
  else if arr.all fun s => (stod s).isOk then .doubles <$> arr.mapM stod
  else .ok (.strings arr)

def isDelimiter (c : Char) : Bool := isSpace c || c == ',' || c == ']' || c == '}'

def tokenTail : Text → Text × Stream
  | [] => ([], .failed)
  | c :: rest =>
      if isDelimiter c then ([], .good (c :: rest))
      else
        let (token, is) := tokenTail rest
        (c :: token, is)

def readToken (c : Char) : Stream → Text × Stream
  | .good rest =>
      let (token, is) := tokenTail rest
      (c :: token, is)
  | .failed => ([c], .failed)

def tokenValue (token : Text) : Except StdException (ConfigValue δ) :=
  if token = ['t', 'r', 'u', 'e'] then .ok (.bool true)
  else if token = ['f', 'a', 'l', 's', 'e'] then .ok (.bool false)
  else if token = ['n', 'u', 'l', 'l'] then .ok .null
  else if '.' ∈ token then .double <$> stod token
  else .int64 <$> stoll token

/-- `none` when the array loop is still going after `fuel` rounds. -/
def parseValue (fuel : Nat) (is : Stream) : Option (Except StdException (ConfigValue δ) × Stream) :=
  let (c, is) := (skipWs is).get c₀
  if c = '"' then
    let (s, is) := parseString n₀ (is.putback c)
    some (.ok (.string s), is)
  else if c = '[' then
    (loop (arrayBody n₀) fuel (c, is, [])).map fun (is, arr) => (arrayValue stod arr, is)
  else if c = '{' then some (.ok .null, is.putback c)
  else
    let (token, is) := readToken c is
    some (tokenValue stod token, is)

end JsonParser

/-! ## `Config` -/

/-- `parse_json_stream` between two rounds of its loop; the back of the stack comes first. -/
structure Loader (δ : Type) where
  stream : Stream
  root : ConfigNode δ := .empty
  stack : List (List Text) := [[]]
  lastKey : Text := []

structure Loaded (δ : Type) where
  root : ConfigNode δ
  thrown : Option StdException

namespace Loader
open JsonParser

variable {δ : Type} (n₀ c₀ : Char) (stod : Text → Except StdException δ)

def back (s : Loader δ) : List Text := s.stack.headD []

def openBrace (s : Loader δ) : Loader δ :=
  let target := s.back ++ [s.lastKey]
  if s.lastKey ≠ [] ∧ (s.root.follow target).isSome then
    { s with stack := target :: s.stack, lastKey := [] }
  else { s with lastKey := [] }

def closeBrace (s : Loader δ) : Loader δ :=
  { s with stack := if s.stack.length > 1 then s.stack.tail else s.stack, lastKey := [] }

def readMember (fuel : Nat) (s : Loader δ) : Loader δ ⊕ Option (Loaded δ) :=
  let (key, is) := parseString n₀ s.stream
  let (c, is) := (skipWs is).get '"'
  if c = ':' then
    let (c, is) := (skipWs is).get c
    match parseValue n₀ c₀ stod fuel (is.putback c) with
    | none => .inr none
    | some (.error e, _) => .inr (some ⟨s.root, some e⟩)
    | some (.ok v, is) =>
        .inl { s with stream := is, root := s.root.modify (.setKey key v) s.back, lastKey := key }
  else .inl { s with stream := is }

def step (fuel : Nat) (s : Loader δ) : Loader δ ⊕ Option (Loaded δ) :=
  match s.stream with
  | .good (c :: rest) =>
      if isSpace c then .inl { s with stream := .good rest }
      else if c = '{' then .inl { s.openBrace with stream := .good rest }
      else if c = '}' then .inl { s.closeBrace with stream := .good rest }
      else if c = '"' then readMember n₀ c₀ stod fuel s
      else .inl { s with stream := .good rest }
  | .good [] => .inr (some ⟨s.root, none⟩)
  | .failed => .inr (some ⟨s.root, none⟩)

end Loader

namespace Config

variable {δ : Type}

/-- `none` when one of the loops is still going after `fuel` rounds. -/
def parseJsonStream (n₀ c₀ : Char) (stod : Text → Except StdException δ) (fuel : Nat) (text : Text) :
    Option (Loaded δ) :=
  (loop (Loader.step n₀ c₀ stod fuel) fuel { stream := .good text }).join

/-- `get`, from the character `start` of `path` on. -/
def getFrom (cur : ConfigNode δ) : Nat → Text → Option (ConfigNode δ)
  | 0, _ => some cur
  | _, [] => some cur
  | n + 1, path =>
      let key := path.takeWhile (· ≠ '.')
      (cur.getKey key).bind fun child =>
        match path.drop key.length with
        | [] => some child
        | _ :: rest => getFrom child n rest

def get (root : ConfigNode δ) (path : Text) : Option (ConfigNode δ) := getFrom root path.length path

end Config

end ServerFramework.Base
