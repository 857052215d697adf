import Mathlib.Data.List.DropRight
import ServerFramework.Base.Config

namespace ServerFramework.Base

/-- `none` where the optional has no value to look at. -/
def ConfigNode.asString {δ : Type} (node : ConfigNode δ) : Option Text :=
  match node.value with
  | none => none
  | some (.string s) => some s
  | some _ => some []

def ConfigNode.asArray {δ : Type} (node : ConfigNode δ) : Option (List (ConfigValue δ)) :=
  match node.value with
  | none => none
  | some (.ints is) => some (is.map .int)
  | some (.int64s is) => some (is.map .int64)
  | some (.doubles ds) => some (ds.map .double)
  | some (.strings ss) => some (ss.map .string)
  | some _ => some []

/-! ## INI -/

inductive IniLine
  | skip
  | header (name : Text)
  | assign (key val : Text)
  deriving DecidableEq, Repr

-- `parse_ini_stream` between two rounds of its loop
structure IniLoader (δ : Type) where
  sectionName : Text := []
  root : ConfigNode δ

namespace Ini

/-- What the calls of `std::getline` give until one fails. -/
def lines : Text → List Text
  | [] => []
  | c :: rest =>
      if c = '\n' then [] :: lines rest
      else match lines rest with
        | [] => [[c]]
        | line :: others => (c :: line) :: others

def isBlank (c : Char) : Bool := c == ' ' || c == '\t'

def cleanLine (line : Text) : Text :=
  let code := (line.takeWhile (· ≠ '#')).takeWhile (· ≠ ';')
  (code.dropWhile isBlank).rdropWhile fun c => isBlank c || c == '\r'

def assignment (line : Text) : IniLine :=
  if '=' ∈ line then
    let key := line.takeWhile (· ≠ '=')
    let val := line.drop (key.length + 1)
    .assign (key.rdropWhile isBlank) ((val.dropWhile isBlank).rdropWhile isBlank)
  else .skip

/-- A `[` without a `]` behind it is no header but may be part of a key. -/
def readLine (line : Text) : IniLine :=
  match cleanLine line with
  | [] => .skip
  | c :: rest =>
      if c = '[' ∧ ']' ∈ rest then .header (rest.takeWhile (· ≠ ']')) else assignment (c :: rest)

def fullKey (sectionName key : Text) : Text := if sectionName = [] then key else sectionName ++ '.' :: key

variable {δ : Type}

def step (s : IniLoader δ) (line : Text) : IniLoader δ :=
  match readLine line with
  | .skip => s
  | .header name => { s with sectionName := name }
  | .assign key val => { s with root := s.root.setKey (fullKey s.sectionName key) (.string val) }

end Ini

namespace Config

variable {δ : Type}

def parseIniStream (root : ConfigNode δ) (text : Text) : ConfigNode δ :=
  ((Ini.lines text).foldl Ini.step { root := root }).root

end Config

/-! ## Files -/

/-- The callbacks of `watchers_` by number; `notified` has the calls they got. -/
structure Config (δ : Type) where
  root : ConfigNode δ := .empty
  filePath : Text := []
  lastContent : Text := []
  watchers : List Nat := []
  notified : List (Nat × Text) := []

inductive LoadResult
  | returned (ok : Bool)
  | threw (e : StdException)
  deriving DecidableEq, Repr

def LoadResult.of : Option StdException → LoadResult
  | none => .returned true
  | some e => .threw e

/-- An iterator: the string object it points into and the position there. -/
structure StringIterator where
  object : Nat
  position : Nat
  deriving DecidableEq, Repr

/-- `std::vector<char>(first, last)` over an object with these characters; undefined for iterators into two. -/
def vectorOf (chars : Text) (first last : StringIterator) : Option Text :=
  if first.object = last.object ∧ first.position ≤ last.position then
    some ((chars.take last.position).drop first.position)
  else none

namespace Config

variable {δ : Type} (n₀ c₀ : Char) (stod : Text → Except StdException δ)

/-- `parse_json_stream` on a fresh root; `none` when it goes on for ever. -/
def parseContent (content : Text) : Option (Loaded δ) :=
  parseJsonStream n₀ c₀ stod (content.length + 1) content

/-- `std::ifstream`: what the file has, if it can be opened. -/
def openFile (path : Text) (file : Option Text) : Option Text := if path = [] then none else file

def reload (cfg : Config δ) (path content : Text) (root : ConfigNode δ) : Config δ :=
  { cfg with root := root, filePath := path, lastContent := content }

def loadJson (cfg : Config δ) (path : Text) (file : Option Text) : Option (LoadResult × Config δ) :=
  match openFile path file with
  | none => some (.returned false, cfg)
  | some content => (parseContent n₀ c₀ stod content).map fun loaded =>
      (.of loaded.thrown, cfg.reload path content loaded.root)

/-- `none` when the behaviour is undefined. -/
def loadIni (cfg : Config δ) (path : Text) (file : Option Text) : Option (LoadResult × Config δ) :=
  match openFile path file with
  | none => some (.returned false, cfg)
  | some content =>
      -- each `oss.str()` is an object of its own
      (vectorOf content ⟨0, 0⟩ ⟨1, content.length⟩).map fun lastContent =>
        (.returned true, cfg.reload path lastContent (parseIniStream cfg.root content))

def notifyAll (cfg : Config δ) : Config δ :=
  { cfg with notified := cfg.notified ++ cfg.watchers.map fun callback => (callback, cfg.filePath) }

def pollChanges (cfg : Config δ) (file : Option Text) : Option (Except StdException Unit × Config δ) :=
  match openFile cfg.filePath file with
  | none => some (.ok (), cfg)
  | some content =>
      if content.length = cfg.lastContent.length then some (.ok (), cfg)
      else (parseContent n₀ c₀ stod content).map fun loaded =>
        let reloaded := cfg.reload cfg.filePath content loaded.root
        match loaded.thrown with
        | none => (.ok (), reloaded.notifyAll)
        | some e => (.error e, reloaded)

end Config

/-! ## Writing -/

namespace Config

variable {δ : Type} (showDouble : δ → Text)

def valueText (node : ConfigNode δ) : Text :=
  match node.value with
  | some (.string s) => '"' :: (s ++ ['"'])
  | some (.int i) => (toString i).toList
  | some (.double d) => showDouble d
  | some (.bool b) => if b then ['t', 'r', 'u', 'e'] else ['f', 'a', 'l', 's', 'e']
  | _ => ['n', 'u', 'l', 'l']

def entryText (entry : Text × ConfigNode δ) : Text :=
  ' ' :: ' ' :: '"' :: (entry.1 ++ '"' :: ':' :: ' ' :: valueText showDouble entry.2)

/-- `to_json`, where `entries` are those of `root_.keys()` as they are iterated. -/
def toJson (entries : List (Text × ConfigNode δ)) (_pretty : Bool) : Text :=
  '{' :: '\n' :: ([',', '\n'].intercalate (entries.map (entryText showDouble)) ++ ['\n', '}'])

end Config

end ServerFramework.Base
