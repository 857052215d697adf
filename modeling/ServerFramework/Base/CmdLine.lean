import Mathlib.Data.List.AList
import ServerFramework.Base.Config

namespace ServerFramework.Base

-- A `char*` of `argv`, which ends before its first NUL.
abbrev CString := { text : Text // '\x00' ∉ text }

structure CmdLineArg where
  name : Text
  shortName : Char := '\x00'
  hasValue : Bool := false
  found : Bool := false
  value : Text := []
  description : Text := []
  deriving DecidableEq, Repr

-- The entries of `args` stand in the order of iteration.
structure CmdLineParser where
  args : AList fun _ : Text => CmdLineArg := ∅
  rest : List Text := []

namespace CmdLineParser

def add (parser : CmdLineParser) (name : Text) (shortName : Char) (hasVal : Bool) (desc defaultVal : Text) :
    CmdLineParser :=
  let arg : CmdLineArg := { name, shortName, hasValue := hasVal, description := desc, value := defaultVal }
  { parser with args := parser.args.insert name arg }

/-- `operator[]` of a `std::string`, which has a NUL behind its last character. -/
def charAt (s : Text) (i : Nat) : Char := s.getD i '\x00'

def isHelp (token : Text) : Bool := token == ['-', '-', 'h', 'e', 'l', 'p'] || token == ['-', 'h']

def isOption (isLong : Bool) (name : Text) (entry : Sigma fun _ : Text => CmdLineArg) : Bool :=
  (isLong && entry.1 == name) || (!isLong && entry.2.shortName == charAt name 0)

/-- The entry at which the scan of the table breaks off. -/
def find (parser : CmdLineParser) (token : Text) : Option (Sigma fun _ : Text => CmdLineArg) :=
  if charAt token 1 = '-' then parser.args.entries.find? (isOption true (token.drop 2))
  else parser.args.entries.find? (isOption false (token.drop 1))

def pushRest (parser : CmdLineParser) (token : Text) : CmdLineParser :=
  { parser with rest := parser.rest ++ [token] }

def put (parser : CmdLineParser) (key : Text) (arg : CmdLineArg) : CmdLineParser :=
  { parser with args := parser.args.replace key arg }

def parseFrom : List CString → CmdLineParser → CmdLineParser
  | [], parser => parser
  | token :: tokens, parser =>
      if isHelp token.1 then parseFrom tokens parser
      else if charAt token.1 0 = '-' then
        match parser.find token.1 with
        | none => parseFrom tokens (parser.pushRest token.1)
        | some ⟨key, arg⟩ =>
            if arg.hasValue then
              match tokens with
              | [] => parser.put key { arg with found := true }
              | value :: tokens => parseFrom tokens (parser.put key { arg with found := true, value := value.1 })
            else parseFrom tokens (parser.put key { arg with found := true })
      else parseFrom tokens (parser.pushRest token.1)

def parse (parser : CmdLineParser) (argv : List CString) : Bool × CmdLineParser :=
  (true, parseFrom argv.tail parser)

def has (parser : CmdLineParser) (name : Text) : Bool := (parser.args.lookup name).any CmdLineArg.found

def get (parser : CmdLineParser) (name : Text) : Text := (parser.args.lookup name).elim [] CmdLineArg.value

def getOr (parser : CmdLineParser) (name defaultVal : Text) : Text :=
  match parser.args.lookup name with
  | none => defaultVal
  | some arg => if arg.found then arg.value else defaultVal

end CmdLineParser

end ServerFramework.Base
