import MscsUnitTests.Ci.Wiring
import MscsUnitTests.Lib.Lines

/-! # Repository Checks: The Commands of a CMake File

    What CMake reads, and not what a regular expression sees of it: the commands of a
    file with their arguments, told apart from comments, quotes and brackets by the lexer
    of `Ci.Wiring`. Arguments are as they are written; no variable is replaced.
-/

open TextLines

namespace RepoChecks

/-! ## Section 1: Tokens -/

inductive Token where
  | leftParen
  | rightParen
  | word (t : Text)
  | quoted (t : Text)
  | bracket (t : Text)
  deriving DecidableEq

/-- What is written in an argument list. -/
def Token.written : Token → Text
  | .leftParen => text "("
  | .rightParen => text ")"
  | .word t | .quoted t | .bracket t => t

/-- The word that ends here, if there is one. -/
def wordEnd (acc : Text) : List Token :=
  if acc = [] then [] else [.word acc]

def parenToken (c : Char) : List Token :=
  if c = '(' then [.leftParen] else if c = ')' then [.rightParen] else []

/-- What a character ends, and what it leaves of the argument that is being read. -/
def Lexer.emit (s : Lexer) (acc : Text) (c : Char) : List Token × Text :=
  match s, (s.step c).1 with
  | .quoted, .start => ([.quoted acc], [])
  | .quoted, _ | .quotedEscape, _ => ([], acc ++ [c])
  | .opening false _, .bracket _ _ => ([], [])
  | .bracket false _, _ => ([], acc ++ [c])
  -- the end of a bracket has been read into it, all but the last character
  | .closing false eqs _, .start => ([.bracket (acc.take (acc.length - (eqs + 1)))], [])
  | .closing false _ _, _ => ([], acc ++ [c])
  | .hash, _ | .line, _ | .opening true _, _ | .bracket true _, _ | .closing true _ _, _ => ([], [])
  | _, .word | _, .escape | _, .opening _ _ => ([], acc ++ [c])
  | _, _ => (wordEnd acc ++ parenToken c, [])

def tokensFrom : Lexer → Text → Text → List Token
  | _, _, [] => []
  | s, acc, c :: rest => (s.emit acc c).1 ++ tokensFrom (s.step c).1 (s.emit acc c).2 rest

def tokens (cml : Text) : List Token := tokensFrom .start [] cml

/-! ## Section 2: Commands -/

structure Command where
  name : Text
  args : List Text
  deriving DecidableEq

/-- Between two commands, with the word just read; or within one, at a depth of
    parentheses. -/
inductive Reader where
  | outside (last : Option Text)
  | inside (name : Text) (args : List Text) (depth : Nat)

def Reader.step : Reader → Token → Reader × List Command
  | .outside _, .word t => (.outside (some t), [])
  | .outside (some name), .leftParen => (.inside name [] 0, [])
  | .outside _, _ => (.outside none, [])
  | .inside name args depth, .leftParen =>
    (.inside name (args ++ [Token.leftParen.written]) (depth + 1), [])
  | .inside name args 0, .rightParen => (.outside none, [⟨name, args⟩])
  | .inside name args (depth + 1), .rightParen =>
    (.inside name (args ++ [Token.rightParen.written]) depth, [])
  | .inside name args depth, t => (.inside name (args ++ [t.written]) depth, [])

def commandsFrom : Reader → List Token → List Command
  | _, [] => []
  | s, t :: rest => (s.step t).2 ++ commandsFrom (s.step t).1 rest

/-- The commands of a file. A file may end within a command; that one is none. -/
def commands (cml : Text) : List Command := commandsFrom (.outside none) (tokens cml)

/-! ## Section 3: Labels -/

/-- Names and values of properties. -/
def propertyPairs : List Text → List (Text × Text)
  | key :: value :: rest => (key, value) :: propertyPairs rest
  | _ => []

/-- `security` is one of the labels. -/
def hasSecurityLabel (props : List Text) : Bool :=
  (propertyPairs props).any fun kv =>
    kv.1 == text "LABELS" && (splitLines ';' kv.2).contains (text "security")

/-- The tests to which a `set_tests_properties` gives the label `security`. Case does not
    count in the name of a command. -/
def securityNames (cmd : Command) : List Text :=
  if cmd.name.map Char.toLower = text "set_tests_properties" ∧
      hasSecurityLabel ((cmd.args.dropWhile (· != text "PROPERTIES")).drop 1) then
    cmd.args.takeWhile (· != text "PROPERTIES")
  else []

/-- A ) in a quoted argument ends no command. -/
example : (commands (text "set_tests_properties(a b # (\nPROPERTIES X \"1)\" LABELS \"x;security\")\n")).map
    securityNames = [[text "a", text "b"]] := by
  decide +kernel

end RepoChecks
