import Mathlib.Data.List.DropRight
import MscsUnitTests.Ci.Report

/-! # Repository Checks: The Suite Wiring of the Project File

    `CheckSuiteWiring.ps1`. The script reads the runner line by line, with a stack
    of guard macros in place of a preprocessor, the `.cpp` files of the directory
    for the suites they define, and the project file for what is compiled and
    defined; then it says of each suite that is called what state it is in.

    The character classes of the regular expressions are a parameter, and so is
    the folding by which the script compares text without regard to case.
-/

namespace SuiteWiring

open RepoChecks (Text text commaJoin)

/-- `\w`, `\s`, and the folding of `-match`, `-contains` and hashtable keys. -/
structure CharTable where
  word : Char → Bool
  space : Char → Bool
  fold : Char → Char

/-- The classes and the folding of ASCII. -/
def asciiTable : CharTable where
  word c := c.isAlphanum || c == '_'
  space c := c.isWhitespace
  fold := Char.toLower

variable (C : CharTable)

/-! ## Section 1: Matching -/

/-- The same text without regard to case. -/
def CharTable.same (a b : Text) : Bool :=
  a.map C.fold == b.map C.fold

/-- `\s*`. -/
def CharTable.skip (l : Text) : Text :=
  l.dropWhile C.space

/-- `\w+`, with what is behind it. Nothing that follows it in the expressions of the
    script begins with a word character, so the longest run is the only one. -/
def CharTable.takeWord (l : Text) : Option (Text × Text) :=
  if l.takeWhile C.word = [] then none else some (l.takeWhile C.word, l.dropWhile C.word)

/-- A literal, under a folding; what is behind it. -/
def literal (fold : Char → Char) (p l : Text) : Option Text :=
  if (l.take p.length).map fold = p.map fold then some (l.drop p.length) else none

/-- `^\s*#\s*` and a word, without regard to case; what is behind it. -/
def CharTable.directive (name line : Text) : Option Text := do
  let hash ← literal id (text "#") (C.skip line)
  literal C.fold name (C.skip hash)

/-- `^\s*#\s*ifndef\s+(\w+)`. -/
def ifndefMacro (line : Text) : Option Text := do
  let rest ← C.directive (text "ifndef") line
  if rest.head?.any C.space then
    let name ← C.takeWord (C.skip rest)
    return name.1
  else none

/-- `!\s*defined\s*\(\s*(\w+)\s*\)` at a position; case counts. -/
def notDefinedAt (l : Text) : Option (Text × Text) := do
  let bang ← literal id (text "!") l
  let word ← literal id (text "defined") (C.skip bang)
  let paren ← literal id (text "(") (C.skip word)
  let name ← C.takeWord (C.skip paren)
  let rest ← literal id (text ")") (C.skip name.2)
  return (name.1, rest)

/-- `[regex]::Matches`: the matches from the left, each from where the last one
    ended. The number is a bound on the length. -/
def allMatches (p : Text → Option (Text × Text)) : Nat → Text → List Text
  | 0, _ => []
  | _ + 1, [] => []
  | k + 1, c :: l =>
    match p (c :: l) with
    | some m => m.1 :: allMatches p k m.2
    | none => allMatches p k l

/-- The macros of the `!defined(...)` in a line. -/
def notDefinedMacros (line : Text) : List Text :=
  allMatches (notDefinedAt C) line.length line

/-- `Run(\w+)Suite\s*\(` at a position; the name and what is behind the parenthesis. -/
def runSuiteAt (fold : Char → Char) (l : Text) : Option (Text × Text) := do
  let word ← C.takeWord (← literal fold (text "Run") l)
  let nName := word.1.length - 5
  if 0 < nName ∧ (word.1.drop nName).map fold = (text "Suite").map fold then
    let rest ← literal id (text "(") (C.skip word.2)
    return (word.1.take nName, rest)
  else none

/-- `(?<!\w)Run(\w+)Suite\s*\(`, the first match of a line without regard to case. -/
def callSeen : Option Char → Text → Option Text
  | _, [] => none
  | prev, c :: l =>
    match if prev.any C.word then none else runSuiteAt C C.fold (c :: l) with
    | some m => some m.1
    | none => callSeen (some c) l

/-- `(?m)^\s*void\s+Run(\w+)Suite\s*\(` at the beginning of a line; case counts. -/
def definitionAt (l : Text) : Option (Text × Text) := do
  let rest ← literal id (text "void") (C.skip l)
  if rest.head?.any C.space then runSuiteAt C id (C.skip rest) else none

/-- The suites a file defines. -/
def definitionsIn : Nat → Option Char → Text → List Text
  | 0, _, _ => []
  | _ + 1, _, [] => []
  | k + 1, prev, c :: l =>
    match if prev.all (· == '\n') then definitionAt C (c :: l) else none with
    | some m => m.1 :: definitionsIn k (some '(') m.2
    | none => definitionsIn k (some c) l

/-! ## Section 2: The calls and their guards -/

/-- What stands for the branch of an `#else` or `#elif`. -/
def inverted : Text := text "<inverted>"

/-- A suite that is called, with the guards of its first call. -/
structure Call where
  name : Text
  guards : List Text
  deriving DecidableEq

/-- `$guards`, the innermost first, and `$calls` in the order of the file. -/
structure Tracker where
  guards : List (List Text)
  calls : List Call

/-- `$calls.ContainsKey`. -/
def hasCall (calls : List Call) (name : Text) : Bool :=
  calls.any fun e => C.same e.name name

/-- What the tracker takes a line for. -/
inductive Seen where
  | opens (macros : List Text)
  | turns
  | closes
  | calls (name : Text)
  | other
  deriving DecidableEq

/-- The regular expressions, in the order of the script. -/
def seen (line : Text) : Seen :=
  match ifndefMacro C line with
  | some name => .opens [name]
  | none =>
    if (C.directive (text "if") line).isSome then .opens (notDefinedMacros C line)
    else if (C.directive (text "else") line).isSome ∨ (C.directive (text "elif") line).isSome then
      .turns
    else if (C.directive (text "endif") line).isSome then .closes
    else
      match callSeen C none line with
      | some name => .calls name
      | none => .other

/-- One pass of the line loop. Only the first call of a suite is recorded. -/
def track (s : Tracker) (line : Text) : Tracker :=
  match seen C line with
  | .opens macros => { s with guards := macros :: s.guards }
  | .turns => { s with guards := [inverted] :: s.guards.tail }
  | .closes => { s with guards := s.guards.tail }
  | .calls name =>
    if hasCall C s.calls name then s
    else { s with calls := s.calls ++ [⟨name, s.guards.flatten⟩] }
  | .other => s

def trackAll (lines : List Text) : Tracker :=
  lines.foldl (track C) ⟨[], []⟩

/-! ## Section 3: Definitions and the project -/

/-- A `.cpp` file of the project directory. -/
structure Source where
  name : Text
  body : Text

/-- The suites a source defines. -/
def Source.suites (f : Source) : List Text :=
  definitionsIn C f.body.length none f.body

/-- `$definedBy[name]`: the last file that defines the suite. -/
def definedBy (sources : List Source) (name : Text) : Option Text :=
  ((sources.filter fun f => (f.suites C).any (C.same name)).getLast?).map Source.name

/-- An element of the project file: its text or `Include`, and the configurations
    its conditions let it apply to. -/
structure Element (κ : Type) where
  value : Text
  applies : κ → Bool

/-- `//m:PreprocessorDefinitions` and `//m:ClCompile[@Include]`. -/
structure Project (κ : Type) where
  leaf : Text
  definitions : List (Element κ)
  items : List (Element κ)

/-- `Split-Path -Leaf`. -/
def leafOf (path : Text) : Text :=
  (path.reverse.takeWhile fun c => c != '\\' && c != '/').reverse

/-- `-split ';'`, `Trim()`, and what is not empty. -/
def entriesOf (value : Text) : List Text :=
  ((value.splitOn ';').map fun e => (e.dropWhile C.space).rdropWhile C.space).filter (· ≠ [])

variable {κ : Type}

/-- `$compiled`. -/
def compiled (P : Project κ) : List Text :=
  P.items.map fun e => leafOf e.value

/-- `$defines`. -/
def defines (P : Project κ) : List Text :=
  P.definitions.flatMap fun e => entriesOf C e.value

/-- `-contains`. -/
def CharTable.contains (l : List Text) (x : Text) : Bool :=
  l.any (C.same x)

/-! ## Section 4: The check -/

/-- What the runner's directory and the project file hold. -/
structure Inputs (κ : Type) where
  lines : List Text
  sources : List Source
  project : Project κ

/-- The branches of the check. -/
inductive State where
  | unverifiable
  | optedOut
  | undefined
  | notCompiled (file : Text)
  | wired (file : Text)
  deriving DecidableEq

/-- What the script says of a suite. -/
def stateOf (I : Inputs κ) (e : Call) : State :=
  if C.contains e.guards inverted then .unverifiable
  else if e.guards.any (C.contains (defines C I.project)) then .optedOut
  else
    match definedBy C I.sources e.name with
    | none => .undefined
    | some file => if C.contains (compiled I.project) file then .wired file else .notCompiled file

def unverifiableText (name : Text) : Text :=
  text "Run" ++ name ++ text ("Suite() is called inside an #else/#elif branch; this script " ++
    "cannot determine whether it is active. Verify by hand.")

def undefinedText (name : Text) : Text :=
  text "Run" ++ name ++
    text "Suite() is called in TestMain.cpp but no .cpp in this folder defines it."

def notCompiledText (leaf file : Text) (e : Call) : Text :=
  text "Run" ++ e.name ++ text "Suite() is called in TestMain.cpp and defined in " ++ file ++
    text ", but " ++ file ++ text " is NOT in " ++ leaf ++ text ". Add <ClCompile Include=\"" ++
    file ++ text "\" /> or define one of: " ++
    (if e.guards = [] then text "(no opt-out macro on this call)" else commaJoin e.guards) ++
    text "."

def neverCalledText (file name : Text) : Text :=
  file ++ text " defines Run" ++ name ++ text "Suite() but TestMain.cpp never calls it."

/-- What is added to `$warns`. -/
def State.warning (e : Call) : State → List Text
  | .unverifiable => [unverifiableText e.name]
  | _ => []

/-- What is added to `$errors`. -/
def State.error (leaf : Text) (e : Call) : State → List Text
  | .undefined => [undefinedText e.name]
  | .notCompiled file => [notCompiledText leaf file e]
  | _ => []

/-- `$definedBy.Keys`: of names that only differ in case, the first. -/
def definedKeys (sources : List Source) : List Text :=
  (sources.flatMap (Source.suites C)).foldl
    (fun keys name => if C.contains keys name then keys else keys ++ [name]) []

/-- Compiled but never called. -/
def neverCalled (I : Inputs κ) (calls : List Call) : List Text :=
  (definedKeys C I.sources).flatMap fun name =>
    match definedBy C I.sources name with
    | some file =>
      if !hasCall C calls name && C.contains (compiled I.project) file then
        [neverCalledText file name]
      else []
    | none => []

/-- How the script ends. The order in which the suites are gone through, by name,
    only is the order of the texts. -/
structure Outcome where
  nExit : Nat
  warns : List Text
  errors : List Text

def checkSuiteWiring (I : Inputs κ) : Outcome :=
  let calls := (trackAll C I.lines).calls
  let errors := calls.flatMap fun e => (stateOf C I e).error I.project.leaf e
  { nExit := if errors ≠ [] then 1 else 0
    warns := (calls.flatMap fun e => (stateOf C I e).warning e) ++ neverCalled C I calls
    errors := errors }

end SuiteWiring
