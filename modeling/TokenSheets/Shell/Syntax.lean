/-
TokenSheets/Shell/Syntax.lean

The syntax of short shell scripts.

A script is a list of commands joined by `;`, line ends, `&&` and `||`.  A
command is words and redirections, and a word is made of parts: plain text,
parameters, and substituted scripts.  A substituted script is kept as text and
read when it is run.  There are no loops, conditions, functions or pipes.
-/
import TokenSheets.Text.Lines

namespace TokenSheets.Shell

/-! ### Trees -/

/-- A part of a word; what is quoted is not split into fields. -/
inductive WordPart where
  | text (s : List Char) (quoted : Bool)
  | parameter (name : String) (quoted : Bool)
  | script (s : List Char) (quoted : Bool)
deriving DecidableEq, Repr

abbrev Word := List WordPart

/-- Where a redirection leads. -/
inductive Redirection where
  | write (fd : Nat) (target : Word)
  | append (fd : Nat) (target : Word)
  | read (target : Word)
  | duplicate (fd source : Nat)
deriving DecidableEq, Repr

/-- Words and redirections in order. -/
structure Command where
  words : List Word
  redirections : List Redirection
deriving DecidableEq, Repr

/-- How a command depends on the one before it. -/
inductive Connective where
  | always
  | ifSuccess
  | ifFailure
deriving DecidableEq, Repr

/-- Commands, each with what it depends on, and whether it is negated. -/
structure Step where
  connective : Connective
  negated : Bool
  command : Command
deriving DecidableEq, Repr

/-! ### Tokens -/

inductive Token where
  | word (w : Word)
  /-- An operator on a file descriptor. -/
  | redirect (fd : Option Nat) (op : String)
  | separator
  | andIf
  | orIf
  /-- An operator that scripts of this kind do not have. -/
  | unsupported (op : Char)
deriving DecidableEq, Repr

def isWordEnd (c : Char) : Bool :=
  c = ' ' || c = '\t' || c = '\n' || c = ';' || c = '&' || c = '|' || c = '<' || c = '>' ||
    c = '(' || c = ')'

/-- The text up to a closing single quote, and what follows it. -/
def singleQuoted : List Char → List Char × List Char
  | [] => ([], [])
  | '\'' :: rest => ([], rest)
  | c :: rest => (c :: (singleQuoted rest).1, (singleQuoted rest).2)

/-- The text up to the closing parenthesis of a substitution, given how many are open. -/
def substituted : Nat → List Char → List Char × List Char
  | _, [] => ([], [])
  | n, '(' :: rest => ('(' :: (substituted (n + 1) rest).1, (substituted (n + 1) rest).2)
  | 0, ')' :: rest => ([], rest)
  | n + 1, ')' :: rest => (')' :: (substituted n rest).1, (substituted n rest).2)
  | n, c :: rest => (c :: (substituted n rest).1, (substituted n rest).2)

/-- What a dollar sign begins, and what follows it. -/
def expansion (quoted : Bool) (s : List Char) : WordPart × List Char :=
  match s with
  | '(' :: rest =>
    let (inner, rest) := substituted 0 rest
    (.script inner quoted, rest)
  | '\x7b' :: rest =>
    (.parameter (String.ofList (rest.takeWhile (· ≠ '\x7d'))) quoted,
      (rest.dropWhile (· ≠ '\x7d')).drop 1)
  | c :: rest =>
    if c.isAlpha || c = '_' then
      let isNameChar := fun c : Char => c.isAlphanum || c = '_'
      (.parameter (String.ofList (c :: rest.takeWhile isNameChar)) quoted,
        rest.dropWhile isNameChar)
    else if c.isDigit || "#@*?$!-".toList.contains c then
      (.parameter (String.singleton c) quoted, rest)
    else (.text ['$'] quoted, c :: rest)
  | [] => (.text ['$'] quoted, [])

/-- The parts up to a closing double quote, and what follows it. -/
def doubleQuoted : Nat → List Char → Word × List Char
  | 0, s => ([], s)
  | _ + 1, [] => ([], [])
  | _ + 1, '"' :: rest => ([.text [] true], rest)
  | fuel + 1, '\\' :: c :: rest =>
    let (parts, after) := doubleQuoted fuel rest
    if c = '\n' then (parts, after)
    else if "$\x60\"\\".toList.contains c then (.text [c] true :: parts, after)
    else (.text ['\\', c] true :: parts, after)
  | fuel + 1, '$' :: rest =>
    let (part, rest) := expansion true rest
    let (parts, after) := doubleQuoted fuel rest
    (part :: parts, after)
  | fuel + 1, c :: rest =>
    let (parts, after) := doubleQuoted fuel rest
    (.text [c] true :: parts, after)

/-- The parts of a word, and what follows it. -/
def wordParts : Nat → List Char → Word × List Char
  | 0, s => ([], s)
  | _ + 1, [] => ([], [])
  | fuel + 1, '\'' :: rest =>
    let (inner, rest) := singleQuoted rest
    let (parts, after) := wordParts fuel rest
    (.text inner true :: parts, after)
  | fuel + 1, '"' :: rest =>
    let (inner, rest) := doubleQuoted rest.length.succ rest
    let (parts, after) := wordParts fuel rest
    (inner ++ parts, after)
  | fuel + 1, '\\' :: c :: rest =>
    let (parts, after) := wordParts fuel rest
    if c = '\n' then (parts, after) else (.text [c] true :: parts, after)
  | fuel + 1, '\x60' :: rest =>
    let inner := rest.takeWhile (· ≠ '\x60')
    let (parts, after) := wordParts fuel ((rest.dropWhile (· ≠ '\x60')).drop 1)
    (.script inner false :: parts, after)
  | fuel + 1, '$' :: rest =>
    let (part, rest) := expansion false rest
    let (parts, after) := wordParts fuel rest
    (part :: parts, after)
  | fuel + 1, c :: rest =>
    if isWordEnd c then ([], c :: rest)
    else
      let (parts, after) := wordParts fuel rest
      (.text [c] false :: parts, after)

/-- The tokens of a script. -/
def tokens : Nat → List Char → List Token
  | 0, _ => []
  | _ + 1, [] => []
  | fuel + 1, c :: rest =>
    if c = ' ' || c = '\t' then tokens fuel rest
    else if c = '\\' ∧ rest.head? = some '\n' then tokens fuel (rest.drop 1)
    else if c = '#' then tokens fuel (rest.dropWhile (· ≠ '\n'))
    else if c = '\n' ∨ c = ';' then .separator :: tokens fuel rest
    else if c = '&' ∧ rest.head? = some '&' then .andIf :: tokens fuel (rest.drop 1)
    else if c = '|' ∧ rest.head? = some '|' then .orIf :: tokens fuel (rest.drop 1)
    else if c = '&' ∨ c = '|' ∨ c = '(' ∨ c = ')' then .unsupported c :: tokens fuel rest
    else
      let isFd := c.isDigit && (rest.head? = some '<' || rest.head? = some '>')
      let fd := if isFd then some (c.toNat - 48) else none
      let s := if isFd then rest else c :: rest
      match s with
      | '>' :: '>' :: after => .redirect fd ">>" :: tokens fuel after
      | '>' :: '&' :: after => .redirect fd ">&" :: tokens fuel after
      | '>' :: after => .redirect fd ">" :: tokens fuel after
      | '<' :: after => .redirect fd "<" :: tokens fuel after
      | _ =>
        let (w, after) := wordParts (c :: rest).length.succ (c :: rest)
        .word w :: tokens fuel after

/-! ### Commands -/

def Command.empty : Command := ⟨[], []⟩

def Command.isEmpty (c : Command) : Bool := c.words.isEmpty && c.redirections.isEmpty

/-- The text of a word without expansions. -/
def plainText (w : Word) : String :=
  String.ofList (w.flatMap fun part => match part with | .text s _ => s | _ => [])

/-- A redirection from its operator and target. -/
def Redirection.ofOperator (fd : Option Nat) (op : String) (target : Word) : Redirection :=
  if op = ">>" then .append (fd.getD 1) target
  else if op = ">&" then .duplicate (fd.getD 1) ((plainText target).toNat?.getD 1)
  else if op = "<" then .read target
  else .write (fd.getD 1) target

/-- The steps of a list of tokens, given what the step in hand has so far.  `none` if the script
uses what is not supported. -/
def steps : List Token → Step → Option (List Step)
  | [], step => some (if step.command.isEmpty then [] else [step])
  | .word w :: rest, step =>
    if step.command.isEmpty && w = [.text ['!'] false] then
      steps rest { step with negated := !step.negated }
    else steps rest { step with command.words := step.command.words ++ [w] }
  | .redirect fd op :: .word w :: rest, step =>
    let r := Redirection.ofOperator fd op w
    steps rest { step with command.redirections := step.command.redirections ++ [r] }
  | .redirect _ _ :: _, _ => none
  | .separator :: rest, step =>
    if step.command.isEmpty then steps rest step
    else do
      let ss ← steps rest ⟨.always, false, .empty⟩
      return step :: ss
  | .andIf :: rest, step => do
    let ss ← steps rest ⟨.ifSuccess, false, .empty⟩
    return step :: ss
  | .orIf :: rest, step => do
    let ss ← steps rest ⟨.ifFailure, false, .empty⟩
    return step :: ss
  | .unsupported _ :: _, _ => none

/-- The steps of a script. -/
def parse (script : List Char) : Option (List Step) :=
  steps (tokens (2 * script.length + 1) script) ⟨.always, false, .empty⟩

end TokenSheets.Shell
