import Mathlib.Data.List.Basic
import Mathlib.Logic.Function.Basic
import Wakterm.Agent.Request

/-!
# The reader for ssh_config files

What a pattern is compiled to is a regex of literals, `.` and `.*` between `^` and `$`; here it is
the list of these parts, and `isMatch` is what the engine does with them: a dot takes any character
but a newline.
-/

namespace Wakterm.Ssh

open Wakterm.Agent (isWhitespace)

/-- A part of the regex: an escaped character, `.` or `.*`. -/
inductive Piece where
  | literal (c : Char)
  | dot
  | dotStar

/-- What can be left behind a `.*`. -/
def afterDots : List Char → List (List Char)
  | [] => [[]]
  | c :: text => (c :: text) :: if c = '\n' then [] else afterDots text

def isMatch : List Piece → List Char → Bool
  | [], text => text.isEmpty
  | .literal c :: re, text =>
    match text with
    | [] => false
    | d :: text => c = d && isMatch re text
  | .dot :: re, text =>
    match text with
    | [] => false
    | d :: text => d ≠ '\n' && isMatch re text
  | .dotStar :: re, text => (afterDots text).any (isMatch re)

/-- What `wildcard_to_pattern` pushes for a character. -/
def pieceOf (c : Char) : Piece :=
  if c = '*' then .dotStar else if c = '?' then .dot else .literal c

/-- `wildcard_to_pattern`: the regex, and whether it is a literal. -/
def wildcardToPattern (s : List Char) : List Piece × Bool :=
  (s.map pieceOf, s.all fun c => c ≠ '*' && c ≠ '?')

structure Pattern where
  negated : Bool
  pattern : List Piece
  original : List Char
  isLiteral : Bool

namespace Pattern

def matchText (p : Pattern) (hostname : List Char) : Bool := isMatch p.pattern hostname

def new (text : List Char) (negated : Bool) : Pattern :=
  let (pattern, isLiteral) := wildcardToPattern text
  { negated, pattern, original := text, isLiteral }

/-- `match_group`: the first pattern that matches decides. -/
def matchGroup (hostname : List Char) : List Pattern → Bool
  | [] => false
  | pat :: patterns =>
    if pat.matchText hostname then !pat.negated else matchGroup hostname patterns

/-- A word of a list; one that starts with `!` is negated. -/
def ofWord : List Char → Pattern
  | '!' :: p => .new p true
  | p => .new p false

end Pattern

def trim (text : List Char) : List Char :=
  ((text.dropWhile isWhitespace).reverse.dropWhile isWhitespace).reverse

def parsePatternList (v : List Char) : List Pattern :=
  (v.splitOn ',').map fun p => .ofWord (trim p)

def isAsciiWhitespace (c : Char) : Bool :=
  c = ' ' || c = '\t' || c = '\n' || c = '\x0c' || c = '\r'

def splitAsciiWhitespace (v : List Char) : List (List Char) :=
  (v.splitOnP isAsciiWhitespace).filter fun word => word ≠ []

/-- `parse_whitespace_pattern_list`. Only blanks that are not ASCII are left to be trimmed. -/
def parseWhitespacePatternList (v : List Char) : List Pattern :=
  (splitAsciiWhitespace v).map fun p => .ofWord (trim p)

inductive Criteria where
  | host (patterns : List Pattern)
  | exec (command : List Char)
  | originalHost (patterns : List Pattern)
  | user (patterns : List Pattern)
  | localUser (patterns : List Pattern)
  | all

inductive Context where
  | firstPass | canonical | final
  deriving DecidableEq

abbrev ConfigMap := List Char → Option (List Char)

structure MatchGroup where
  criteria : List Criteria
  context : Context
  options : ConfigMap

def Criteria.holds (hostname user localUser : List Char) : Criteria → Bool
  | .host patterns | .originalHost patterns => Pattern.matchGroup hostname patterns
  | .user patterns => Pattern.matchGroup user patterns
  | .localUser patterns => Pattern.matchGroup localUser patterns
  | .exec _ | .all => true

def MatchGroup.isMatch (group : MatchGroup) (hostname user localUser : List Char)
    (context : Context) : Bool :=
  group.context = context && group.criteria.all (·.holds hostname user localUser)

structure ParsedConfigFile (Path : Type) where
  options : ConfigMap
  groups : List MatchGroup
  loadedFiles : List Path

/-- Why a text is not read to its end: a string is sliced within a character, or from a place that
is behind the other, or the files include one another more deeply than the stack is. -/
inductive Stop where
  | charBoundary | sliceOrder | tooDeep
  deriving DecidableEq

/-- What a line enters. -/
inductive Item (Path : Type) where
  | loaded (path : Path)
  | block (criteria : List Criteria) (context : Context)
  | option (k v : List Char)

/-- What the reader asks of the system and of the libraries: `to_lowercase`, the paths that the glob
of an `Include` finds, and the files that can be read. -/
structure ConfigEnv (Path : Type) where
  toLowercase : List Char → List Char
  walk : List Char → List Path
  files : List (Path × List Char)

/-- `identityfile`, the option whose values are put together. -/
def identityfile : List Char := ['i', 'd', 'e', 'n', 't', 'i', 't', 'y', 'f', 'i', 'l', 'e']

def addOption (options : ConfigMap) (k v : List Char) : ConfigMap :=
  Function.update options k (some
    (match options k with
    | some e => if k = identityfile then e ++ ' ' :: v else e
    | none => v))

/-- `add_option` to the last block, or to what is before all blocks. -/
def ParsedConfigFile.addOption {Path : Type} (config : ParsedConfigFile Path) (k v : List Char) :
    ParsedConfigFile Path :=
  match config.groups.getLast? with
  | some group =>
    { config with
      groups := config.groups.dropLast ++ [{ group with options := Ssh.addOption group.options k v }] }
  | none => { config with options := Ssh.addOption config.options k v }

/-- What a line does to the lists. -/
def ParsedConfigFile.enter {Path : Type} (config : ParsedConfigFile Path) :
    Item Path → ParsedConfigFile Path
  | .loaded path => { config with loadedFiles := config.loadedFiles ++ [path] }
  | .block criteria context =>
    { config with groups := config.groups ++ [⟨criteria, context, fun _ => none⟩] }
  | .option k v => config.addOption k v

/-- Where a keyword ends. -/
def isSeparator (c : Char) : Bool := c = '=' || isWhitespace c

/-- The value without the quotes around it. -/
def unquote (v : List Char) : Except Stop (List Char) :=
  if v.head? = some '"' ∧ v.getLast? = some '"' then
    if v.length < 2 then .error .sliceOrder else .ok v.tail.dropLast
  else .ok v

/-- The keyword and the value of a line. Of the separator one byte is dropped. -/
def readPair (toLowercase : List Char → List Char) (line : List Char) :
    Except Stop (Option (List Char × List Char)) :=
  let line := trim line
  if line = [] ∨ line.head? = some '#' then .ok none
  else
    match line.dropWhile fun c => !isSeparator c with
    | [] => .ok none
    | sep :: v =>
      if 1 < sep.utf8Size then .error .charBoundary
      else
        (unquote (trim v)).map fun v =>
          some (toLowercase (trim (line.takeWhile fun c => !isSeparator c)), v)

/-- The loop over the words of a `Match` line. -/
def parseMatch (toLowercase : List Char → List Char) :
    List (List Char) → List Criteria → Context → List Criteria × Context
  | [], criteria, context => (criteria, context)
  | cname :: tokens, criteria, context =>
    let word := toLowercase cname
    if word = "all".toList then parseMatch toLowercase tokens (criteria ++ [.all]) context
    else if word = "canonical".toList then parseMatch toLowercase tokens criteria .canonical
    else if word = "final".toList then parseMatch toLowercase tokens criteria .final
    else
      let patterns := parsePatternList (tokens.headD [])
      let criterion :=
        if word = "exec".toList then some (.exec (tokens.headD "false".toList))
        else if word = "host".toList then some (.host patterns)
        else if word = "originalhost".toList then some (.originalHost patterns)
        else if word = "user".toList then some (.user patterns)
        else if word = "localuser".toList then some (.localUser patterns)
        else none
      match criterion, tokens with
      | none, _ => (criteria, context)
      | some criterion, [] => (criteria ++ [criterion], context)
      | some criterion, _ :: tokens =>
        parseMatch toLowercase tokens (criteria ++ [criterion]) context

/-- A list of readings, one after the other. -/
def flatMapM {ε α β : Type} (f : α → Except ε (List β)) : List α → Except ε (List β)
  | [] => .ok []
  | a :: l => (f a).bind fun x => (flatMapM f l).map (x ++ ·)

namespace ConfigEnv

variable {Path : Type} [DecidableEq Path] (env : ConfigEnv Path)

/-- `do_include`, by what is made of the text of a file. -/
def doInclude (parse : List Char → Except Stop (List (Item Path))) (pattern : List Char) :
    Except Stop (List (Item Path)) :=
  flatMapM
    (fun path =>
      match env.files.lookup path with
      | some data => (parse data).map (.loaded path :: ·)
      | none => .ok [])
    (env.walk pattern)

/-- A line of `parse_impl`. -/
def readLine (parse : List Char → Except Stop (List (Item Path))) (line : List Char) :
    Except Stop (List (Item Path)) :=
  (readPair env.toLowercase line).bind fun pair =>
    match pair with
    | none => .ok []
    | some (k, v) =>
      if k = "include".toList then env.doInclude parse v
      else if k = "host".toList then
        .ok [.block [.host (parseWhitespacePatternList v)] .firstPass]
      else if k = "match".toList then
        let (criteria, context) := parseMatch env.toLowercase (splitAsciiWhitespace v) [] .firstPass
        .ok [.block criteria context]
      else .ok [.option k v]

/-- The lines of a text. A carriage return at the end of one goes with its blanks. -/
def lines (s : List Char) : List (List Char) := s.splitOn '\n'

/-- `parse_impl`, if the files are not included more than `depth` deep. -/
def parseImpl : Nat → List Char → Except Stop (List (Item Path))
  | 0, _ => .error .tooDeep
  | depth + 1, s => flatMapM (env.readLine (parseImpl depth)) (lines s)

def parse (depth : Nat) (s : List Char) (sourceFile : Option Path) :
    Except Stop (ParsedConfigFile Path) :=
  (env.parseImpl depth s).map fun items =>
    items.foldl ParsedConfigFile.enter ⟨fun _ => none, [], sourceFile.toList⟩

end ConfigEnv

/-- The options that are not in `target` yet. -/
def ConfigMap.fill (target options : ConfigMap) : ConfigMap := fun k => (target k).or (options k)

def ParsedConfigFile.applyMatches {Path : Type} (config : ParsedConfigFile Path)
    (hostname user localUser : List Char) (context : Context) (target : ConfigMap) : ConfigMap :=
  config.groups.foldl
    (fun target group =>
      if group.isMatch hostname user localUser context then target.fill group.options else target)
    (target.fill config.options)

/-- `for_host`: the options that are set and those of the files, with `expand_tokens` and
`expand_environment` as `expand`, and the values that stand for options without one. -/
def forHost {Path : Type} (options : ConfigMap) (configFiles : List (ParsedConfigFile Path))
    (host localUser : List Char) (expand : ConfigMap → List Char → List Char → List Char)
    (defaults : ConfigMap → ConfigMap) : ConfigMap :=
  let result := configFiles.foldl
    (fun result config => config.applyMatches host localUser localUser .firstPass result) options
  let expanded : ConfigMap := fun k => (result k).map (expand result k)
  expanded.fill (defaults expanded)

end Wakterm.Ssh
