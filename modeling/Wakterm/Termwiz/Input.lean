import Mathlib.Data.List.Infix
import Wakterm.Escape.Parser
import Wakterm.Machine.Decimal

/-!
# The input of a terminal

The tree of `termwiz::keymap`, and the `InputParser` that reads keys by it.
-/

namespace Wakterm.Termwiz

open Wakterm.Escape Wakterm.Machine Wakterm.Vtparse

inductive Node (V : Type) where
  | mk (label : UInt8) (children : List (Node V)) (value : Option V)

namespace Node

variable {V : Type}

def label : Node V → UInt8
  | mk label _ _ => label

def children : Node V → List (Node V)
  | mk _ children _ => children

def value : Node V → Option V
  | mk _ _ value => value

def new (label : UInt8) : Node V := mk label [] none

/-- `binary_search_by` for a label. -/
def child (label : UInt8) : List (Node V) → Option (Node V)
  | [] => none
  | node :: nodes =>
    if node.label < label then child label nodes
    else if node.label = label then some node
    else none

/-- The child with a label is changed, or a new one at its place. -/
def modifyChild (label : UInt8) (f : Node V → Node V) : List (Node V) → List (Node V)
  | [] => [f (new label)]
  | node :: nodes =>
    if node.label < label then node :: modifyChild label f nodes
    else if node.label = label then f node :: nodes
    else f (new label) :: node :: nodes

def insert (value : V) : List UInt8 → Node V → Node V
  | [], mk label children _ => mk label children (some value)
  | b :: key, mk label children old => mk label (modifyChild b (insert value key) children) old

end Node

inductive NodeFind (V : Type) where
  | none
  | exact (depth : Nat) (value : V)
  | ambiguousBackTrack
  | ambiguousMatch (depth : Nat) (value : V)

/-- What a node with no match below it finds. -/
def Node.backTrack {V : Type} (node : Node V) (depth : Nat) (maybeMore : Bool) : NodeFind V :=
  match node.value with
  | some value => if maybeMore then .ambiguousMatch depth value else .exact depth value
  | none => .ambiguousBackTrack

def Node.lookup {V : Type} (maybeMore : Bool) :
    List UInt8 → Nat → Node V → Option (NodeFind V)
  | [], depth, node =>
    if node.children.isEmpty then node.value.map (.exact depth ·)
    else some (node.backTrack depth maybeMore)
  | b :: key, depth, node =>
    match child b node.children with
    | some next =>
      (lookup maybeMore key (depth + 1) next).map fun found =>
        match found with
        | .ambiguousBackTrack => node.backTrack depth maybeMore
        | found => found
    | none =>
      if depth = 0 then some .none
      else some (match node.value with
        | some value => .exact depth value
        | none => .ambiguousBackTrack)

inductive Found (V : Type) where
  | none
  | exact (len : Nat) (value : V)
  | ambiguous (len : Nat) (value : V)
  | needData

structure KeyMap (V : Type) where
  root : Node V

namespace KeyMap

variable {V : Type}

def new : KeyMap V := ⟨.new 0⟩

def insert (map : KeyMap V) (key : List UInt8) (value : V) : KeyMap V :=
  ⟨map.root.insert value key⟩

def lookup (map : KeyMap V) (key : List UInt8) (maybeMore : Bool) : Option (Found V) :=
  (map.root.lookup maybeMore key 0).map fun found =>
    match found with
    | .none => .none
    | .ambiguousBackTrack => .needData
    | .exact depth value => .exact depth value
    | .ambiguousMatch depth value => .ambiguous depth value

end KeyMap

/-! ## The events -/

abbrev Modifiers := UInt16

namespace Modifiers

def none : Modifiers := 0
def shift : Modifiers := 2
def alt : Modifiers := 4
def ctrl : Modifiers := 8

end Modifiers

inductive KeyCode where
  | char (c : Char)
  | function (n : Nat)
  | backspace | tab | enter | escape | insert | delete | home | «end» | pageUp | pageDown
  | upArrow | downArrow | rightArrow | leftArrow
  | applicationUpArrow | applicationDownArrow | applicationRightArrow | applicationLeftArrow
  | internalPasteStart | internalPasteEnd
  deriving DecidableEq

structure KeyEvent where
  key : KeyCode
  modifiers : Modifiers
  deriving DecidableEq

inductive MouseButton where
  | press (button : Nat)
  | release (button : Nat)
  | drag (button : Nat)
  | none

/-- `MouseButtons::from`, by its bits. -/
def MouseButton.buttons : MouseButton → UInt8
  | press 1 | drag 1 => 2
  | press 2 | drag 2 => 8
  | press 3 | drag 3 => 4
  | press 4 => 16 ||| 64
  | press 5 => 16
  | press 6 => 32 ||| 64
  | press 7 => 32
  | _ => 0

inductive MouseReport where
  | sgr1006 (x y : UInt16) (button : MouseButton) (modifiers : Modifiers)
  | sgr1016 (xPixels yPixels : UInt16) (button : MouseButton) (modifiers : Modifiers)

inductive InputEvent where
  | key (event : KeyEvent)
  | mouse (x y : UInt16) (mouseButtons : UInt8) (modifiers : Modifiers)
  | pixelMouse (xPixels yPixels : UInt16) (mouseButtons : UInt8) (modifiers : Modifiers)
  | paste (text : Text)
  deriving DecidableEq

def MouseReport.event : MouseReport → InputEvent
  | sgr1006 x y button modifiers => .mouse x y button.buttons modifiers
  | sgr1016 x y button modifiers => .pixelMouse x y button.buttons modifiers

/-- The button of a report, which `M` makes a press and `m` a release. -/
def mouseButton (press : Bool) (code : Int64) : Option MouseButton :=
  if code = 35 ∨ code = 3 then some .none
  else if 0 ≤ code ∧ code ≤ 2 ∨ 64 ≤ code ∧ code ≤ 67 then
    let button := if code ≤ 2 then code.toInt.toNat + 1 else code.toInt.toNat - 60
    some (if press then .press button else .release button)
  else if press ∧ 32 ≤ code ∧ code ≤ 34 then some (.drag (code.toInt.toNat - 31))
  else none

/-- `mouse_sgr1006`, where `CSI::parse` comes to it. -/
def mouseSgr1006 (params : List CsiParam) (control : UInt8) : Option MouseReport :=
  match params with
  | [.p 0x3c, .integer p0, .p 0x3b, .integer p1, .p 0x3b, .integer p2] =>
    if control = 0x6d ∨ control = 0x4d then
      let bits := Int64.ofInt p0
      let modifiers := (if bits &&& 4 = 0 then 0 else Modifiers.shift) |||
        (if bits &&& 8 = 0 then 0 else Modifiers.alt) |||
        (if bits &&& 16 = 0 then 0 else Modifiers.ctrl)
      (mouseButton (control = 0x4d) (bits &&& 0x63)).map fun button =>
        .sgr1006 (.ofInt p1) (.ofInt p2) button modifiers
    else none
  | _ => none

/-! ## The keys -/

def ascii (text : String) : List UInt8 := encodeText text.toList

def decimal (n : Nat) : List UInt8 := encodeText (printNat n)

def modifierCombos : List (String × Modifiers) :=
  [("", .none), (";1", .none), (";2", .shift), (";3", .alt), (";4", .alt ||| .shift), (";5", .ctrl),
    (";6", .ctrl ||| .shift), (";7", .ctrl ||| .alt), (";8", .ctrl ||| .alt ||| .shift)]

def metaModifierCombos : List (String × Modifiers) :=
  [(";9", .alt), (";10", .alt ||| .shift), (";11", .alt), (";12", .alt ||| .shift),
    (";13", .alt ||| .ctrl), (";14", .alt ||| .ctrl ||| .shift), (";15", .alt ||| .ctrl),
    (";16", .alt ||| .ctrl ||| .shift)]

/-- A key with each of the modifiers, between what comes before them and after them. -/
def modified (combos : List (String × Modifiers)) (before after : List UInt8) (key : KeyCode) :
    List (List UInt8 × InputEvent) :=
  combos.map fun combo => (before ++ ascii combo.1 ++ after, .key ⟨key, combo.2⟩)

/-- The key that `modifyOtherKeys` names by a character. -/
def otherKey (c : Nat) : KeyCode :=
  if c = 8 ∨ c = 0x7f then .backspace
  else if c = 0x1b then .escape
  else if c = 9 then .tab
  else if c = 10 ∨ c = 13 then .enter
  else .char (.ofNat c)

def asciiKeys (c : Nat) : List (List UInt8 × InputEvent) :=
  modifierCombos.flatMap fun combo =>
    (ascii "\x1b[" ++ decimal c ++ ascii combo.1 ++ ascii "u", .key ⟨.char (.ofNat c), combo.2⟩) ::
      if combo.1 = "" then []
      else [(ascii "\x1b[27" ++ ascii combo.1 ++ ascii ";" ++ decimal c ++ ascii "~",
        .key ⟨otherKey c, combo.2⟩)]

def arrows : List (KeyCode × String) :=
  [(.upArrow, "A"), (.downArrow, "B"), (.rightArrow, "C"), (.leftArrow, "D"), (.home, "H"),
    (.end, "F")]

def rxvtArrows : List (KeyCode × String) :=
  [(.upArrow, "a"), (.downArrow, "b"), (.rightArrow, "c"), (.leftArrow, "d")]

def applicationArrows : List (KeyCode × String) :=
  [(.applicationUpArrow, "A"), (.applicationDownArrow, "B"), (.applicationRightArrow, "C"),
    (.applicationLeftArrow, "D")]

def functionLetters : List (KeyCode × String) :=
  [(.function 1, "P"), (.function 2, "Q"), (.function 3, "R"), (.function 4, "S")]

def functionCodes : List (Nat × Nat) :=
  [(1, 11), (2, 12), (3, 13), (4, 14), (5, 15), (6, 17), (7, 18), (8, 19), (9, 20), (10, 21),
    (11, 23), (12, 24), (13, 25), (14, 26), (15, 28), (16, 29), (17, 31), (18, 32), (19, 33),
    (20, 34)]

def editingKeys : List (KeyCode × String) :=
  [(.insert, "2"), (.delete, "3"), (.home, "1"), (.end, "4"), (.pageUp, "5"), (.pageDown, "6"),
    (.home, "7"), (.end, "8")]

def editingSuffixes : List (String × Modifiers) :=
  [("~", .none), ("$", .shift), ("^", .ctrl), ("@", .shift ||| .ctrl)]

def startPaste : List UInt8 := ascii "\x1b[200~"
def endPaste : List UInt8 := ascii "\x1b[201~"

/-- The keys before that of a paste. -/
def earlierKeys : List (List UInt8 × InputEvent) :=
  ((List.range 26).flatMap fun i =>
    [([.ofNat (i + 1)], .key ⟨.char (.ofNat (i + 0x61)), .ctrl⟩),
      ([0x1b, .ofNat (i + 0x41)], .key ⟨.char (.ofNat (i + 0x41)), .alt⟩)]) ++
  (List.range 0x80).flatMap asciiKeys ++
  (arrows.flatMap fun (key, dir) =>
    (ascii "\x1b[" ++ ascii dir, .key ⟨key, .none⟩) ::
      modified (modifierCombos ++ metaModifierCombos) (ascii "\x1b[1") (ascii dir) key) ++
  (rxvtArrows.flatMap fun (key, dir) =>
    [(ascii "\x1b[" ++ ascii dir, .key ⟨key, .shift⟩),
      (ascii "\x1bO" ++ ascii dir, .key ⟨key, .ctrl⟩)]) ++
  (applicationArrows.flatMap fun (key, dir) =>
    (ascii "\x1bO" ++ ascii dir, .key ⟨key, .none⟩) ::
      modified modifierCombos (ascii "\x1bO1") (ascii dir) key) ++
  (functionLetters.map fun (key, c) => (ascii "\x1bO" ++ ascii c, .key ⟨key, .none⟩)) ++
  (functionLetters.flatMap fun (key, c) =>
    modified (modifierCombos ++ metaModifierCombos) (ascii "\x1b[1") (ascii c) key) ++
  (functionCodes.flatMap fun (n, code) =>
    modified (modifierCombos ++ metaModifierCombos) (ascii "\x1b[" ++ decimal code) (ascii "~")
      (.function n)) ++
  (editingKeys.flatMap fun (key, c) => editingSuffixes.map fun (suffix, modifiers) =>
    (ascii "\x1b[" ++ ascii c ++ ascii suffix, .key ⟨key, modifiers⟩)) ++
  [([0x7f], .key ⟨.backspace, .none⟩), ([0x8], .key ⟨.backspace, .none⟩),
    ([0x1b], .key ⟨.escape, .none⟩), (ascii "\t", .key ⟨.tab, .none⟩),
    (ascii "\x1b[Z", .key ⟨.tab, .shift⟩), (ascii "\r", .key ⟨.enter, .none⟩),
    (ascii "\n", .key ⟨.enter, .none⟩)]

def basicKeys : List (List UInt8 × InputEvent) :=
  earlierKeys ++ [(startPaste, .key ⟨.internalPasteStart, .none⟩),
    (endPaste, .key ⟨.internalPasteEnd, .none⟩), (ascii "\x1b[", .key ⟨.char '[', .alt⟩)]

def buildBasicKeyMap : KeyMap InputEvent :=
  basicKeys.foldl (fun map entry => map.insert entry.1 entry.2) .new

/-! ## The parser -/

inductive InputState where
  | normal
  | escapeMaybeAlt
  | pasting (offset : Nat)
  deriving DecidableEq

/-- `InputParser`; the key map is the same in all of them. -/
structure InputParser where
  buf : List UInt8
  state : InputState

/-- What a round of the loop of `process_bytes` comes to: it is the last, or there is another. -/
inductive Round where
  | stop (parser : InputParser)
  | next (parser : InputParser) (events : List InputEvent)

/-- `ReadBuffer::find_subsequence`; `none` if the slice is out of bounds. -/
def findSubsequence (buf : List UInt8) (offset : Nat) (needle : List UInt8) :
    Option (Option Nat) :=
  if offset ≤ buf.length then
    some (((buf.drop offset).tails.findIdx? needle.isPrefixOf).map (· + offset))
  else none

def decodeOneChar (bytes : List UInt8) : Option (Char × Nat) :=
  [1, 2, 3, 4].findSome? fun len =>
    match fromUtf8 (bytes.take len) with
    | some [c] => some (c, len)
    | _ => none

/-- The decoders of a parser of which only a first action is asked for, and only whether it is a
mouse report. -/
def firstDecoders (base64 : Base64) : Decoders (Option MouseReport) Unit Unit Unit where
  csi params _ control := [mouseSgr1006 params control]
  osc _ := ()
  esc _ _ := ()
  tmuxLine _ := none
  base64 := base64

section Parser

variable {σ : Type} (utf8 : Utf8Parser σ) (base64 : Base64)

def parseFirst (parser : Parser σ) (idx : Nat) : List UInt8 →
    Except Fault (Option (Action (Option MouseReport) Unit Unit Unit × Nat))
  | [] => .ok none
  | b :: bytes => do
    let (parser, actions) ← parser.throughMachine utf8 (firstDecoders base64) [b]
    match actions.head? with
    | some action => .ok (some (action, idx + 1))
    | none => parseFirst parser (idx + 1) bytes

/-- The mouse report that the bytes begin with. -/
def firstMouse (bytes : List UInt8) : Option (Option (MouseReport × Nat)) :=
  match parseFirst utf8 base64 (.new utf8) 0 bytes with
  | .ok (some (.csi (some report), len)) => some (some (report, len))
  | .ok _ => some none
  | .error _ => none

namespace InputParser

def new : InputParser := ⟨[], .normal⟩

def advance (p : InputParser) (len : Nat) : Option InputParser :=
  if len ≤ p.buf.length then some { p with buf := p.buf.drop len } else none

def dispatchCallback (p : InputParser) (event : InputEvent) : InputParser × List InputEvent :=
  match p.state, event with
  | .normal, .key ⟨.internalPasteStart, _⟩ => ({ p with state := .pasting 0 }, [])
  | .escapeMaybeAlt, .key ⟨.internalPasteStart, _⟩ =>
    ({ p with state := .pasting 0 }, [.key ⟨.escape, .none⟩])
  | .escapeMaybeAlt, .key ⟨key, modifiers⟩ =>
    ({ p with state := .normal }, [.key ⟨key, modifiers ||| .alt⟩])
  | .escapeMaybeAlt, event => (p, [.key ⟨.escape, .none⟩, event])
  | _, event => (p, [event])

/-- The event is dispatched, and its bytes are done with. -/
def dispatch (p : InputParser) (len : Nat) (event : InputEvent) : Option Round :=
  let (p, events) := p.dispatchCallback event
  (p.advance len).map (.next · events)

def readChar (p : InputParser) : Option Round :=
  match decodeOneChar p.buf with
  | some (c, len) => p.dispatch len (.key ⟨.char c, .none⟩)
  | none => some (.stop p)

/-- What is found of the keys. -/
def readKey (p : InputParser) (maybeMore : Bool) : Found InputEvent → Option Round
  | .exact len event =>
    if event = .key ⟨.escape, .none⟩ ∧ p.state = .normal ∧ len < p.buf.length then
      ({ p with state := .escapeMaybeAlt }.advance len).map (.next · [])
    else p.dispatch len event
  | .ambiguous len event => if maybeMore then some (.stop p) else p.dispatch len event
  | .needData => if maybeMore then some (.stop p) else p.readChar
  | .none => p.readChar

/-- The bytes of a paste are searched for its end, from `offset` on. -/
def readPaste (p : InputParser) (offset : Nat) : Option Round := do
  match ← findSubsequence p.buf offset endPaste with
  | some idx =>
    let pasted := fromUtf8Lossy (p.buf.take idx)
    let p ← p.advance ((encodeText pasted).length + endPaste.length)
    return .next { p with state := .normal } [.paste pasted]
  | none => return .stop { p with state := .pasting (p.buf.length - endPaste.length) }

/-- An escape in the normal state can be a mouse report, or the start of one. -/
def readEscape (p : InputParser) (maybeMore : Bool) : Option Round := do
  match ← firstMouse utf8 base64 p.buf with
  | some (report, len) =>
    let p ← p.advance len
    return .next p [report.event]
  | none =>
    if maybeMore && (ascii "\x1b[<").isPrefixOf p.buf then return .stop p
    else p.readKey maybeMore (← buildBasicKeyMap.lookup p.buf maybeMore)

/-- A round of the loop of `process_bytes`, for bytes that are there; `none` is a panic. -/
def round (p : InputParser) (maybeMore : Bool) : Option Round :=
  match p.state with
  | .pasting offset => p.readPaste offset
  | _ => do
    if p.state = .normal ∧ p.buf.head? = some 0x1b then p.readEscape utf8 base64 maybeMore
    else p.readKey maybeMore (← buildBasicKeyMap.lookup p.buf maybeMore)

def processBytes (maybeMore : Bool) : Nat → InputParser → Option (InputParser × List InputEvent)
  | 0, p => some (p, [])
  | fuel + 1, p =>
    if p.buf = [] then some (p, [])
    else do
      match ← p.round utf8 base64 maybeMore with
      | .stop p => return (p, [])
      | .next p events =>
        let (p, more) ← processBytes maybeMore fuel p
        return (p, events ++ more)

/-- `InputParser::parse`. Each round takes a byte at least. -/
def parse (p : InputParser) (bytes : List UInt8) (maybeMore : Bool) :
    Option (InputParser × List InputEvent) :=
  let p := { p with buf := p.buf ++ bytes }
  p.processBytes utf8 base64 maybeMore p.buf.length

end InputParser

end Parser

end Wakterm.Termwiz
