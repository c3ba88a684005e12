import Wakterm.Term.Performer

/-!
# Modes of the keyboard, the mouse and the display

The fields of `TerminalState` that no handler of the screens reads: what the keyboard and the mouse
send, how pasted text is marked, and whether the cursor and the screen are shown in reverse.
-/

namespace Wakterm.Term

open Wakterm.Machine

inductive MouseEncoding where
  | x10 | utf8 | sgr | sgrPixels
  deriving DecidableEq

/-- `KeyboardEncoding`; the flags of kitty are 16 bits. -/
inductive KeyboardEncoding where
  | xterm | csiU | win32
  | kitty (flags : BitVec 16)
  deriving DecidableEq

inductive KittyKeyboardMode where
  | assignAll | setSpecified | clearSpecified

/-- The modes, with the stack of keyboard encodings of each screen, its top last. -/
structure Modes where
  reverseVideoMode : Bool
  usePrivateColorRegistersForEachGraphic : Bool
  applicationCursorKeys : Bool
  modifyOtherKeys : Option Int
  decAnsiMode : Bool
  applicationKeypad : Bool
  bracketedPaste : Bool
  anyEventMouse : Bool
  focusTracking : Bool
  mouseEncoding : MouseEncoding
  mouseTracking : Bool
  buttonEventMouse : Bool
  cursorVisible : Bool
  keyboardEncoding : KeyboardEncoding
  keyboardStack : List KeyboardEncoding
  altKeyboardStack : List KeyboardEncoding
  deriving DecidableEq

/-- What is asked of the modes: the codes of `perform_csi_mode` that set or reset one of them, the
keypad, and the sequences of the kitty keyboard. -/
inductive ModeRequest where
  | reverseVideo (set : Bool)
  | usePrivateColorRegistersForEachGraphic (set : Bool)
  | applicationCursorKeys (set : Bool)
  | decAnsiMode (set : Bool)
  | bracketedPaste (set : Bool)
  | showCursor (set : Bool)
  | mouseTracking (set : Bool)
  | buttonEventMouse (set : Bool)
  | anyEventMouse (set : Bool)
  | focusTracking (set : Bool)
  | sgrMouse (set : Bool)
  | sgrPixelsMouse (set : Bool)
  | utf8Mouse (set : Bool)
  | win32InputMode (set : Bool)
  | otherKeys (value : Option Int)
  | applicationKeypad (set : Bool)
  | setKittyState (flags : BitVec 16) (mode : KittyKeyboardMode)
  | pushKittyState (flags : BitVec 16) (mode : KittyKeyboardMode)
  | popKittyState (n : Nat)

/-- The flags of kitty that are in effect. -/
def currentFlags (stack : List KeyboardEncoding) : BitVec 16 :=
  match stack.getLast? with
  | some (.kitty flags) => flags
  | _ => 0

/-- The flags that a request makes of the current ones. -/
def KittyKeyboardMode.apply (mode : KittyKeyboardMode) (current flags : BitVec 16) : BitVec 16 :=
  match mode with
  | .assignAll => flags
  | .setSpecified => current ||| flags
  | .clearSpecified => current &&& ~~~flags

/-- `PushKittyState`: no more than 128 are kept. -/
def pushKitty (stack : List KeyboardEncoding) (flags : BitVec 16) : List KeyboardEncoding :=
  let stack := stack ++ [.kitty flags]
  if 128 < stack.length then stack.drop 1 else stack

namespace Modes

/-- What `TerminalState::new` and `Screen::new` begin with. -/
def new : Modes where
  reverseVideoMode := false
  usePrivateColorRegistersForEachGraphic := false
  applicationCursorKeys := false
  modifyOtherKeys := none
  decAnsiMode := false
  applicationKeypad := false
  bracketedPaste := false
  anyEventMouse := false
  focusTracking := false
  mouseEncoding := .x10
  mouseTracking := false
  buttonEventMouse := false
  cursorVisible := true
  keyboardEncoding := .xterm
  keyboardStack := []
  altKeyboardStack := []

/-- The stack of the screen that is shown, changed. -/
def onStack (m : Modes) (alt : Bool) (f : List KeyboardEncoding → List KeyboardEncoding) : Modes :=
  if alt then { m with altKeyboardStack := f m.altKeyboardStack }
  else { m with keyboardStack := f m.keyboardStack }

/-- A request is handled. The alternate screen may be shown, and kitty's keyboard be enabled. -/
def request (enableKittyKeyboard alt : Bool) (m : Modes) : ModeRequest → Modes
  | .reverseVideo set => { m with reverseVideoMode := set }
  | .usePrivateColorRegistersForEachGraphic set =>
    { m with usePrivateColorRegistersForEachGraphic := set }
  | .applicationCursorKeys set => { m with applicationCursorKeys := set }
  | .decAnsiMode set => { m with decAnsiMode := set }
  | .bracketedPaste set => { m with bracketedPaste := set }
  | .showCursor set => { m with cursorVisible := set }
  | .mouseTracking set => { m with mouseTracking := set }
  | .buttonEventMouse set => { m with buttonEventMouse := set }
  | .anyEventMouse set => { m with anyEventMouse := set }
  | .focusTracking set => { m with focusTracking := set }
  | .sgrMouse set => { m with mouseEncoding := if set then .sgr else .x10 }
  | .sgrPixelsMouse set => { m with mouseEncoding := if set then .sgrPixels else .x10 }
  | .utf8Mouse set => { m with mouseEncoding := if set then .utf8 else .x10 }
  | .win32InputMode set => { m with keyboardEncoding := if set then .win32 else .xterm }
  | .otherKeys value => { m with modifyOtherKeys := if value = some 0 then none else value }
  | .applicationKeypad set => { m with applicationKeypad := set }
  | .setKittyState flags mode =>
    if enableKittyKeyboard then m.onStack alt fun stack =>
      stack.dropLast ++ [.kitty (mode.apply (currentFlags stack) flags)]
    else m
  | .pushKittyState flags mode =>
    if enableKittyKeyboard then m.onStack alt fun stack =>
      pushKitty stack (mode.apply (currentFlags stack) flags)
    else m
  | .popKittyState n => m.onStack alt fun stack => stack.take (stack.length - n)

def softReset (m : Modes) : Modes :=
  { m with
    applicationCursorKeys := false, modifyOtherKeys := none, applicationKeypad := false
    reverseVideoMode := false }

/-- `EscCode::FullReset`, with `Screen::full_reset` for each screen. -/
def fullReset (m : Modes) : Modes :=
  { m with
    reverseVideoMode := false, usePrivateColorRegistersForEachGraphic := false
    applicationCursorKeys := false, decAnsiMode := false, applicationKeypad := false
    bracketedPaste := false, focusTracking := false, mouseTracking := false
    mouseEncoding := .x10, keyboardEncoding := .xterm, modifyOtherKeys := none
    anyEventMouse := false, buttonEventMouse := false, cursorVisible := true
    keyboardStack := [], altKeyboardStack := [] }

end Modes

/-! ## Terminals -/

/-- An action, or a request to the modes. -/
inductive Input where
  | action (action : Action)
  | request (request : ModeRequest)

/-- The action that the performer sees: the sequences of requests are nothing to the screens. -/
def Input.toAction : Input → Action
  | .action a => a
  | .request (.applicationKeypad _) => .esc .unmodelled
  | .request _ => .csi .unmodelled

/-- What an input makes of the modes. -/
def Modes.after (enableKittyKeyboard alt : Bool) (m : Modes) : Input → Modes
  | .action (.esc .fullReset) => m.fullReset
  | .action (.csi .softReset) => m.softReset
  | .action _ => m
  | .request r => m.request enableKittyKeyboard alt r

/-- `TerminalState` with the modes. -/
structure Terminal where
  state : TerminalState
  modes : Modes
  deriving DecidableEq

/-- A terminal in the midst of a batch. -/
structure Emulator where
  performer : Performer
  modes : Modes

/-- What is asked of Unicode, and whether kitty's keyboard is enabled. -/
structure Host where
  unicode : Unicode
  enableKittyKeyboard : Bool

namespace Emulator

variable (host : Host)

def perform (e : Emulator) (input : Input) : Except Panic Emulator :=
  (e.performer.perform host.unicode input.toAction).map fun p =>
    ⟨p, e.modes.after host.enableKittyKeyboard p.state.screen.altScreenIsActive input⟩

def performAll (e : Emulator) (inputs : List Input) : Except Panic Emulator :=
  inputs.foldlM (fun e input => e.perform host input) e

/-- The end of a batch: what was collected is printed. -/
def finish (e : Emulator) : Except Panic Terminal :=
  (e.performer.flushPrint host.unicode).map fun p => ⟨p.state, e.modes⟩

end Emulator

namespace Terminal

variable (host : Host)

/-- `TerminalState::new`; ConPTY's quirks come with a title that is to be ignored. -/
def new (size : TerminalSize) (config : TerminalConfig) (configuredScrollback : Nat)
    (enableConptyQuirks : Bool) : Terminal :=
  ⟨{ TerminalState.new size config configuredScrollback with
      enableConptyQuirks := enableConptyQuirks
      suppressInitialTitleChange := enableConptyQuirks }, .new⟩

/-- The beginning of a batch. -/
def start (t : Terminal) : Emulator := ⟨⟨{ t.state with seqno := t.state.seqno + 1 }, []⟩, t.modes⟩

/-- `perform_actions`. -/
def performInputs (t : Terminal) (inputs : List Input) : Except Panic Terminal :=
  t.start.performAll host inputs >>= Emulator.finish host

/-- Batches one after the other. -/
def run (t : Terminal) (batches : List (List Input)) : Except Panic Terminal :=
  batches.foldlM (fun t inputs => t.performInputs host inputs) t

theorem performInputs_state (t : Terminal) (inputs : List Input) :
    (t.performInputs host inputs).map Terminal.state =
      t.state.performActions host.unicode (inputs.map Input.toAction) := by
  have hall : ∀ e : Emulator, (e.performAll host inputs).map Emulator.performer =
      (inputs.map Input.toAction).foldlM (fun p action => p.perform host.unicode action)
        e.performer := by
    induction inputs with
    | nil => exact fun _ => rfl
    | cons input inputs ih =>
      intro e
      show (e.perform host input >>= fun e => e.performAll host inputs).map _ =
        e.performer.perform host.unicode input.toAction >>= _
      unfold Emulator.perform
      cases e.performer.perform host.unicode input.toAction with
      | error panic => rfl
      | ok p => exact ih _
  unfold performInputs TerminalState.performActions
  have hstart := hall t.start
  show _ = (inputs.map Input.toAction).foldlM _ t.start.performer >>= _
  rw [← hstart]
  cases t.start.performAll host inputs with
  | error panic => rfl
  | ok e =>
    show (e.finish host).map _ = (e.performer.flushPrint host.unicode >>= _)
    unfold Emulator.finish
    cases e.performer.flushPrint host.unicode with
    | error panic => rfl
    | ok p => rfl

end Terminal

end Wakterm.Term
