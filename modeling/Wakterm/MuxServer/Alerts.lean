import Mathlib.Data.List.Basic

/-!
# The alerts of a pane

What a terminal announces besides its lines waits in `PerPane::notifications` until the pane is
pushed to the client.
-/

namespace Wakterm.MuxServer

inductive Progress where
  | none
  | percentage (n : UInt8)
  | error (n : UInt8)
  | indeterminate

inductive Alert where
  | bell
  | toastNotification (title : Option String) (body : String) (focus : Bool)
  | currentWorkingDirectoryChanged
  | iconTitleChanged (title : Option String)
  | windowTitleChanged (title : String)
  | tabTitleChanged (title : Option String)
  | paletteChanged
  | setUserVar (name value : String)
  | outputSinceFocusLost
  | progress (progress : Progress)

inductive AlertStateKey where
  | currentWorkingDirectory
  | iconTitle
  | windowTitle
  | tabTitle
  | palette
  | userVar (name : String)
  | outputSinceFocusLost
  | progress
  deriving DecidableEq

def alertStateKey : Alert → Option AlertStateKey
  | .bell => none
  | .toastNotification .. => none
  | .currentWorkingDirectoryChanged => some .currentWorkingDirectory
  | .iconTitleChanged _ => some .iconTitle
  | .windowTitleChanged _ => some .windowTitle
  | .tabTitleChanged _ => some .tabTitle
  | .paletteChanged => some .palette
  | .setUserVar name _ => some (.userVar name)
  | .outputSinceFocusLost => some .outputSinceFocusLost
  | .progress _ => some .progress

def maxPendingPaneAlerts : Nat := 256

/-- The end of `push_notification`: a full list takes nothing more. -/
def appendAlert (notifications : List Alert) (alert : Alert) : List Alert :=
  if notifications.length ≥ maxPendingPaneAlerts then notifications
  else notifications ++ [alert]

/-- What `push_notification` makes of the notifications. -/
def pushAlert (notifications : List Alert) (alert : Alert) : List Alert :=
  match alertStateKey alert with
  | some key =>
    match notifications.findIdx? fun existing => alertStateKey existing = some key with
    | some i => notifications.set i alert
    | none => appendAlert notifications alert
  | none => appendAlert notifications alert

/-- `PerPane`, as far as its alerts go. -/
structure PaneAlerts where
  sentInitialPalette : Bool
  configGeneration : Nat
  notifications : List Alert

inductive AlertPdu (Palette : Type) where
  | setPalette (paneId : Nat) (palette : Palette)
  | notifyAlert (paneId : Nat) (alert : Alert)

namespace PaneAlerts

def default : PaneAlerts := ⟨false, 0, []⟩

def pushNotification (p : PaneAlerts) (alert : Alert) : PaneAlerts :=
  { p with notifications := pushAlert p.notifications alert }

/-- The part of `collect_pane_changes` that announces the palette: a new
configuration may have changed it, and the client has to be told of it once. -/
def announcePalette (p : PaneAlerts) (generation : Nat) : PaneAlerts :=
  let p :=
    if p.configGeneration ≠ generation then
      { { p with configGeneration := generation }.pushNotification .paletteChanged with
          sentInitialPalette := true }
    else p
  if !p.sentInitialPalette then
    { p.pushNotification .paletteChanged with sentInitialPalette := true }
  else p

section

variable {Palette : Type}

/-- The body of the loop over the drained alerts. -/
def alertPdu (paneId : Nat) (palette : Palette) : Alert → AlertPdu Palette
  | .paletteChanged => .setPalette paneId palette
  | alert => .notifyAlert paneId alert

/-- `collect_pane_changes`, after the changes of the lines: the alerts that are
drained, as PDUs, and what is left. -/
def collectAlerts (p : PaneAlerts) (paneId : Nat) (palette : Palette) (generation : Nat) :
    List (AlertPdu Palette) × PaneAlerts :=
  let p := p.announcePalette generation
  (p.notifications.map (alertPdu paneId palette), { p with notifications := [] })

end

end PaneAlerts

end Wakterm.MuxServer
