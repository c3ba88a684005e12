import Wakterm.MuxServer.Logic.PaneChanges
import Wakterm.Theorems.AgentRequest
import Wakterm.Theorems.AgentService
import Wakterm.Theorems.Alerts
import Wakterm.Theorems.Bidi
import Wakterm.Theorems.BlobLeases
import Wakterm.Theorems.Client
import Wakterm.Theorems.Codec
import Wakterm.Theorems.ControlStrings
import Wakterm.Theorems.EventStream
import Wakterm.Theorems.Fingerprints
import Wakterm.Theorems.Framing
import Wakterm.Theorems.InputPaste
import Wakterm.Theorems.Kitty
import Wakterm.Theorems.LfuCache
import Wakterm.Theorems.Lines
import Wakterm.Theorems.Mirror
import Wakterm.Theorems.PaneDirection
import Wakterm.Theorems.PaneTree
import Wakterm.Theorems.Paste
import Wakterm.Theorems.Questions
import Wakterm.Theorems.Rangeset
import Wakterm.Theorems.Remove
import Wakterm.Theorems.RenderPush
import Wakterm.Theorems.Resize
import Wakterm.Theorems.Screens
import Wakterm.Theorems.Scroll
import Wakterm.Theorems.Scrollback
import Wakterm.Theorems.SerializedLines
import Wakterm.Theorems.Session
import Wakterm.Theorems.Sgr
import Wakterm.Theorems.Split
import Wakterm.Theorems.SshConfig
import Wakterm.Theorems.VtParser
import Wakterm.Theorems.Window
import Wakterm.Theorems.Zoom
