import InputRelay.Binary.Binary32
import InputRelay.Binary.Rounding
import InputRelay.Binary.Shortest
import InputRelay.Binding
import InputRelay.Channel
import InputRelay.Clipboard
import InputRelay.Command
import InputRelay.CommandLine.Arguments
import InputRelay.CommandLine.Listing
import InputRelay.CommandLine.Run
import InputRelay.Config.Basic
import InputRelay.Config.File
import InputRelay.Controller
import InputRelay.Controller.Host
import InputRelay.Controller.Slots
import InputRelay.Disk
import InputRelay.Event
import InputRelay.FileDrop
import InputRelay.Form.Command
import InputRelay.Form.Event
import InputRelay.Form.Geometry
import InputRelay.Geometry
import InputRelay.Json.Basic
import InputRelay.Json.Form
import InputRelay.Json.Reader
import InputRelay.Json.Single
import InputRelay.Json.Writer
import InputRelay.Keyboard
import InputRelay.Main
import InputRelay.Mouse
import InputRelay.Named
import InputRelay.Orientation
import InputRelay.Proofs.Binary.Rounding
import InputRelay.Proofs.CommandLine.Listing
import InputRelay.Proofs.Config.Defaults
import InputRelay.Proofs.Config.Kept
import InputRelay.Proofs.Config.Reload
import InputRelay.Proofs.Controller.Keying
import InputRelay.Proofs.Controller.Places
import InputRelay.Proofs.Controller.Slots
import InputRelay.Proofs.Form.Command
import InputRelay.Proofs.Form.Event
import InputRelay.Proofs.Form.Lossless
import InputRelay.Proofs.Geometry
import InputRelay.Proofs.Json.Layout
import InputRelay.Proofs.Json.Literal
import InputRelay.Proofs.Json.Members
import InputRelay.Proofs.Json.Numeral
import InputRelay.Proofs.Json.Reading
import InputRelay.Proofs.Json.Soundness
import InputRelay.Proofs.Named
import InputRelay.Proofs.Session.Acknowledgment
import InputRelay.Proofs.Session.Coherence
import InputRelay.Proofs.Session.Deed
import InputRelay.Proofs.Session.Destination
import InputRelay.Proofs.Session.DoubleClicks
import InputRelay.Proofs.Session.Ending
import InputRelay.Proofs.Session.Forwarding
import InputRelay.Proofs.Session.Handlers
import InputRelay.Proofs.Session.Handover
import InputRelay.Proofs.Session.History
import InputRelay.Proofs.Session.HotPlug
import InputRelay.Proofs.Session.Independence
import InputRelay.Proofs.Session.Keystrokes
import InputRelay.Proofs.Session.Mapped
import InputRelay.Proofs.Session.Pasting
import InputRelay.Proofs.Session.Pinch
import InputRelay.Proofs.Session.Recounting
import InputRelay.Proofs.Session.Relative
import InputRelay.Proofs.Session.Repeats
import InputRelay.Proofs.Session.Replacing
import InputRelay.Proofs.Session.Reports
import InputRelay.Proofs.Session.Requests
import InputRelay.Proofs.Session.Routing
import InputRelay.Proofs.Session.Sending
import InputRelay.Proofs.Session.Sight
import InputRelay.Proofs.Session.TouchStream
import InputRelay.Proofs.Session.Touches
import InputRelay.Proofs.Session.ViewOnly
import InputRelay.Proofs.Session.Window
import InputRelay.Proofs.Shortcut
import InputRelay.Proofs.Text.Digits
import InputRelay.Proofs.Text.FlagSet
import InputRelay.Proofs.Text.Numeral
import InputRelay.Proofs.Toml.Contents
import InputRelay.Proofs.Toml.DateTime
import InputRelay.Proofs.Toml.Document
import InputRelay.Proofs.Toml.Number
import InputRelay.Proofs.Toml.Scalar
import InputRelay.Proofs.Toml.Section
import InputRelay.Proofs.Toml.Survey
import InputRelay.Proofs.Toml.Text
import InputRelay.Proofs.Toml.Tree
import InputRelay.Proofs.Touchmap.Aiming
import InputRelay.Proofs.Touchmap.Building
import InputRelay.Proofs.Touchmap.Buttons
import InputRelay.Proofs.Touchmap.Contacts
import InputRelay.Proofs.Touchmap.Deflection
import InputRelay.Proofs.Touchmap.Document
import InputRelay.Proofs.Touchmap.Driving
import InputRelay.Proofs.Touchmap.Extent
import InputRelay.Proofs.Touchmap.Fingers
import InputRelay.Proofs.Touchmap.Foremost
import InputRelay.Proofs.Touchmap.Holding
import InputRelay.Proofs.Touchmap.Proposals
import InputRelay.Proofs.Touchmap.Reach
import InputRelay.Proofs.Touchmap.Reaction
import InputRelay.Proofs.Touchmap.Strokes
import InputRelay.Proofs.Touchmap.Table
import InputRelay.Proofs.Touchmap.Variation
import InputRelay.Proofs.Touchmap.Walk
import InputRelay.Screen
import InputRelay.Session.Basic
import InputRelay.Session.Controllers
import InputRelay.Session.Keyboard
import InputRelay.Session.Pointer
import InputRelay.Session.Run
import InputRelay.Session.Turn
import InputRelay.Shortcut
import InputRelay.Text.Blank
import InputRelay.Text.Digits
import InputRelay.Text.FlagSet
import InputRelay.Toml.Reader
import InputRelay.Toml.Scalar
import InputRelay.Toml.Text
import InputRelay.Toml.Tree
import InputRelay.Toml.Writer
import InputRelay.Touchmap.Basic
import InputRelay.Touchmap.Builder
import InputRelay.Touchmap.Document
import InputRelay.Touchmap.Engine
import InputRelay.VirtualFinger
