import Cpu2Tensor.Client.Arrivals
import Cpu2Tensor.Client.Batch
import Cpu2Tensor.Client.Bounds
import Cpu2Tensor.Client.Bypass
import Cpu2Tensor.Client.Collator
import Cpu2Tensor.Client.Completion
import Cpu2Tensor.Client.Delivery
import Cpu2Tensor.Client.Device
import Cpu2Tensor.Client.Group
import Cpu2Tensor.Client.Isolation
import Cpu2Tensor.Client.Iterators
import Cpu2Tensor.Client.Legacy
import Cpu2Tensor.Client.Mixed
import Cpu2Tensor.Client.Native
import Cpu2Tensor.Client.Pool
import Cpu2Tensor.Client.Readers
import Cpu2Tensor.Client.Regroup
import Cpu2Tensor.Client.Schedules
import Cpu2Tensor.Client.Sessions
import Cpu2Tensor.Client.Stdio
import Cpu2Tensor.Client.Terminal
import Cpu2Tensor.Hardware.Capture
import Cpu2Tensor.Hardware.Disarm
import Cpu2Tensor.Hardware.Frame
import Cpu2Tensor.Hardware.Records
import Cpu2Tensor.Hardware.Release
import Cpu2Tensor.Hardware.Sketch
import Cpu2Tensor.Hardware.SketchAgreement
import Cpu2Tensor.Library.BoundedCounter
import Cpu2Tensor.Library.Brackets
import Cpu2Tensor.Library.Bytes
import Cpu2Tensor.Library.CString
import Cpu2Tensor.Library.Checked
import Cpu2Tensor.Library.Delimited
import Cpu2Tensor.Library.Dict
import Cpu2Tensor.Library.Guarded
import Cpu2Tensor.Library.History
import Cpu2Tensor.Library.Interaction
import Cpu2Tensor.Library.JsonText
import Cpu2Tensor.Library.Method
import Cpu2Tensor.Library.Packing
import Cpu2Tensor.Library.PrefixCode
import Cpu2Tensor.Library.Probing
import Cpu2Tensor.Library.Ragged
import Cpu2Tensor.Library.Ring
import Cpu2Tensor.Library.Routine
import Cpu2Tensor.Library.Rows
import Cpu2Tensor.Library.Termination
import Cpu2Tensor.Library.Threads
import Cpu2Tensor.Plugin.Buffer
import Cpu2Tensor.Plugin.Callbacks
import Cpu2Tensor.Plugin.Calls
import Cpu2Tensor.Plugin.CaptureBounds
import Cpu2Tensor.Plugin.CaptureLog
import Cpu2Tensor.Plugin.CaptureWindow
import Cpu2Tensor.Plugin.Config
import Cpu2Tensor.Plugin.Lossless
import Cpu2Tensor.Plugin.Sampling
import Cpu2Tensor.Plugin.Selection
import Cpu2Tensor.Plugin.Source
import Cpu2Tensor.Plugin.System
import Cpu2Tensor.Ring.FrameRing
import Cpu2Tensor.Ring.Publication
import Cpu2Tensor.Stream.Accept
import Cpu2Tensor.Stream.Bounds
import Cpu2Tensor.Stream.Duplicates
import Cpu2Tensor.Stream.Effect
import Cpu2Tensor.Stream.Global
import Cpu2Tensor.Stream.Reduction
import Cpu2Tensor.Stream.Runs
import Cpu2Tensor.Stream.Sequence
import Cpu2Tensor.Stream.Signals
import Cpu2Tensor.Stream.State
import Cpu2Tensor.Stream.Termination
import Cpu2Tensor.Stream.TransitionKeys
import Cpu2Tensor.Stream.Windows
import Cpu2Tensor.Window.Exact
import Cpu2Tensor.Window.Monitor
import Cpu2Tensor.Window.Transition
import Cpu2Tensor.Wire.Codec
import Cpu2Tensor.Wire.Header
import Cpu2Tensor.Worker.Action
import Cpu2Tensor.Worker.Deadline
import Cpu2Tensor.Worker.GuestPayload
import Cpu2Tensor.Worker.Kernel
import Cpu2Tensor.Worker.Lines
import Cpu2Tensor.Worker.Pause
import Cpu2Tensor.Worker.Preview
import Cpu2Tensor.Worker.Report
