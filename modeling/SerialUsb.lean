import SerialUsb.Transition.Run
import SerialUsb.Transition.Progress
import SerialUsb.Segmentation.Segments
import SerialUsb.Framing.Stream
import SerialUsb.Framing.Message
import SerialUsb.Framing.Records
import SerialUsb.Memory.Copy
import SerialUsb.Memory.Inverse
import SerialUsb.Memory.CountedArray
import SerialUsb.Memory.MoveToBack
import SerialUsb.Protocol.Packet
import SerialUsb.Adapter.Receive
import SerialUsb.Adapter.Send
import SerialUsb.Adapter.Resume
import SerialUsb.Adapter.Outcomes
import SerialUsb.Adapter.Delivered
import SerialUsb.Firmware.ControlRequest
import SerialUsb.Firmware.Interrupt
import SerialUsb.Proxy.Endpoints
import SerialUsb.Proxy.Usb
import SerialUsb.Proxy.Process
import SerialUsb.Proxy.Sending
import SerialUsb.Proxy.Spec
import SerialUsb.Firmware.Upload
import SerialUsb.Proxy.Descriptors
import SerialUsb.Gusb.Tree
import SerialUsb.Gusb.Layout
import SerialUsb.Firmware.Descriptors
import SerialUsb.Firmware.Outputs
import SerialUsb.Firmware.EndpointConfigs
import SerialUsb.Firmware.EndpointRegisters
import SerialUsb.Firmware.Input
import SerialUsb.Firmware.Output
import SerialUsb.Firmware.Control
import SerialUsb.Proxy.FixEndpoints
import SerialUsb.Gusb.Probe
import SerialUsb.Gusb.Walk
import SerialUsb.Gusb.Termination
import SerialUsb.Gusb.Grouping
import SerialUsb.Gusb.Accesses
import SerialUsb.Gusb.Pointers
import SerialUsb.Gusb.HidReports
import SerialUsb.Gusb.Arrivals
import SerialUsb.Gusb.Transfers
import SerialUsb.Proxy.EndpointMaps
import SerialUsb.Proxy.RawEndpoints
import SerialUsb.Proxy.Rewritten
import SerialUsb.Proxy.ReadEndpoints
import SerialUsb.Proxy.Capacity
import SerialUsb.Proxy.EndpointRequests
import SerialUsb.Proxy.ControlPackets
import SerialUsb.Proxy.Served
import SerialUsb.Proxy.TableAccesses
import SerialUsb.Proxy.InPackets
import SerialUsb.Proxy.Callbacks
import SerialUsb.Proxy.Traffic
import SerialUsb.Proxy.SizedPackets
import SerialUsb.Gasync.Sources
import SerialUsb.Gasync.Timers
import SerialUsb.Gasync.Async
import SerialUsb.Gasync.Registration
import SerialUsb.Gasync.Dispatch
import SerialUsb.Gasync.LiveSources
import SerialUsb.System.Startup
import SerialUsb.System.DescriptorStore
import SerialUsb.System.Configuration
import SerialUsb.System.InPath
import SerialUsb.System.OutPath
import SerialUsb.System.Service
import SerialUsb.System.TableRanges
import SerialUsb.System.EndpointTables
import SerialUsb.System.Control
import SerialUsb.System.ControlTransfer
import SerialUsb.System.ControlInvariant
import SerialUsb.System.ControlMatching
import SerialUsb.System.BufferBounds
import SerialUsb.System.Opening
import SerialUsb.System.Teardown
import SerialUsb.System.FailedOpens
import SerialUsb.System.DataStage
import SerialUsb.System.ReadStage
import SerialUsb.System.ArrayBounds
import SerialUsb.System.EndpointSetup
import SerialUsb.System.Shutdown
import SerialUsb.System.StartupProgress
import SerialUsb.System.Requests
import SerialUsb.System.DescriptorRequests
import SerialUsb.System.InPathProgress
import SerialUsb.System.OutPathProgress
import SerialUsb.System.OutWrites
import SerialUsb.System.Transparency
import SerialUsb.System.Selection
import SerialUsb.System.ControlReplies
import SerialUsb.System.ControlRun
import SerialUsb.System.ControlSteps
import SerialUsb.System.ControlTransparency
