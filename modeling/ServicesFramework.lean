import ServicesFramework.Lib.Machine
import ServicesFramework.Lib.Loop
import ServicesFramework.Lib.GrowArray
import ServicesFramework.Lib.SortedMap
import ServicesFramework.Lib.Text
import ServicesFramework.Lib.Probe
import ServicesFramework.Lib.SharedCell
import ServicesFramework.Lib.Potential
import ServicesFramework.QueueRuns
import ServicesFramework.MsgCursors
import ServicesFramework.MsgResizing
import ServicesFramework.TunLoop
import ServicesFramework.NetMsgFlow
import ServicesFramework.NetMsgAddress
import ServicesFramework.DuplexEdges
import ServicesFramework.CollectorBuffering
import ServicesFramework.CollectorTraffic
import ServicesFramework.CollectorThreads
import ServicesFramework.CollectorLatency
import ServicesFramework.CollectorLocks
import ServicesFramework.CollectorDispatch
import ServicesFramework.PollerDeliveries
import ServicesFramework.PollerWakeups
import ServicesFramework.PollerClock
import ServicesFramework.PollerPunctual
import ServicesFramework.PollerShutdown
import ServicesFramework.SettingsUpdates
import ServicesFramework.SettingsSections
import ServicesFramework.SettingsNoise
import ServicesFramework.SettingsThreads
import ServicesFramework.SettingsSplit
import ServicesFramework.TimerFirings
import ServicesFramework.TimerCancel
import ServicesFramework.TimerStop
import ServicesFramework.CollectorDeadlock
import ServicesFramework.NodeStart
import ServicesFramework.Pipeline
import ServicesFramework.NetworkSignals
import ServicesFramework.NetworkDrain
import ServicesFramework.NetworkDeadlock
import ServicesFramework.NetworkShutdown
import ServicesFramework.Shell
import ServicesFramework.File
