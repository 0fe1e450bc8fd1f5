import EpicsTcl.Library.Runs
import EpicsTcl.Library.Glob
import EpicsTcl.Channel.Converter
import EpicsTcl.Library.Resource
import EpicsTcl.Channel.Channel
import EpicsTcl.Channel.ConnectionTheorems
import EpicsTcl.Command.ChannelCommand
import EpicsTcl.Command.WorldTheorems
import EpicsTcl.Command.WorldInvariant
import EpicsTcl.Command.EventTheorems
import EpicsTcl.Command.FeedbackTheorems
import EpicsTcl.Command.LinkTheorems
import EpicsTcl.Command.RegistryTheorems
import EpicsTcl.Command.MonitorSteps
import EpicsTcl.Command.RefreshTheorems
import EpicsTcl.Library.Log
import EpicsTcl.Library.Script
import EpicsTcl.Server.EpicsServer
import EpicsTcl.Server.Effects
import EpicsTcl.Server.Passes
import EpicsTcl.Server.IsolationTheorems
import EpicsTcl.Server.ServeTheorems
import EpicsTcl.Server.ChannelData
import EpicsTcl.Server.ReadinessTheorems
import EpicsTcl.Server.TimingTheorems
import EpicsTcl.Channel.Payload
import EpicsTcl.Library.Bytes
import EpicsTcl.Channel.DecodingTheorems
import EpicsTcl.Channel.Values
import EpicsTcl.Channel.AssignmentTheorems
import EpicsTcl.Channel.CacheTheorems
import EpicsTcl.Command.Subcommands
import EpicsTcl.Command.GetSetTheorems
import EpicsTcl.Command.RejectionTheorems
import EpicsTcl.Command.ExceptionTheorems
import EpicsTcl.History.Vector
import EpicsTcl.History.ChannelHistory
import EpicsTcl.History.PairingTheorems
import EpicsTcl.Channel.LabelTheorems
import EpicsTcl.Channel.UnitChannel
import EpicsTcl.Channel.LifetimeTheorems
import EpicsTcl.Command.DeletionTheorems
import EpicsTcl.Command.ReentranceTheorems
import EpicsTcl.Server.NamesTheorems
import EpicsTcl.History.KeepTheorems
import EpicsTcl.History.ClearTheorems
import EpicsTcl.History.ScheduleTheorems
import EpicsTcl.Widget.Chart
import EpicsTcl.Widget.ChartTheorems
import EpicsTcl.Widget.PollManager
import EpicsTcl.Widget.PollTheorems
import EpicsTcl.Widget.DispatchTheorems
import EpicsTcl.Library.Loop
import EpicsTcl.Widget.RadioMatrix
import EpicsTcl.Widget.LayoutTheorems
import EpicsTcl.Library.TclValue
import EpicsTcl.Widget.Meter
import EpicsTcl.Widget.DecadeTheorems
import EpicsTcl.Library.Scale
import EpicsTcl.Widget.HeightTheorems
import EpicsTcl.Widget.DrawTheorems
import EpicsTcl.Widget.TickTheorems
import EpicsTcl.Widget.RedrawTheorems
import EpicsTcl.Widget.NeedleTheorems
import EpicsTcl.Widget.RejectTheorems
import EpicsTcl.Library.Decimal
import EpicsTcl.Widget.BcmMeter
import EpicsTcl.Support.CStrings
import EpicsTcl.Support.CSocket
import EpicsTcl.Support.WriteTheorems
import EpicsTcl.Support.SocketTheorems
import EpicsTcl.Widget.BindDown
import EpicsTcl.Widget.RadioTheorems
import EpicsTcl.Library.TclList
import EpicsTcl.Widget.PullDown
import EpicsTcl.Widget.PullDownTheorems
import EpicsTcl.Widget.TerminationTheorems
import EpicsTcl.Widget.TickIdTheorems
import EpicsTcl.Library.Moves
import EpicsTcl.Command.Holdings
import EpicsTcl.Widget.ChannelOwners
import EpicsTcl.Widget.OwnerTheorems
import EpicsTcl.Library.Simulation
import EpicsTcl.Command.RefinementTheorems
import EpicsTcl.Widget.Buttons
import EpicsTcl.Widget.ButtonTheorems
import EpicsTcl.Widget.ButtonProcess
import EpicsTcl.Widget.FollowTheorems
import EpicsTcl.Widget.ChannelWidgets
import EpicsTcl.Widget.PinTheorems
import EpicsTcl.Widget.TypeNGo
import EpicsTcl.Widget.TypeNGoTheorems
import EpicsTcl.Library.Objects
import EpicsTcl.Widget.Loaders
import EpicsTcl.Widget.LoaderTheorems
import EpicsTcl.Library.Traces
import EpicsTcl.Widget.Leds
import EpicsTcl.Widget.LedTheorems
import EpicsTcl.Widget.EpicsLeds
import EpicsTcl.Widget.EpicsLedTheorems
import EpicsTcl.Support.ClosingTheorems
import EpicsTcl.Channel.ChannelList
import EpicsTcl.Channel.ListTheorems
import EpicsTcl.Channel.ListDataTheorems
