import ReKernelX.Foundation.Bytes
import ReKernelX.Foundation.Chains
import ReKernelX.Module.Abi
import ReKernelX.Module.FreeAsync
import ReKernelX.Module.Transaction
import ReKernelX.Foundation.Newest
import ReKernelX.Module.DataEqual
import ReKernelX.Module.Replacement
import ReKernelX.Foundation.Transition
import ReKernelX.Module.Senders
import ReKernelX.Module.Token
import ReKernelX.Module.Reclaim
import ReKernelX.Client.Builder
import ReKernelX.Client.Receive
import ReKernelX.Foundation.Netlink
import ReKernelX.Module.Genl
import ReKernelX.Client.Attributes
import ReKernelX.Client.Events
import ReKernelX.EventPath
import ReKernelX.Client.Connection
import ReKernelX.Client.Reconnect
import ReKernelX.Client.Walk
import ReKernelX.Client.Decoder
import ReKernelX.Client.Layout
import ReKernelX.Foundation.Genetlink
import ReKernelX.Module.NetUid
import ReKernelX.Module.Requests
import ReKernelX.RequestPath
import ReKernelX.Client.Sections
import ReKernelX.Module.Lifecycle
import ReKernelX.Module.Netfilter
import ReKernelX.Foundation.ModifiedUtf8
import ReKernelX.Module.BinderHooks
import ReKernelX.NamePath
import ReKernelX.Foundation.RcuList
import ReKernelX.Module.RcuLookup
import ReKernelX.Module.TokenArrays
import ReKernelX.Foundation.Pages
import ReKernelX.Module.BinderAlloc
import ReKernelX.Foundation.Packets
import ReKernelX.Module.LocalIn
import ReKernelX.Foundation.RcuReclaim
import ReKernelX.Module.UidMemory
import ReKernelX.Module.UidReaders
import ReKernelX.Module.Supersession
import ReKernelX.Module.Teardown
import ReKernelX.Foundation.Threads
import ReKernelX.Module.ProbeThreads
import ReKernelX.Module.ProbeRefinement
import ReKernelX.Module.ProbeProgress
import ReKernelX.Client.Callbacks
import ReKernelX.Client.CallbackThreads
import ReKernelX.Client.Family
import ReKernelX.Module.Hooks
import ReKernelX.Foundation.Channel
import ReKernelX.SettingsPath
import ReKernelX.ReportPath
import ReKernelX.FreeAsyncPath
