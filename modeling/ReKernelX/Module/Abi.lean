import Mathlib.Data.Int.Notation
import Mathlib.Data.Nat.Notation

/-!
# Constants of the kernel module

The sizes, attribute numbers and codes of `rkx.h`. The user-space client keeps
a table of its own in `rkx_uapi.h`; the two are related by theorems only, never
by sharing a definition.
-/

set_option autoImplicit false

namespace ReKernelX

/-! ### Results and errors -/

/-- `RKX_ERROR` -/
def rkxError : ℤ := -1

/-- `RKX_SUCCESS` -/
def rkxSuccess : ℤ := 0

/-- `ESRCH` -/
def esrch : ℤ := 3

/-- `EINVAL` -/
def einval : ℤ := 22

/-- `ENOMEM` -/
def enomem : ℤ := 12

/-! ### Messages -/

/-- `RKX_GENL_VERSION` -/
def rkxGenlVersion : UInt8 := 1

/-- `RKX_C_EVENT` -/
def rkxCEvent : UInt8 := 1

/-- `RKX_C_ADD_MONITOR_NET` -/
def rkxCAddMonitorNet : UInt8 := 2

/-- `RKX_C_DEL_MONITOR_NET` -/
def rkxCDelMonitorNet : UInt8 := 3

/-- `RKX_C_ADD_FREE_ASYNC` -/
def rkxCAddFreeAsync : UInt8 := 4

/-- `RKX_C_DEL_FREE_ASYNC` -/
def rkxCDelFreeAsync : UInt8 := 5

def rkxAEvent : ℕ := 1

def rkxABinder : ℕ := 10
def rkxABinderType : ℕ := 11
def rkxABinderOneway : ℕ := 12
def rkxABinderFromPid : ℕ := 13
def rkxABinderFromUid : ℕ := 14
def rkxABinderTargetPid : ℕ := 15
def rkxABinderTargetUid : ℕ := 16
def rkxABinderCode : ℕ := 17
def rkxABinderRpcName : ℕ := 18

def rkxASignal : ℕ := 20
def rkxASignalSignal : ℕ := 21
def rkxASignalKillerPid : ℕ := 22
def rkxASignalKillerUid : ℕ := 23
def rkxASignalDstPid : ℕ := 24
def rkxASignalDstUid : ℕ := 25

def rkxANetwork : ℕ := 30
def rkxANetworkProto : ℕ := 31
def rkxANetworkTargetUid : ℕ := 32
def rkxANetworkDataLen : ℕ := 33

def rkxAUid : ℕ := 40

def rkxAFreeAsyncStrategy : ℕ := 41
def rkxAFreeAsyncRpcName : ℕ := 42
def rkxAFreeAsyncCode : ℕ := 43

/-- `RKX_A_MAX` -/
def rkxAMax : ℕ := 49

/-! ### Interface tokens -/

/-- `RKX_INTERFACETOKEN_BUFF_SIZE`: the size of every array that holds an
interface name, and of the array a parcel header is copied into. -/
def rkxInterfacetokenBuffSize : ℕ := 140

/-- `RKX_PARCEL_OFFSET`: where `writeInterfaceToken` puts the name. -/
def rkxParcelOffset : ℕ := 16

/-! ### Reports -/

/-- `RKX_MAX_SYSTEM_UID` -/
def rkxMaxSystemUid : UInt32 := 2000

/-- `RKX_MIN_APP_UID` -/
def rkxMinAppUid : UInt32 := 10000

/-- `RKX_WARN_AHEAD_SPACE`, an `int` that is compared with a `size_t`. -/
def rkxWarnAheadSpace : UInt64 := 131072

/-- `RKX_BINDER_TRANSACTION` -/
def rkxBinderTransaction : UInt8 := 1

/-- `RKX_BINDER_REPLY` -/
def rkxBinderReply : UInt8 := 2

/-- `RKX_BINDER_FREE_BUFFER_FULL` -/
def rkxBinderFreeBufferFull : UInt8 := 3

/-- `RKX_NET_PROTO_IPV4` -/
def rkxNetProtoIpv4 : UInt8 := 4

/-- `RKX_NET_PROTO_IPV6` -/
def rkxNetProtoIpv6 : UInt8 := 6

/-! ### Free-async strategies

Strategies arrive as raw bytes and are validated at run time, so they stay
bytes here. -/

/-- `RKX_FREE_ASYNC_SKIP`: never reclaim. -/
def rkxFreeAsyncSkip : UInt8 := 1

/-- `RKX_FREE_ASYNC_BY_CODE`: reclaim on equal codes. -/
def rkxFreeAsyncByCode : UInt8 := 2

/-- `RKX_FREE_ASYNC_BY_DATA`: reclaim on equal codes and equal data. -/
def rkxFreeAsyncByData : UInt8 := 3

end ReKernelX
