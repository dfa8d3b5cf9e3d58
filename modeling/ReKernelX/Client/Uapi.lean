import Mathlib.Data.Nat.Notation

/-!
# The client's copy of the interface

Numbers of `rkx_uapi.h`, which the client keeps separately from the module's
`rkx.h`.
-/

set_option autoImplicit false

namespace ReKernelX.Client

/-- `NLM_F_REQUEST` -/
def nlmFRequest : ℕ := 1

/-- `RKX_GENL_VERSION` -/
def rkxGenlVersion : UInt8 := 1

/-- `RKX_RPC_NAME_LEN` -/
def rkxRpcNameLen : ℕ := 140

/-! ### Commands -/

/-- `RKX_C_EVENT` -/
def rkxCEvent : UInt8 := 1

/-- `RKX_C_ADD_MONITOR_NET` -/
def rkxCAddMonitorNet : UInt8 := 2

/-- `RKX_C_DEL_MONITOR_NET` -/
def rkxCDelMonitorNet : UInt8 := 3

/-- `RKX_C_ADD_FREE_ASYNC` -/
def rkxCAddFreeAsync : UInt8 := 4

/-- `RKX_C_DEL_FREE_ASYNC` -/
def rkxCDelFreeAsync : UInt8 := 5

/-! ### Attributes -/

def rkxAEvent : ℕ := 1

def rkxABinder : ℕ := 10
def rkxABinderType : ℕ := 11
def rkxABinderOneway : ℕ := 12
def rkxABinderFromPid : ℕ := 13
def rkxABinderFromUid : ℕ := 14
def rkxABinderTargetPid : ℕ := 15
def rkxABinderTargetUid : ℕ := 16
def rkxABinderCode : ℕ := 17
def rkxABinderRpcName : ℕ := 18

def rkxASignal : ℕ := 20
def rkxASignalSignal : ℕ := 21
def rkxASignalKillerPid : ℕ := 22
def rkxASignalKillerUid : ℕ := 23
def rkxASignalDstPid : ℕ := 24
def rkxASignalDstUid : ℕ := 25

def rkxANetwork : ℕ := 30
def rkxANetworkProto : ℕ := 31
def rkxANetworkTargetUid : ℕ := 32
def rkxANetworkDataLen : ℕ := 33

def rkxAUid : ℕ := 40

def rkxAFreeAsyncStrategy : ℕ := 41
def rkxAFreeAsyncRpcName : ℕ := 42
def rkxAFreeAsyncCode : ℕ := 43

/-- `RKX_A_MAX` -/
def rkxAMax : ℕ := 49

end ReKernelX.Client
