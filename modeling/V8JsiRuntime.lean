import V8JsiRuntime.Inspector.ReadLoop
import V8JsiRuntime.Inspector.DelegateLifetime
import V8JsiRuntime.Inspector.BreakOnStart
import V8JsiRuntime.Inspector.Incoming
import V8JsiRuntime.Inspector.Wakeup
import V8JsiRuntime.Inspector.CloseAbort
import V8JsiRuntime.Inspector.CloseHandshake
import V8JsiRuntime.Inspector.RefusedHandshake
import V8JsiRuntime.Inspector.WriteQueue
import V8JsiRuntime.Runtime.IsolateSharing
import V8JsiRuntime.Runtime.ExceptionBoundary
import V8JsiRuntime.Inspector.RequestAssembly
import V8JsiRuntime.Runtime.CodeCache
import V8JsiRuntime.Runtime.HostObjectRelay
import V8JsiRuntime.Platform.Conservation
import V8JsiRuntime.Platform.Shutdown
import V8JsiRuntime.Inspector.FrontendWait
import V8JsiRuntime.Inspector.SessionUse
import V8JsiRuntime.Inspector.ListResponse
import V8JsiRuntime.Runtime.PlatformLifetime
import V8JsiRuntime.Inspector.Outgoing
import V8JsiRuntime.Inspector.HostNames
import V8JsiRuntime.Inspector.Routing
import V8JsiRuntime.Inspector.AcceptUpgrade
import V8JsiRuntime.Runtime.Counters
import V8JsiRuntime.Inspector.LlhttpRoundTrip
