import V8JsiRuntime.Lib.Run
import V8JsiRuntime.Inspector.StringView

/-!
# Agent — the inspector agent between the server thread and the JS thread

The server thread posts the events of its sessions as texts into a queue; the JS thread takes them
out in `DispatchMessages`, which runs from `waitForDebugger`, from the loop of a pause, from a
foreground task or from an interrupt.  The JS thread is a stack of the agent's functions with the
place where each of them stands; V8 and the host act when none of them is on top.
-/

namespace V8JsiRuntime
namespace Inspector

open Lib

/-- `TAG_CONNECT` -/
def tagConnect : Bytes := ascii "#connect"

/-- `TAG_DISCONNECT` -/
def tagDisconnect : Bytes := ascii "#disconnect"

/-- `AgentImpl::State` -/
inductive AgentState
  | kNew
  | kAccepting
  | kConnected
  | kDone
  | kError
  deriving DecidableEq, Repr

/-! ## Data -/

/-- The calls that the server makes on `InspectorAgentDelegate`. -/
inductive SessionEvent
  | startSession (sessionId : Nat)
  | messageReceived (sessionId : Nat) (message : Bytes)
  | endSession (sessionId : Nat)
  deriving DecidableEq, Repr

namespace SessionEvent

def sessionId : SessionEvent → Nat
  | startSession sessionId => sessionId
  | messageReceived sessionId _ => sessionId
  | endSession sessionId => sessionId

/-- The text given to `PostIncomingMessage`. -/
def text : SessionEvent → Bytes
  | startSession _ => tagConnect
  | messageReceived _ message => message
  | endSession _ => tagDisconnect

end SessionEvent

/-- An element of `MessageQueue`.  Of the event that posted it the code keeps the session id. -/
structure QueuedMessage where
  event : SessionEvent
  message : StringView
  deriving DecidableEq, Repr

structure InspectorAgentDelegate where
  connected : Bool
  waiting : Bool
  deriving DecidableEq, Repr

/-- The members of `V8NodeInspector`; of `session_` whether it is set. -/
structure V8NodeInspector where
  hasSession : Bool
  waitingForResume : Bool
  runningNestedLoop : Bool
  deriving DecidableEq, Repr

/-- The members of `AgentImpl` that the two threads work on. -/
structure AgentImpl where
  shuttingDown : Bool
  state : AgentState
  waitingForFrontend : Bool
  inspector : V8NodeInspector
  incomingMessageQueue : List QueuedMessage
  dispatchingMessages : Bool
  sessionId : Nat
  deriving DecidableEq, Repr

/-- A function of the agent on the JS thread, and where it stands. -/
inductive Frame
  /-- `waitForDebugger`, back from `WaitForFrontendMessage` -/
  | waitForDebugger
  /-- `waitForDebugger` at the test of its loop -/
  | waitForDebuggerLoop
  /-- `runMessageLoopOnPause` at the test of its loop -/
  | pauseLoop
  /-- `runMessageLoopOnPause`, back from `WaitForFrontendMessage` -/
  | pauseDispatch
  /-- `WaitForFrontendMessage` at its first test of the queue -/
  | waitCheck
  /-- in the predicate of `wait` -/
  | waitPredicate
  /-- the predicate was false, and the thread is about to block -/
  | waitBlock
  | waitBlocked
  /-- `DispatchMessages` before `SwapBehindLock` -/
  | dispatchSwap
  /-- in the loop over a batch, with what is left of it -/
  | dispatchTasks (tasks : List QueuedMessage)
  /-- behind the loop -/
  | dispatchFinish
  /-- V8 works on a message of the frontend -/
  | dispatchProtocolMessage
  deriving DecidableEq, Repr

/-- Where the server thread stands in `PostIncomingMessage`. -/
inductive Poster
  | idle
  | callOnForegroundThread
  | requestInterrupt
  | notifyMessageReceived
  deriving DecidableEq, Repr

/-- Calls of `Write` on the server. -/
inductive ServerCall
  | stop
  | send (sessionId : Nat) (message : Bytes)
  deriving DecidableEq, Repr

/-- How an execution can go wrong. -/
inductive AgentFault
  /-- `CHECK_EQ` failed: `std::abort()`. -/
  | checkFailed
  /-- A call through `session_` when it is null. -/
  | nullSession
  /-- The inspector was deleted by `Stop` and is used. -/
  | deletedInspector
  /-- An exception leaves the server thread. -/
  | uncaught (error : ConversionError)
  | memory (fault : Fault)
  deriving DecidableEq, Repr

structure System where
  agent : AgentImpl
  delegate : InspectorAgentDelegate
  /-- The JS thread, innermost function first. -/
  stack : List Frame
  poster : Poster
  foregroundTasks : Nat
  interruptRequests : Nat
  serverCalls : List ServerCall
  fault : Option AgentFault
  /-- History: the messages appended to the queue. -/
  posted : List QueuedMessage
  /-- History: the messages that the loop of `DispatchMessages` came to. -/
  dispatched : List QueuedMessage
  /-- History: the arguments of `dispatchMessageFromFrontend`. -/
  handed : List StringView
  deriving DecidableEq, Repr

namespace System

/-- After `start()`, in `waitForDebugger`, as the constructor of the runtime calls them. -/
def init : System where
  agent :=
    { shuttingDown := false
      state := .kNew
      waitingForFrontend := true
      inspector := ⟨false, false, false⟩
      incomingMessageQueue := []
      dispatchingMessages := false
      sessionId := 0 }
  delegate := ⟨false, false⟩
  stack := [.waitCheck, .waitForDebugger]
  poster := .idle
  foregroundTasks := 0
  interruptRequests := 0
  serverCalls := []
  fault := none
  posted := []
  dispatched := []
  handed := []

def fail (s : System) (fault : AgentFault) : System :=
  { s with fault := some fault }

/-! ## The server thread -/

/-- What `StartSession`, `MessageReceived` and `EndSession` do before they post. -/
def notifyDelegate (s : System) : SessionEvent → System
  | .startSession _ => { s with delegate.connected := true }
  | .messageReceived _ message =>
      -- `ResumeStartup`, called here too, is empty
      if s.delegate.waiting ∧ ascii "\"Runtime.runIfWaitingForDebugger\"" <:+: message then
        { s with delegate.waiting := false }
      else
        s
  | .endSession _ => { s with delegate.connected := false }

/-- `AppendMessage` on the incoming queue; only a message put into an empty queue is announced. -/
def appendMessage (s : System) (m : QueuedMessage) : System :=
  { s with
    agent.incomingMessageQueue := s.agent.incomingMessageQueue ++ [m]
    posted := s.posted ++ [m]
    poster :=
      if s.agent.incomingMessageQueue.isEmpty then
        .callOnForegroundThread
      else
        .notifyMessageReceived }

/-- An event of a session, up to and including `AppendMessage`. -/
def postIncomingMessage (multiByteToWideChar : MultiByteToWideChar) (s : System)
    (event : SessionEvent) : System :=
  let s := s.notifyDelegate event
  match utf8ToStringView multiByteToWideChar event.text with
  | .error error => s.fail (.uncaught error)
  | .ok view => s.appendMessage ⟨event, view⟩

/-- A notification makes a blocked thread look at its predicate again. -/
def wake : List Frame → List Frame
  | .waitBlocked :: stack => .waitPredicate :: stack
  | stack => stack

/-- The next statement of `PostIncomingMessage` after `AppendMessage`. -/
def posterStep (s : System) : Option System :=
  match s.poster with
  | .idle => none
  | .callOnForegroundThread =>
      some { s with foregroundTasks := s.foregroundTasks + 1, poster := .requestInterrupt }
  | .requestInterrupt =>
      some { s with interruptRequests := s.interruptRequests + 1, poster := .notifyMessageReceived }
  | .notifyMessageReceived => some { s with stack := wake s.stack, poster := .idle }

/-! ## The JS thread -/

/-- The call of `DispatchMessages` by the function on top; a re-entrant call returns at once. -/
def callDispatchMessages (s : System) : System :=
  if s.agent.dispatchingMessages then
    s
  else
    { s with agent.dispatchingMessages := true, stack := .dispatchSwap :: s.stack }

/-- `runMessageLoopOnPause` up to the test of its loop. -/
def runMessageLoopOnPause (s : System) : System :=
  if s.agent.inspector.runningNestedLoop then
    { s with agent.inspector.waitingForResume := true }
  else
    -- the caller stays below on the stack, whatever it is
    { s with
      agent.inspector.waitingForResume := true
      agent.inspector.runningNestedLoop := true
      stack := .pauseLoop :: s.stack }

def quitMessageLoopOnPause (s : System) : System :=
  { s with agent.inspector.waitingForResume := false }

/-- `dispatchMessageFromFrontend` up to the call into V8. -/
def dispatchMessageFromFrontend (s : System) (message : StringView) : System :=
  match stringViewToUtf8 message with
  | .error fault => s.fail (.memory fault)
  | .ok messagestr =>
      let s := { s with
        handed := s.handed ++ [message]
        agent.waitingForFrontend :=
          -- every message overwrites the flag as long as it is set
          if s.agent.waitingForFrontend then
            decide (ascii "Runtime.runIfWaitingForDebugger" <:+: messagestr)
          else
            false }
      if s.agent.inspector.hasSession then
        { s with stack := .dispatchProtocolMessage :: s.stack }
      else
        s.fail .nullSession

/-- The `tag` of a message, only looked at if the length is that of one of the tags. -/
def messageTag (message : StringView) : Except Fault Bytes :=
  if message.length = tagConnect.length ∨ message.length = tagDisconnect.length then
    stringViewToUtf8 message
  else
    .ok []

/-- The branch for `TAG_CONNECT`, with `connectFrontend`. -/
def connect (s : System) (sessionId : Nat) : System :=
  if s.agent.state = .kAccepting then
    { s with
      agent.sessionId := sessionId
      agent.state := .kConnected
      agent.inspector.hasSession := true }
  else
    s.fail .checkFailed

/-- The branch for `TAG_DISCONNECT`, with `quitMessageLoopOnPause` and `disconnectFrontend`. -/
def disconnect (s : System) : System :=
  if s.agent.state = .kConnected then
    let next := if s.agent.shuttingDown then .kDone else .kAccepting
    { s with
      agent.state := next
      agent.inspector.waitingForResume := false
      agent.inspector.hasSession := false }
  else
    s.fail .checkFailed

/-- The body of the loop over a batch. -/
def dispatchOne (s : System) (m : QueuedMessage) : System :=
  let s := { s with dispatched := s.dispatched ++ [m] }
  match messageTag m.message with
  | .error fault => s.fail (.memory fault)
  | .ok tag =>
      -- only the text decides, not the event that posted it
      if tag = tagConnect then
        s.connect m.event.sessionId
      else if tag = tagDisconnect then
        s.disconnect
      else
        s.dispatchMessageFromFrontend m.message

/-- The next statement of the function on top of the JS thread. -/
def jsStep (s : System) : Option System :=
  match s.stack with
  | [] => none
  -- V8 runs, which `v8Step` is about
  | .dispatchProtocolMessage :: _ => none
  | .waitCheck :: stack =>
      if s.agent.incomingMessageQueue.isEmpty then
        some { s with stack := .waitPredicate :: stack }
      else
        some { s with stack := stack }
  | .waitPredicate :: stack =>
      if s.agent.incomingMessageQueue.isEmpty then
        some { s with stack := .waitBlock :: stack }
      else
        some { s with stack := stack }
  | .waitBlock :: stack => some { s with stack := .waitBlocked :: stack }
  | .waitBlocked :: _ => none
  | .waitForDebugger :: stack =>
      -- `Stop` deletes the inspector, and the code below goes on to use it
      if s.agent.state = .kError then
        some (s.fail .deletedInspector)
      else
        some { s with agent.state := .kAccepting, stack := .waitForDebuggerLoop :: stack }
  | .waitForDebuggerLoop :: stack =>
      if s.agent.waitingForFrontend then
        some s.callDispatchMessages
      else if s.agent.inspector.hasSession then
        -- `schedulePauseOnNextStatement`
        some { s with stack := stack }
      else
        some (s.fail .nullSession)
  | .pauseLoop :: stack =>
      if s.agent.inspector.waitingForResume then
        some { s with stack := .waitCheck :: .pauseDispatch :: stack }
      else
        some { s with
          agent.inspector.waitingForResume := false
          agent.inspector.runningNestedLoop := false
          stack := stack }
  | .pauseDispatch :: stack => some { s with stack := .pauseLoop :: stack }.callDispatchMessages
  | .dispatchSwap :: stack =>
      let tasks := s.agent.incomingMessageQueue
      -- an empty batch ends the `do ... while`
      some { s with
        agent.incomingMessageQueue := []
        stack := (if tasks.isEmpty then .dispatchFinish else .dispatchTasks tasks) :: stack }
  | .dispatchTasks [] :: stack => some { s with stack := .dispatchSwap :: stack }
  | .dispatchTasks (m :: tasks) :: stack =>
      some ({ s with stack := .dispatchTasks tasks :: stack }.dispatchOne m)
  | .dispatchFinish :: stack =>
      some { s with agent.dispatchingMessages := false, stack := stack }

/-! ## V8 and the host -/

/-- What V8 or the host can do while it runs. -/
inductive V8Action
  /-- `runMessageLoopOnPause`, at a breakpoint -/
  | pause
  /-- `quitMessageLoopOnPause`, for a resume message -/
  | quit
  /-- `dispatchProtocolMessage` returns -/
  | returns
  /-- `InterruptCallback` -/
  | interrupt
  /-- `DispatchOnInspectorBackendTask::Run` -/
  | task
  | waitForDisconnect
  /-- `ChannelImpl::sendMessageToFrontend` -/
  | send (message : StringView)
  deriving DecidableEq, Repr

/-- None of the agent's own functions is on top. -/
def v8OnTop : List Frame → Bool
  | [] => true
  | .dispatchProtocolMessage :: _ => true
  | _ => false

/-- `Write`: the outgoing queue holds just this message; an empty one stops the server. -/
def write (s : System) (sessionId : Nat) (message : StringView) : System :=
  if message.length = 0 then
    { s with serverCalls := s.serverCalls ++ [.stop] }
  else
    match stringViewToUtf8 message with
    | .error fault => s.fail (.memory fault)
    | .ok text => { s with serverCalls := s.serverCalls ++ [.send sessionId text] }

def waitForDisconnect (s : System) : System :=
  if s.agent.state = .kConnected then
    -- the empty message is the signal for `Write` to stop the server
    ({ s with agent.shuttingDown := true }.write 0 (.view8 [])).runMessageLoopOnPause
  else
    s

def v8Step (s : System) (action : V8Action) : Option System :=
  if v8OnTop s.stack then
    match action with
    | .pause => some s.runMessageLoopOnPause
    | .quit => some s.quitMessageLoopOnPause
    | .returns =>
        match s.stack with
        | .dispatchProtocolMessage :: stack => some { s with stack := stack }
        | _ => none
    | .interrupt =>
        if s.interruptRequests = 0 then
          none
        else
          some { s with interruptRequests := s.interruptRequests - 1 }.callDispatchMessages
    | .task =>
        if s.foregroundTasks = 0 then
          none
        else
          some { s with foregroundTasks := s.foregroundTasks - 1 }.callDispatchMessages
    | .waitForDisconnect => some s.waitForDisconnect
    | .send message => some (s.write s.agent.sessionId message)
  else
    none

/-! ## Steps -/

/-- Who moves next. -/
inductive Label
  /-- The server thread begins with an event of a session. -/
  | session (event : SessionEvent)
  /-- The server thread goes on in `PostIncomingMessage`. -/
  | poster
  | js
  | v8 (action : V8Action)
  /-- A blocked wait ends without a notification. -/
  | wakeUp
  deriving DecidableEq, Repr

/-- One step; nothing happens after a fault. -/
def step (multiByteToWideChar : MultiByteToWideChar) (s : System) (label : Label) :
    Option System :=
  if s.fault.isSome then
    none
  else
    match label with
    | .session event =>
        -- the server has one thread, so the last event is posted before the next one comes
        if s.poster = .idle then some (s.postIncomingMessage multiByteToWideChar event) else none
    | .poster => s.posterStep
    | .js => s.jsStep
    | .v8 action => s.v8Step action
    | .wakeUp => if wake s.stack = s.stack then none else some { s with stack := wake s.stack }

end System

end Inspector
end V8JsiRuntime
