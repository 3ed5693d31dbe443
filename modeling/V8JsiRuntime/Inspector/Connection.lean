import V8JsiRuntime.Inspector.LlhttpReads
import V8JsiRuntime.Inspector.SocketServer
import V8JsiRuntime.Inspector.WsHandler

/-!
# Connection — the objects of a connection and who disposes of them

The callbacks of a `tcp_connection` point to a `TcpHolder`, which owns the session's delegate, whose
destructor erases the session, which owns the socket, which owns the protocol handler, whose `tcp_`
disposes of the holder.  Every object carries whether it is alive.  The server thread is the list of
the statements that it has still to execute; a callee puts its own statements in front.
-/

namespace V8JsiRuntime
namespace Inspector

/-! ## Data -/

inductive Life
  | unborn
  | alive
  | disposed
  deriving DecidableEq, Repr

/-- A `ProtocolHandler`: whether it is alive, and whether its `tcp_` is set. -/
structure HandlerObject where
  life : Life
  hasTcp : Bool
  deriving DecidableEq, Repr

/-- The objects of a connection, as far as they take part in its end. -/
structure Objects where
  socketOpen : Bool
  holder : Life
  /-- `handler_` of the holder -/
  handler : Protocol
  http : HandlerObject
  ws : HandlerObject
  /-- `dispose_` of the `WsHandler` -/
  dispose : Bool
  /-- `protocol_handler_` of the socket -/
  protocolHandler : Protocol
  /-- The session is in `connected_sessions_`. -/
  hasSession : Bool
  deriving DecidableEq, Repr

namespace Objects

/-- After `InspectorSocketServer::Accept`. -/
def accepted : Objects where
  socketOpen := true
  holder := .alive
  handler := .http
  http := ⟨.alive, true⟩
  ws := ⟨.unborn, false⟩
  dispose := false
  protocolHandler := .http
  hasSession := true

def object (o : Objects) : Protocol → HandlerObject
  | .http => o.http
  | .ws => o.ws

def setObject (o : Objects) (object : HandlerObject) : Protocol → Objects
  | .http => { o with http := object }
  | .ws => { o with ws := object }

end Objects

/-- How the read that is under way completes; data is for the handler that the holder has then. -/
inductive ReadCompletion
  | http (data : Bytes)
  | ws (data : Bytes)
  | eof
  | error

/-- A statement of the server thread. -/
inductive Statement
  /-- `readcallback_`, which is `TcpHolder::OnDataReceivedCb` -/
  | readCallback (completion : ReadCompletion)
  /-- `self->read_loop_async()` -/
  | readLoop
  /-- `closecallback_`, which is `TcpHolder::OnClosedCallback` -/
  | closeCallback
  /-- `holder->connection_->close()` in `TcpHolder::DisconnectAndDispose` -/
  | disconnectAndDispose
  | close
  /-- `~Delegate`, with `SessionTerminated` -/
  | destroyDelegate
  /-- `handler->Shutdown()` -/
  | shutdown (handler : Protocol)
  /-- `delete this` -/
  | deleteThis (handler : Protocol)
  /-- The end of the destructor of a handler, with its `tcp_` -/
  | destroyTcp (handler : Protocol)
  /-- `tcp_.reset()` -/
  | resetTcp (handler : Protocol)
  /-- A call on the holder through `tcp_` -/
  | callTcp (handler : Protocol)
  /-- A `Write` or `CancelHandshake` on the socket of the session -/
  | callSocket
  /-- `HttpHandler::OnEof` and `WsHandler::OnEof` -/
  | onEof (handler : Protocol)
  /-- `if (dispose_) delete this` in `WsHandler::OnEof` -/
  | checkDispose
  /-- The loop of `HttpHandler::OnData` over the events -/
  | handleEvents (dispositions : List Disposition)
  /-- `InspectorSocket::AcceptUpgrade` -/
  | acceptUpgrade
  /-- `inspector_->SwitchProtocol(new WsHandler(inspector_, std::move(tcp_)))` -/
  | switchProtocol
  /-- The loop of `WsHandler::OnData` -/
  | onDataLoop (data : Bytes)
  /-- The rest of a round of that loop, behind `ParseWsFrames` -/
  | consume (data : Bytes) (processed : Int)

/-- A use of an object that is not alive. -/
inductive Violation
  | usesHolder
  | deletesHolder
  | usesHandler (handler : Protocol)
  | deletesHandler (handler : Protocol)
  deriving DecidableEq, Repr

/-- Other ways to go wrong. -/
inductive ConnectionFault
  | nullTcp
  | nullSession
  | memory (fault : Fault)
  deriving DecidableEq, Repr

structure Connection where
  objects : Objects
  /-- An asynchronous read is under way. -/
  reading : Bool
  /-- `parser_` of the `HttpHandler` -/
  parser : Llhttp.graph.Parser
  /-- The members with which the `HttpHandler` puts requests together -/
  request : HttpHandler
  /-- The statements still to be executed, first one first. -/
  statements : List Statement
  violation : Option Violation
  fault : Option ConnectionFault

namespace Connection

def accepted : Connection :=
  ⟨.accepted, true, Llhttp.parser.init, .init, [], none, none⟩

def violate (c : Connection) (violation : Violation) : Connection :=
  { c with violation := some violation }

def fail (c : Connection) (fault : ConnectionFault) : Connection :=
  { c with fault := some fault }

/-- Put the statements of a callee in front. -/
def call (c : Connection) (statements : List Statement) : Connection :=
  { c with statements := statements ++ c.statements }

/-- A use of the holder. -/
def withHolder (c : Connection) (next : Connection) : Connection :=
  if c.objects.holder = .alive then next else c.violate .usesHolder

/-- A use of a handler. -/
def withHandler (c : Connection) (handler : Protocol) (next : Connection) : Connection :=
  if (c.objects.object handler).life = .alive then next else c.violate (.usesHandler handler)

/-! ## The holder -/

/-- `TcpHolder::OnDataReceivedCb`, with `HttpHandler::OnData` up to its loop. -/
def onDataReceivedCb (c : Connection) (completion : ReadCompletion) : Connection :=
  c.withHolder <|
    match completion with
    | .http data =>
        c.withHandler .http <|
          let parsed := Llhttp.parser.execute c.parser data
          match c.request.onData parsed.2 with
          | .error fault => c.fail (.memory fault)
          | .ok result =>
              let cancel : List Statement := if result.cancelHandshake then [.callTcp .http] else []
              { c with parser := parsed.1, request := result.handler }.call
                (cancel ++ [Statement.handleEvents result.dispositions])
    | .ws data => c.call [.onDataLoop data]
    -- the holder looks up its handler now, not when the read was started
    | .eof => c.call [.onEof c.objects.handler]
    | .error => c

/-- `delete holder`: of its members only the delegate does anything. -/
def onClosedCallback (c : Connection) : Connection :=
  if c.objects.holder = .alive then
    { c with objects.holder := .disposed }.call [.destroyDelegate]
  else
    c.violate .deletesHolder

/-- `SessionTerminated`: erasing the session shuts down the handler of its socket. -/
def sessionTerminated (c : Connection) : Connection :=
  if c.objects.hasSession then
    { c with objects.hasSession := false }.call [.shutdown c.objects.protocolHandler]
  else
    c

/-! ## The handlers -/

/-- `HttpHandler::Shutdown` and `WsHandler::Shutdown`. -/
def shutdown (c : Connection) (handler : Protocol) : Connection :=
  c.withHandler handler <|
    match handler with
    | .http => c.call [.deleteThis .http]
    | .ws =>
        if c.objects.ws.hasTcp then
          -- `SendClose`
          { c with objects.dispose := true }.call [.callTcp .ws]
        else
          c.call [.deleteThis .ws]

def deleteThis (c : Connection) (handler : Protocol) : Connection :=
  let object := c.objects.object handler
  if object.life = .alive then
    { c with objects := c.objects.setObject ⟨.disposed, object.hasTcp⟩ handler }.call
      [.destroyTcp handler]
  else
    c.violate (.deletesHandler handler)

/-- The deleter of `tcp_` runs when the pointer is already null. -/
def releaseTcp (c : Connection) (handler : Protocol) : Connection :=
  let object := c.objects.object handler
  if object.hasTcp then
    { c with objects := c.objects.setObject ⟨object.life, false⟩ handler }.call
      [.disconnectAndDispose]
  else
    c

def callTcp (c : Connection) (handler : Protocol) : Connection :=
  c.withHandler handler <|
    if (c.objects.object handler).hasTcp then c.withHolder c else c.fail .nullTcp

def onEof (c : Connection) (handler : Protocol) : Connection :=
  c.withHandler handler <|
    match handler with
    | .http => c.call [.resetTcp .http]
    | .ws => c.call [.resetTcp .ws, .checkDispose]

/-- One event of `HttpHandler::OnData`; those that are served go through `delegate()`. -/
def handleEvent (c : Connection) : List Disposition → Connection
  | [] => c
  | .dropped :: _ => c
  -- the loop returns
  | .cancelHandshake :: _ => c.withHandler .http (c.call [.callTcp .http])
  | .onHttpGet _ _ :: rest =>
      c.withHandler .http (c.call [.callTcp .http, .callSocket, .handleEvents rest])
  | .onSocketUpgrade _ _ _ :: rest =>
      c.withHandler .http (c.call [.callTcp .http, .acceptUpgrade, .handleEvents rest])

/-- `HttpHandler::AcceptUpgrade` writes the reply first; `WsHandler::AcceptUpgrade` is empty. -/
def acceptUpgrade (c : Connection) : Connection :=
  if c.objects.hasSession then
    c.withHandler c.objects.protocolHandler <|
      match c.objects.protocolHandler with
      | .http => c.call [.callTcp .http, .switchProtocol]
      | .ws => c
  else
    c.fail .nullSession

/-- The new handler takes over `tcp_` and registers with the holder; the old one is shut down. -/
def switchProtocol (c : Connection) : Connection :=
  c.withHandler .http <|
    if c.objects.http.hasTcp then
      c.withHolder <|
        { c with
          objects.http := ⟨c.objects.http.life, false⟩
          objects.ws := ⟨.alive, true⟩
          objects.handler := .ws
          objects.protocolHandler := .ws }.call [.shutdown .http]
    else
      c.fail .nullTcp

/-- The calls of `ParseWsFrames`; `OnCloseRecieved` still is `CloseFrameReceived`, which writes. -/
def wsEvent : WsEvent → Statement
  | .onWsFrame _ => .callTcp .ws
  | .onEof => .onEof .ws
  | .onCloseRecieved => .callTcp .ws

def onDataRound (c : Connection) (data : Bytes) : Connection :=
  c.withHandler .ws <|
    match parseWsFrames data with
    | .error fault => c.fail (.memory fault)
    | .ok (processed, events) => c.call (events.map wsEvent ++ [.consume data processed])

/-- What follows `ParseWsFrames` in a round; only the next round needs the handler. -/
def consume (c : Connection) (data : Bytes) (processed : Int) : Connection :=
  if processed > 0 then
    match removeFromBeginning data processed with
    | .error fault => c.fail (.memory fault)
    | .ok left => if left = [] then c else c.call [.onDataLoop left]
  else
    c

/-! ## Steps -/

/-- Execute a statement that was taken off the list. -/
def exec (c : Connection) : Statement → Connection
  | .readCallback completion => c.onDataReceivedCb completion
  | .readLoop => { c with reading := true }
  | .closeCallback => c.onClosedCallback
  | .disconnectAndDispose => c.withHolder (c.call [.close])
  | .close => { c with objects.socketOpen := false }.call [.closeCallback]
  | .destroyDelegate => c.sessionTerminated
  | .shutdown handler => c.shutdown handler
  | .deleteThis handler => c.deleteThis handler
  | .destroyTcp handler => c.releaseTcp handler
  | .resetTcp handler => c.withHandler handler (c.releaseTcp handler)
  | .callTcp handler => c.callTcp handler
  | .callSocket =>
      if c.objects.hasSession then
        c.call [.callTcp c.objects.protocolHandler]
      else
        c.fail .nullSession
  | .onEof handler => c.onEof handler
  | .checkDispose => c.withHandler .ws (if c.objects.dispose then c.call [.deleteThis .ws] else c)
  | .handleEvents dispositions => c.handleEvent dispositions
  | .acceptUpgrade => c.acceptUpgrade
  | .switchProtocol => c.switchProtocol
  | .onDataLoop data => c.onDataRound data
  | .consume data processed => c.consume data processed

/-- The completion handler of `read_loop_async`. -/
def complete (c : Connection) (completion : ReadCompletion) : Connection :=
  { c with
    reading := false
    statements :=
      match completion with
      -- data: the read is started again when the callback returns
      | .http _ => [.readCallback completion, .readLoop]
      | .ws _ => [.readCallback completion, .readLoop]
      | .eof => [.readCallback .eof]
      | .error => [.closeCallback] }

/-- How a read can complete; on a closed socket it is with an error. -/
def CanComplete (c : Connection) : ReadCompletion → Prop
  | .http _ => c.objects.socketOpen = true ∧ c.objects.handler = .http
  | .ws _ => c.objects.socketOpen = true ∧ c.objects.handler = .ws
  | .eof => c.objects.socketOpen = true
  | .error => True

instance (c : Connection) (completion : ReadCompletion) : Decidable (c.CanComplete completion) :=
  match completion with
  | .http _ => inferInstanceAs (Decidable (_ ∧ _))
  | .ws _ => inferInstanceAs (Decidable (_ ∧ _))
  | .eof => inferInstanceAs (Decidable (_ = _))
  | .error => inferInstanceAs (Decidable True)

/-- What the server thread does next: the next statement, or the completion of a read. -/
inductive Event
  | statement
  | completes (completion : ReadCompletion)

/-- One step; nothing happens after a violation or a fault. -/
def step (c : Connection) (event : Event) : Option Connection :=
  if c.violation = none ∧ c.fault = none then
    match event with
    | .statement =>
        match c.statements with
        | [] => none
        | statement :: statements => some ({ c with statements := statements }.exec statement)
    | .completes completion =>
        if c.statements.isEmpty ∧ c.reading ∧ c.CanComplete completion then
          some (c.complete completion)
        else
          none
  else
    none

end Connection

end Inspector
end V8JsiRuntime
