/-
# Everscale.Http1.Multiplexer -- the events of one multiplexer thread

`EpollMultiplexer::run` on the sockets of one proxied connection, an event at a time: what
`epoll_wait` reports for a socket, a socket that has been idle, and the cleanup of the dead.
`Event.supply` says what the transport, the allocators, the router and the application are
going to do; it may come between any two events.

A run of the thread is a list of events.  The order of events is free, and so is how often
the dead are cleaned up; the source does it after every batch.
-/
import Everscale.Http1.Streams

namespace Everscale

set_option autoImplicit false

/-- What `epoll_wait` reports; `hasData` is what `BytesReadable` says of it. -/
structure Readiness where
  error : Bool := false
  hangUp : Bool := false
  readable : Bool := false
  writable : Bool := false
  hasData : Bool := true
  deriving DecidableEq, Repr

/-- What is yet to be decided outside the code, to come after what was supplied before.
`serverWants` and `clientWants` are what a TLS connection waits for, to read and to write. -/
structure Supply where
  serverArrivals : List Arrival := []
  serverDepartures : List Departure := []
  serverWants : Bool × Bool := (false, false)
  clientArrivals : Nat → List Arrival := fun _ => []
  clientDepartures : Nat → List Departure := fun _ => []
  clientWants : Nat → Bool × Bool := fun _ => (false, false)
  outcomes : List Error := []
  routes : List (Error × Nat) := []
  scripts : Callback → List Script := fun _ => []

/-- `depth` bounds the turns of every loop and the nesting of the calls. -/
inductive Event where
  | supply (supply : Supply)
  | server (depth : Nat) (readiness : Readiness)
  | client (depth id : Nat) (readiness : Readiness)
  | serverIdle (depth : Nat)
  | clientIdle (depth id : Nat)
  | cleanup

/-- A connection with more to read and to write. -/
def ConnectedSocket.supply (arrivals : List Arrival) (departures : List Departure)
    (wants : Bool × Bool) (socket : ConnectedSocket) : ConnectedSocket :=
  { socket with
    arrivals := socket.arrivals ++ arrivals
    departures := socket.departures ++ departures
    wantRead := wants.1
    wantWrite := wants.2 }

def World.supply (supply : Supply) (w : World) : World :=
  { w with
    server := { w.server with
      socket := w.server.socket.supply supply.serverArrivals supply.serverDepartures
        supply.serverWants }
    clients := fun id =>
      if id < w.clientSockets then
        { w.clients id with
          socket := (w.clients id).socket.supply (supply.clientArrivals id)
            (supply.clientDepartures id) (supply.clientWants id) }
      else w.clients id
    outcomes := w.outcomes ++ supply.outcomes
    routes := w.routes ++ supply.routes
    scripts := fun callback => w.scripts callback ++ supply.scripts callback }

/-- The codes that keep a socket in the multiplexer. -/
def keepsInMultiplexer (error : Error) : Bool := error = .again || error = .pause

section events

variable (application : Streams → Handlers)

/-- The server connection is removed. -/
def removeServer (depth : Nat) : Program Unit :=
  discard (HttpServerSocket.removeMultiplexed (handlers application depth).server)

/-- A client connection is removed. -/
def removeClient (depth id : Nat) : Program Unit :=
  discard (HttpClientSocket.removeMultiplexed (handlers application depth).client
    (streams application depth).executeClientTransaction id)

/-- A handler ran; the socket is kept when its code says so. -/
def keepsAfter (handle : Program Error) : Program Bool := do
  return keepsInMultiplexer (← handle)

/-- The server connection is read, then written, as far as it wants to be. -/
def serveServer (depth : Nat) (readiness : Readiness) : Program Bool := do
  let h := handlers application depth
  let kept ← if (← get).server.wantRead && readiness.readable then
      keepsAfter (HttpServerSocket.handleReadable h.server h.serverBody depth)
    else pure true
  if kept && (← get).server.wantWrite && readiness.writable then
    keepsAfter (HttpServerSocket.handleWritable h.server h.serverBody depth)
  else return kept

/-- The kernel has connected the socket. -/
def established (s : HttpClientSocket) : HttpClientSocket :=
  { s with socket := { s.socket with established := true } }

/-- A client connection that is connecting. -/
def connectClient (depth id : Nat) (readiness : Readiness) : Program Bool := do
  let h := handlers application depth
  if readiness.readable && !readiness.hasData then return false
  else if readiness.readable || readiness.writable then
    modifyClient id established
    keepsAfter (HttpClientSocket.handleConnect h.client h.clientBody depth id)
  else return true

/-- A client connection is connected, or read, then written. -/
def serveClient (depth id : Nat) (readiness : Readiness) : Program Bool := do
  let h := handlers application depth
  if ((← get).clients id).wantConnect then connectClient application depth id readiness
  else
    let kept ← if ((← get).clients id).wantRead && readiness.readable then
        keepsAfter (HttpClientSocket.handleReadable h.client h.clientBody depth id)
      else pure true
    if kept && ((← get).clients id).wantWrite && readiness.writable then
      keepsAfter (HttpClientSocket.handleWritable h.client h.clientBody depth id)
    else return kept

/-- One event of the server connection; the timer may have run out meanwhile. -/
def serverEvent (depth : Nat) (readiness : Readiness) : Program Unit := do
  if has (← get).server.state SERVER_DEAD then return ()
  else
    let kept ← if readiness.error || readiness.hangUp then pure false
      else serveServer application depth readiness
    if kept then
      match ← ask with
      | .success => discard HttpServerSocket.updateMultiplexed
      | _ => removeServer application depth
    else removeServer application depth

/-- One event of a client connection. -/
def clientEvent (depth id : Nat) (readiness : Readiness) : Program Unit := do
  if has ((← get).clients id).state DEAD then return ()
  else
    let kept ← if readiness.error || readiness.hangUp then pure false
      else serveClient application depth id readiness
    if kept then
      match ← ask with
      | .success => discard (HttpClientSocket.updateMultiplexed id)
      | _ => removeClient application depth id
    else removeClient application depth id

/-- The dead client connections are released. -/
def releaseAll : List Nat → Program Unit
  | [] => return ()
  | id :: rest => do
      HttpClientSocketFactory.release id
      releaseAll rest

def forgetDead : Program Unit := modify fun w => { w with dead := [] }

/-- An event happens.  Only a socket that the multiplexer has gets one. -/
def Event.happen : Event → Program Unit
  | .supply more => modify (World.supply more)
  | .server depth readiness => do
      if (← get).server.multiplexed then serverEvent application depth readiness
  | .client depth id readiness => do
      if ((← get).clients id).multiplexed then clientEvent application depth id readiness
  | .serverIdle depth => do
      if (← get).server.multiplexed then removeServer application depth
  | .clientIdle depth id => do
      if ((← get).clients id).multiplexed then removeClient application depth id
  | .cleanup => do
      let dead := (← get).dead
      forgetDead
      releaseAll dead

/-- The world after the events. -/
def World.run (w : World) (events : List Event) : World :=
  events.foldl (fun w event => (Event.happen application event w).2) w

end events

end Everscale
