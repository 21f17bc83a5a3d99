/-
# Everscale.Base.EpollMultiplexer -- the event loop of one thread

`EpollMultiplexer` keeps its sockets in two lists, active and dead, a timer for each active
socket that may become idle, the kernel's interest list, and a cache of what that list
says (`ESBEpollMultiplexer.cpp`).  Every callback of a socket may call the multiplexer again.

A socket is known by its number, in the order of construction.  What the kernel keeps for
the epoll descriptor is `interest`: the events registered for a descriptor and the socket
in `data.ptr`.  `epoll_ctl` fails on a descriptor that is registered already, or is not; for
other reasons it may fail whenever something is added or modified (`outcomes`).

What a socket does in its callbacks is on `scripts`: the calls it makes and the code it
returns.  A call outside the contract of the interface is not made: `ESBMultiplexedSocket.h`
asks that a descriptor be closed only once `handleRemove` is called, the asserts ask for a
socket that is in no list when it is added, and a socket is not removed by anyone while the
multiplexer is serving it (`busy`).

`faults` is read by no program.  It has what must not happen: a failed `assert`, an index
outside `_eventCache`, a socket used after its destruction, an event for a socket that was
given up, an element linked twice, a loop that does not end.
-/
import Everscale.Base.FlatTimingWheel
import Everscale.Theory.Kept

namespace Everscale

set_option autoImplicit false

/-- `uint32_t events` of `epoll_event`. -/
abbrev EpollEvents := BitVec 32

abbrev EPOLLIN : EpollEvents := 1#32
abbrev EPOLLOUT : EpollEvents := 4#32
abbrev EPOLLERR : EpollEvents := 8#32
abbrev EPOLLHUP : EpollEvents := 16#32
abbrev EPOLLET : EpollEvents := 2147483648#32

/-- What the multiplexer asks of a socket; a socket that is closed has no descriptor. -/
structure MultiplexedSocket where
  socketDescriptor : Option Nat := none
  permanent : Bool := false
  wantAccept : Bool := false
  wantConnect : Bool := false
  wantRead : Bool := false
  wantWrite : Bool := false
  dead : Bool := false
  deriving DecidableEq, Repr

/-- The events a socket is interested in, besides some that are given. -/
def MultiplexedSocket.interests (socket : MultiplexedSocket) (events : EpollEvents) : EpollEvents :=
  if socket.wantAccept then events ||| EPOLLIN
  else if socket.wantConnect then events ||| (EPOLLIN ||| EPOLLOUT ||| EPOLLHUP)
  else
    let events := if socket.wantWrite then events ||| (EPOLLOUT ||| EPOLLHUP) else events
    if socket.wantRead then events ||| (EPOLLIN ||| EPOLLHUP) else events

/-- The fields of the class; `hasEvents` says that `_events` is not null. -/
structure EpollMultiplexer where
  idleTimeoutMsec : Nat
  maxSockets : Nat
  hasEvents : Bool := true
  eventCache : Nat → EpollEvents := fun _ => 0
  activeSocketCount : Int := 0
  activeSockets : List Nat := []
  deadSockets : List Nat := []
  timingWheel : FlatTimingWheel Nat

namespace EpollMultiplexer

def MAX_TIMEOUT_MSEC : Nat := 30 * 60 * 1000

def MIN_TIMEOUT_MSEC : Nat := 10

/-- The constructor, with what `epoll_create` and the two allocations come to, and whether the
timing wheel got its memory.  `epoll_create` takes an `int` and wants a positive one. -/
def create (idleTimeoutMsec maxSockets : Nat) (now : Date) (epoll events eventCache timers : Bool) :
    EpollMultiplexer where
  idleTimeoutMsec :=
    if idleTimeoutMsec = 0 then 0 else min (max idleTimeoutMsec MIN_TIMEOUT_MSEC) MAX_TIMEOUT_MSEC
  maxSockets := max maxSockets 1
  hasEvents := epoll && decide (max maxSockets 1 < 2 ^ 31) && events && eventCache
  timingWheel :=
    { start := now
      tickMilliSeconds := MIN_TIMEOUT_MSEC
      maxTicks := MAX_TIMEOUT_MSEC * 2 / MIN_TIMEOUT_MSEC
      allocated := timers }

/-! ## The thread -/

/-- What a socket may do in a callback, and what the application may do before the thread
starts. -/
inductive Call where
  /-- a new socket with that descriptor -/
  | construct (socketDescriptor : Nat) (socket : MultiplexedSocket)
  /-- the socket wants something else -/
  | want (id : Nat) (wantAccept wantConnect wantRead wantWrite : Bool)
  | close (id : Nat)
  /-- a socket that no list has is destroyed -/
  | discard (id : Nat)
  | add (id : Nat)
  | update (id : Nat)
  | remove (id : Nat)
  deriving DecidableEq, Repr

structure Script where
  calls : List Call := []
  result : Error := .success
  deriving DecidableEq, Repr

inductive Fault where
  | assertion
  | overrun
  | dangling
  | late
  | relinked
  | nullDereference
  | endless
  deriving DecidableEq, Repr

/-- What the thread works on.  `accepted` and `cleaned` are the sockets that were added and
those that the multiplexer destroyed, `discarded` the others that were destroyed. -/
structure Scene where
  multiplexer : EpollMultiplexer
  sockets : Nat → MultiplexedSocket := fun _ => {}
  constructed : Nat := 0
  interest : Nat → Option (EpollEvents × Nat) := fun _ => none
  descriptors : Nat
  busy : List Nat := []
  accepted : List Nat := []
  cleaned : List Nat := []
  discarded : List Nat := []

/-- The scene, what is yet to be decided outside the code, and on record the scenes that the
callbacks found (`views`) and the faults. -/
structure World extends Scene where
  outcomes : List Error := []
  scripts : List Script := []
  clock : Nat → Date
  readings : Nat := 0
  views : List Scene := []
  faults : List Fault := []

abbrev Program := StateM World

def modifyMultiplexer (f : EpollMultiplexer → EpollMultiplexer) : Program Unit :=
  modify fun w => { w with multiplexer := f w.multiplexer }

def modifySocket (id : Nat) (f : MultiplexedSocket → MultiplexedSocket) : Program Unit :=
  modify fun w => { w with sockets := Function.update w.sockets id (f (w.sockets id)) }

def fail (fault : Fault) : Program Unit := modify fun w => { w with faults := w.faults ++ [fault] }

/-- Something that must be so. -/
def expect (fault : Fault) (condition : Bool) : Program Unit :=
  if condition then return () else fail fault

/-- The next outcome of a system call; success when the list has run out. -/
def ask : Program Error := do
  match (← get).outcomes with
  | [] => return .success
  | outcome :: rest =>
      modify fun w => { w with outcomes := rest }
      return outcome

/-- `Time::Instance().now()`. -/
def readClock : Program Date :=
  modifyGet fun w => (w.clock w.readings, { w with readings := w.readings + 1 })

def Scene.isDestroyed (w : Scene) (id : Nat) : Bool := id ∈ w.cleaned || id ∈ w.discarded

/-- The socket exists. -/
def Scene.exists (w : Scene) (id : Nat) : Bool := id < w.constructed && !w.isDestroyed id

/-- A socket is looked at. -/
def touch (id : Nat) : Program MultiplexedSocket := do
  let w ← get
  expect .dangling (w.exists id)
  return w.sockets id

/-! ## The interest list -/

/-- The kernel registers the events for the descriptor, unless it cannot. -/
def register (fd : Nat) (events : EpollEvents) (id : Nat) : Program Error := do
  match ← ask with
  | .success =>
      modify fun w => { w with interest := Function.update w.interest fd (some (events, id)) }
      return .success
  | error => return error

/-- `epoll_ctl` with `EPOLL_CTL_ADD`. -/
def epollAdd (fd : Nat) (events : EpollEvents) (id : Nat) : Program Error := do
  if ((← get).interest fd).isSome then return .uniquenessViolation
  else register fd events id

/-- `epoll_ctl` with `EPOLL_CTL_MOD`. -/
def epollModify (fd : Nat) (events : EpollEvents) (id : Nat) : Program Error := do
  if ((← get).interest fd).isNone then return .cannotFind
  else register fd events id

/-- The kernel forgets a descriptor, also when it is closed. -/
def forget (fd : Nat) (w : World) : World :=
  { w with interest := Function.update w.interest fd none }

/-- `epoll_ctl` with `EPOLL_CTL_DEL`. -/
def epollDelete (fd : Nat) : Program Error := do
  if ((← get).interest fd).isNone then return .cannotFind
  else
    modify (forget fd)
    return .success

/-! ## The fields -/

/-- An access to `_eventCache[fd]`. -/
def cacheIndex (fd : Nat) : Program Unit := do
  expect .overrun (fd < (← get).multiplexer.maxSockets)

def writeCache (fd : Nat) (events : EpollEvents) : Program Unit := do
  cacheIndex fd
  modifyMultiplexer fun m => { m with eventCache := Function.update m.eventCache fd events }

def readCache (fd : Nat) : Program EpollEvents := do
  cacheIndex fd
  return (← get).multiplexer.eventCache fd

def inc : Program Unit :=
  modifyMultiplexer fun m => { m with activeSocketCount := m.activeSocketCount + 1 }

def dec : Program Unit :=
  modifyMultiplexer fun m => { m with activeSocketCount := m.activeSocketCount - 1 }

/-- The lists share the links of a socket. -/
def Scene.isLinked (w : Scene) (id : Nat) : Bool :=
  id ∈ w.multiplexer.activeSockets || id ∈ w.multiplexer.deadSockets

def addActive (id : Nat) : Program Unit := do
  expect .relinked (!(← get).isLinked id)
  modifyMultiplexer fun m => { m with activeSockets := m.activeSockets ++ [id] }

def removeActive (id : Nat) : Program Unit := do
  expect .relinked (decide (id ∈ (← get).multiplexer.activeSockets))
  modifyMultiplexer fun m => { m with activeSockets := m.activeSockets.erase id }

def addDead (id : Nat) : Program Unit := do
  expect .relinked (!(← get).isLinked id)
  modifyMultiplexer fun m => { m with deadSockets := m.deadSockets ++ [id] }

/-! ## The timers -/

/-- A call of the timing wheel. -/
def onWheel (f : FlatTimingWheel Nat → Error × FlatTimingWheel Nat) : Program Error :=
  modifyGet fun w =>
    ((f w.multiplexer.timingWheel).1,
      { w with multiplexer := { w.multiplexer with timingWheel := (f w.multiplexer.timingWheel).2 } })

def Scene.isTimed (w : Scene) (id : Nat) : Bool := w.multiplexer.timingWheel.inTimingWheel id

/-- A socket that may become idle gets a timer. -/
def startTimer (id : Nat) (permanent : Bool) : Program Error := do
  let idleTimeoutMsec := (← get).multiplexer.idleTimeoutMsec
  if 0 < idleTimeoutMsec && !permanent then
    let now ← readClock
    let error ← onWheel fun wheel => wheel.insert (some id) idleTimeoutMsec now
    if error = .success then
      expect .assertion ((← get).isTimed id)
      return .success
    else
      expect .assertion (error ≠ .assertFailed)
      return error
  else
    expect .assertion (!(← get).isTimed id)
    return .success

def stopTimer (id : Nat) : Program Unit := do
  if (← get).isTimed id then discard (onWheel fun wheel => wheel.remove (some id))

/-- `FlatTimingWheel::update` with the idle timeout. -/
def updateTimer (id : Nat) (now : Date) : Program Error := do
  let idleTimeoutMsec := (← get).multiplexer.idleTimeoutMsec
  onWheel fun wheel => wheel.update (some id) idleTimeoutMsec now

/-! ## The calls of the multiplexer -/

/-- The socket is active and has its timer; what is left is the kernel's part. -/
def enlist (fd id : Nat) (events : EpollEvents) : Program Error := do
  addActive id
  let error ← epollAdd fd events id
  if error ≠ .success then
    removeActive id
    stopTimer id
    dec
    return error
  else
    writeCache fd events
    modify fun w => { w with accepted := w.accepted ++ [id] }
    return .success

/-- The socket has been counted. -/
def addCounted (fd id : Nat) (socket : MultiplexedSocket) : Program Error := do
  let m := (← get).multiplexer
  if m.activeSocketCount > m.maxSockets then
    dec
    return .overflow
  else
    let error ← startTimer id socket.permanent
    if error ≠ .success then
      dec
      return error
    else enlist fd id (socket.interests (EPOLLERR ||| EPOLLET))

def addMultiplexedSocket (id : Nat) : Program Error := do
  if !(← get).multiplexer.hasEvents then return .outOfMemory
  else
    let socket ← touch id
    match socket.socketDescriptor with
    | none =>
        fail .assertion
        return .invalidArgument
    | some fd =>
        inc
        addCounted fd id socket

/-- The kernel is told of the events unless the cache says that it knows them. -/
def refresh (fd id : Nat) (events : EpollEvents) : Program Error := do
  if (← readCache fd) ≠ events then
    let error ← epollModify fd events id
    if error ≠ .success then return error
    else
      writeCache fd events
      return .success
  else return .success

def updateMultiplexedSocket (id : Nat) : Program Error := do
  if !(← get).multiplexer.hasEvents then return .outOfMemory
  else
    let socket ← touch id
    match socket.socketDescriptor with
    | none =>
        fail .assertion
        return .invalidArgument
    | some fd => refresh fd id (socket.interests EPOLLERR)

/-- A socket that is in no list any more is dead. -/
def bury (id : Nat) : Program Unit := do
  expect .assertion (!(← get).isTimed id)
  dec
  addDead id
  modifySocket id fun socket => { socket with dead := true }

/-- What `removeMultiplexedSocket` does once the kernel has let go of the descriptor. -/
def giveUp (fd id : Nat) : Program Unit := do
  writeCache fd 0
  removeActive id
  stopTimer id
  bury id

def removeMultiplexedSocket (handleRemove : Nat → Program Unit) (id : Nat) : Program Error := do
  if !(← get).multiplexer.hasEvents then return .outOfMemory
  else
    let socket ← touch id
    match socket.socketDescriptor with
    | none =>
        fail .assertion
        return .invalidArgument
    | some fd =>
        let error ← epollDelete fd
        if error ≠ .success then return error
        else
          giveUp fd id
          handleRemove id
          return .success

/-! ## The callbacks -/

/-- No socket has the descriptor. -/
def Scene.isFree (w : Scene) (fd : Nat) : Bool :=
  fd < w.descriptors &&
    (List.range w.constructed).all fun id =>
      w.isDestroyed id || decide ((w.sockets id).socketDescriptor ≠ some fd)

/-- The calls that the contract allows. -/
def Scene.allows (w : Scene) : Call → Bool
  | .construct fd _ => w.isFree fd
  | .want id .. => w.exists id
  | .close id => w.exists id && decide (id ∉ w.multiplexer.activeSockets)
  | .discard id => w.exists id && !w.isLinked id
  | .add id => w.exists id && !w.isLinked id && (w.sockets id).socketDescriptor.isSome
  | .update id => w.exists id && (w.sockets id).socketDescriptor.isSome
  | .remove id =>
      w.exists id && (w.sockets id).socketDescriptor.isSome && decide (id ∉ w.busy)

/-- The constructor of a socket. -/
def construct (fd : Nat) (socket : MultiplexedSocket) (w : World) : World :=
  { w with
    constructed := w.constructed + 1
    sockets := Function.update w.sockets w.constructed
      { socket with socketDescriptor := some fd, dead := false } }

/-- `close` on the socket's descriptor. -/
def close (id : Nat) : Program Unit := do
  match ((← get).sockets id).socketDescriptor with
  | none => return ()
  | some fd =>
      modify (forget fd)
      modifySocket id fun socket => { socket with socketDescriptor := none }

/-- An allowed call. -/
def make (handleRemove : Nat → Program Unit) : Call → Program Unit
  | .construct fd socket => modify (construct fd socket)
  | .want id wantAccept wantConnect wantRead wantWrite =>
      modifySocket id fun socket => { socket with wantAccept, wantConnect, wantRead, wantWrite }
  | .close id => close id
  | .discard id => modify fun w => { w with discarded := w.discarded ++ [id] }
  | .add id => discard (addMultiplexedSocket id)
  | .update id => discard (updateMultiplexedSocket id)
  | .remove id => discard (removeMultiplexedSocket handleRemove id)

def perform (handleRemove : Nat → Program Unit) (call : Call) : Program Unit := do
  if (← get).allows call then make handleRemove call

def performAll (handleRemove : Nat → Program Unit) : List Call → Program Unit
  | [] => return ()
  | call :: rest => do
      perform handleRemove call
      performAll handleRemove rest

def nextScript : Program Script := do
  match (← get).scripts with
  | [] => return {}
  | script :: rest =>
      modify fun w => { w with scripts := rest }
      return script

/-- The socket is called back. -/
def callBack (handleRemove : Nat → Program Unit) (id : Nat) : Program Error := do
  let _ ← touch id
  modify fun w => { w with views := w.views ++ [w.toScene] }
  let script ← nextScript
  performAll handleRemove script.calls
  return script.result

/-- `handleRemove`, in which others may be removed; one script less is left each time. -/
def handleRemove : Nat → Nat → Program Unit
  | 0, id => discard (callBack (fun _ => return ()) id)
  | depth + 1, id => discard (callBack (handleRemove depth) id)

/-- `removeMultiplexedSocket`, however deep the scripts that are left nest. -/
def remove (id : Nat) : Program Error := do
  removeMultiplexedSocket (handleRemove (← get).scripts.length) id

/-- A callback about an event, which only an active socket gets. -/
def notify (id : Nat) : Program Error := do
  expect .late (decide (id ∈ (← get).multiplexer.activeSockets))
  callBack (handleRemove (← get).scripts.length) id

/-! ## Events -/

/-- What `epoll_wait` reports of a descriptor; `bytesReadable` is what `BytesReadable` will say. -/
structure Ready where
  socketDescriptor : Nat
  events : EpollEvents
  bytesReadable : Int := 0
  deriving DecidableEq, Repr

/-- Some of the bits are set. -/
def Ready.has (ready : Ready) (events : EpollEvents) : Bool := ready.events &&& events != 0#32

/-- `handleConnect`, `handleReadable` and `handleWritable`: whether the socket is kept. -/
def keepsAfter (id : Nat) : Program Bool := do
  let error ← notify id
  return error = .again || error = .pause

/-- `handleError` and `handleRemoteClose`. -/
def leavesAfter (id : Nat) : Program Bool := do
  let _ ← notify id
  return false

/-- The loop that accepts connections. -/
def acceptAll (id : Nat) : Nat → Program Bool
  | 0 => do
      fail .endless
      return false
  | turns + 1 => do
      match ← notify id with
      | .again => acceptAll id turns
      | error => return error = .success

def serveListening (id : Nat) (ready : Ready) : Program Bool := do
  if ready.has EPOLLERR then leavesAfter id
  else if ready.has EPOLLIN then acceptAll id ((← get).scripts.length + 1)
  else return true

def serveConnecting (id : Nat) (ready : Ready) : Program Bool :=
  if ready.has EPOLLERR then leavesAfter id
  else if ready.has EPOLLHUP then leavesAfter id
  else if ready.has EPOLLIN then
    if ready.bytesReadable ≤ 0 then leavesAfter id else keepsAfter id
  else if ready.has EPOLLOUT then keepsAfter id
  else return true

def serveReadable (id : Nat) (ready : Ready) : Program Bool := do
  if ((← get).sockets id).wantRead && ready.has EPOLLIN then keepsAfter id else return true

def serveWritable (id : Nat) (ready : Ready) : Program Bool := do
  if ((← get).sockets id).wantWrite && ready.has EPOLLOUT then keepsAfter id else return true

def serveConnected (id : Nat) (ready : Ready) : Program Bool := do
  if ready.has EPOLLERR then leavesAfter id
  else if ready.has EPOLLHUP then leavesAfter id
  else
    let kept ← serveReadable id ready
    if kept then serveWritable id ready else return false

/-- Whether the socket is kept in the multiplexer. -/
def serve (id : Nat) (ready : Ready) : Program Bool := do
  let socket := (← get).sockets id
  if socket.wantAccept then serveListening id ready
  else if socket.wantConnect then serveConnecting id ready
  else serveConnected id ready

def setBusy (id : Nat) : Program Unit := modify fun w => { w with busy := id :: w.busy }

def clearBusy (id : Nat) : Program Unit := modify fun w => { w with busy := w.busy.erase id }

/-- The socket is removed once it has been served. -/
def removeServed (id : Nat) : Program Unit := do
  clearBusy id
  discard (remove id)

/-- A socket that is kept has its timer set anew and its interests registered. -/
def keep (id : Nat) (now : Date) : Program Unit := do
  let w ← get
  expect .assertion (w.sockets id).socketDescriptor.isSome
  if (w.sockets id).permanent || w.multiplexer.idleTimeoutMsec = 0 then
    discard (updateMultiplexedSocket id)
    clearBusy id
  else
    match ← updateTimer id now with
    | .success =>
        discard (updateMultiplexedSocket id)
        clearBusy id
    | .underflow =>
        let _ ← notify id
        removeServed id
    | _ => removeServed id

/-- One event of the batch. -/
def handleEvent (now : Date) (ready : Ready) (id : Nat) : Program Unit := do
  let socket ← touch id
  if socket.dead then return ()
  else
    expect .assertion socket.socketDescriptor.isSome
    setBusy id
    if ← serve id ready then keep id now else removeServed id

def handleEvents (now : Date) : List (Ready × Nat) → Program Unit
  | [] => return ()
  | (ready, id) :: rest => do
      handleEvent now ready id
      handleEvents now rest

/-! ## Idle sockets -/

/-- The next timer that has expired. -/
def nextExpired (now : Date) : Program (Option Nat) := do
  match (← get).multiplexer.timingWheel.nextExpired now with
  | .ok (timer, timingWheel) =>
      modifyMultiplexer fun m => { m with timingWheel }
      return timer
  | .error _ =>
      fail .nullDereference
      return none

/-- The loop of `checkIdleSockets`. -/
def expireAll (now : Date) : Nat → Program Unit
  | 0 => fail .endless
  | turns + 1 => do
      match ← nextExpired now with
      | none => return ()
      | some id =>
          expect .assertion (!(← get).isTimed id)
          setBusy id
          let _ ← notify id
          removeServed id
          expireAll now turns

/-- As many sockets as are active, or can still be added. -/
def World.pending (w : World) : Nat :=
  w.multiplexer.activeSockets.length + (w.scripts.map fun script => script.calls.length).sum

def checkIdleSockets : Program Unit := do
  let now ← readClock
  expireAll now ((← get).pending + 1)

/-! ## The end -/

/-- `cleanupHandler->destroy` for a dead socket. -/
def cleanUp (id : Nat) : Program Unit := do
  let _ ← touch id
  modify fun w => { w with cleaned := w.cleaned ++ [id] }

def cleanUpAll : List Nat → Program Unit
  | [] => return ()
  | id :: rest => do
      cleanUp id
      cleanUpAll rest

/-- The dead list is emptied and its sockets are cleaned up. -/
def clearDead : Program Unit := do
  let dead := (← get).multiplexer.deadSockets
  modifyMultiplexer fun m => { m with deadSockets := [] }
  cleanUpAll dead

/-- The loop of `destroy`. -/
def removeAll : Nat → Program Unit
  | 0 => fail .endless
  | turns + 1 => do
      match (← get).multiplexer.activeSockets with
      | [] => return ()
      | id :: _ =>
          let _ ← remove id
          removeAll turns

/-- The descriptor of the epoll instance is closed and the arrays are freed. -/
def shut (w : World) : World :=
  { w with multiplexer := { w.multiplexer with hasEvents := false }, interest := fun _ => none }

def destroy : Program Unit := do
  removeAll ((← get).pending + 1)
  modifyMultiplexer fun m => { m with timingWheel := m.timingWheel.clear }
  clearDead
  let m := (← get).multiplexer
  expect .assertion (m.activeSocketCount = m.activeSockets.length)
  modify shut

/-! ## The loop -/

/-- What `epoll_wait` comes to. -/
inductive Wait where
  | ready (events : List Ready)
  | interrupted
  | failed
  deriving DecidableEq, Repr

/-- The sockets of a batch: the kernel reports registered descriptors only. -/
def Scene.batch (w : Scene) (events : List Ready) : List (Ready × Nat) :=
  events.filterMap fun ready => (w.interest ready.socketDescriptor).map fun entry => (ready, entry.2)

def handleBatch (events : List Ready) : Program Unit := do
  let batch := (← get).batch events
  let now ← readClock
  handleEvents now batch
  clearDead

/-- `run`, with what `epoll_wait` comes to in each turn until the thread is told to stop.  After
eleven failures in a row it gives up. -/
def run : List Wait → Nat → Program Unit
  | [], _ => destroy
  | wait :: rest, errorCount => do
      checkIdleSockets
      match wait with
      | .ready [] => run rest errorCount
      | .interrupted => run rest errorCount
      | .failed => if 10 ≤ errorCount then modify shut else run rest (errorCount + 1)
      | .ready (ready :: events) => do
          handleBatch (ready :: events)
          run rest 0

/-- What the application does before the thread starts, and the thread. -/
def World.run (w : World) (calls : List Call) (waits : List Wait) : World :=
  let w := (performAll (handleRemove w.scripts.length) calls w).2
  if w.multiplexer.hasEvents then (EpollMultiplexer.run waits 0 w).2 else w

end EpollMultiplexer

end Everscale
