/-
# Everscale.Base.ConnectedSocket -- a connection, read and written through buffers

`ESB::ConnectedSocket` (`ESBConnectedSocket.cpp`) as the HTTP sockets use it.  What
`recv` and `send` come to is up to the transport: a connection carries the list of what
its next reads and the list of what its next writes come to, and would block when there
is nothing left on them.  `received` and `sent` keep every octet that has passed.

`Flushed` is the result of the loop that both sockets have in `flushSendBuffer`.
-/
import Everscale.Base.Buffer
import Everscale.Base.Error

namespace Everscale

set_option autoImplicit false

/-- What a read comes to.  No octets at all is the end of the stream. -/
inductive Arrival where
  | octets (arrived : List Octet)
  | failed (error : Failure)
  deriving DecidableEq, Repr

/-- What a write comes to; `taken count` takes that many octets, or as many as there are.  It may take
none: `SSL_write` on a connection that its peer has closed does not fail. -/
inductive Departure where
  | taken (count : Nat)
  | failed (error : Failure)
  deriving DecidableEq, Repr

structure ConnectedSocket where
  peerAddress : Nat := 0
  isOpen : Bool := true
  established : Bool := true
  wantRead : Bool := false
  wantWrite : Bool := false
  arrivals : List Arrival := []
  departures : List Departure := []
  received : List Octet := []
  sent : List Octet := []
  deriving DecidableEq, Repr

namespace ConnectedSocket

/-- `connected`: the descriptor is valid and the connection is established. -/
def connected (socket : ConnectedSocket) : Bool := socket.isOpen && socket.established

def close (socket : ConnectedSocket) : ConnectedSocket :=
  { socket with isOpen := false, established := false }

/-- `receive` into the free space of a buffer, with the code `fillReceiveBuffer` makes of
the result. -/
def receive (socket : ConnectedSocket) (b : Buffer) : Error × ConnectedSocket × Buffer :=
  match socket.arrivals with
  | [] => (.again, socket, b)
  | .failed error :: rest => (error, { socket with arrivals := rest }, b)
  | .octets [] :: rest => (.closed, { socket with arrivals := rest }, b)
  | .octets arrived :: rest =>
      let count := min b.writable arrived.length
      let later := arrived.drop count
      (.success,
        { socket with
          arrivals := if later = [] then rest else .octets later :: rest
          received := socket.received ++ arrived.take count },
        b.fill (arrived.take count))

/-- `send` from a buffer, with the code `flushSendBuffer` makes of the result. -/
def send (socket : ConnectedSocket) (b : Buffer) : Error × ConnectedSocket × Buffer :=
  match socket.departures with
  | [] => (.again, socket, b)
  | .failed error :: rest => (error, { socket with departures := rest }, b)
  | .taken count :: rest =>
      let count := min count b.readable
      (.success,
        { socket with departures := rest, sent := socket.sent ++ b.unread.take count },
        b.send count)

/-- What `flushSendBuffer` leaves behind; `flushed` says whether any write succeeded. -/
structure Flushed where
  code : Error
  flushed : Bool
  socket : ConnectedSocket
  output : Buffer
  deriving DecidableEq

/-- The loop of `flushSendBuffer`.  Every turn that goes on uses up a departure, so the fuel
cannot run out. -/
def flushLoop : Nat → Bool → ConnectedSocket → Buffer → Flushed
  | 0, flushed, socket, b => ⟨.shutdown, flushed, socket, b⟩
  | fuel + 1, flushed, socket, b =>
      if !b.isReadable then ⟨.success, flushed, socket, b⟩
      else
        match socket.send b with
        | (.success, socket, b) => flushLoop fuel true socket b
        | (.again, socket, b) => ⟨if flushed then .success else .again, flushed, socket, b⟩
        | (error, socket, b) => ⟨error, flushed, socket, b⟩

/-- `flushSendBuffer`. -/
def flush (socket : ConnectedSocket) (b : Buffer) : Flushed :=
  if !b.isReadable then ⟨.overflow, false, socket, b⟩
  else flushLoop (socket.departures.length + 1) false socket b

end ConnectedSocket

end Everscale
