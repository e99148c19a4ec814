/-
The IPC socket.

A client sends lines, which are handed to `parse_rc_line` one after the other,
and receives the events the compositor emits.  The socket is non-blocking: what
a read delivers is appended to `read_buffer`, and what a write does not accept
stays in `write_buffer`.

* `ipcClientHandleReadable`, `ipcClientHandleCommand` — receiving;
* `ipcSendEvent`, `ipcClientHandleWritable` — sending;
* `step` — the callbacks of the event loop.

The rest of the compositor is known to this module by `parseRcLine` only: the
state after a line and the events emitted while it was executed.
-/
import Cagebreak.Lib.Buffer

namespace Cagebreak

namespace Ipc

open Exec

abbrev ClientPtr := ℕ

/-- `'\n'`. -/
def newline : UInt8 := 10

/-- `ipc_magic`, the text `cg-ipc`. -/
def ipcMagic : List UInt8 := [99, 103, 45, 105, 112, 99]

/-- `IPC_HEADER_SIZE`. -/
def ipcHeaderSize : ℕ := ipcMagic.length

/-- The text of an event, as `malloc_vsprintf` builds it: a C string, whose
length `vsnprintf` has counted in an `int`. -/
structure Payload where
  bytes : List UInt8
  notMem_zero : 0 ∉ bytes
  length_lt : bytes.length < 2 ^ 31

/-- `struct cg_ipc_client`.  The last four fields are no fields of the source:
they record the bytes received, the lines passed on, the bytes written, and how
many events had been emitted when the client connected. -/
structure Client where
  readBuffer : Buffer
  readBufLen : ℕ
  readBufCap : ℕ
  readDiscard : Bool
  writeBuffer : Buffer
  writeBufferLen : ℕ
  writeBufferSize : ℕ
  writableEventSource : Bool
  received : List UInt8
  passed : List (List UInt8)
  written : List UInt8
  joined : ℕ

end Ipc

open Exec Ipc

/-- The clients of the socket, `NULL` for a client that has been freed, and the
rest of the compositor.  `events` records the events emitted so far. -/
structure Ipc (τ : Type) where
  server : τ
  clientList : List ClientPtr
  client : ClientPtr → Option Client
  events : List Payload

namespace Ipc

variable {τ : Type}

/-- No client has connected yet. -/
def init (server : τ) : Ipc τ where
  server := server
  clientList := []
  client _ := none
  events := []

def setClient (s : Ipc τ) (p : ClientPtr) (c : Client) : Ipc τ :=
  { s with client := Function.update s.client p (some c) }

/-- `ipc_client_disconnect`. -/
def ipcClientDisconnect (s : Ipc τ) (p : ClientPtr) : Ipc τ :=
  { s with
    clientList := s.clientList.erase p
    client := Function.update s.client p none }

/-- `ipc_handle_connection`, up to the registration of the client. -/
def ipcHandleConnection (s : Ipc τ) (p : ClientPtr) : Ipc τ :=
  { s with clientList := p :: s.clientList }.setClient p
    { readBuffer := fun _ => 0
      readBufLen := 0
      readBufCap := 64
      readDiscard := false
      writeBuffer := fun _ => 0
      writeBufferLen := 0
      writeBufferSize := 128
      writableEventSource := true
      received := []
      passed := []
      written := []
      joined := s.events.length }

/-! ### Sending -/

/-- `ipc_send_event_client`; `none` when the client is to be disconnected. -/
def ipcSendEventClient (c : Client) (payload : Payload) : Exec (Option Client) := do
  let payloadLength := payload.bytes.length % 2 ^ 32
  -- +1 for terminating null character
  let need := c.writeBufferLen + ipcHeaderSize + payloadLength + 1
  let size ← doubleUntil (need + 1) need c.writeBufferSize
  if 4000000 < size then .ok none
  else
    let b := c.writeBuffer.blit c.writeBufferLen ipcMagic
    let b := b.blit (c.writeBufferLen + ipcHeaderSize) (payload.bytes.take payloadLength)
    let b := b.blit (c.writeBufferLen + ipcHeaderSize + payloadLength) [0]
    .ok (some { c with
      writeBuffer := b
      writeBufferLen := c.writeBufferLen + ipcHeaderSize + payloadLength + 1
      writeBufferSize := size })

/-- One round of the loop in `ipc_send_event`. -/
def sendTo (payload : Payload) (s : Ipc τ) (p : ClientPtr) : Exec (Ipc τ) := do
  let c ← nonNull (s.client p)
  let sent ← ipcSendEventClient { c with writableEventSource := true } payload
  match sent with
  | none => .ok (s.ipcClientDisconnect p)
  | some c => .ok (s.setClient p c)

/-- `ipc_send_event`. -/
def ipcSendEvent (s : Ipc τ) (payload : Payload) : Exec (Ipc τ) :=
  s.clientList.foldlM (sendTo payload) { s with events := s.events ++ [payload] }

/-- What the socket answers to a `write`. -/
inductive Writable
  | hangup
  | badFd
  | again
  | failed
  | wrote (n : ℕ)

/-- `ipc_client_handle_writable`.  A `write` accepts at most what it is given. -/
def ipcClientHandleWritable (s : Ipc τ) (p : ClientPtr) (answer : Writable) : Exec (Ipc τ) := do
  let c ← nonNull (s.client p)
  match answer with
  | .hangup => .ok (s.ipcClientDisconnect p)
  | .badFd => .ok s
  | .again => .ok s
  | .failed => .ok (s.ipcClientDisconnect p)
  | .wrote n =>
    let written := min n c.writeBufferLen
    let rest := c.writeBuffer.slice written (c.writeBufferLen - written)
    .ok (s.setClient p { c with
      writeBuffer := c.writeBuffer.blit 0 rest
      writeBufferLen := c.writeBufferLen - written
      writableEventSource := c.writableEventSource && decide (c.writeBufferLen - written ≠ 0)
      written := c.written ++ c.writeBuffer.slice 0 written })

/-! ### Receiving -/

/-- The lines `ipc_client_handle_command` passes on: neither empty nor a
comment. -/
def isCommand (line : List UInt8) : Bool :=
  match line with
  | [] => false
  | c :: _ => decide (c ≠ 35)

variable (parseRcLine : τ → List UInt8 → τ × List Payload)

/-- Execute a line, with the events it emits. -/
def execLine (s : Ipc τ) (line : List UInt8) : Exec (Ipc τ) :=
  (parseRcLine s.server line).2.foldlM ipcSendEvent
    { s with server := (parseRcLine s.server line).1 }

/-- The body of the loop in `ipc_client_handle_command` for the line at `offset`
that ends at `nl`. -/
def handleLine (p : ClientPtr) (s : Ipc τ) (c : Client) (offset nl : ℕ) : Exec (Ipc τ) :=
  if c.readDiscard then .ok (s.setClient p { c with readDiscard := false })
  else do
    let b : Buffer := Function.update c.readBuffer nl 0
    let line ← b.cString (c.readBufCap - offset) offset
    if isCommand line then
      execLine parseRcLine
        (s.setClient p { c with readBuffer := b, passed := c.passed ++ [line] }) line
    else .ok (s.setClient p { c with readBuffer := b })

/-- The loop of `ipc_client_handle_command`.  Every round reads the fields of
the client again, also to compute the next offset. -/
def commandLoop (p : ClientPtr) : ℕ → Ipc τ → ℕ → Exec (Ipc τ × ℕ)
  | 0, _, _ => .error .diverges
  | n + 1, s, offset => do
    let c ← nonNull (s.client p)
    let nlPos ← c.readBuffer.strchr newline (c.readBufCap - offset) offset
    ifSome nlPos (s, offset) fun nl => do
      let s ← handleLine parseRcLine p s c offset nl
      let _ ← nonNull (s.client p)
      commandLoop p n s (nl + 1)

/-- `ipc_client_handle_command`. -/
def ipcClientHandleCommand (s : Ipc τ) (p : ClientPtr) : Exec (Ipc τ) := do
  let c ← nonNull (s.client p)
  deref (decide (c.readBufLen < c.readBufCap))
  let terminated : Buffer := Function.update c.readBuffer c.readBufLen 0
  let (s, offset) ← commandLoop parseRcLine p (c.readBufLen + 1)
    (s.setClient p { c with readBuffer := terminated }) 0
  let c ← nonNull (s.client p)
  let rest := c.readBuffer.slice offset (c.readBufLen - offset)
  .ok (s.setClient p { c with
    readBuffer := if offset < c.readBufLen then c.readBuffer.blit 0 rest else c.readBuffer
    -- `uint16_t` arithmetic
    readBufLen := (c.readBufLen + 2 ^ 16 - offset % 2 ^ 16) % 2 ^ 16 })

/-- What the socket has for `ipc_client_handle_readable`. -/
inductive Readable
  | hangup
  | data (readAvailable : ℕ) (bytes : List UInt8)

/-- The part of `ipc_client_handle_readable` that makes room and reads.  The
sum is compared with the capacity in 32 bits: from 2^30 bytes on the capacity
would grow past what its conversion to `int32_t` keeps positive. -/
def receive (c : Client) (readAvailable : ℕ) (bytes : List UInt8) : Exec Client := do
  let need := readAvailable + c.readBufLen
  deref (decide (need < 2 ^ 30))
  let cap ← doubleUntil (need + 1) need c.readBufCap
  .ok { c with
    readBuffer := c.readBuffer.blit c.readBufLen bytes
    -- `uint16_t` arithmetic
    readBufLen := (c.readBufLen + bytes.length) % 2 ^ 16
    readBufCap := cap
    received := c.received ++ bytes }

/-- `ipc_client_handle_readable`.  A read delivers at most what has been asked
for; an empty one means that the client is gone. -/
def ipcClientHandleReadable (s : Ipc τ) (p : ClientPtr) (r : Readable) : Exec (Ipc τ) := do
  let c ← nonNull (s.client p)
  match r with
  | .hangup => .ok (s.ipcClientDisconnect p)
  | .data readAvailable bytes => do
    let c ← receive c readAvailable (bytes.take readAvailable)
    if bytes.take readAvailable = [] then .ok (s.ipcClientDisconnect p)
    else ipcClientHandleCommand parseRcLine (s.setClient p c) p

/-! ### The event loop -/

/-- The callbacks of the event loop that concern the socket.  `emit` is an event
from somewhere else in the compositor, whose state it may change. -/
inductive Callback (τ : Type)
  | connection (p : ClientPtr)
  | readable (p : ClientPtr) (r : Readable)
  | writable (p : ClientPtr) (answer : Writable)
  | emit (server : τ) (payload : Payload)

/-- Handle one callback.  `malloc` returns a client that is not in use. -/
def step (s : Ipc τ) : Callback τ → Exec (Ipc τ)
  | .connection p => do
    deref (s.client p).isNone
    .ok (s.ipcHandleConnection p)
  | .readable p r => ipcClientHandleReadable parseRcLine s p r
  | .writable p answer => s.ipcClientHandleWritable p answer
  | .emit server payload => { s with server := server }.ipcSendEvent payload

end Ipc

end Cagebreak
