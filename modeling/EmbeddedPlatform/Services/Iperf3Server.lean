import Mathlib.Data.List.FinRange
import Mathlib.Logic.Function.Basic
import EmbeddedPlatform.Lib.BoundedQueue
import EmbeddedPlatform.Lib.Rounds

/-! # The iperf3 server

`Iperf3Server` keeps a table of control connections. Each reads a cookie and a
blob of parameters from its FIFO, waits for a datagram of its client and then
sends datagrams from the main loop until it is told to stop. The stack belongs
to a library: the table lookups of its `TCPServer` are parameters, and so is
what it answers to a request for a buffer. A socket stands for one connection,
whose remote address does not change. Log output is left out. -/
namespace EmbeddedPlatform.Services
open EmbeddedPlatform.Lib

/-! ## The connection table -/

abbrev IPv4Address := UInt32

/-- A TCP connection. -/
structure TCPTableEntry where
  handle : Nat
  m_remoteIP : IPv4Address
deriving DecidableEq

def IPERF_COOKIE_SIZE : Nat := 37

def IPERF3_PORT : UInt16 := 5201

/-- Position in the connection state machine. -/
inductive IperfState where
  | IPERF_START
  | PARAM_EXCHANGE
  | CREATE_STREAMS
  | TEST_START
  | TEST_RUNNING
  | TEST_END
  | EXCHANGE_RESULTS
  | DISPLAY_RESULTS
  | IPERF_DONE
deriving DecidableEq

/-- The byte that announces a state. -/
def IperfState.code : IperfState → UInt8
  | IPERF_START => 15
  | PARAM_EXCHANGE => 9
  | CREATE_STREAMS => 10
  | TEST_START => 1
  | TEST_RUNNING => 2
  | TEST_END => 4
  | EXCHANGE_RESULTS => 13
  | DISPLAY_RESULTS => 14
  | IPERF_DONE => 16

inductive IperfMode where
  | MODE_TCP
  | MODE_UDP
deriving DecidableEq

abbrev CircularFIFO := BoundedQueue UInt8 256

/-- A slot of the table; one in use has its socket. -/
structure IperfConnectionState where
  m_state : IperfState
  m_valid : Bool
  m_socket : Option TCPTableEntry
  m_cookie : List UInt8
  m_rxBuffer : CircularFIFO
  m_mode : IperfMode
  m_time : UInt32
  m_bandwidth : UInt32
  m_len : UInt32
  m_reverseMode : Bool
  m_clientPort : UInt16
  m_sequence : UInt32
  socket_of_valid : m_valid = true → m_socket.isSome = true

namespace IperfConnectionState

def Clear : IperfConnectionState where
  m_state := .IPERF_START
  m_valid := false
  m_socket := none
  m_cookie := List.replicate (IPERF_COOKIE_SIZE + 1) 0
  m_rxBuffer := .empty
  m_mode := .MODE_TCP
  m_time := 0
  m_bandwidth := 0
  m_len := 0
  m_reverseMode := false
  m_clientPort := 0
  m_sequence := 0
  socket_of_valid := Bool.noConfusion

/-- The socket of a slot in use. -/
def boundTo (c : IperfConnectionState) : Option TCPTableEntry :=
  if c.m_valid then c.m_socket else none

/-- What `AllocateConnectionID` does to the slot it hands out. -/
def bind (c : IperfConnectionState) (socket : TCPTableEntry) : IperfConnectionState :=
  { c with m_valid := true, m_socket := some socket, socket_of_valid := fun _ => rfl }

end IperfConnectionState

/-- The base class finds slots by the sockets of those in use. -/
structure TCPServer (n : Nat) where
  GetConnectionID : (Fin n → Option TCPTableEntry) → TCPTableEntry → Option (Fin n)
  AllocateConnectionID : (Fin n → Option TCPTableEntry) → TCPTableEntry → Option (Fin n)
  getConnectionID_bound : ∀ {sockets socket id},
    GetConnectionID sockets socket = some id → sockets id = some socket
  getConnectionID_isSome : ∀ {sockets socket id},
    sockets id = some socket → (GetConnectionID sockets socket).isSome = true
  allocateConnectionID_free : ∀ {sockets socket id},
    AllocateConnectionID sockets socket = some id → sockets id = none

/-- Lookups that search the table from its start. -/
def TCPServer.search (n : Nat) : TCPServer n where
  GetConnectionID sockets socket := (List.finRange n).find? fun i => sockets i == some socket
  AllocateConnectionID sockets _ := (List.finRange n).find? fun i => sockets i == none
  getConnectionID_bound h := by simpa using List.find?_some h
  getConnectionID_isSome {_ _ id} h :=
    List.find?_isSome.mpr ⟨id, List.mem_finRange id, beq_iff_eq.mpr h⟩
  allocateConnectionID_free h := by simpa using List.find?_some h

/-! ## Parameters -/

/-- The string in a char array. -/
def cstr (buf : List UInt8) : List UInt8 := buf.takeWhile (· != 0)

def text (s : String) : List UInt8 := s.toList.map fun c => .ofNat c.toNat

/-- `!strcmp(buf, s)` -/
def streq (buf : List UInt8) (s : String) : Bool := cstr buf == text s

def isspace (x : UInt8) : Bool := x == 32 || (9 ≤ x && x ≤ 13)

def isdigit (x : UInt8) : Bool := 48 ≤ x && x ≤ 57

/-- `(int) strtol(s, NULL, 10)` with a 32-bit `long`. -/
def atoi (s : List UInt8) : UInt32 :=
  let s := s.dropWhile isspace
  let number (s : List UInt8) : Nat :=
    (s.takeWhile isdigit).foldl (fun v d => 10 * v + (d.toNat - 48)) 0
  match s with
  | 45 :: t => - .ofNat (min (number t) 2147483648)
  | 43 :: t => .ofNat (min (number t) 2147483647)
  | t => .ofNat (min (number t) 2147483647)

def OnJsonConfigField (c : IperfConnectionState) (name value : List UInt8) :
    IperfConnectionState :=
  if streq name "udp" then
    if streq value "true" then { c with m_mode := .MODE_UDP }
    else if streq value "false" then { c with m_mode := .MODE_TCP }
    else c
  else if streq name "reverse" then
    if streq value "true" then { c with m_reverseMode := true }
    else if streq value "false" then { c with m_reverseMode := false }
    else c
  else if streq name "omit" then c
  else if streq name "time" then { c with m_time := atoi value }
  else if streq name "parallel" then c
  else if streq name "len" then { c with m_len := atoi value }
  else if streq name "bandwidth" then { c with m_bandwidth := atoi value }
  else c

inductive JsonState where
  | STATE_OPEN_QUOTE
  | STATE_NAME
  | STATE_COLON
  | STATE_VALUE
deriving DecidableEq

/-- The locals of the parser: of each array the bytes before `j`. -/
structure JsonParser where
  jsonState : JsonState
  name : List UInt8
  value : List UInt8

def openBrace : UInt8 := 0x7b
def closeBrace : UInt8 := 0x7d
def quote : UInt8 := 0x22
def colon : UInt8 := 0x3a
def comma : UInt8 := 0x2c

/-- What a round of the parser's loop comes to. -/
inductive JsonStep where
  | invalid
  | next (q : JsonParser) (c : IperfConnectionState)
  | done (c : IperfConnectionState)

namespace JsonParser

def start : JsonParser := ⟨.STATE_OPEN_QUOTE, [], []⟩

/-- The round with `json[i] = x`. -/
def round (q : JsonParser) (x : UInt8) (c : IperfConnectionState) : JsonStep :=
  match q.jsonState with
  | .STATE_OPEN_QUOTE =>
    if x != quote then .invalid
    else .next { q with jsonState := .STATE_NAME, name := [] } c
  | .STATE_NAME =>
    if 32 ≤ q.name.length then .invalid
    else if x == quote then .next { q with jsonState := .STATE_COLON } c
    else .next { q with name := q.name ++ [x] } c
  | .STATE_COLON =>
    if x != colon then .invalid
    else .next { q with jsonState := .STATE_VALUE, value := [] } c
  | .STATE_VALUE =>
    if 32 ≤ q.value.length then .invalid
    else if x == comma then
      .next { q with jsonState := .STATE_OPEN_QUOTE } (OnJsonConfigField c q.name q.value)
    else if x == closeBrace then .done (OnJsonConfigField c q.name q.value)
    else .next { q with value := q.value ++ [x] } c

end JsonParser

/-- The loop of the parser with `k` rounds to go from index `i`; `none` is a blob
it finds invalid. At the end of the message the index is set to the length and
counted up: for the greatest length it is 0 then, where there is a brace and the
parser wants a quote. -/
def parse (json : Nat → UInt8) : Nat → Nat → JsonParser → IperfConnectionState →
    Option IperfConnectionState
  | 0, _, _, c => some c
  | k + 1, i, q, c =>
    match q.round (json i) c with
    | .invalid => none
    | .next q c => parse json k (i + 1) q c
    | .done c => if i + (k + 1) = 0xffffffff then none else some c

/-! ## Handlers of one connection -/

def bswap32 (x : UInt32) : UInt32 :=
  x <<< 24 ||| (x &&& (0xff00 : UInt32)) <<< 8 ||| (x >>> 8 &&& (0xff00 : UInt32)) ||| x >>> 24

/-- The payload of a datagram; of `words` the first `len` bytes are sent. -/
inductive UdpPayload where
  | bytes (payload : List UInt8)
  | words (payload : List UInt32) (len : UInt32)
deriving DecidableEq

/-- What is handed to the stack. -/
inductive Tx where
  | SendTxSegment (socket : TCPTableEntry) (payload : List UInt8)
  | SendTxPacket (dstip : IPv4Address) (sport dport : UInt16) (payload : UdpPayload)
  | CloseSocket (socket : TCPTableEntry)
deriving DecidableEq

/-- Whether the stack will have a buffer, for each request to come. -/
structure Stack where
  segment : Nat → Bool
  packet : Nat → Bool

/-- A connection while an event is handled, and what `OnRxData` will return. -/
structure Session where
  conn : IperfConnectionState
  stack : Stack
  ret : Bool

namespace Session

def GetTxSegment (σ : Session) : Bool × Session :=
  (σ.stack.segment 0, { σ with stack.segment := fun k => σ.stack.segment (k + 1) })

def GetTxPacket (σ : Session) : Bool × Session :=
  (σ.stack.packet 0, { σ with stack.packet := fun k => σ.stack.packet (k + 1) })

def setState (σ : Session) (m_state : IperfState) : Session :=
  { σ with conn.m_state := m_state }

/-- Take bytes off the FIFO. -/
def popFifo (σ : Session) (size : Nat) : Session :=
  { σ with conn.m_rxBuffer := σ.conn.m_rxBuffer.pop size }

def DropConnection (socket : TCPTableEntry) (σ : Session) : Session × List Tx :=
  ({ σ with conn := .Clear }, [.CloseSocket socket])

def SendState (socket : TCPTableEntry) (σ : Session) : Session × List Tx :=
  match σ.GetTxSegment with
  | (false, σ) => (σ, [])
  | (true, σ) => (σ, [.SendTxSegment socket [σ.conn.m_state.code]])

/-- What `Rewind` points at: the waiting bytes and the memory behind them. -/
def Rewind (σ : Session) (behind : Nat → UInt8) (i : Nat) : UInt8 :=
  σ.conn.m_rxBuffer.items.getD i (behind (i - σ.conn.m_rxBuffer.items.length))

def OnRxCookie (socket : TCPTableEntry) (σ : Session) : Bool × Session × List Tx :=
  let fifo := σ.conn.m_rxBuffer.items
  if fifo.length < IPERF_COOKIE_SIZE then (false, σ, [])
  else
    let cookie := fifo.take IPERF_COOKIE_SIZE ++ σ.conn.m_cookie.drop IPERF_COOKIE_SIZE
    let σ := { σ with conn.m_cookie := cookie }.popFifo IPERF_COOKIE_SIZE
    let (σ, es) := (σ.setState .PARAM_EXCHANGE).SendState socket
    (true, σ, es)

/-- The length prefix of the blob. -/
def blobLen (p : Nat → UInt8) : UInt32 :=
  bswap32 ((p 0).toUInt32 ||| (p 1).toUInt32 <<< 8 ||| (p 2).toUInt32 <<< 16 |||
    (p 3).toUInt32 <<< 24)

/-- What is checked of the parameters before the client may open its stream. -/
def admits (c : IperfConnectionState) : Bool :=
  c.m_mode == .MODE_UDP && c.m_reverseMode && c.m_len < 1480

def OnRxParamExchange (socket : TCPTableEntry) (behind : Nat → UInt8) (σ : Session) :
    Bool × Session × List Tx :=
  let fifo := σ.conn.m_rxBuffer.items
  if fifo.length < 6 then (false, σ, [])
  else
    let p := σ.Rewind behind
    let len := blobLen p
    if fifo.length < (4 + len).toNat then (false, σ, [])
    else if p 4 != openBrace then (false, σ, [])
    else
      match parse (fun i => p (4 + i)) (len.toNat - 1) 1 .start σ.conn with
      | none => (true, σ.DropConnection socket)
      | some conn =>
        let σ := ({ σ with conn := conn }.popFifo (4 + len).toNat).setState .CREATE_STREAMS
        let (σ, es) := σ.SendState socket
        if admits σ.conn then (true, σ, es)
        else
          let (σ, fs) := σ.DropConnection socket
          (true, σ, es ++ fs)

def signed (x : UInt32) : Int := x.toInt32.toInt

/-- The results, with fields that are not measured made up. -/
def resultsJson (c : IperfConnectionState) : List UInt8 :=
  text ("\x7b\"cpu_util_total\":0.0,\"cpu_util_user\":0.0,\"cpu_util_system\":0.0," ++
    "\"sender_has_retransmits\":0,\"streams\":[\x7b\"id\":1,\"bytes\":" ++
    toString (c.m_sequence * c.m_len).toNat ++
    ",\"retransmits\":18446744073709551615,\"jitter\":0.0,\"errors\":0.0,\"packets\":" ++
    toString (signed c.m_sequence) ++ ",\"start_time\":0,\"end_time\":" ++
    toString (signed c.m_time) ++ ".0\x7d]\x7d")

/-- The JSON behind its length, then the request to display it. -/
def resultsPayload (c : IperfConnectionState) : List UInt8 :=
  let json := resultsJson c
  [0, 0, .ofNat (json.length >>> 8), .ofNat (json.length % 256)] ++ json ++
    [IperfState.DISPLAY_RESULTS.code]

def OnRxEnd (socket : TCPTableEntry) (behind : Nat → UInt8) (σ : Session) : Session × List Tx :=
  let p := σ.Rewind behind
  let σ := σ.popFifo 1
  if p 0 != IperfState.TEST_END.code then (σ, [])
  else
    let (σ, es) := (σ.setState .EXCHANGE_RESULTS).SendState socket
    match σ.GetTxSegment with
    | (false, σ) => (σ, es)
    | (true, σ) => (σ, es ++ [.SendTxSegment socket (resultsPayload σ.conn)])

/-- A round of the loop of `OnRxData`: whether to go on. -/
def handle (socket : TCPTableEntry) (behind : Nat → UInt8) (σ : Session) :
    Bool × Session × List Tx :=
  match σ.conn.m_state with
  | .IPERF_START => σ.OnRxCookie socket
  | .PARAM_EXCHANGE => σ.OnRxParamExchange socket behind
  | .CREATE_STREAMS => (false, σ, [])
  | .TEST_START => (false, { σ with ret := false }, [])
  | .TEST_RUNNING => (false, σ.OnRxEnd socket behind)
  | .EXCHANGE_RESULTS => (false, σ, [])
  | .TEST_END | .DISPLAY_RESULTS | .IPERF_DONE => (false, { σ with ret := false }, [])

/-- The words of a datagram; at least four are written. -/
def FillPacket (count seq len : UInt32) : List UInt32 :=
  let wordlen := len.toNat / 4 + if len.toNat % 4 = 0 then 0 else 1
  [bswap32 (count / 10000), bswap32 (count % 10000 * 100), bswap32 seq, 0] ++
    (List.range' 4 (wordlen - 4)).map .ofNat

def SendDataOnStream (socket : TCPTableEntry) (count : UInt32) (σ : Session) :
    Session × List Tx :=
  match σ.GetTxPacket with
  | (false, σ) => (σ, [])
  | (true, σ) =>
    let len := σ.conn.m_len
    let seq := σ.conn.m_sequence + 1
    ({ σ with conn.m_sequence := seq },
      [.SendTxPacket socket.m_remoteIP IPERF3_PORT σ.conn.m_clientPort
        (.words (FillPacket count seq len) len)])

/-- What `Iteration` does for a slot in use. -/
def serve (socket : TCPTableEntry) (count : UInt32) (σ : Session) : Session × List Tx :=
  match σ.conn.m_state with
  | .TEST_START =>
    let (σ, es) := σ.SendDataOnStream socket count
    let (σ, fs) := (σ.setState .TEST_RUNNING).SendState socket
    (σ, es ++ fs)
  | .TEST_RUNNING => σ.SendDataOnStream socket count
  | _ => (σ, [])

/-- The answer to a client's first datagram, from port `sport`. -/
def openStream (socket : TCPTableEntry) (sport : UInt16) (σ : Session) : Session × List Tx :=
  match σ.GetTxPacket with
  | (false, σ) => (σ, [])
  | (true, σ) =>
    let hello := .SendTxPacket socket.m_remoteIP IPERF3_PORT sport (.bytes (text "6789"))
    let σ := { σ with conn.m_clientPort := sport }.setState .TEST_START
    let (σ, es) := σ.SendState socket
    (σ, hello :: es)

end Session

/-! ## The server -/

/-- A log entry: the slot it is about, and what was sent for it. -/
abbrev Entry (n : Nat) := Fin n × Tx

/-- `n` is MAX_IPERF_CLIENTS. -/
structure Iperf3Server (n : Nat) where
  m_state : Fin n → IperfConnectionState
  stack : Stack

/-- The loop of `OnRxData` did not end. -/
inductive Fault where
  | stuck
deriving DecidableEq

namespace Iperf3Server

variable {n : Nat}

def init (stack : Stack) : Iperf3Server n := ⟨fun _ => .Clear, stack⟩

def sockets (s : Iperf3Server n) : Fin n → Option TCPTableEntry := fun i => (s.m_state i).boundTo

/-- Begin and end the handling of an event for one slot. -/
def session (s : Iperf3Server n) (id : Fin n) : Session := ⟨s.m_state id, s.stack, true⟩

def put (s : Iperf3Server n) (id : Fin n) (σ : Session) : Iperf3Server n :=
  ⟨Function.update s.m_state id σ.conn, σ.stack⟩

def tag (id : Fin n) (es : List Tx) : List (Entry n) := es.map fun e => (id, e)

def OnConnectionAccepted (srv : TCPServer n) (s : Iperf3Server n) (socket : TCPTableEntry) :
    Iperf3Server n :=
  match srv.AllocateConnectionID s.sockets socket with
  | none => s
  | some id =>
    { s with
      m_state := Function.update s.m_state id
        { (s.m_state id).bind socket with m_state := .IPERF_START } }

def OnConnectionClosed (srv : TCPServer n) (s : Iperf3Server n) (socket : TCPTableEntry) :
    Iperf3Server n :=
  match srv.GetConnectionID s.sockets socket with
  | none => s
  | some id => { s with m_state := Function.update s.m_state id .Clear }

/-- A round for the cookie, one for the parameters and the one that returns. -/
def OnRxData (srv : TCPServer n) (s : Iperf3Server n) (socket : TCPTableEntry)
    (payload : List UInt8) (behind : Nat → UInt8) :
    Except Fault (Bool × Iperf3Server n × List (Entry n)) :=
  match srv.GetConnectionID s.sockets socket with
  | none => .ok (true, s, [])
  | some id =>
    match (s.m_state id).m_rxBuffer.push payload with
    | none =>
      let (σ, es) := (s.session id).DropConnection socket
      .ok (false, s.put id σ, tag id es)
    | some fifo =>
      match rounds (fun σ => .ok (σ.handle socket behind)) .stuck 3
          { s.session id with conn.m_rxBuffer := fifo } with
      | .error e => .error e
      | .ok (σ, es) => .ok (σ.ret, s.put id σ, tag id es)

def OnRxUdpData (s : Iperf3Server n) (srcip : IPv4Address) (sport dport : UInt16) :
    Iperf3Server n × List (Entry n) :=
  if dport != IPERF3_PORT then (s, [])
  else
    let asks (i : Fin n) : Bool :=
      match s.sockets i with
      | none => false
      | some socket => (s.m_state i).m_state == .CREATE_STREAMS && socket.m_remoteIP == srcip
    match (List.finRange n).find? asks with
    | none => (s, [])
    | some i =>
      match s.sockets i with
      | none => (s, [])
      | some socket =>
        let (σ, es) := (s.session i).openStream socket sport
        (s.put i σ, tag i es)

/-- The loop of `Iteration` over the slots `is`; `count i` is the time it reads
for slot `i`. -/
def iterate (count : Fin n → UInt32) : List (Fin n) → Iperf3Server n →
    Iperf3Server n × List (Entry n)
  | [], s => (s, [])
  | i :: is, s =>
    match s.sockets i with
    | none => (s, [])
    | some socket =>
      let (σ, es) := (s.session i).serve socket (count i)
      let (t, fs) := iterate count is (s.put i σ)
      (t, tag i es ++ fs)

def Iteration (s : Iperf3Server n) (count : Fin n → UInt32) : Iperf3Server n × List (Entry n) :=
  iterate count (List.finRange n) s

end Iperf3Server

inductive Op (n : Nat) where
  | OnConnectionAccepted (socket : TCPTableEntry)
  | OnConnectionClosed (socket : TCPTableEntry)
  | OnRxData (socket : TCPTableEntry) (payload : List UInt8) (behind : Nat → UInt8)
  | OnRxUdpData (srcip : IPv4Address) (sport dport : UInt16)
  | Iteration (count : Fin n → UInt32)

/-- The payload of a datagram from a client is not looked at. -/
def step {n : Nat} (srv : TCPServer n) (s : Iperf3Server n) :
    Op n → Except Fault (Iperf3Server n × List (Entry n))
  | .OnConnectionAccepted socket => .ok (s.OnConnectionAccepted srv socket, [])
  | .OnConnectionClosed socket => .ok (s.OnConnectionClosed srv socket, [])
  | .OnRxData socket payload behind =>
    match s.OnRxData srv socket payload behind with
    | .error e => .error e
    | .ok (_, t, es) => .ok (t, es)
  | .OnRxUdpData srcip sport dport => .ok (s.OnRxUdpData srcip sport dport)
  | .Iteration count => .ok (s.Iteration count)

end EmbeddedPlatform.Services
