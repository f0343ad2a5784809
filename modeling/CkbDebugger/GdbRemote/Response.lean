import CkbDebugger.GdbRemote.Types

/-!
# Replies

What a request is answered with, and the frame that carries the answer. A reply
is written piece by piece, one piece for each `write!` or `write_all` of the
source; the packet writer passes the pieces on and sums their bytes.
-/
namespace GdbRemote

inductive HostIOResult where
  | ok
  | error (errno : HostErrno)
  | integer (i : UInt64)
  | data (v : Bytes)
  | stat (stat : HostStat)
  deriving Repr, DecidableEq

inductive Response where
  | empty
  | ok
  | error (code : UInt8)
  | string (text : String)
  | output (text : String)
  | bytes (bytes : Bytes)
  | bytesOrEof (bytes : Bytes) (eof : Bool)
  | currentThread (thread : Option ThreadId)
  | processType (type : ProcessType)
  | stopped (reason : StopReason)
  | searchResult (address : Option UInt64)
  | vContFeatures (features : List VContFeature)
  | threadList (threads : List ThreadId)
  | hostIOResult (result : HostIOResult)
  | symbolName (name : String)
  deriving Repr, DecidableEq

/-! ### Conversions to a reply -/

/-- `From<Result<T, Error>>`: a request that the handler does not implement gets
the empty reply. -/
def Response.fromResult {α : Type} (into : α → Response) : Except HandlerError α → Response
  | .ok val => into val
  | .error (.error val) => .error val
  | .error .unimplemented => .empty

/-- `From<IOResult<T>>`, with `From<Result<T, HostErrno>>` inside. -/
def Response.fromIOResult {α : Type} (into : α → HostIOResult) : IOResult α → Response
  | some (.ok val) => .hostIOResult (into val)
  | some (.error errno) => .hostIOResult (.error errno)
  | none => .empty

def Response.fromSymbolLookup : SymbolLookupResponse → Response
  | .ok => .ok
  | .symbol name => .symbolName name

/-! ### Text -/

/-- The format `{:x}`. -/
def lowerHex (n : Nat) : Bytes := (Nat.toDigits 16 n).map fun c => UInt8.ofNat c.toNat

/-- The format `{:02x}`. -/
def lowerHex2 (n : Nat) : Bytes :=
  List.replicate (2 - (lowerHex n).length) 48 ++ lowerHex n

def writeId : Id → Bytes
  | .all => ascii "-1"
  | .any => ascii "0"
  | .id num => lowerHex num.toNat

def writeThreadId (threadId : ThreadId) : List Bytes :=
  [ascii "p", writeId threadId.pid, ascii ".", writeId threadId.tid]

def bigEndian (width : Nat) (n : Nat) : Bytes :=
  (List.range width).map fun i => UInt8.ofNat (n / 256 ^ (width - 1 - i))

def writeU32 (n : UInt32) : Bytes := bigEndian 4 n.toNat

def writeU64 (n : UInt64) : Bytes := bigEndian 8 n.toNat

def writeStat (stat : HostStat) : Bytes :=
  writeU32 stat.stDev ++ writeU32 stat.stIno ++ writeU32 stat.stMode.bits ++
  writeU32 stat.stNlink ++ writeU32 stat.stUid ++ writeU32 stat.stGid ++ writeU32 stat.stRdev ++
  writeU64 stat.stSize ++ writeU64 stat.stBlksize ++ writeU64 stat.stBlocks ++
  writeU32 stat.stAtime ++ writeU32 stat.stMtime ++ writeU32 stat.stCtime

def writeHexData (data : Bytes) : List Bytes := data.map fun b => lowerHex2 b.toNat

/-- `write_binary_data`: runs of plain bytes, each followed by the escape of the
byte that ended it. -/
def writeBinaryData (remaining : Bytes) : List Bytes :=
  -- the source looks for the three bytes at once, and for the asterisk on its own
  let unescaped := min (remaining.findIdx fun b => b == 35 || b == 36 || b == 125)
    (remaining.findIdx fun b => b == 42)
  match _rest : remaining.drop unescaped with
  | [] => [remaining.take unescaped]
  | byte :: rest => remaining.take unescaped :: [125, byte ^^^ 0x20] :: writeBinaryData rest
  termination_by remaining.length
  decreasing_by
    have shorter := congrArg List.length _rest
    simp only [List.length_drop, List.length_cons] at shorter
    omega

def VContFeature.letter : VContFeature → Bytes
  | .continue => ascii "c"
  | .continueWithSignal => ascii "C"
  | .step => ascii "s"
  | .stepWithSignal => ascii "S"
  | .stop => ascii "t"
  | .rangeStep => ascii "r"

/-! ### The reply frame -/

def StopReason.pieces : StopReason → List Bytes
  | .signal signo => [ascii "S", lowerHex2 signo.toNat]
  -- the source asks for two digits here and below, and pads this status only
  | .exited pid status => [ascii "W", lowerHex2 status.toNat, ascii ";process:", lowerHex pid.toNat]
  | .exitedWithSignal pid status =>
    [ascii "X", lowerHex status.toNat, ascii ";process:", lowerHex pid.toNat]
  | .threadExited threadId status =>
    [ascii "w", lowerHex status.toNat, ascii ";"] ++ writeThreadId threadId
  | .noMoreThreads => [ascii "N"]

def HostIOResult.pieces : HostIOResult → List Bytes
  | .ok => [ascii "F0"]
  | .error errno => [ascii "F-1,", lowerHex errno.code]
  | .integer i => [ascii "F", lowerHex i.toNat]
  | .data v => [ascii "F", lowerHex v.length, ascii ";"] ++ writeBinaryData v
  | .stat s => [ascii "F", lowerHex (writeStat s).length, ascii ";"] ++ writeBinaryData (writeStat s)

/-- The pieces that `write_response` writes between `$` and `#`. -/
def Response.pieces : Response → List Bytes
  | .ok => [ascii "OK"]
  | .empty => []
  | .error val => [ascii "E", lowerHex2 val.toNat]
  | .string s => [utf8 s]
  | .output s => ascii "O" :: writeHexData (utf8 s)
  | .bytes data => writeHexData data
  | .bytesOrEof data eof => ascii (if eof then "l" else "m") :: writeBinaryData data
  | .currentThread none => [ascii "OK"]
  | .currentThread (some threadId) => ascii "QC" :: writeThreadId threadId
  | .processType .attached => [ascii "1"]
  | .processType .created => [ascii "0"]
  | .searchResult (some addr) => [ascii "1,", lowerHex addr.toNat]
  | .searchResult none => [ascii "0"]
  | .stopped reason => reason.pieces
  | .vContFeatures features =>
    ascii "vCont" :: features.flatMap fun feature => [ascii ";", feature.letter]
  | .threadList [] => [ascii "l"]
  | .threadList (first :: rest) =>
    ascii "m" :: writeThreadId first ++ rest.flatMap fun id => ascii "," :: writeThreadId id
  | .symbolName name => ascii "qSymbol:" :: writeHexData (utf8 name)
  | .hostIOResult result => result.pieces

def computeChecksumIncremental (bytes : Bytes) (init : UInt8) : UInt8 :=
  bytes.foldl (fun sum b => sum + b) init

/-- The writer of one frame: what it has passed on, and the sum of it. -/
structure PacketWriter where
  written : Bytes
  checksum : UInt8
  deriving Repr, DecidableEq

def PacketWriter.writeAll (writer : PacketWriter) (buf : Bytes) : PacketWriter :=
  ⟨writer.written ++ buf, computeChecksumIncremental buf writer.checksum⟩

def PacketWriter.finish (writer : PacketWriter) : Bytes :=
  writer.written ++ ascii "#" ++ lowerHex2 writer.checksum.toNat

/-- The bytes that `write_response` sends. -/
def writeResponse (response : Response) : Bytes :=
  ascii "$" ++ (response.pieces.foldl PacketWriter.writeAll ⟨[], 0⟩).finish

end GdbRemote
