import CkbDebugger.GdbRemote.Types

/-!
# The request parser

`command` turns the payload of a packet into a request. Every production below
has the name of the source's parser; an alternative `p => f` of an `alt!` is
`f <$> p`. The features `lldb` and `all_stop` are off, so that their alternatives
reject everything.
-/
namespace GdbRemote

open Nom

/-! ### Numbers and byte strings -/

/-- `nom::is_hex_digit`. -/
def isHexDigit (b : UInt8) : Bool :=
  (48 ≤ b && b ≤ 57) || (65 ≤ b && b ≤ 70) || (97 ≤ b && b ≤ 102)

/-- `to_digit(16)` of a hexadecimal digit. -/
def hexDigitValue (b : UInt8) : Nat :=
  if b ≤ 57 then b.toNat - 48 else if b ≤ 70 then b.toNat - 55 else b.toNat - 87

/-- The number that a string of hexadecimal digits denotes. -/
def hexNumber (digits : Bytes) : Nat :=
  digits.foldl (fun n b => 16 * n + hexDigitValue b) 0

/-- `hex_value`: the `unwrap` of `u64::from_str_radix` panics on a number that
does not fit. -/
def hexValue : Parser UInt64 := fun input =>
  (takeWhile1 isHexDigit input).andThen fun rest hex =>
    if hexNumber hex < 2 ^ 64 then .done rest (UInt64.ofNat (hexNumber hex)) else .panic

def hexDigit : Parser UInt8 := oneOf (ascii "0123456789abcdefABCDEF")

def hexByte : Parser UInt8 := do
  let digit0 ← hexDigit
  let digit1 ← hexDigit
  return UInt8.ofNat (16 * hexDigitValue digit0 + hexDigitValue digit1)

def hexByteSequence : Parser Bytes := many1 hexByte

/-- The byte after `take!(1)`. -/
private def firstByte (bytes : Bytes) : UInt8 := bytes.headD 0

def binaryByte : Parser UInt8 :=
  altComplete [
    -- an escaped byte
    (fun b => firstByte b ^^^ 0x20) <$> preceded (literal "\x7d") (take 1),
    firstByte <$> take 1]

def binaryByteSequence : Parser Bytes := many1 binaryByte

/-! ### Memory and registers -/

/-- The common shape of `M` and `X`: the packet letter, an address, a length
and the data. -/
def writeMemoryWith (letter : String) (data : Parser Bytes) : Parser (UInt64 × UInt64 × Bytes) :=
  complete do
    let _ ← literal letter
    let address ← hexValue
    let _ ← literal ","
    let length ← hexValue
    let _ ← literal ":"
    let bytes ← data
    return (address, length, bytes)

def writeMemory : Parser (UInt64 × UInt64 × Bytes) := writeMemoryWith "M" hexByteSequence

def writeMemoryBinary : Parser (UInt64 × UInt64 × Bytes) := writeMemoryWith "X" binaryByteSequence

def readMemory : Parser (UInt64 × UInt64) :=
  preceded (literal "m") (separatedPair hexValue (literal ",") hexValue)

def readRegister : Parser UInt64 := preceded (literal "p") hexValue

def writeRegister : Parser (UInt64 × Bytes) :=
  preceded (literal "P") (separatedPair hexValue (literal "=") hexByteSequence)

def writeGeneralRegisters : Parser Bytes := preceded (literal "G") hexByteSequence

/-! ### Threads -/

def parseThreadIdElement : Parser Id :=
  altComplete [
    -- also the first digit of any other number with a leading zero
    (fun _ => .any) <$> literal "0",
    (fun _ => .all) <$> literal "-1",
    (fun val => .id val.toUInt32) <$> hexValue]

def parseThreadId : Parser ThreadId :=
  altComplete [
    (fun pid => ⟨pid, .any⟩) <$> parseThreadIdElement,
    (fun pair => ⟨pair.1, pair.2⟩) <$> preceded (literal "p")
      (separatedPair parseThreadIdElement (literal ".") parseThreadIdElement),
    (fun id => ⟨id, .all⟩) <$> preceded (literal "p") parseThreadIdElement]

def parsePingThread : Parser ThreadId := preceded (literal "T") parseThreadId

def parseHPacket : Parser (SetThreadFor × ThreadId) :=
  altComplete [
    (fun id => (.readRegister, id)) <$> preceded (literal "Hg") parseThreadId,
    (fun id => (.continue, id)) <$> preceded (literal "Hc") parseThreadId]

def parseDPacket : Parser (Option UInt64) :=
  altComplete [
    some <$> preceded (literal "D;") hexValue,
    (fun _ => none) <$> literal "D"]

/-! ### Queries -/

def gdbfeature : Parser Known :=
  (fun s => match GDBFeature.fromStr s with
    | some f => .yes f
    | none => .no s) <$> mapRes (isNot (ascii ";=")) fromUtf8

/-- The parser that `gdbfeaturesupported` runs on one feature, chosen by its
last byte. -/
def gdbfeatureWithSupport : Parser GDBFeatureSupported := fun f =>
  match f.getLast? with
  | none => .incomplete
  | some 43 => ((fun feat => ⟨feat, .yes⟩) <$> gdbfeature : Parser _) f.dropLast
  | some 45 => ((fun feat => ⟨feat, .no⟩) <$> gdbfeature : Parser _) f.dropLast
  | some _ =>
    ((fun pair => ⟨pair.1, .value pair.2⟩) <$>
      separatedPair gdbfeature (literal "=") (mapRes (isNot (ascii ";")) fromUtf8) : Parser _) f

def gdbfeaturesupported : Parser GDBFeatureSupported :=
  flatMap (isNot (ascii ";")) gdbfeatureWithSupport

def qSearchMemory : Parser (UInt64 × UInt64 × Bytes) :=
  complete do
    let _ ← literal "qSearch:memory:"
    let address ← hexValue
    let _ ← literal ";"
    let length ← hexValue
    let _ ← literal ";"
    let data ← hexByteSequence
    return (address, length, data)

def qSymbol : Parser (String × String) := do
  let symValue ← preceded (literal "qSymbol:") (mapRes (takeUntil 58) fromUtf8)
  let symName ← preceded (literal ":") (mapRes eof fromUtf8)
  return (symValue, symName)

def qXfer : Parser (String × String × UInt64 × UInt64) := do
  let object ← preceded (literal "qXfer:") (mapRes (takeUntil 58) fromUtf8)
  let annex ← preceded (literal ":read:") (mapRes (takeUntil 58) fromUtf8)
  let offset ← preceded (literal ":") hexValue
  let length ← preceded (literal ",") hexValue
  return (object, annex, offset, length)

/-- `lldb_query` without its feature. -/
def lldbQuery : Parser Query := fun _ => .error

def query : Parser Query :=
  -- the first alternative that matches a part from the front is taken
  altComplete [
    (fun _ => .currentThread) <$> literal "qC",
    .supportedFeatures <$> preceded (literal "qSupported")
      (preceded (literal ":") (separatedListComplete (literal ";") gdbfeaturesupported)),
    .invoke <$> preceded (literal "qRcmd,") hexByteSequence,
    (fun (address, length, bytes) => .searchMemory address length bytes) <$> qSearchMemory,
    (fun _ => .startNoAckMode) <$> literal "QStartNoAckMode",
    (fun value => .attached (some value)) <$> preceded (literal "qAttached:") hexValue,
    (fun _ => .attached none) <$> literal "qAttached",
    (fun _ => .threadList true) <$> literal "qfThreadInfo",
    (fun _ => .threadList false) <$> literal "qsThreadInfo",
    -- the request is to disable the randomization
    (fun _ => .addressRandomization true) <$> literal "QDisableRandomization:0",
    (fun _ => .addressRandomization false) <$> literal "QDisableRandomization:1",
    (fun _ => .catchSyscalls none) <$> literal "QCatchSyscalls:0",
    (fun syscalls => .catchSyscalls (some syscalls)) <$> preceded (literal "QCatchSyscalls:1")
      (many0 (preceded (literal ";") hexValue)),
    .passSignals <$> preceded (literal "QPassSignals:")
      (separatedListComplete (literal ";") hexValue),
    .programSignals <$> preceded (literal "QProgramSignals:")
      (separatedNonemptyListComplete (literal ";") hexValue),
    .threadInfo <$> preceded (literal "qThreadExtraInfo,") parseThreadId,
    (fun (symValue, symName) => .symbol symValue symName) <$> qSymbol,
    (fun (object, annex, offset, length) => .readBytes object annex offset length) <$> qXfer,
    lldbQuery]

/-! ### Host file operations -/

def parseVfileOpen : Parser Command := do
  let _ ← literal "open:"
  let filename ← hexByteSequence
  let _ ← literal ","
  let flags ← hexValue
  let _ ← literal ","
  let mode ← hexValue
  return .hostOpen filename flags mode

def parseVfileClose : Parser Command := do
  let _ ← literal "close:"
  let fd ← hexValue
  return .hostClose fd

def parseVfilePread : Parser Command := do
  let _ ← literal "pread:"
  let fd ← hexValue
  let _ ← literal ","
  let count ← hexValue
  let _ ← literal ","
  let offset ← hexValue
  return .hostPRead fd count offset

def parseVfilePwrite : Parser Command := do
  let _ ← literal "pwrite:"
  let fd ← hexValue
  let _ ← literal ","
  let offset ← hexValue
  let _ ← literal ","
  let data ← binaryByteSequence
  return .hostPWrite fd offset data

def parseVfileFstat : Parser Command := do
  let _ ← literal "fstat:"
  let fd ← hexValue
  return .hostFStat fd

def parseVfileUnlink : Parser Command := do
  let _ ← literal "unlink:"
  let filename ← hexByteSequence
  return .hostUnlink filename

def parseVfileReadlink : Parser Command := do
  let _ ← literal "readlink:"
  let filename ← hexByteSequence
  return .hostReadlink filename

def parseVfileSetfs : Parser Command := do
  let _ ← literal "setfs:"
  let pid ← hexValue
  return .hostSetFS pid

def parseUnknownVfileOp : Parser Command := (fun _ => .unknownVCommand) <$> takeRest

def parseVfileOp : Parser Command :=
  altComplete [parseVfileOpen, parseVfileClose, parseVfilePread, parseVfilePwrite,
    parseVfileFstat, parseVfileUnlink, parseVfileReadlink, parseVfileSetfs, parseUnknownVfileOp]

/-! ### The `v` packets -/

def vContAction : Parser VCont :=
  altComplete [
    (fun _ => .continue) <$> literal "c",
    .continueWithSignal <$> preceded (literal "C") hexByte,
    (fun _ => .step) <$> literal "s",
    .stepWithSignal <$> preceded (literal "S") hexByte,
    (fun _ => .stop) <$> literal "t",
    (do
      let _ ← literal "r"
      let start ← hexValue
      let _ ← literal ","
      let stop ← hexValue
      return .rangeStep start stop)]

/-- One action of a `vCont` packet with its optional thread. -/
def vContEntry : Parser (VCont × Option ThreadId) := do
  let _ ← literal ";"
  let action ← vContAction
  let thread ← opt (complete (preceded (literal ":") parseThreadId))
  return (action, thread)

def vCommand : Parser Command :=
  altComplete [
    (fun _ => .ctrlC) <$> literal "vCtrlC",
    preceded (literal "vCont")
      (altComplete [
        (fun _ => .vContSupported) <$> literal "?",
        -- also the empty list
        .vCont <$> many0 vContEntry]),
    (fun pid => .kill (some pid)) <$> preceded (literal "vKill;") hexValue,
    preceded (literal "vFile:") parseVfileOp,
    (fun _ => .unknownVCommand) <$> preceded (literal "v") takeRest]

/-! ### Breakpoints and watchpoints -/

inductive ZAction where
  | insert
  | remove
  deriving Repr, DecidableEq

inductive ZType where
  | softwareBreakpoint
  | hardwareBreakpoint
  | writeWatchpoint
  | readWatchpoint
  | accessWatchpoint
  deriving Repr, DecidableEq

def parseZAction : Parser ZAction :=
  altComplete [
    (fun _ => .remove) <$> literal "z",
    (fun _ => .insert) <$> literal "Z"]

def parseZType : Parser ZType :=
  altComplete [
    (fun _ => .softwareBreakpoint) <$> literal "0",
    (fun _ => .hardwareBreakpoint) <$> literal "1",
    (fun _ => .writeWatchpoint) <$> literal "2",
    (fun _ => .readWatchpoint) <$> literal "3",
    (fun _ => .accessWatchpoint) <$> literal "4"]

def parseCondOrCommandExpression : Parser Bytecode := do
  let _ ← literal "X"
  let len ← hexValue
  let _ ← literal ","
  let expr ← take len.toNat
  return ⟨expr⟩

def parseConditionList : Parser (List Bytecode) := do
  let _ ← literal ";"
  many1 parseCondOrCommandExpression

/-- Anything but a whole condition list reads as no condition list. -/
def maybeConditionList : Parser (Option (List Bytecode)) := fun input =>
  match parseConditionList input with
  | .done rest list => .done rest (some list)
  | .incomplete => .done input none
  | .error => .done input none
  | .panic => .panic

/-- What may follow `;cmds`: expressions with a persistence flag before them,
or expressions alone. -/
def parseCommandListBody : Parser (List Bytecode) :=
  altComplete [
    (do
      let _persistFlag ← hexValue
      let _ ← literal ","
      many1 parseCondOrCommandExpression),
    many1 parseCondOrCommandExpression]

def parseCommandList : Parser (List Bytecode) := do
  let _ ← literal ";cmds"
  parseCommandListBody

def maybeCommandList : Parser (Option (List Bytecode)) := fun input =>
  match parseCommandList input with
  | .done rest list => .done rest (some list)
  | .incomplete => .done input none
  -- unlike for conditions, an error is passed on
  | .error => .error
  | .panic => .panic

def parseCondAndCommandList : Parser (Option (List Bytecode) × Option (List Bytecode)) := do
  let condList ← maybeConditionList
  let cmdList ← maybeCommandList
  return (condList, cmdList)

/-- `IResult::unwrap`, which panics unless the parse is done. -/
def unwrapDone {α : Type} (p : Parser α) : Parser α := fun input =>
  match p input with
  | .done rest a => .done rest a
  | _ => .panic

def insertCommand (type : ZType) (addr kind : UInt64) : Parser Command :=
  match type with
  | .softwareBreakpoint =>
    (fun (condList, cmdList) => .insertSoftwareBreakpoint ⟨addr, kind, condList, cmdList⟩) <$>
      unwrapDone parseCondAndCommandList
  | .hardwareBreakpoint =>
    (fun (condList, cmdList) => .insertHardwareBreakpoint ⟨addr, kind, condList, cmdList⟩) <$>
      unwrapDone parseCondAndCommandList
  | .writeWatchpoint => pure (.insertWriteWatchpoint ⟨addr, kind⟩)
  | .readWatchpoint => pure (.insertReadWatchpoint ⟨addr, kind⟩)
  | .accessWatchpoint => pure (.insertAccessWatchpoint ⟨addr, kind⟩)

def removeCommand (type : ZType) (addr kind : UInt64) : Command :=
  match type with
  | .softwareBreakpoint => .removeSoftwareBreakpoint ⟨addr, kind, none, none⟩
  | .hardwareBreakpoint => .removeHardwareBreakpoint ⟨addr, kind, none, none⟩
  | .writeWatchpoint => .removeWriteWatchpoint ⟨addr, kind⟩
  | .readWatchpoint => .removeReadWatchpoint ⟨addr, kind⟩
  | .accessWatchpoint => .removeAccessWatchpoint ⟨addr, kind⟩

def parseZPacket : Parser Command := do
  let action ← parseZAction
  let type ← parseZType
  let _ ← literal ","
  let addr ← hexValue
  let _ ← literal ","
  let kind ← hexValue
  match action with
  | .insert => insertCommand type addr kind
  -- conditions and commands are not looked for
  | .remove => pure (removeCommand type addr kind)

/-! ### All requests -/

/-- `all_stop_command` without its feature. -/
def allStopCommand : Parser Command := fun _ => .error

def command : Parser Command :=
  alt [
    (fun _ => .enableExtendedMode) <$> literal "!",
    (fun _ => .targetHaltReason) <$> literal "?",
    .detach <$> parseDPacket,
    (fun _ => .readGeneralRegisters) <$> literal "g",
    .writeGeneralRegisters <$> writeGeneralRegisters,
    (fun (f, threadId) => .setCurrentThread f threadId) <$> parseHPacket,
    (fun _ => .kill none) <$> literal "k",
    (fun (addr, length) => .readMemory ⟨addr, length⟩) <$> readMemory,
    (fun (addr, length, bytes) => .writeMemory ⟨addr, length⟩ bytes) <$> writeMemory,
    .readRegister <$> readRegister,
    (fun (regno, bytes) => .writeRegister regno bytes) <$> writeRegister,
    .query <$> query,
    (fun _ => .reset) <$> literal "r",
    (fun _ => .reset) <$> preceded (literal "R") (take 2),
    .pingThread <$> parsePingThread,
    vCommand,
    (fun (addr, length, bytes) => .writeMemory ⟨addr, length⟩ bytes) <$> writeMemoryBinary,
    parseZPacket,
    allStopCommand]

end GdbRemote
