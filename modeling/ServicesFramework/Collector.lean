import ServicesFramework.Lib.Machine
import ServicesFramework.Msg

namespace ServicesFramework

/-- What `Collector::Init` reads from the settings, and the header room of a raw packet. -/
structure CollectorConfig where
  maxBlockSize : Nat
  codingThreshold : Nat
  protocolOverhead : Nat
  deriving DecidableEq, Repr

/-- `BatsBuffer` of one next hop: the buffer objects it has made, by number, and the current
one. The class is not part of the repository; `GetBuf` returns the current buffer, which may
still be null, and `ResetBuf` installs a fresh one. -/
structure BatsBuffer where
  bufs : Nat → BaseMsg
  made : Nat
  buf : Option Nat

namespace BatsBuffer

def resetBuf (bats : BatsBuffer) (maxBlockSize : Nat) : BatsBuffer where
  bufs := Function.update bats.bufs bats.made (.init maxBlockSize)
  made := bats.made + 1
  buf := some bats.made

/-- A new `BatsBuffer`, which may (`eager`) or may not have made its first buffer yet. -/
def init (maxBlockSize : Nat) (eager : Bool) : BatsBuffer :=
  let empty : BatsBuffer := ⟨fun _ => .init 0, 0, none⟩
  if eager then empty.resetBuf maxBlockSize else empty

def set (bats : BatsBuffer) (i : Nat) (buffer : BaseMsg) : BatsBuffer :=
  { bats with bufs := Function.update bats.bufs i buffer }

/-- `buffer->resize(buffer->FilledBytes())`. -/
def cut (bats : BatsBuffer) (i : Nat) : BatsBuffer :=
  bats.set i ((bats.bufs i).resize (bats.bufs i).filledBytes)

/-- `GetBuf()`, after a `ResetBuf()` where it was null. -/
def current (bats : BatsBuffer) (maxBlockSize : Nat) : BatsBuffer × Nat :=
  match bats.buf with
  | some i => (bats, i)
  | none => (bats.resetBuf maxBlockSize, bats.made)

end BatsBuffer

/-- A buffer that a section took out to be dispatched, as it is when the section ends. `raw`
marks the one packet that `ForceRelayData` sends uncoded. -/
structure Taken where
  buffer : Nat
  msg : BaseMsg
  raw : Bool
  deriving DecidableEq, Repr

/-- One next hop: its buffer, and what has been taken out of it, in the order of the
sections that hold `mutex_`. -/
structure Hop where
  batsBuffer : BatsBuffer
  taken : List Taken

namespace Hop

variable (cfg : CollectorConfig)

def init (eager : Bool) : Hop := ⟨.init cfg.maxBlockSize eager, []⟩

/-- The locked section of `Collector::BufferingData`. `none` is a failed assertion in
`fill`. The local `buffer` goes on naming object `i` after the first `ResetBuf`. -/
def bufferingData (hop : Hop) (msg : List Octet) : Option Hop :=
  let (bats, i) := hop.batsBuffer.current cfg.maxBlockSize
  let full : Bool := (bats.bufs i).filledBytes + msg.length > (bats.bufs i).size
  let bats := if full then (bats.cut i).resetBuf cfg.maxBlockSize else bats
  let msgToEncode := if full then [i] else []
  ((bats.bufs i).fill msg).map fun buffer =>
    let bats := bats.set i buffer
    let enough : Bool := buffer.filledBytes > cfg.codingThreshold
    let bats := if enough then (bats.cut i).resetBuf cfg.maxBlockSize else bats
    let msgToEncode := if enough then msgToEncode ++ [i] else msgToEncode
    ⟨bats, hop.taken ++ msgToEncode.map fun j => ⟨j, bats.bufs j, false⟩⟩

/-- The locked section of `Collector::ForceRelayData`. The result of `reserveHeader` is not
looked at. -/
def forceRelayData (hop : Hop) (msg : List Octet) : Option Hop :=
  let (bats, i) := hop.batsBuffer.current cfg.maxBlockSize
  let pending : Bool := (bats.bufs i).filledBytes > 0
  let flushed := bats.cut i
  let taken := if pending then hop.taken ++ [⟨i, flushed.bufs i, false⟩] else hop.taken
  let (bats, i) := if pending then (flushed.resetBuf cfg.maxBlockSize, flushed.made) else (bats, i)
  (((bats.bufs i).reserveHeader cfg.protocolOverhead).2.fill msg).map fun buffer =>
    let bats := (bats.set i buffer).cut i
    let bats := bats.set i ((bats.bufs i).setNeedCoded false)
    ⟨bats.resetBuf cfg.maxBlockSize, taken ++ [⟨i, bats.bufs i, true⟩]⟩

/-- The locked section of `Collector::HandleTimeoutBuffer`. -/
def handleTimeoutBuffer (hop : Hop) : Hop :=
  match hop.batsBuffer.buf with
  | none => hop
  | some i =>
    if (hop.batsBuffer.bufs i).filledBytes ≤ 0 then hop
    else
      let bats := hop.batsBuffer.cut i
      ⟨bats.resetBuf cfg.maxBlockSize, hop.taken ++ [⟨i, bats.bufs i, false⟩]⟩

/-- The filled part of the current buffer. -/
def filled (hop : Hop) : List Octet :=
  match hop.batsBuffer.buf with
  | none => []
  | some i => (hop.batsBuffer.bufs i).contents.take (hop.batsBuffer.bufs i).filledBytes

end Hop

/-- The sections that take `mutex_`, in whatever order the two threads get it. -/
inductive CollectorAct
  | bufferingData (msg : List Octet)
  | forceRelayData (msg : List Octet)
  | handleTimeoutBuffer
  deriving DecidableEq, Repr

namespace CollectorAct

/-- The message that the section is given, if any. -/
def msg? : CollectorAct → Option (List Octet)
  | .bufferingData msg => some msg
  | .forceRelayData msg => some msg
  | .handleTimeoutBuffer => none

def step (cfg : CollectorConfig) (hop : Hop) : CollectorAct → Option Hop
  | .bufferingData msg => hop.bufferingData cfg msg
  | .forceRelayData msg => hop.forceRelayData cfg msg
  | .handleTimeoutBuffer => some (hop.handleTimeoutBuffer cfg)

end CollectorAct

end ServicesFramework
