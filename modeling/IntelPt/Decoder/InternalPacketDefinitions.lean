import Mathlib.Data.Nat.Bitwise
import Mathlib.Tactic.Common

/-! The packets the decoder emits, as in InternalPacketDefinitions.py. Python integers are
`Nat`; a byte of a trace is a `BitVec 8`, read as its value wherever the code computes. -/
namespace IntelPt.Decoder

abbrev Byte := BitVec 8

inductive PacketId where
  | tntTaken | tntNotTaken | fup | tip | tipPge | tipPgd
  | cbr | mode | psb | psbend | tsc | undefined
  deriving DecidableEq, Repr

inductive PyError where
  | typeError | keyError | indexError | unboundLocalError | structError
  | exception (message : String)
  deriving DecidableEq, Repr

inductive ModePayload where
  | exec (interruptFlag csd cslLma : Bool)
  | tsx (txAbort inTx : Bool)
  deriving DecidableEq, Repr

inductive PacketFields where
  | base
  | tip (type : Nat) (address : Option Nat)
  | cbr (cbr : Byte)
  | mode (payload : ModePayload)
  deriving DecidableEq, Repr

structure Packet where
  packetId : PacketId
  tsc : Option Nat := none
  fields : PacketFields := .base
  deriving DecidableEq, Repr

def packetBase (packetType : PacketId) (tsc : Option Nat := none) : Packet :=
  { packetId := packetType, tsc := tsc }

def packetTnt (taken : Bool) (tsc : Option Nat) : Packet :=
  packetBase (if taken then .tntTaken else .tntNotTaken) tsc

def packetTip (packetType : PacketId) (tsc : Option Nat) : Packet :=
  { packetId := packetType, tsc := tsc, fields := .tip 0 none }

/- The loop `x += d; x <<= 8` over the reversed payload, and the final `x >>= 8`. -/
def foldBytes (data : List Byte) : Nat :=
  (data.reverse.foldl (fun acc d => (acc + d.toNat) <<< 8) 0) >>> 8

def packetTsc (data : List Byte) : Packet :=
  packetBase .tsc (some (foldBytes (data.drop 1)))

def packetCbr (data : List Byte) (tsc : Option Nat) : Except PyError Packet :=
  match data[0]? with
  | none => .error .indexError
  | some b => .ok { packetId := .cbr, tsc := tsc, fields := .cbr b }

def modeTypeError (type : Nat) : PyError :=
  .exception ("Type " ++ toString type ++ " for mode packet not available!")

def modeExecError : PyError :=
  .exception "Accordin to intel manual both CSD and CSL_LMA should not be both 1! Trace is inconsistent!"

def packetMode (data : Byte) (tsc : Option Nat) : Except PyError Packet :=
  let type := data.toNat >>> 5 &&& 0b0111
  let bit (i : Nat) : Bool := data.toNat &&& (1 <<< i) != 0
  if type = 0b000 then
    if bit 1 && bit 0 then .error modeExecError
    else .ok { packetId := .mode, tsc := tsc, fields := .mode (.exec (bit 2) (bit 1) (bit 0)) }
  else if type = 0b001 then
    .ok { packetId := .mode, tsc := tsc, fields := .mode (.tsx (bit 1) (bit 0)) }
  else .error (modeTypeError type)

theorem packetMode_stamped {data : Byte} {tsc : Option Nat} {packet : Packet}
    (h : packetMode data tsc = .ok packet) : packet.packetId = .mode ∧ packet.tsc = tsc := by
  simp only [packetMode] at h
  split at h
  · split at h
    · cases h
    · cases h
      exact ⟨rfl, rfl⟩
  · split at h
    · cases h
      exact ⟨rfl, rfl⟩
    · cases h

inductive OpMode where
  | bits16 | bits32 | bits64
  deriving DecidableEq, Repr

/-- The `opmode` attribute, which only Exec packets have. -/
def opmode : PacketFields → Option OpMode
  | .mode (.exec _ csd cslLma) =>
    some (if cslLma then .bits64 else if csd then .bits32 else .bits16)
  | _ => none

end IntelPt.Decoder
