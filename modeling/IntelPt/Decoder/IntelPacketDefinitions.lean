import IntelPt.Decoder.PacketHandlers
import IntelPt.Lib.HeaderCode
import Mathlib.Data.List.Pairwise

/-! The packet table of IntelPacketDefinitions.py, and what the rest of the development uses
of it: headers are pairwise apart, take no fill byte, and fit in their packets. -/
namespace IntelPt.Decoder
open HeaderCode

def unusedPacketBytes : List Byte := [0x00, 0xFF]

/- `none` as a value is Python's `None`; a missing key raises KeyError. -/
def dictGet (d : List (Nat × Option Nat)) (key : Nat) : Except PyError (Option Nat) :=
  match d.find? (fun e => e.1 = key) with
  | some e => .ok e.2
  | none => .error .keyError

def ipCompressionPacketSize : List (Nat × Option Nat) :=
  [(0, some 0), (1, some 2), (2, some 4), (3, some 6), (4, some 6), (5, none), (6, some 8),
    (7, none)]

def ptwPacketSize : List (Nat × Option Nat) :=
  [(0, some 4), (1, some 8), (2, none), (3, none)]

/- `len(header) + sizes[(header[index] >> 5) & mask]` -/
def headerPlusSize (sizes : List (Nat × Option Nat)) (index mask : Nat) (header : List Byte) :
    Except PyError Nat :=
  match header[index]? with
  | none => .error .indexError
  | some b =>
    match dictGet sizes (b.toNat >>> 5 &&& mask) with
    | .error e => .error e
    | .ok none => .error .typeError
    | .ok (some n) => .ok (header.length + n)

/-- A header byte pattern: a string over `1`, `0` and `.`, or a function of the byte. -/
inductive HeaderPattern where
  | bits (definition : List Char)
  | call (f : Byte → Bool)

inductive PacketLength where
  | const (n : Nat)
  | call (f : List Byte → Except PyError Nat)

def PacketLength.eval : PacketLength → List Byte → Except PyError Nat
  | .const n, _ => .ok n
  | .call f, header => f header

structure PacketDefinition where
  packetName : PacketName
  packetHeader : List HeaderPattern
  packetLength : PacketLength
  handle : Option Handler

def ipPacketLength : PacketLength := .call (headerPlusSize ipCompressionPacketSize 0 0b0111)
def ptwPacketLength : PacketLength := .call (headerPlusSize ptwPacketSize 1 0b011)

def tntHeader : HeaderPattern :=
  .call fun data => data.toNat &&& 1 == 0 && decide (data.toNat > 0x02)

/- "00000010", the first byte of every longer header -/
def extended : HeaderPattern := .bits ['0', '0', '0', '0', '0', '0', '1', '0']

def packetDefinitions : List PacketDefinition := [
  ⟨.tnt, [tntHeader], .const 1, some tntPacketHandler⟩,
  ⟨.tntExtended, [extended, .bits ['1', '0', '1', '0', '0', '0', '1', '1']], .const 8,
    some tntPacketHandler⟩,
  ⟨.tip, [.bits ['.', '.', '.', '0', '1', '1', '0', '1']], ipPacketLength,
    some fupTipPacketHandler⟩,
  ⟨.tipPge, [.bits ['.', '.', '.', '1', '0', '0', '0', '1']], ipPacketLength,
    some fupTipPacketHandler⟩,
  ⟨.tipPgd, [.bits ['.', '.', '.', '0', '0', '0', '0', '1']], ipPacketLength,
    some fupTipPacketHandler⟩,
  ⟨.fup, [.bits ['.', '.', '.', '1', '1', '1', '0', '1']], ipPacketLength,
    some fupTipPacketHandler⟩,
  ⟨.pip, [extended, .bits ['0', '1', '0', '0', '0', '0', '1', '1']], .const 8,
    some placeholderFunction⟩,
  ⟨.mode, [.bits ['1', '0', '0', '1', '1', '0', '0', '1']], .const 2, some modePacketHandler⟩,
  ⟨.traceStop, [extended, .bits ['1', '0', '0', '0', '0', '0', '1', '1']], .const 2,
    some placeholderFunction⟩,
  ⟨.cbr, [extended, .bits ['0', '0', '0', '0', '0', '0', '1', '1']], .const 4,
    some cbrPacketHandler⟩,
  ⟨.tsc, [.bits ['0', '0', '0', '1', '1', '0', '0', '1']], .const 8, some tscPacketHandler⟩,
  ⟨.mtc, [.bits ['0', '1', '0', '1', '1', '0', '0', '1']], .const 2, some placeholderFunction⟩,
  ⟨.tma, [extended, .bits ['0', '1', '1', '1', '0', '0', '1', '1']], .const 7,
    some placeholderFunction⟩,
  ⟨.vmcs, [extended, .bits ['1', '1', '0', '0', '1', '0', '0', '0']], .const 7,
    some placeholderFunction⟩,
  ⟨.ovf, [extended, .bits ['1', '1', '1', '1', '0', '0', '1', '1']], .const 2,
    some placeholderFunction⟩,
  ⟨.psb, (List.replicate 7 [extended, .bits ['1', '0', '0', '0', '0', '0', '1', '0']]).flatten,
    .const 16, some psbPacketHandler⟩,
  ⟨.psbend, [extended, .bits ['0', '0', '1', '0', '0', '0', '1', '1']], .const 2,
    some psbendPacketHandler⟩,
  ⟨.mnt, [extended, .bits ['1', '1', '0', '0', '0', '0', '1', '1'],
    .bits ['1', '0', '0', '0', '1', '0', '0', '0']], .const 11, some placeholderFunction⟩,
  ⟨.ptw, [extended, .bits ['.', '.', '.', '1', '0', '0', '1', '0']], ptwPacketLength,
    some placeholderFunction⟩,
  ⟨.exstop, [extended, .bits ['.', '1', '1', '0', '0', '0', '1', '0']], .const 2,
    some placeholderFunction⟩,
  ⟨.mwait, [extended, .bits ['1', '1', '0', '0', '0', '0', '1', '0']], .const 10,
    some placeholderFunction⟩,
  ⟨.pwre, [extended, .bits ['0', '0', '1', '0', '0', '0', '1', '0']], .const 4,
    some placeholderFunction⟩,
  ⟨.pwrx, [extended, .bits ['1', '0', '1', '0', '0', '0', '1', '0']], .const 7,
    some placeholderFunction⟩,
  ⟨.bbp, [extended, .bits ['0', '1', '1', '0', '0', '0', '1', '1']], .const 3,
    some placeholderFunction⟩,
  ⟨.bep, [extended, .bits ['.', '0', '1', '1', '0', '0', '1', '1']], .const 2,
    some placeholderFunction⟩]

/- The loop of __validate_header_byte over the reversed pattern, from `bit_index` on. -/
def bitsAccept (dataByte : Nat) : List Char → Nat → Bool
  | [], _ => true
  | c :: cs, bitIndex =>
    if c = '.' then bitsAccept dataByte cs (bitIndex + 1)
    else if c = '1' then
      if dataByte &&& (1 <<< bitIndex) = 0 then false else bitsAccept dataByte cs (bitIndex + 1)
    else
      if dataByte &&& (1 <<< bitIndex) ≠ 0 then false else bitsAccept dataByte cs (bitIndex + 1)

def validateHeaderByte (dataByte : Byte) : HeaderPattern → Bool
  | .call f => f dataByte
  | .bits definition => bitsAccept dataByte.toNat definition.reverse 0

structure TableWellFormed (table : List PacketDefinition) : Prop where
  header_ne_nil : ∀ d ∈ table, d.packetHeader ≠ []
  no_fill : ∀ d ∈ table, ∀ p ∈ d.packetHeader, ∀ b ∈ unusedPacketBytes,
    validateHeaderByte b p = false
  apart : table.Pairwise fun d e => Apart validateHeaderByte d.packetHeader e.packetHeader
  length_fits : ∀ d ∈ table, ∀ header n, header.length = d.packetHeader.length →
    d.packetLength.eval header = .ok n → header.length ≤ n
  has_handle : ∀ d ∈ table, d.handle.isSome

theorem TableWellFormed.eq_or_apart {table : List PacketDefinition} (h : TableWellFormed table)
    {d e : PacketDefinition} (hd : d ∈ table) (he : e ∈ table) :
    d = e ∨ Apart validateHeaderByte d.packetHeader e.packetHeader := by
  by_cases hde : d = e
  · exact Or.inl hde
  · have : Std.Symm fun d e : PacketDefinition =>
        Apart validateHeaderByte d.packetHeader e.packetHeader := ⟨fun _ _ h => h.symm⟩
    exact Or.inr (h.apart.forall hd he hde)

/- Some position has a `1` in one string and a `0` in the other. -/
def bitsDisjoint : List Char → List Char → Bool
  | c :: cs, d :: ds =>
    (c = '1' && d = '0') || (c = '0' && d = '1') || bitsDisjoint cs ds
  | _, _ => false

/- Bit strings are compared by their characters; a function needs all 256 bytes. -/
def patternsDisjoint : HeaderPattern → HeaderPattern → Bool
  | .bits p, .bits q => bitsDisjoint p.reverse q.reverse
  | p, q => (List.range 256).all fun n =>
    !(validateHeaderByte (BitVec.ofNat 8 n) p && validateHeaderByte (BitVec.ofNat 8 n) q)

def headersApart : List HeaderPattern → List HeaderPattern → Bool
  | p :: ps, q :: qs => patternsDisjoint p q || headersApart ps qs
  | _, _ => false

theorem bitsAccept_disjoint {p q : List Char} (h : bitsDisjoint p q = true) (n i : Nat) :
    (bitsAccept n p i && bitsAccept n q i) = false := by
  induction p generalizing q i with
  | nil => simp [bitsDisjoint] at h
  | cons c p ih =>
    cases q with
    | nil => simp [bitsDisjoint] at h
    | cons d q =>
      simp only [bitsDisjoint, Bool.or_eq_true, Bool.and_eq_true, decide_eq_true_eq] at h
      obtain (⟨rfl, rfl⟩ | ⟨rfl, rfl⟩) | ht := h
      · by_cases hb : n &&& (1 <<< i) = 0 <;> simp [bitsAccept, hb]
      · by_cases hb : n &&& (1 <<< i) = 0 <;> simp [bitsAccept, hb]
      · have hr := ih ht (i + 1)
        simp only [bitsAccept]
        split_ifs <;> simp_all

theorem validateHeaderByte_disjoint {p q : HeaderPattern} (h : patternsDisjoint p q = true)
    (b : Byte) : (validateHeaderByte b p && validateHeaderByte b q) = false := by
  have hall : ∀ p q : HeaderPattern, ((List.range 256).all fun n =>
      !(validateHeaderByte (BitVec.ofNat 8 n) p && validateHeaderByte (BitVec.ofNat 8 n) q)) =
        true → (validateHeaderByte b p && validateHeaderByte b q) = false := by
    intro p q h
    have hb := List.all_eq_true.mp h b.toNat (List.mem_range.mpr b.isLt)
    simpa only [BitVec.ofNat_toNat, BitVec.setWidth_eq, Bool.not_eq_true'] using hb
  cases p with
  | call f => exact hall _ _ h
  | bits p =>
    cases q with
    | call g => exact hall _ _ h
    | bits q => exact bitsAccept_disjoint h b.toNat 0

theorem headersApart_sound {ps qs : List HeaderPattern} (h : headersApart ps qs = true) :
    Apart validateHeaderByte ps qs := by
  induction ps generalizing qs with
  | nil => simp [headersApart] at h
  | cons p ps ih =>
    cases qs with
    | nil => simp [headersApart] at h
    | cons q qs =>
      simp only [headersApart, Bool.or_eq_true] at h
      exact h.imp (fun h b => validateHeaderByte_disjoint h b) ih

theorem headerPlusSize_le {sizes : List (Nat × Option Nat)} {index mask n : Nat}
    {header : List Byte} (h : headerPlusSize sizes index mask header = .ok n) :
    header.length ≤ n := by
  unfold headerPlusSize at h
  split at h
  · cases h
  · split at h
    · cases h
    · cases h
    · cases h
      omega

theorem packetDefinitions_length_fits : ∀ d ∈ packetDefinitions, ∀ header n,
    header.length = d.packetHeader.length → d.packetLength.eval header = .ok n →
      header.length ≤ n := by
  intro d hd header n hl hn
  have hc : (match d.packetLength with
      | .const n => d.packetHeader.length ≤ n
      | .call f => f = headerPlusSize ipCompressionPacketSize 0 0b0111 ∨
          f = headerPlusSize ptwPacketSize 1 0b011) := by
    revert d
    simp only [packetDefinitions, List.forall_mem_cons]
    simp [ipPacketLength, ptwPacketLength]
  cases hp : d.packetLength with
  | const k => simp_all [PacketLength.eval]
  | call f =>
    rw [hp] at hc hn
    obtain rfl | rfl := hc
    · exact headerPlusSize_le hn
    · exact headerPlusSize_le hn

theorem packetDefinitions_wellFormed : TableWellFormed packetDefinitions where
  header_ne_nil := by decide +kernel
  no_fill := by decide +kernel
  apart := by
    have h : packetDefinitions.Pairwise fun d e =>
        headersApart d.packetHeader e.packetHeader = true := by decide +kernel
    exact h.imp headersApart_sound
  length_fits := packetDefinitions_length_fits
  has_handle := by decide +kernel

end IntelPt.Decoder
