import IntelPt.Decoder.Emission
import IntelPt.Lib.Bits
import IntelPt.Lib.LittleEndian

/-! Branch outcomes in both sizes of the TNT packet. The handler reads the first byte and no
other, which is all of a short packet and none of the outcomes of an extended one. -/
namespace IntelPt.Decoder
open HeaderCode Transducer

inductive TntSize where
  | short | extended
  deriving DecidableEq, Repr

def TntSize.capacity : TntSize → Nat
  | .short => 6
  | .extended => 47

/-- The outcomes of one packet, oldest first, `true` for taken. -/
structure TntOutcomes (size : TntSize) where
  taken : List Bool
  ne_nil : taken ≠ []
  fits : taken.length ≤ size.capacity

def pushOutcomes (acc : Nat) (taken : List Bool) : Nat :=
  taken.foldl (fun acc t => 2 * acc + t.toNat) acc

def tntBytes : TntSize → List Bool → List Byte
  | .short, taken => [BitVec.ofNat 8 (2 * pushOutcomes 1 taken)]
  | .extended, taken => 0x02 :: 0xA3 :: LittleEndian.bytes 6 (pushOutcomes 1 taken)

def tntStream {size : TntSize} (packets : List (TntOutcomes size)) : List Byte :=
  packets.flatMap fun p => tntBytes size p.taken

/-- A fresh interpreter emits one PacketTnt for each outcome, in order, and nothing else. -/
def OutcomesRecovered {size : TntSize} (packets : List (TntOutcomes size)) : Prop :=
  let r := feed packetDefinitions (packetInterpretor packetDefinitions) (tntStream packets)
  r.halt = none ∧
    r.st.succession = (packets.flatMap (·.taken)).map fun taken => packetTnt taken none

/-! The two loops. -/

theorem pushOutcomes_range (taken : List Bool) : ∀ acc,
    acc * 2 ^ taken.length ≤ pushOutcomes acc taken ∧
      pushOutcomes acc taken < (acc + 1) * 2 ^ taken.length := by
  induction taken with
  | nil =>
    intro acc
    simp [pushOutcomes]
  | cons t taken ih =>
    intro acc
    obtain ⟨hle, hlt⟩ := ih (2 * acc + t.toNat)
    have ht : t.toNat ≤ 1 := t.toNat_le
    have hpush : pushOutcomes acc (t :: taken) = pushOutcomes (2 * acc + t.toNat) taken := rfl
    rw [hpush, List.length_cons, Nat.pow_succ, Nat.mul_comm (2 ^ taken.length) 2,
      ← Nat.mul_assoc, ← Nat.mul_assoc]
    constructor
    · calc acc * 2 * 2 ^ taken.length ≤ (2 * acc + t.toNat) * 2 ^ taken.length :=
            Nat.mul_le_mul_right _ (by omega)
        _ ≤ pushOutcomes (2 * acc + t.toNat) taken := hle
    · calc pushOutcomes (2 * acc + t.toNat) taken < (2 * acc + t.toNat + 1) * 2 ^ taken.length :=
            hlt
        _ ≤ (acc + 1) * 2 * 2 ^ taken.length := Nat.mul_le_mul_right _ (by omega)

/-- The oldest outcome is the highest bit below `acc`. -/
theorem testBit_pushOutcomes (acc : Nat) (t : Bool) (taken : List Bool) :
    (pushOutcomes (2 * acc + t.toNat) taken).testBit taken.length = t := by
  obtain ⟨hle, hlt⟩ := pushOutcomes_range taken (2 * acc + t.toNat)
  rw [Nat.testBit_eq_decide_div_mod_eq, Nat.div_eq_of_lt_le hle hlt]
  cases t <;> simp

theorem testBit_eight (auxData : Nat) :
    (auxData &&& (1 <<< 8) = 0) ↔ auxData.testBit 8 = false := by
  rw [← Bits.and_shift_ne_zero, bne_eq_false_iff_eq]

/-- The first loop shifts the highest bit set to position 8. -/
theorem tntSkip_shift (j k : Nat) : ∀ auxData, 2 ^ 8 ≤ auxData * 2 ^ j →
    auxData * 2 ^ j < 2 ^ 9 → tntSkip (j + k) auxData = (k, auxData * 2 ^ j) := by
  induction j with
  | zero =>
    intro auxData hle hlt
    rw [Nat.pow_zero, Nat.mul_one] at hle hlt ⊢
    have hbit : auxData.testBit 8 = true := by
      rw [Nat.testBit_eq_decide_div_mod_eq, decide_eq_true_eq]
      omega
    rw [Nat.zero_add]
    cases k with
    | zero => rfl
    | succ k => rw [tntSkip, if_neg (by rw [testBit_eight, hbit]; exact Bool.noConfusion)]
  | succ j ih =>
    intro auxData hle hlt
    have hshift : auxData <<< 1 * 2 ^ j = auxData * 2 ^ (j + 1) := by
      rw [Nat.shiftLeft_eq, Nat.pow_one, Nat.pow_succ, Nat.mul_assoc, Nat.mul_comm 2]
    have hsmall : auxData < 2 ^ 8 := by
      have hone : auxData * 2 ≤ auxData * 2 ^ (j + 1) :=
        Nat.mul_le_mul_left _ (Nat.pow_le_pow_right (by decide) (Nat.succ_pos j) : 2 ^ 1 ≤ _)
      omega
    have hbit : auxData.testBit 8 = false := Nat.testBit_lt_two_pow hsmall
    rw [Nat.succ_add, tntSkip, if_pos ((testBit_eight auxData).mpr hbit),
      ih _ (by rw [hshift]; exact hle) (by rw [hshift]; exact hlt), hshift]

/-- The second loop emits the bits below it. -/
theorem tntEmit_push (tsc : Option Nat) (taken : List Bool) : ∀ acc, taken.length ≤ 9 →
    tntEmit tsc taken.length (pushOutcomes acc taken * 2 ^ (9 - taken.length)) =
      taken.map fun t => packetTnt t tsc := by
  induction taken with
  | nil => intro acc _; rfl
  | cons t taken ih =>
    intro acc hlen
    rw [List.length_cons] at hlen
    have hpush : pushOutcomes acc (t :: taken) = pushOutcomes (2 * acc + t.toNat) taken := rfl
    have hexp : 9 - taken.length = 9 - (taken.length + 1) + 1 := by omega
    have hshift : (pushOutcomes (2 * acc + t.toNat) taken * 2 ^ (9 - (taken.length + 1))) <<< 1 =
        pushOutcomes (2 * acc + t.toNat) taken * 2 ^ (9 - taken.length) := by
      rw [Nat.shiftLeft_eq, Nat.pow_one, hexp, Nat.pow_succ, Nat.mul_assoc]
    have hbit : (pushOutcomes (2 * acc + t.toNat) taken * 2 ^ (9 - (taken.length + 1))).testBit 8 =
        t := by
      rw [← Nat.shiftLeft_eq, Nat.testBit_shiftLeft, decide_eq_true (by omega), Bool.true_and,
        show 8 - (9 - (taken.length + 1)) = taken.length by omega, testBit_pushOutcomes]
    rw [List.length_cons, tntEmit, hpush, hshift, ih _ (by omega), Bits.and_shift_ne_zero, hbit,
      List.map_cons]

/-! The packets. -/

def TntSize.emitted (tsc : Option Nat) (taken : List Bool) : TntSize → List Packet
  | .short => taken.map fun t => packetTnt t tsc
  | .extended => []

theorem toNat_shortTnt {taken : List Bool} (h : taken.length ≤ 6) :
    (BitVec.ofNat 8 (2 * pushOutcomes 1 taken)).toNat = 2 * pushOutcomes 1 taken := by
  have hlt := (pushOutcomes_range taken 1).2
  have hpow : (1 + 1) * 2 ^ taken.length ≤ (1 + 1) * 2 ^ 6 :=
    Nat.mul_le_mul_left _ (Nat.pow_le_pow_right (by decide) h)
  rw [BitVec.toNat_ofNat]
  exact Nat.mod_eq_of_lt (by omega)

theorem tntPacketHandler_short {taken : List Bool} (h : taken.length ≤ 6) (name : PacketName)
    (context : Context) : tntPacketHandler (tntBytes .short taken) name context =
      .ok (.list (taken.map fun t => packetTnt t context.tsc), context) := by
  obtain ⟨hle, hlt⟩ := pushOutcomes_range taken 1
  have hpow : 2 ^ taken.length * 2 ^ (7 - taken.length) = 2 ^ 7 := by
    rw [← Nat.pow_add, Nat.add_sub_cancel' (by omega)]
  have hshift : 2 * pushOutcomes 1 taken * 2 ^ (7 - taken.length) =
      2 * (pushOutcomes 1 taken * 2 ^ (7 - taken.length)) := Nat.mul_assoc _ _ _
  have hlow : 2 ^ 7 ≤ pushOutcomes 1 taken * 2 ^ (7 - taken.length) := by
    rw [← hpow]
    exact Nat.mul_le_mul_right _ (by omega)
  have hhigh : pushOutcomes 1 taken * 2 ^ (7 - taken.length) < 2 ^ 8 := by
    have hmul := Nat.mul_lt_mul_of_pos_right hlt (Nat.two_pow_pos (7 - taken.length))
    rw [Nat.mul_assoc, hpow] at hmul
    exact hmul
  have hskip : tntSkip 8 (2 * pushOutcomes 1 taken) =
      (taken.length + 1, 2 * pushOutcomes 1 taken * 2 ^ (7 - taken.length)) := by
    have h8 : 8 = (7 - taken.length) + (taken.length + 1) := by omega
    rw [h8]
    exact tntSkip_shift _ _ _ (by omega) (by omega)
  have hemit : (2 * pushOutcomes 1 taken * 2 ^ (7 - taken.length)) <<< 1 =
      pushOutcomes 1 taken * 2 ^ (9 - taken.length) := by
    rw [show 9 - taken.length = 7 - taken.length + 2 by omega, Nat.pow_add, ← Nat.mul_assoc,
      Nat.shiftLeft_eq]
    omega
  simp only [tntPacketHandler, tntBytes, List.getElem?_cons_zero, toNat_shortTnt h, hskip, hemit,
    Nat.add_sub_cancel]
  rw [tntEmit_push context.tsc taken 1 (by omega)]

theorem tntPacketHandler_extended (taken : List Bool) (name : PacketName) (context : Context) :
    tntPacketHandler (tntBytes .extended taken) name context = .ok (.list [], context) := rfl

theorem tntPacketHandler_emitted {size : TntSize} (p : TntOutcomes size) (name : PacketName)
    (context : Context) : tntPacketHandler (tntBytes size p.taken) name context =
      .ok (.list (size.emitted context.tsc p.taken), context) := by
  cases size with
  | short => exact tntPacketHandler_short p.fits name context
  | extended => exact tntPacketHandler_extended p.taken name context

def TntSize.headerLength : TntSize → Nat
  | .short => 1
  | .extended => 2

theorem exists_tntPacket {size : TntSize} (p : TntOutcomes size) :
    ∃ q : WellFormedPacket packetDefinitions, q.bytes = tntBytes size p.taken ∧
      q.header.length = size.headerLength ∧ q.definition.handle = some tntPacketHandler := by
  obtain ⟨taken, hne, hfits⟩ := p
  cases size with
  | short =>
    have hbig : 2 ≤ pushOutcomes 1 taken := by
      have hle := (pushOutcomes_range taken 1).1
      have hpow : 2 ^ 1 ≤ 2 ^ taken.length :=
        Nat.pow_le_pow_right (by decide) (List.length_pos_iff.mpr hne)
      omega
    have hspells : spells validateHeaderByte packetDefinitions[0].packetHeader
        [BitVec.ofNat 8 (2 * pushOutcomes 1 taken)] = true := by
      simp only [packetDefinitions, List.getElem_cons_zero, spells, tntHeader, validateHeaderByte,
        toNat_shortTnt hfits, Nat.and_one_is_mod, Nat.mul_mod_right, Bool.and_true,
        Bool.and_eq_true, decide_eq_true_eq]
      exact ⟨rfl, by omega⟩
    exact ⟨⟨packetDefinitions[0], List.getElem_mem _, _, [], hspells, rfl⟩, rfl, rfl, rfl⟩
  | extended =>
    have hlength : packetDefinitions[1].packetLength.eval [0x02, 0xA3] =
        .ok (2 + (LittleEndian.bytes 6 (pushOutcomes 1 taken)).length) := by
      rw [LittleEndian.bytes_length]
      rfl
    exact ⟨⟨packetDefinitions[1], List.getElem_mem _, [0x02, 0xA3], _, by decide, hlength⟩, rfl,
      rfl, rfl⟩

/-- At a boundary that remembers nothing shorter than the header, packets of one size are
handed over one after the other. -/
theorem feed_tntStream {size : TntSize} (packets : List (TntOutcomes size)) :
    ∀ st : PacketInterpretor, AtBoundary packetDefinitions st →
      (∀ d, st.currentPacket = some d → size.headerLength ≤ st.currentPacketLength) →
      st.context.disableInterpreting = false →
      (feed packetDefinitions st (tntStream packets)).halt = none ∧
        (feed packetDefinitions st (tntStream packets)).st.succession =
          st.succession ++ packets.flatMap fun p => size.emitted st.context.tsc p.taken := by
  induction packets with
  | nil =>
    intro st _ _ _
    exact ⟨rfl, (List.append_nil _).symm⟩
  | cons p packets ih =>
    intro st hst hrem hopen
    obtain ⟨q, hq, hheader, hh⟩ := exists_tntPacket p
    have hr := tntPacketHandler_emitted p q.definition.packetName st.context
    rw [← hq] at hr
    have hdel := feed_packet packetDefinitions_wellFormed q hst
      (fun d hd => by rw [hheader]; exact hrem d hd) hh hr
    have hsucc := hdel.succession hh hr hopen
    have hlong : size.headerLength ≤ q.bytes.length := by
      rw [← hheader, WellFormedPacket.bytes, List.length_append]
      omega
    obtain ⟨hhalt, hrest⟩ := ih _ hdel.boundary
      (fun _ _ => by rw [hdel.currentPacketLength]; exact hlong) (by rw [hdel.context, hopen])
    have hcons : tntStream (p :: packets) = q.bytes ++ tntStream packets := by
      rw [hq]
      rfl
    rw [hcons, feed_append hdel.halt, List.flatMap_cons, ← List.append_assoc]
    refine ⟨hhalt, ?_⟩
    rw [hdel.context] at hrest
    rw [hrest, hsucc]
    rfl

/-- Outcomes come back exactly if they are in short packets. -/
theorem outcomesRecovered_iff {size : TntSize} (packets : List (TntOutcomes size)) :
    OutcomesRecovered packets ↔ size = .short ∨ packets = [] := by
  obtain ⟨hhalt, hsucc⟩ := feed_tntStream packets (packetInterpretor packetDefinitions)
    (atBoundary_new packetDefinitions none none none) (fun d hd => by cases hd) rfl
  have hsucc : (feed packetDefinitions (packetInterpretor packetDefinitions)
      (tntStream packets)).st.succession = packets.flatMap fun p => size.emitted none p.taken :=
    hsucc
  simp only [OutcomesRecovered, hhalt, hsucc, true_and]
  cases size with
  | short => simp [TntSize.emitted, List.map_flatMap]
  | extended =>
    have hnone : (packets.flatMap fun p => TntSize.emitted none p.taken .extended) = [] := by
      simp [TntSize.emitted]
    rw [hnone]
    constructor
    · intro h
      cases packets with
      | nil => exact Or.inr rfl
      | cons p packets =>
        have hempty := List.map_eq_nil_iff.mp h.symm
        rw [List.flatMap_cons, List.append_eq_nil_iff] at hempty
        exact absurd hempty.1 p.ne_nil
    · intro h
      obtain h | rfl := h
      · cases h
      · rfl

theorem not_outcomesRecovered_extended : ¬ ∀ (size : TntSize) (packets : List (TntOutcomes size)),
    OutcomesRecovered packets := by
  intro h
  have hsucc := (h .extended [⟨[true], by decide, by decide⟩]).2
  have hempty : (feed packetDefinitions (packetInterpretor packetDefinitions)
      [0x02, 0xA3, 0x03, 0x00, 0x00, 0x00, 0x00, 0x00]).st.succession = [] := by decide +kernel
  cases hempty.symm.trans hsucc

end IntelPt.Decoder
