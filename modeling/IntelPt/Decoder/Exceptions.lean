import IntelPt.Decoder.Fill
import IntelPt.Decoder.Synchronisation

/-! The exceptions process_byte raises: which ones are reports about the trace, and what state
a call that raises leaves behind. -/
namespace IntelPt.Decoder
open HeaderCode Transducer
variable {table : List PacketDefinition}

/-- The decoder's own reports of an inconsistent trace. -/
def Declared (e : PyError) : Prop :=
  e = lastIpError ∨ e = modeExecError ∨ ∃ type, e = modeTypeError type

/-- The first exception on the stream, if there is one, is such a report. -/
def OnlyDeclared (stream : List Byte) : Prop :=
  ∀ e, (feed packetDefinitions (packetInterpretor packetDefinitions) stream).halt = some e →
    Declared e

def ReservedSize (d : PacketDefinition) (header : List Byte) : Prop :=
  (d.packetName ∈ [.tip, .tipPge, .tipPgd, .fup] ∧
      ∃ b, header[0]? = some b ∧ b.toNat >>> 5 &&& 0b0111 ∈ [5, 7]) ∨
    (d.packetName = .ptw ∧ ∃ b, header[1]? = some b ∧ b.toNat >>> 5 &&& 0b011 ∈ [2, 3])

/-- The byte is buffered outside a packet and completes a header with such a code. -/
def ReservedStep (st : PacketInterpretor) (byte : Byte) : Prop :=
  st.inPacket = false ∧ byte ∉ unusedPacketBytes ∧
    ∃ d ∈ st.currentCandidates, completes byte st.headerIndex d = true ∧
      ReservedSize d (st.accumulator ++ [byte])

/-! The size tables. -/

theorem dictGet_ip : ∀ key ≤ 0b0111,
    (dictGet ipCompressionPacketSize key = .ok none ∧ key ∈ [5, 7]) ∨
      ∃ n, dictGet ipCompressionPacketSize key = .ok (some n) ∧ key ∉ [5, 7] := by
  intro key hkey
  match key with
  | 0 | 1 | 2 | 3 | 4 | 6 => exact Or.inr ⟨_, rfl, by decide⟩
  | 5 | 7 => exact Or.inl ⟨rfl, by decide⟩
  | key + 8 => omega

theorem dictGet_ptw : ∀ key ≤ 0b011,
    (dictGet ptwPacketSize key = .ok none ∧ key ∈ [2, 3]) ∨
      ∃ n, dictGet ptwPacketSize key = .ok (some n) ∧ key ∉ [2, 3] := by
  intro key hkey
  match key with
  | 0 | 1 => exact Or.inr ⟨_, rfl, by decide⟩
  | 2 | 3 => exact Or.inl ⟨rfl, by decide⟩
  | key + 4 => omega

/-- The length of a header that is long enough fails on the codes without a size alone. -/
theorem headerPlusSize_cases {sizes : List (Nat × Option Nat)} {mask : Nat} {reserved : List Nat}
    (hs : ∀ key ≤ mask, (dictGet sizes key = .ok none ∧ key ∈ reserved) ∨
      ∃ n, dictGet sizes key = .ok (some n) ∧ key ∉ reserved)
    {index : Nat} {header : List Byte} {b : Byte} (hb : header[index]? = some b) :
    (headerPlusSize sizes index mask header = .error .typeError ∧
        b.toNat >>> 5 &&& mask ∈ reserved) ∨
      ∃ n, headerPlusSize sizes index mask header = .ok n ∧
        b.toNat >>> 5 &&& mask ∉ reserved := by
  obtain ⟨hget, hmem⟩ | ⟨n, hget, hmem⟩ := hs _ Nat.and_le_right
  · exact Or.inl ⟨by simp only [headerPlusSize, hb, hget], hmem⟩
  · exact Or.inr ⟨header.length + n, by simp only [headerPlusSize, hb, hget], hmem⟩

theorem reservedSize_ip {d : PacketDefinition} {header : List Byte} {b : Byte}
    (hname : d.packetName ∈ [.tip, .tipPge, .tipPgd, .fup]) (hb : header[0]? = some b) :
    ReservedSize d header ↔ b.toNat >>> 5 &&& 0b0111 ∈ [5, 7] := by
  have hnot : d.packetName ≠ .ptw := fun h => by simp [h] at hname
  simp only [ReservedSize, hname, hb, hnot, true_and, false_and, or_false, Option.some.injEq,
    exists_eq_left']

theorem reservedSize_ptw {d : PacketDefinition} {header : List Byte} {b : Byte}
    (hname : d.packetName = .ptw) (hb : header[1]? = some b) :
    ReservedSize d header ↔ b.toNat >>> 5 &&& 0b011 ∈ [2, 3] := by
  have hnot : PacketName.ptw ∉ [.tip, .tipPge, .tipPgd, .fup] := by decide
  simp only [ReservedSize, hname, hb, hnot, true_and, false_and, false_or, Option.some.injEq,
    exists_eq_left']

theorem packetLength_cases {d : PacketDefinition} (hd : d ∈ packetDefinitions)
    {header : List Byte} (hl : header.length = d.packetHeader.length) :
    (d.packetLength.eval header = .error .typeError ∧ ReservedSize d header) ∨
      ∃ n, d.packetLength.eval header = .ok n ∧ ¬ ReservedSize d header := by
  have hc : (d.packetName ∉ [.tip, .tipPge, .tipPgd, .fup] ∧ d.packetName ≠ .ptw ∧
        ∃ n, d.packetLength = .const n) ∨
      (d.packetName ∈ [.tip, .tipPge, .tipPgd, .fup] ∧ d.packetHeader.length = 1 ∧
        d.packetLength = ipPacketLength) ∨
      (d.packetName = .ptw ∧ d.packetHeader.length = 2 ∧ d.packetLength = ptwPacketLength) := by
    clear hl
    revert d
    simp only [packetDefinitions, List.forall_mem_cons]
    simp [ipPacketLength, ptwPacketLength]
  obtain ⟨hip, hptw, n, hn⟩ | ⟨hname, h1, hip⟩ | ⟨hname, h2, hptw⟩ := hc
  · refine Or.inr ⟨n, by rw [hn]; rfl, fun hreserved => ?_⟩
    obtain ⟨hmem, -⟩ | ⟨hmem, -⟩ := hreserved
    · exact hip hmem
    · exact hptw hmem
  · have hb : header[0]? = some header[0] := List.getElem?_eq_getElem (by omega)
    rw [hip, reservedSize_ip hname hb]
    exact headerPlusSize_cases dictGet_ip hb
  · have hb : header[1]? = some header[1] := List.getElem?_eq_getElem (by omega)
    rw [hptw, reservedSize_ptw hname hb]
    exact headerPlusSize_cases dictGet_ptw hb

/-! The handlers. -/

def PacketName.needs : PacketName → Nat
  | .mode => 2
  | .cbr => 3
  | _ => 1

theorem reconstructAddress_error {payloadType addr : Nat} {lastIp : Option Nat} {e : PyError}
    (h : reconstructAddress payloadType lastIp addr = .error e) : e = lastIpError := by
  unfold reconstructAddress at h
  split at h
  · split at h
    · cases h
      rfl
    · cases h
  · split at h
    · split at h <;> cases h
    · cases h

theorem packetMode_error {data : Byte} {tsc : Option Nat} {e : PyError}
    (h : packetMode data tsc = .error e) : e = modeExecError ∨ ∃ type, e = modeTypeError type := by
  simp only [packetMode] at h
  split at h
  · split at h
    · cases h
      exact Or.inl rfl
    · cases h
  · split at h
    · cases h
    · cases h
      exact Or.inr ⟨_, rfl⟩

theorem handler_error {name : PacketName} {data : List Byte} {context : Context} {e : PyError}
    (hl : name.needs ≤ data.length) (h : name.handler data name context = .error e) :
    Declared e := by
  have hget {i : Nat} (hi : i < name.needs) : data[i]? ≠ none := by
    rw [ne_eq, List.getElem?_eq_none_iff]
    omega
  cases name with
  | tnt | tntExtended =>
    simp only [PacketName.handler, tntPacketHandler] at h
    split at h
    · rename_i hnone
      exact absurd hnone (hget Nat.one_pos)
    · cases h
  | tip | tipPge | tipPgd | fup =>
    simp only [PacketName.handler, fupTipPacketHandler, fupTipPacketId] at h
    split at h
    · rename_i hnone
      exact absurd hnone (hget Nat.one_pos)
    · split at h
      · cases h
      · split at h
        · rename_i he
          cases h
          exact Or.inl (reconstructAddress_error he)
        · cases h
  | mode =>
    simp only [PacketName.handler, modePacketHandler] at h
    split at h
    · rename_i hnone
      exact absurd hnone (hget (by decide))
    · split at h
      · rename_i he
        cases h
        exact Or.inr (packetMode_error he)
      · split at h <;> cases h
  | cbr =>
    simp only [PacketName.handler, cbrPacketHandler, packetCbr] at h
    split at h
    · rename_i he
      split at he
      · rename_i hnone
        rw [List.getElem?_drop] at hnone
        exact absurd hnone (hget (by decide))
      · cases he
    · cases h
  | tsc | psb | psbend | pip | traceStop | mtc | tma | vmcs | ovf | mnt | ptw | exstop | mwait
  | pwre | pwrx | bbp | bep => cases h

theorem needs_le {d : PacketDefinition} (hd : d ∈ packetDefinitions) {header : List Byte}
    {n : Nat} (hl : header.length = d.packetHeader.length)
    (hn : d.packetLength.eval header = .ok n) : d.packetName.needs ≤ n := by
  have hc : (d.packetName = .mode ∧ d.packetLength = .const 2) ∨
      (d.packetName = .cbr ∧ d.packetLength = .const 4) ∨ d.packetName.needs = 1 := by
    clear hl hn
    revert d
    simp only [packetDefinitions, List.forall_mem_cons]
    simp [PacketName.needs]
  obtain ⟨hname, hlength⟩ | ⟨hname, hlength⟩ | hneeds := hc
  · rw [hlength] at hn
    cases hn
    rw [hname]
    decide
  · rw [hlength] at hn
    cases hn
    rw [hname]
    decide
  · have hfits := packetDefinitions_wellFormed.length_fits d hd header n hl hn
    have hne := List.length_pos_iff.mpr (packetDefinitions_wellFormed.header_ne_nil d hd)
    omega

/-! One byte. -/

structure Sized (st : PacketInterpretor) : Prop where
  running : Running packetDefinitions st
  needs : ∀ d, st.currentPacket = some d → d.packetName.needs ≤ st.currentPacketLength

theorem completePacket_current (table : List PacketDefinition) (st : PacketInterpretor) :
    (completePacket table st).st.currentPacket = st.currentPacket ∧
      (completePacket table st).st.currentPacketLength = st.currentPacketLength := by
  unfold completePacket
  split
  · exact ⟨rfl, rfl⟩
  · rename_i d hc
    split
    · split
      · split <;> exact ⟨hc.symm ▸ rfl, rfl⟩
      · split
        · exact ⟨hc.symm ▸ rfl, rfl⟩
        · dsimp only
          split <;> exact ⟨hc.symm ▸ rfl, rfl⟩
    · exact ⟨hc.symm ▸ rfl, rfl⟩

/-- Handing over a packet as long as its handler needs it raises reports alone, and the packet
is remembered with its length. -/
theorem completePacket_declared {st : PacketInterpretor}
    (hm : ∀ d, st.currentPacket = some d → d ∈ packetDefinitions)
    (hn : ∀ d, st.currentPacket = some d → d.packetName.needs ≤ st.currentPacketLength) :
    (∀ e, (completePacket packetDefinitions st).halt = some e → Declared e) ∧
      ∀ d, (completePacket packetDefinitions st).st.currentPacket = some d →
        d.packetName.needs ≤ (completePacket packetDefinitions st).st.currentPacketLength := by
  obtain ⟨hcurrent, hlength⟩ := completePacket_current packetDefinitions st
  refine ⟨fun e he => ?_, by rw [hcurrent, hlength]; exact hn⟩
  by_cases hw : ∀ d, st.currentPacket = some d → st.accumulator.length < st.currentPacketLength
  · rw [completePacket_wait hw] at he
    cases he
  · push Not at hw
    obtain ⟨d, hc, hl⟩ := hw
    rw [completePacket_fire hc hl (packetDefinitions_handle d (hm d hc))] at he
    split at he
    · rename_i herror
      cases he
      exact handler_error ((hn d hc).trans hl) herror
    · cases he

theorem processByte_enter_cases {st : PacketInterpretor} (hs : Searching packetDefinitions st)
    {byte : Byte} (hfill : byte ∉ unusedPacketBytes)
    (hc : ∃ d ∈ st.currentCandidates, completes byte st.headerIndex d = true) :
    (ReservedStep st byte ∧ (processByte packetDefinitions st byte).halt = some .typeError) ∨
      (¬ ReservedStep st byte ∧ ∃ d ∈ packetDefinitions, ∃ n, d.packetName.needs ≤ n ∧
        processByte packetDefinitions st byte =
          completePacket packetDefinitions (entered st byte d n)) := by
  obtain ⟨d, hd, hsp, hlen⟩ := processByte_enter hs hfill hc
  have hl := spells_length hsp
  have hsize := packetLength_cases hd hl
  obtain ⟨e, he, -, hhalt⟩ | ⟨n, hn, hp⟩ := hlen
  · obtain ⟨htype, hreserved⟩ | ⟨n, hn, -⟩ := hsize
    · rw [htype] at he
      cases he
      have hac := spells_iff_completes.mp hsp
      refine Or.inl ⟨⟨hs.not_in, hfill, d, ?_, by rw [hs.index]; exact hac.2, hreserved⟩, hhalt⟩
      rw [hs.candidates]
      exact List.mem_filter.mpr ⟨hd, hac.1⟩
    · rw [hn] at he
      cases he
  · obtain ⟨htype, -⟩ | ⟨m, hm, hnot⟩ := hsize
    · rw [htype] at hn
      cases hn
    · refine Or.inr ⟨fun hstep => ?_, d, hd, n, needs_le hd hl hn, hp⟩
      obtain ⟨-, -, d', hd', hcd, hreserved⟩ := hstep
      rw [hs.candidates, List.mem_filter] at hd'
      have hsp' := spells_iff_completes.mpr ⟨hd'.2, hs.index ▸ hcd⟩
      have heq : d = d' := definition_unique packetDefinitions_wellFormed hd hd'.1 hsp
        (v := []) (by rw [List.append_nil]; exact hsp')
      exact hnot (heq ▸ hreserved)

/-- A byte that does not complete such a header raises reports alone. -/
theorem Sized.step {st : PacketInterpretor} (h : Sized st) {byte : Byte}
    (hok : ¬ ReservedStep st byte) :
    (∀ e, (processByte packetDefinitions st byte).halt = some e → Declared e) ∧
      ((processByte packetDefinitions st byte).halt = none →
        Sized (processByte packetDefinitions st byte).st) := by
  have hrunning (hh : (processByte packetDefinitions st byte).halt = none) :=
    h.running.step packetDefinitions_wellFormed hh
  have hfull (full : PacketInterpretor)
      (heq : processByte packetDefinitions st byte = completePacket packetDefinitions full)
      (hm : ∀ d, full.currentPacket = some d → d ∈ packetDefinitions)
      (hn : ∀ d, full.currentPacket = some d → d.packetName.needs ≤ full.currentPacketLength) :
      (∀ e, (processByte packetDefinitions st byte).halt = some e → Declared e) ∧
        ((processByte packetDefinitions st byte).halt = none →
          Sized (processByte packetDefinitions st byte).st) := by
    obtain ⟨hdeclared, hneeds⟩ := completePacket_declared hm hn
    rw [← heq] at hdeclared hneeds
    exact ⟨hdeclared, fun hh => ⟨hrunning hh, hneeds⟩⟩
  obtain hs | ⟨d, hb⟩ := h.running.phase
  · by_cases hfill : byte ∈ unusedPacketBytes
    · obtain ⟨-, hhalt, -, hcurrent⟩ := processByte_fill packetDefinitions_wellFormed hs hfill
      refine ⟨fun e he => (by rw [hhalt] at he; cases he), fun hh => ⟨hrunning hh, ?_⟩⟩
      have hlength : (processByte packetDefinitions st byte).st.currentPacketLength =
          st.currentPacketLength := by
        simp only [processByte, hs.not_in, Bool.false_eq_true, if_false, hfill, if_true]
        split <;> rfl
      rw [hcurrent, hlength]
      exact h.needs
    · by_cases hc : ∃ d ∈ st.currentCandidates, completes byte st.headerIndex d = true
      · obtain ⟨hreserved, -⟩ | ⟨-, d, hd, n, hn, heq⟩ := processByte_enter_cases hs hfill hc
        · exact absurd hreserved hok
        · refine hfull _ heq (fun e he => ?_) (fun e he => ?_)
          · cases he
            exact hd
          · cases he
            exact hn
      · have hnc : ∀ d ∈ st.currentCandidates, completes byte st.headerIndex d = false := by
          simpa using hc
        exact hfull _ (processByte_narrow hs hfill hnc) h.running.current_mem h.needs
  · exact hfull _ (processByte_buffer hb.in_packet byte) h.running.current_mem h.needs

/-- Only declared inconsistencies are raised exactly if no header has a size code without a
size. -/
theorem onlyDeclared_iff (stream : List Byte) :
    OnlyDeclared stream ↔ Meets (processByte packetDefinitions)
      (fun st byte => ¬ ReservedStep st byte) (packetInterpretor packetDefinitions) stream := by
  refine halt_iff_meets Sized (fun st byte h hok => h.step hok) ?_ _ stream ?_
  · intro st byte h hbad
    have hreserved : ReservedStep st byte := not_not.mp hbad
    have hstep := hreserved
    obtain ⟨hin, hfill, d, hd, hc, -⟩ := hstep
    have hs := h.running.searching hin
    obtain ⟨-, hhalt⟩ | ⟨hnot, -⟩ := processByte_enter_cases hs hfill ⟨d, hd, hc⟩
    · refine ⟨_, hhalt, fun hdeclared => ?_⟩
      obtain he | he | ⟨type, he⟩ := hdeclared <;> cases he
    · exact absurd hreserved hnot
  · exact ⟨⟨Or.inl ((atBoundary_new packetDefinitions none none none).searching
      packetDefinitions_wellFormed), fun d hd => by cases hd⟩, fun d hd => by cases hd⟩

/-- A TIP packet with compression code 5 fails in the length computation. -/
theorem not_onlyDeclared_reserved_tip : ¬ ∀ stream, OnlyDeclared stream := by
  intro h
  have hhalt : (feed packetDefinitions (packetInterpretor packetDefinitions) [0xAD]).halt =
      some .typeError := by decide +kernel
  obtain he | he | ⟨type, he⟩ := h [0xAD] _ hhalt <;> cases he

/-! What a call that raises leaves. -/

/-- A process_byte call that raises, after any bytes to a new interpreter; what they raised was
caught. -/
structure RaisingCall where
  frequency : Option Nat := none
  base : Option Nat := none
  size : Option Nat := none
  before : List Byte
  byte : Byte
  error : PyError
  raises : (processByte packetDefinitions
    (before.foldl (fun st b => (processByte packetDefinitions st b).st)
      (packetInterpretor packetDefinitions frequency base size)) byte).halt = some error

def RaisingCall.st (call : RaisingCall) : PacketInterpretor :=
  call.before.foldl (fun st b => (processByte packetDefinitions st b).st)
    (packetInterpretor packetDefinitions call.frequency call.base call.size)

def RaisingCall.after (call : RaisingCall) : PacketInterpretor :=
  (processByte packetDefinitions call.st call.byte).st

def PacketInterpretor.resynchronised (st : PacketInterpretor) : PacketInterpretor :=
  { st with
    inPacket := false, accumulator := [], currentCandidates := packetDefinitions,
    headerIndex := 0 }

/-- The call leaves a boundary, with the context and the succession of before, and what comes
then is decoded as from there. -/
structure NotPoisoned (call : RaisingCall) : Prop where
  boundary : AtBoundary packetDefinitions call.after
  emission : call.after.emission = call.st.emission
  next : ∀ t, (feed packetDefinitions call.after t).out =
    (feed packetDefinitions call.after.resynchronised t).out

theorem completePacket_raise {st : PacketInterpretor} {e : PyError}
    (h : (completePacket table st).halt = some e) : (completePacket table st).st = st := by
  unfold completePacket at h ⊢
  split at h
  · cases h
  · rename_i d hc
    split at h
    · rename_i hl
      simp only [hl, if_true]
      split at h
      · split at h
        · cases h
        · rename_i ho
          simp [ho]
      · split at h
        · simp
        · dsimp only at h
          split at h <;> cases h
    · cases h

/-- The bytes a packet is handed over with are those in the accumulator. -/
theorem completePacket_data {st : PacketInterpretor} {call : HandlerCall}
    (h : call ∈ (completePacket table st).out) : call.packetData = st.accumulator := by
  unfold completePacket at h
  split at h
  · cases h
  · split at h
    · split at h
      · split at h <;> cases h
      · split at h
        · rw [List.mem_singleton.mp h]
        · dsimp only at h
          split at h <;> rw [List.mem_singleton.mp h]
    · cases h

/-- In whatever state, a byte that raises stays in the accumulator, and a byte that calls a
handler hands over what was in the accumulator before it too. -/
theorem processByte_accumulator (table : List PacketDefinition) (st : PacketInterpretor)
    (byte : Byte) :
    ((processByte table st byte).halt ≠ none →
        (processByte table st byte).st.accumulator = st.accumulator ++ [byte]) ∧
      ∀ call ∈ (processByte table st byte).out, call.packetData = st.accumulator ++ [byte] := by
  have hfull {full : PacketInterpretor} (hacc : full.accumulator = st.accumulator ++ [byte]) :
      ((completePacket table full).halt ≠ none →
          (completePacket table full).st.accumulator = st.accumulator ++ [byte]) ∧
        ∀ call ∈ (completePacket table full).out,
          call.packetData = st.accumulator ++ [byte] := by
    refine ⟨fun hraise => ?_, fun call hcall => (completePacket_data hcall).trans hacc⟩
    obtain ⟨e, he⟩ := Option.ne_none_iff_exists'.mp hraise
    rw [completePacket_raise he, hacc]
  cases hin : st.inPacket with
  | true =>
    rw [processByte_buffer hin]
    exact hfull rfl
  | false =>
    by_cases hfill : byte ∈ unusedPacketBytes
    · simp only [processByte, hin, Bool.false_eq_true, if_false, hfill, if_true]
      split <;> exact ⟨fun hraise => absurd rfl hraise, fun call hcall => by cases hcall⟩
    · obtain ⟨_, _, _, _, _, hframe⟩ := searchHeader_frame byte (buffered st byte)
      have hacc := congrArg PacketInterpretor.accumulator hframe
      rw [processByte_search hin hfill]
      cases hs : searchHeader byte (buffered st byte) with
      | mk found error =>
        rw [hs] at hacc
        cases error with
        | some e => exact ⟨fun _ => hacc, fun call hcall => by cases hcall⟩
        | none => exact hfull hacc

theorem processByte_tnt {st : PacketInterpretor} (hst : AtBoundary packetDefinitions st) :
    ∃ d, (processByte packetDefinitions st 0x04).out = [⟨d, d.packetName, [0x04]⟩] := by
  have hlast := processByte_last packetDefinitions_wellFormed shortTntPacket
    (hst.searching packetDefinitions_wellFormed) (b := 0x04) (by rw [hst.accumulator]; rfl)
  have hacc : (entered st 0x04 shortTntPacket.definition
      shortTntPacket.bytes.length).accumulator = [0x04] := by
    change st.accumulator ++ [0x04] = _
    rw [hst.accumulator]
    rfl
  refine ⟨shortTntPacket.definition, ?_⟩
  rw [hlast, completePacket_fire_out rfl (by rw [hacc]; exact Nat.le_refl 1) rfl, hacc]

/-- Every call that raises poisons: its bytes stay in the accumulator, and with a TNT packet
next they are handed over again or still waited upon. -/
theorem poisoned (call : RaisingCall) : ¬ NotPoisoned call ∧
    ∃ t, (feed packetDefinitions call.after t).out ≠
      (feed packetDefinitions call.after.resynchronised t).out := by
  have hraise : (processByte packetDefinitions call.st call.byte).halt ≠ none := by
    intro h
    cases h.symm.trans call.raises
  have hacc := (processByte_accumulator packetDefinitions call.st call.byte).1 hraise
  have hne : call.after.accumulator ≠ [] := by
    intro h
    have := hacc.symm.trans h
    exact List.append_ne_nil_of_right_ne_nil _ (List.cons_ne_nil _ _) this
  refine ⟨fun h => hne h.boundary.accumulator, [0x04], fun h => ?_⟩
  have hboundary : AtBoundary packetDefinitions call.after.resynchronised := ⟨rfl, rfl, rfl, rfl⟩
  obtain ⟨d, hd⟩ := processByte_tnt hboundary
  rw [feed_singleton, feed_singleton, hd] at h
  have hdata := (processByte_accumulator packetDefinitions call.after 0x04).2 _
    (by rw [h]; exact List.mem_singleton_self _)
  have hlen := congrArg List.length hdata
  rw [List.length_append, List.length_singleton] at hlen
  exact hne (List.length_eq_zero_iff.mp (by omega))

def rejectedMode : RaisingCall where
  before := [0x99]
  byte := 0xE0
  error := modeTypeError 7
  raises := by decide +kernel

theorem not_notPoisoned_mode : ¬ ∀ call, NotPoisoned call := by
  intro h
  have hin : rejectedMode.after.inPacket = true := by decide +kernel
  cases hin.symm.trans (h rejectedMode).boundary.not_in

end IntelPt.Decoder
