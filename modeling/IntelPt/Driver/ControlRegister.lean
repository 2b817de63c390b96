import IntelPt.Driver.ProcessorTrace
import IntelPt.Lib.BitFields

/-! IA32_RTIT_CTL and the filter registers after an accepted request: the register as the 64 bits
it is, and when the writes of IptConfigureProcessorTrace say what was requested. -/
namespace IntelPt.Driver

open BitFields

/-- The members of IA32_RTIT_CTL_STRUCTURE, the reserved ones included. -/
def RtitCtl.fields (ctl : RtitCtl) : List Field :=
  [flag ctl.traceEn, flag ctl.cycEn, flag ctl.os, flag ctl.user, flag ctl.pwrEvtEn,
    flag ctl.fupOnPtw, flag ctl.fabricEn, flag ctl.cr3Filter, flag ctl.toPA, flag ctl.mtcEn,
    flag ctl.tscEn, flag ctl.disRetc, flag ctl.ptwEn, flag ctl.branchEn, ⟨4, ctl.mtcFreq⟩,
    ⟨1, 0⟩, ⟨4, ctl.cycThresh⟩, ⟨1, 0⟩, ⟨4, ctl.psbFreq⟩, ⟨4, 0⟩, ⟨4, ctl.addr0Cfg⟩,
    ⟨4, ctl.addr1Cfg⟩, ⟨4, ctl.addr2Cfg⟩, ⟨4, ctl.addr3Cfg⟩, ⟨8, 0⟩,
    flag ctl.injectPsbPmiOnEnable, ⟨7, 0⟩]

def RtitCtl.raw (ctl : RtitCtl) : BitVec 64 := word 64 ctl.fields

/-! What was requested, by bit positions. -/

def oneBitOptions (config : IntelPtConfiguration) : List (Nat × BitVec 16) :=
  let packets := config.packetGenerationOptions
  let filters := config.filteringOptions
  [(1, packets.packetCyc.enable), (2, filters.filterCpl.filterKm),
    (3, filters.filterCpl.filterUm), (4, packets.packetPwr.enable),
    (5, packets.misc.enableFupPacketsAfterPtw), (7, filters.filterCr3.enable),
    (9, packets.packteMtc.enable), (10, packets.packetTsc.enable),
    (11, packets.misc.disableRetCompression), (12, packets.packetPtw.enable),
    (13, packets.packetCofi.enable), (56, packets.misc.injectPsbPmiOnEnable)]

def frequencyCodes (config : IntelPtConfiguration) : List (Nat × BitVec 32) :=
  let packets := config.packetGenerationOptions
  [(14, packets.packteMtc.frequency), (19, packets.packetCyc.frequency),
    (24, packets.misc.psbFrequency)]

/-- TraceEn, FabricEn and the reserved bits: position and width. -/
def zeroFields : List (Nat × Nat) := [(0, 1), (6, 1), (18, 1), (23, 1), (28, 4), (48, 8), (57, 7)]

def RangeRequested (config : IntelPtConfiguration) (n : Fin 4) : Prop :=
  config.filteringOptions.filterRange.enable ≠ 0 ∧
    n.val < config.filteringOptions.filterRange.numberOfRanges.toNat

instance (config : IntelPtConfiguration) (n : Fin 4) : Decidable (RangeRequested config n) :=
  inferInstanceAs (Decidable (_ ∧ _))

def requestedType (config : IntelPtConfiguration) (n : Fin 4) : BitVec 32 :=
  if RangeRequested config n then (config.filteringOptions.filterRange.rangeOptions n).rangeType
  else rangeUnused

/-- The value of IA32_RTIT_CTL says what was requested. -/
structure ControlExact (config : IntelPtConfiguration) (raw : BitVec 64) : Prop where
  options : ∀ o ∈ oneBitOptions config, (raw.getLsbD o.1 = true ↔ o.2 ≠ 0)
  frequencies : ∀ o ∈ frequencyCodes config, (raw.extractLsb' o.1 4).toNat = o.2.toNat
  ranges : ∀ n : Fin 4,
    (raw.extractLsb' (32 + 4 * n.val) 4).toNat = (requestedType config n).toNat
  toPA : raw.getLsbD 8 = true
  zero : ∀ z ∈ zeroFields, raw.extractLsb' z.1 z.2 = 0

/-- So do all writes: RTIT_CTL gets one value, and the filter registers are written for the
filter and the ranges that are enabled. -/
structure WritesExact (config : IntelPtConfiguration) (writes : List MsrWrite) : Prop where
  control : ∃ ctl : RtitCtl, (∀ v, .rtitCtl v ∈ writes ↔ v = ctl) ∧ ControlExact config ctl.raw
  cr3Match : ∀ v, .rtitCr3Match v ∈ writes ↔
    config.filteringOptions.filterCr3.enable ≠ 0 ∧ v = config.filteringOptions.filterCr3.cr3Address
  addrA : ∀ n v, .rtitAddrA n v ∈ writes ↔ requestedType config n ≠ rangeUnused ∧
    v = (config.filteringOptions.filterRange.rangeOptions n).baseAddress
  addrB : ∀ n v, .rtitAddrB n v ∈ writes ↔ requestedType config n ≠ rangeUnused ∧
    v = (config.filteringOptions.filterRange.rangeOptions n).endAddress

structure AcceptedRequest where
  config : IntelPtConfiguration
  capabilities : IntelPtCapabilities
  beyond : Nat → BitVec 32
  accepted : (iptValidateConfigurationRequest (.ok capabilities) config beyond).1 = .success
  frequencies : ∀ o ∈ frequencyCodes config, o.2.toNat < 16

def Core.written (core : Core) : List MsrWrite :=
  core.log.filterMap fun e => match e with
    | .write w _ => some w
    | _ => none

def EncodesRequest (r : AcceptedRequest) : Prop :=
  ∀ options core, ∃ writes,
    (iptConfigureProcessorTrace hw r.config options core).written = core.written ++ writes ∧
      WritesExact r.config writes

/-- The enable words are 0 or odd, and a range that is not unused is requested and has a type of
the enumeration. -/
structure Representable (config : IntelPtConfiguration) : Prop where
  options : ∀ o ∈ oneBitOptions config, o.2 = 0 ∨ oneBit o.2 = true
  ranges : ∀ n, (config.filteringOptions.filterRange.rangeOptions n).rangeType = rangeUnused ∨
    RangeRequested config n ∧
      ((config.filteringOptions.filterRange.rangeOptions n).rangeType = rangeFilterEn ∨
        (config.filteringOptions.filterRange.rangeOptions n).rangeType = rangeTraceStop)

/-! The register, member by member. -/

def ctlWidths : List Nat :=
  [1, 1, 1, 1, 1, 1, 1, 1, 1, 1, 1, 1, 1, 1, 4, 1, 4, 1, 4, 4, 4, 4, 4, 4, 8, 1, 7]

theorem widths_fields (ctl : RtitCtl) : widths ctl.fields = ctlWidths := rfl

theorem fields_fit (ctl : RtitCtl) : offset (widths ctl.fields) ctl.fields.length ≤ 64 := by
  have hlength : ctl.fields.length = ctlWidths.length := rfl
  rw [widths_fields, hlength]
  decide

theorem raw_field {ctl : RtitCtl} {w k p : Nat} {value : BitVec w}
    (h : ctl.fields[k]? = some ⟨w, value⟩) (hp : offset ctlWidths k = p) :
    ctl.raw.extractLsb' p w = value := by
  rw [← hp, ← widths_fields ctl]
  exact extract_word (fields_fit ctl) h

theorem raw_flag {ctl : RtitCtl} {b : Bool} {k p : Nat} (h : ctl.fields[k]? = some (flag b))
    (hp : offset ctlWidths k = p) : ctl.raw.getLsbD p = b := by
  rw [← hp, ← widths_fields ctl]
  exact getLsbD_word (fields_fit ctl) h

theorem raw_addrCfg (ctl : RtitCtl) (n : Fin 4) :
    ctl.raw.extractLsb' (32 + 4 * n.val) 4 = ctl.addrCfg n := by
  match n with
  | 0 => exact raw_field (k := 20) rfl (by decide)
  | 1 => exact raw_field (k := 21) rfl (by decide)
  | 2 => exact raw_field (k := 22) rfl (by decide)
  | 3 => exact raw_field (k := 23) rfl (by decide)

/-! What IptConfigureProcessorTrace puts into the register. -/

theorem shadow_options (config : IntelPtConfiguration) :
    ∀ o ∈ oneBitOptions config, (rtitCtlShadow config).raw.getLsbD o.1 = oneBit o.2 := by
  simp only [oneBitOptions, List.forall_mem_cons]
  refine ⟨raw_flag (k := 1) rfl (by decide), raw_flag (k := 2) rfl (by decide),
    raw_flag (k := 3) rfl (by decide), raw_flag (k := 4) rfl (by decide),
    raw_flag (k := 5) rfl (by decide), raw_flag (k := 7) rfl (by decide),
    raw_flag (k := 9) rfl (by decide), raw_flag (k := 10) rfl (by decide),
    raw_flag (k := 11) rfl (by decide), raw_flag (k := 12) rfl (by decide),
    raw_flag (k := 13) rfl (by decide), raw_flag (k := 25) rfl (by decide), ?_⟩
  intro o ho
  cases ho

theorem shadow_frequencies (config : IntelPtConfiguration) :
    ∀ o ∈ frequencyCodes config,
      (rtitCtlShadow config).raw.extractLsb' o.1 4 = o.2.setWidth 4 := by
  simp only [frequencyCodes, List.forall_mem_cons]
  refine ⟨raw_field (k := 14) rfl (by decide), raw_field (k := 16) rfl (by decide),
    raw_field (k := 18) rfl (by decide), ?_⟩
  intro o ho
  cases ho

theorem shadow_zero (config : IntelPtConfiguration) :
    ∀ z ∈ zeroFields, (rtitCtlShadow config).raw.extractLsb' z.1 z.2 = 0 := by
  simp only [zeroFields, List.forall_mem_cons]
  refine ⟨raw_field (k := 0) rfl (by decide), raw_field (k := 6) rfl (by decide),
    raw_field (k := 15) rfl (by decide), raw_field (k := 17) rfl (by decide),
    raw_field (k := 19) rfl (by decide), raw_field (k := 24) rfl (by decide),
    raw_field (k := 26) rfl (by decide), ?_⟩
  intro z hz
  cases hz

theorem oneBit_iff {option : BitVec 16} :
    (oneBit option = true ↔ option ≠ 0) ↔ option = 0 ∨ oneBit option = true := by
  constructor
  · intro h
    by_cases hz : option = 0
    · exact Or.inl hz
    · exact Or.inr (h.mpr hz)
  · intro h
    obtain rfl | h := h
    · decide
    · refine iff_of_true h ?_
      intro hz
      rw [hz] at h
      cases h

theorem toNat_code {code : BitVec 32} : (code.setWidth 4).toNat = code.toNat ↔ code.toNat < 16 := by
  rw [BitVec.toNat_setWidth]
  omega

theorem controlExact_iff (config : IntelPtConfiguration) :
    ControlExact config (rtitCtlShadow config).raw ↔
      (∀ o ∈ oneBitOptions config, o.2 = 0 ∨ oneBit o.2 = true) ∧
        (∀ o ∈ frequencyCodes config, o.2.toNat < 16) ∧
        ∀ n, ((config.filteringOptions.filterRange.rangeOptions n).rangeType.setWidth 4).toNat =
          (requestedType config n).toNat := by
  constructor
  · intro h
    refine ⟨fun o ho => ?_, fun o ho => ?_, fun n => ?_⟩
    · rw [← oneBit_iff, ← shadow_options config o ho]
      exact h.options o ho
    · rw [← toNat_code, ← shadow_frequencies config o ho]
      exact h.frequencies o ho
    · rw [← addrCfg_shadow, ← raw_addrCfg]
      exact h.ranges n
  · intro h
    obtain ⟨hoptions, hfrequencies, hranges⟩ := h
    refine ⟨fun o ho => ?_, fun o ho => ?_, fun n => ?_, raw_flag (k := 8) rfl (by decide),
      shadow_zero config⟩
    · rw [shadow_options config o ho, oneBit_iff]
      exact hoptions o ho
    · rw [shadow_frequencies config o ho, toNat_code]
      exact hfrequencies o ho
    · rw [raw_addrCfg, addrCfg_shadow]
      exact hranges n

/-! The writes. -/

section

variable {config : IntelPtConfiguration} {options : IntelPtOutputOptions}

theorem mem_addrWrites_iff {n : Fin 4} {w : MsrWrite} : w ∈ addrWrites config n ↔
    (config.filteringOptions.filterRange.rangeOptions n).rangeType ≠ rangeUnused ∧
      (w = .rtitAddrA n (config.filteringOptions.filterRange.rangeOptions n).baseAddress ∨
        w = .rtitAddrB n (config.filteringOptions.filterRange.rangeOptions n).endAddress) := by
  simp only [addrWrites]
  split
  · rename_i h
    simp [h]
  · rename_i h
    simp [h]

theorem mem_configureWrites_iff {w : MsrWrite} : w ∈ configureWrites config options ↔
    (config.filteringOptions.filterCr3.enable ≠ 0 ∧
        w = .rtitCr3Match config.filteringOptions.filterCr3.cr3Address) ∨
      (∃ n, w ∈ addrWrites config n) ∨ w = .rtitCtl (rtitCtlShadow config) ∨
      w = .rtitOutputMaskPtrs options.outputMask ∨ w = .rtitOutputBase options.topaTablePa := by
  refine ⟨configureWrites_cases, fun h => ?_⟩
  obtain ⟨henable, rfl⟩ | ⟨n, hn⟩ | rfl | rfl | rfl := h
  · simp only [configureWrites, filterWrites, if_pos henable]
    simp
  · exact mem_addrWrites hn
  · simp [configureWrites]
  · simp [configureWrites]
  · simp [configureWrites]

theorem rtitCtl_mem {v : RtitCtl} :
    .rtitCtl v ∈ configureWrites config options ↔ v = rtitCtlShadow config := by
  simp [mem_configureWrites_iff, mem_addrWrites_iff]

theorem cr3Match_mem {v : BitVec 64} : .rtitCr3Match v ∈ configureWrites config options ↔
    config.filteringOptions.filterCr3.enable ≠ 0 ∧
      v = config.filteringOptions.filterCr3.cr3Address := by
  simp [mem_configureWrites_iff, mem_addrWrites_iff]

/-- The bounds are written for every range that is not unused, counted or not. -/
theorem addrA_mem {n : Fin 4} {v : BitVec 64} : .rtitAddrA n v ∈ configureWrites config options ↔
    (config.filteringOptions.filterRange.rangeOptions n).rangeType ≠ rangeUnused ∧
      v = (config.filteringOptions.filterRange.rangeOptions n).baseAddress := by
  simp [mem_configureWrites_iff, mem_addrWrites_iff]

theorem addrB_mem {n : Fin 4} {v : BitVec 64} : .rtitAddrB n v ∈ configureWrites config options ↔
    (config.filteringOptions.filterRange.rangeOptions n).rangeType ≠ rangeUnused ∧
      v = (config.filteringOptions.filterRange.rangeOptions n).endAddress := by
  simp [mem_configureWrites_iff, mem_addrWrites_iff]

theorem writesExact_iff : WritesExact config (configureWrites config options) ↔
    ControlExact config (rtitCtlShadow config).raw ∧
      ∀ n, (config.filteringOptions.filterRange.rangeOptions n).rangeType ≠ rangeUnused ↔
        requestedType config n ≠ rangeUnused := by
  constructor
  · intro h
    obtain ⟨ctl, hctl, hexact⟩ := h.control
    obtain rfl : rtitCtlShadow config = ctl := (hctl _).mp (rtitCtl_mem.mpr rfl)
    refine ⟨hexact, fun n => ?_⟩
    have haddr := h.addrA n (config.filteringOptions.filterRange.rangeOptions n).baseAddress
    rw [addrA_mem, and_iff_left rfl, and_iff_left rfl] at haddr
    exact haddr
  · intro h
    obtain ⟨hexact, hused⟩ := h
    refine ⟨⟨rtitCtlShadow config, fun v => rtitCtl_mem, hexact⟩, fun v => cr3Match_mem,
      fun n v => ?_, fun n v => ?_⟩
    · rw [addrA_mem, hused n]
    · rw [addrB_mem, hused n]

end

theorem written_hw (core : Core) : (hw core).written = core.written := by
  cases he : core.env <;> simp [hw, he, Core.hardware, Core.written]

theorem written_writeMsr (w : MsrWrite) (core : Core) :
    (writeMsr hw w core).written = core.written ++ [w] := by
  have hwrote : (wrote w (hw core)).written = (hw core).written ++ [w] := by
    cases w <;> simp [wrote, Core.written, Core.apply]
  rw [writeMsr, hwrote, written_hw]

theorem written_configure (config : IntelPtConfiguration) (options : IntelPtOutputOptions)
    (core : Core) : (iptConfigureProcessorTrace hw config options core).written =
      core.written ++ configureWrites config options := by
  rw [iptConfigureProcessorTrace]
  generalize configureWrites config options = writes
  induction writes generalizing core with
  | nil => simp
  | cons w writes ih =>
    rw [List.foldl_cons, ih, written_writeMsr, List.append_assoc]
    rfl

/-! The ranges of an accepted request. -/

theorem AcceptedRequest.not_rejected (r : AcceptedRequest) : ¬ RangeRejected r.config := by
  intro h
  have haccepted := r.accepted
  obtain ⟨-, hv⟩ | ⟨-, hv⟩ := validate_cases r.capabilities r.config r.beyond
  · rw [hv, (checkRanges_of_rejected h r.beyond).1] at haccepted
    cases haccepted
  · rw [hv] at haccepted
    cases haccepted

theorem type_fits {rangeType : BitVec 32} (h : rangeType.toInt < rangeMax.toInt) :
    rangeType.toNat < 16 ↔
      rangeType = rangeUnused ∨ rangeType = rangeFilterEn ∨ rangeType = rangeTraceStop := by
  have hmax : rangeMax.toInt = 3 := rfl
  constructor
  · intro hlt
    have hint : rangeType.toInt = rangeType.toNat := by
      rw [BitVec.toInt_eq_toNat_cond, if_pos (by omega)]
    have hcases : rangeType.toNat = 0 ∨ rangeType.toNat = 1 ∨ rangeType.toNat = 2 := by omega
    obtain h0 | h1 | h2 := hcases
    · exact Or.inl (BitVec.eq_of_toNat_eq h0)
    · exact Or.inr (Or.inl (BitVec.eq_of_toNat_eq h1))
    · exact Or.inr (Or.inr (BitVec.eq_of_toNat_eq h2))
  · intro h
    obtain rfl | rfl | rfl := h <;> decide

theorem AcceptedRequest.range_iff (r : AcceptedRequest) (n : Fin 4) :
    (((r.config.filteringOptions.filterRange.rangeOptions n).rangeType.setWidth 4).toNat =
        (requestedType r.config n).toNat ∧
      ((r.config.filteringOptions.filterRange.rangeOptions n).rangeType ≠ rangeUnused ↔
        requestedType r.config n ≠ rangeUnused)) ↔
    ((r.config.filteringOptions.filterRange.rangeOptions n).rangeType = rangeUnused ∨
      RangeRequested r.config n ∧
        ((r.config.filteringOptions.filterRange.rangeOptions n).rangeType = rangeFilterEn ∨
          (r.config.filteringOptions.filterRange.rangeOptions n).rangeType = rangeTraceStop)) := by
  rw [requestedType]
  split
  · rename_i hrequested
    have hlt : (r.config.filteringOptions.filterRange.rangeOptions n).rangeType.toInt <
        rangeMax.toInt := by
      by_contra hle
      exact r.not_rejected ⟨n, hrequested.2, Int.not_lt.mp hle⟩
    rw [toNat_code, type_fits hlt]
    simp only [hrequested, true_and, and_true, iff_self]
  · rename_i hrequested
    simp only [hrequested, false_and, or_false]
    constructor
    · intro h
      obtain ⟨-, hused⟩ := h
      exact Decidable.not_not.mp fun hne => hused.mp hne rfl
    · intro h
      rw [h]
      exact ⟨rfl, Iff.rfl⟩

/-- The registers say what was requested exactly if no word is narrowed to another value and no
range is programmed that was not requested. -/
theorem encodesRequest_iff (r : AcceptedRequest) : EncodesRequest r ↔ Representable r.config := by
  have hwrites (options : IntelPtOutputOptions) :
      WritesExact r.config (configureWrites r.config options) ↔ Representable r.config := by
    rw [writesExact_iff, controlExact_iff]
    constructor
    · intro h
      obtain ⟨⟨hoptions, -, hranges⟩, hused⟩ := h
      exact ⟨hoptions, fun n => (r.range_iff n).mp ⟨hranges n, hused n⟩⟩
    · intro h
      have hn (n : Fin 4) := (r.range_iff n).mpr (h.ranges n)
      exact ⟨⟨h.options, r.frequencies, fun n => (hn n).1⟩, fun n => (hn n).2⟩
  constructor
  · intro h
    obtain ⟨writes, hwritten, hexact⟩ := h { topaEntries := 0 } {}
    rw [written_configure, List.append_cancel_left_eq] at hwritten
    rw [← hwritten] at hexact
    exact (hwrites _).mp hexact
  · intro h options core
    exact ⟨_, written_configure r.config options core, (hwrites options).mpr h⟩

/-- The word 2 for TscEn is accepted, and TscEn stays 0. -/
theorem not_encodesRequest_even_word : ¬ ∀ r, EncodesRequest r := by
  intro h
  let config : IntelPtConfiguration :=
    { packetGenerationOptions := { packetTsc := { enable := 2 } } }
  have hr := h ⟨config, {}, fun _ => 0, by decide, by decide⟩
  obtain ⟨writes, hwritten, hexact⟩ := hr { topaEntries := 0 } {}
  rw [written_configure, List.append_cancel_left_eq] at hwritten
  obtain ⟨ctl, hctl, hcontrol⟩ := hexact.control
  obtain rfl : rtitCtlShadow config = ctl :=
    (hctl _).mp (by rw [← hwritten]; exact rtitCtl_mem.mpr rfl)
  have htsc := (hcontrol.options (10, 2) (by decide)).mpr (by decide)
  rw [shadow_options config (10, 2) (by decide)] at htsc
  exact absurd htsc (by decide)

theorem threadCreation_unused (cr3 gImageBasePaEnd : BitVec 64) (n : Fin 4) :
    ((threadCreationConfiguration cr3 0 gImageBasePaEnd).filteringOptions.filterRange.rangeOptions
      n).rangeType = rangeUnused := by
  match n with
  | 0 | 1 | 2 | 3 => rfl

/-- The driver's own request counts no range where it gives one. -/
theorem threadCreation_representable_iff (cr3 gImageBasePaStart gImageBasePaEnd : BitVec 64) :
    Representable (threadCreationConfiguration cr3 gImageBasePaStart gImageBasePaEnd) ↔
      gImageBasePaStart = 0 := by
  constructor
  · intro h
    by_contra hne
    obtain hunused | ⟨⟨-, hcounted⟩, -⟩ := h.ranges 0
    · exact hne (by simpa [threadCreationConfiguration, rangeFilterEn, rangeUnused] using hunused)
    · simp only [threadCreationConfiguration, if_pos hne] at hcounted
      exact absurd hcounted (by decide)
  · intro h
    subst h
    refine ⟨?_, fun n => Or.inl (threadCreation_unused cr3 gImageBasePaEnd n)⟩
    simp [oneBitOptions, threadCreationConfiguration, oneBit]

end IntelPt.Driver
