import IntelPt.Driver.ProcessorTraceShared

/-! IptValidateConfigurationRequest against IptConfigureProcessorTrace: what an accepted
request programs is backed by a reported capability exactly under `Supported`. -/
namespace IntelPt.Driver

/- `((!capability) && (option)) ? FALSE : TRUE` -/
def ptOptionIsSupported (capability : Bool) (option : BitVec 16) : Bool :=
  !(!capability && option != 0)

/- The range type the loop reads: past the array, whatever memory holds there. -/
def rangeTypeAt (config : IntelPtConfiguration) (beyond : Nat → BitVec 32) (n : Nat) : BitVec 32 :=
  if h : n < 4 then (config.filteringOptions.filterRange.rangeOptions ⟨n, h⟩).rangeType
  else beyond n

/-- The loop over the ranges, `left` of them still to read, with the indices it reads. The
enumeration is an `int`, so the comparison is signed. -/
def checkRanges (rangeType : Nat → BitVec 32) : Nat → Nat → NtStatus × List Nat
  | 0, _ => (.success, [])
  | left + 1, crtAddrRng =>
    if rangeMax.sle (rangeType crtAddrRng) then (.notSupported, [crtAddrRng])
    else
      let (status, reads) := checkRanges rangeType left (crtAddrRng + 1)
      (status, crtAddrRng :: reads)

/-- The status and the indices of RangeOptions that were read. -/
def iptValidateConfigurationRequest (getCapabilities : Except NtStatus IntelPtCapabilities)
    (config : IntelPtConfiguration) (beyond : Nat → BitVec 32) : NtStatus × List Nat :=
  match getCapabilities with
  | .error status => (status, [])
  | .ok capabilities =>
    let packets := config.packetGenerationOptions
    let filters := config.filteringOptions
    if !ptOptionIsSupported capabilities.configurablePsbAndCycleAccurateModeSupport
        packets.packetCyc.enable then (.notSupported, [])
    else if !ptOptionIsSupported capabilities.ptwriteSupport
        packets.misc.enableFupPacketsAfterPtw then (.notSupported, [])
    else if !ptOptionIsSupported capabilities.mtcSupport
        packets.packteMtc.enable then (.notSupported, [])
    else if !ptOptionIsSupported capabilities.ptwriteSupport
        packets.packetPtw.enable then (.notSupported, [])
    else if !ptOptionIsSupported capabilities.psbAndPmiPreservationSupport
        packets.misc.injectPsbPmiOnEnable then (.notSupported, [])
    else if !ptOptionIsSupported capabilities.cr3FilteringSupport
        filters.filterCr3.enable then (.notSupported, [])
    else if capabilities.maximumValidSubleaf.toNat < 1 && filters.filterRange.enable != 0 then
      (.notSupported, [])
    else if capabilities.numberOfAddressRanges.toNat <
        filters.filterRange.numberOfRanges.toNat then (.notSupported, [])
    else checkRanges (rangeTypeAt config beyond) filters.filterRange.numberOfRanges.toNat 0

/- Assigning an `unsigned short` to a field of one bit keeps the lowest bit. -/
def oneBit (option : BitVec 16) : Bool := option.getLsbD 0

def rtitCtlShadow (config : IntelPtConfiguration) : RtitCtl :=
  let packets := config.packetGenerationOptions
  let filters := config.filteringOptions
  let addrCfg (n : Fin 4) : BitVec 4 := (filters.filterRange.rangeOptions n).rangeType.setWidth 4
  { cycEn := oneBit packets.packetCyc.enable
    os := oneBit filters.filterCpl.filterKm
    user := oneBit filters.filterCpl.filterUm
    pwrEvtEn := oneBit packets.packetPwr.enable
    fupOnPtw := oneBit packets.misc.enableFupPacketsAfterPtw
    cr3Filter := oneBit filters.filterCr3.enable
    mtcEn := oneBit packets.packteMtc.enable
    tscEn := oneBit packets.packetTsc.enable
    disRetc := oneBit packets.misc.disableRetCompression
    ptwEn := oneBit packets.packetPtw.enable
    branchEn := oneBit packets.packetCofi.enable
    mtcFreq := packets.packteMtc.frequency.setWidth 4
    cycThresh := packets.packetCyc.frequency.setWidth 4
    psbFreq := packets.misc.psbFrequency.setWidth 4
    addr0Cfg := addrCfg 0
    addr1Cfg := addrCfg 1
    addr2Cfg := addrCfg 2
    addr3Cfg := addrCfg 3
    injectPsbPmiOnEnable := oneBit packets.misc.injectPsbPmiOnEnable
    fabricEn := false
    toPA := true }

def addrWrites (config : IntelPtConfiguration) (n : Fin 4) : List MsrWrite :=
  let range := config.filteringOptions.filterRange.rangeOptions n
  if range.rangeType ≠ rangeUnused then
    [.rtitAddrA n range.baseAddress, .rtitAddrB n range.endAddress]
  else []

def filterWrites (config : IntelPtConfiguration) : List MsrWrite :=
  let cr3 := config.filteringOptions.filterCr3
  (if cr3.enable ≠ 0 then [.rtitCr3Match cr3.cr3Address] else []) ++
    addrWrites config 0 ++ addrWrites config 1 ++ addrWrites config 2 ++ addrWrites config 3

def configureWrites (config : IntelPtConfiguration) (options : IntelPtOutputOptions) :
    List MsrWrite :=
  filterWrites config ++
    [.rtitCtl (rtitCtlShadow config), .rtitOutputMaskPtrs options.outputMask,
      .rtitOutputBase options.topaTablePa]

/-! What the claims of the configuration are. -/

def RangeBacked (capabilities : IntelPtCapabilities) (config : IntelPtConfiguration) (n : Fin 4) :
    Prop :=
  n.val < capabilities.numberOfAddressRanges.toNat ∧
    (config.filteringOptions.filterRange.rangeOptions n).rangeType.toInt < rangeMax.toInt

def Backed (capabilities : IntelPtCapabilities) (config : IntelPtConfiguration) :
    MsrWrite → Prop
  | .rtitCtl ctl =>
    (ctl.pwrEvtEn = true → capabilities.powerEventTraceSupport = true) ∧
      (ctl.ptwEn = true ∨ ctl.fupOnPtw = true → capabilities.ptwriteSupport = true) ∧
      (ctl.mtcEn = true → capabilities.mtcSupport = true) ∧
      (ctl.cycEn = true → capabilities.configurablePsbAndCycleAccurateModeSupport = true) ∧
      (ctl.cr3Filter = true → capabilities.cr3FilteringSupport = true) ∧
      ∀ n, ctl.addrCfg n ≠ 0 → RangeBacked capabilities config n
  | .rtitCr3Match _ => capabilities.cr3FilteringSupport = true
  | .rtitAddrA n _ | .rtitAddrB n _ => RangeBacked capabilities config n
  | _ => True

def ValidationSound (capabilities : IntelPtCapabilities) (config : IntelPtConfiguration)
    (options : IntelPtOutputOptions) (beyond : Nat → BitVec 32) : Prop :=
  let (status, reads) := iptValidateConfigurationRequest (.ok capabilities) config beyond
  (status = .success → ∀ w ∈ configureWrites config options, Backed capabilities config w) ∧
    ∀ n ∈ reads, n < 4

structure OptionsPass (capabilities : IntelPtCapabilities) (config : IntelPtConfiguration) :
    Prop where
  packetCyc : ptOptionIsSupported capabilities.configurablePsbAndCycleAccurateModeSupport
    config.packetGenerationOptions.packetCyc.enable = true
  fupAfterPtw : ptOptionIsSupported capabilities.ptwriteSupport
    config.packetGenerationOptions.misc.enableFupPacketsAfterPtw = true
  packteMtc : ptOptionIsSupported capabilities.mtcSupport
    config.packetGenerationOptions.packteMtc.enable = true
  packetPtw : ptOptionIsSupported capabilities.ptwriteSupport
    config.packetGenerationOptions.packetPtw.enable = true
  injectPsb : ptOptionIsSupported capabilities.psbAndPmiPreservationSupport
    config.packetGenerationOptions.misc.injectPsbPmiOnEnable = true
  filterCr3 : ptOptionIsSupported capabilities.cr3FilteringSupport
    config.filteringOptions.filterCr3.enable = true
  subleaf : capabilities.maximumValidSubleaf.toNat < 1 →
    config.filteringOptions.filterRange.enable = 0
  numberOfRanges : config.filteringOptions.filterRange.numberOfRanges.toNat ≤
    capabilities.numberOfAddressRanges.toNat

def RangeRejected (config : IntelPtConfiguration) : Prop :=
  ∃ n : Fin 4, n.val < config.filteringOptions.filterRange.numberOfRanges.toNat ∧
    rangeMax.toInt ≤ (config.filteringOptions.filterRange.rangeOptions n).rangeType.toInt

/-- The ranges fit the array, power events are supported or not asked for, and every range,
counted or not, is unused or backed. -/
structure Covered (capabilities : IntelPtCapabilities) (config : IntelPtConfiguration) : Prop where
  fits : config.filteringOptions.filterRange.numberOfRanges.toNat ≤ 4
  packetPwr : oneBit config.packetGenerationOptions.packetPwr.enable = true →
    capabilities.powerEventTraceSupport = true
  ranges : ∀ n, (config.filteringOptions.filterRange.rangeOptions n).rangeType = rangeUnused ∨
    RangeBacked capabilities config n

def Supported (capabilities : IntelPtCapabilities) (config : IntelPtConfiguration) : Prop :=
  OptionsPass capabilities config → RangeRejected config ∨ Covered capabilities config

/-! The loop. -/

theorem checkRanges_accept (rangeType : Nat → BitVec 32) (left : Nat) :
    ∀ crt, (∀ n, crt ≤ n → n < crt + left → rangeMax.sle (rangeType n) = false) →
      checkRanges rangeType left crt = (.success, List.range' crt left) := by
  induction left with
  | zero => intro crt _; rfl
  | succ left ih =>
    intro crt h
    have hcrt := h crt (by omega) (by omega)
    have htail := ih (crt + 1) fun n h1 h2 => h n (by omega) (by omega)
    simp [checkRanges, hcrt, htail, List.range'_succ]

/-- The loop reads up to the first range it rejects. -/
theorem checkRanges_reject {rangeType : Nat → BitVec 32} {n : Nat}
    (hbad : rangeMax.sle (rangeType n) = true) (left : Nat) :
    ∀ crt, crt ≤ n → n < crt + left →
      (checkRanges rangeType left crt).1 = .notSupported ∧
        ∀ i ∈ (checkRanges rangeType left crt).2, i ≤ n := by
  induction left with
  | zero => intro crt h1 h2; omega
  | succ left ih =>
    intro crt hn hlt
    cases hcrt : rangeMax.sle (rangeType crt) with
    | true => simp [checkRanges, hcrt, hn]
    | false =>
      have hne : crt ≠ n := by
        intro heq
        rw [← heq, hcrt] at hbad
        cases hbad
      obtain ⟨hs, hr⟩ := ih (crt + 1) (by omega) (by omega)
      simp only [checkRanges, hcrt, Bool.false_eq_true, if_false]
      refine ⟨hs, fun i hi => ?_⟩
      obtain rfl | hi := List.mem_cons.mp hi
      · exact hn
      · exact hr i hi

theorem checkRanges_reads (rangeType : Nat → BitVec 32) (n left : Nat) :
    ∀ crt, crt ≤ n → n < crt + left →
      (∀ i, crt ≤ i → i < n → rangeMax.sle (rangeType i) = false) →
      n ∈ (checkRanges rangeType left crt).2 := by
  induction left with
  | zero => intro crt h1 h2; omega
  | succ left ih =>
    intro crt hn hlt hok
    by_cases heq : crt = n
    · subst heq
      cases hcrt : rangeMax.sle (rangeType crt) <;> simp [checkRanges, hcrt]
    · have hcrt := hok crt (by omega) (by omega)
      have hmem := ih (crt + 1) (by omega) (by omega) fun i h1 h2 => hok i (by omega) h2
      simp [checkRanges, hcrt, hmem]

/-- The checks before the loop either pass or end the request without a read. -/
theorem validate_cases (capabilities : IntelPtCapabilities) (config : IntelPtConfiguration)
    (beyond : Nat → BitVec 32) :
    (OptionsPass capabilities config ∧
        iptValidateConfigurationRequest (.ok capabilities) config beyond =
          checkRanges (rangeTypeAt config beyond)
            config.filteringOptions.filterRange.numberOfRanges.toNat 0) ∨
      (¬ OptionsPass capabilities config ∧
        iptValidateConfigurationRequest (.ok capabilities) config beyond =
          (.notSupported, [])) := by
  have hno : ∀ b : Bool, (!b) = true → b ≠ true := by decide
  simp only [iptValidateConfigurationRequest]
  split_ifs with h1 h2 h3 h4 h5 h6 h7 h8
  · exact Or.inr ⟨fun h => hno _ h1 h.packetCyc, rfl⟩
  · exact Or.inr ⟨fun h => hno _ h2 h.fupAfterPtw, rfl⟩
  · exact Or.inr ⟨fun h => hno _ h3 h.packteMtc, rfl⟩
  · exact Or.inr ⟨fun h => hno _ h4 h.packetPtw, rfl⟩
  · exact Or.inr ⟨fun h => hno _ h5 h.injectPsb, rfl⟩
  · exact Or.inr ⟨fun h => hno _ h6 h.filterCr3, rfl⟩
  · refine Or.inr ⟨fun h => ?_, rfl⟩
    simp only [Bool.and_eq_true, decide_eq_true_eq, bne_iff_ne] at h7
    exact h7.2 (h.subleaf h7.1)
  · exact Or.inr ⟨fun h => Nat.not_lt.mpr h.numberOfRanges h8, rfl⟩
  · refine Or.inl ⟨⟨by simpa using h1, by simpa using h2, by simpa using h3, by simpa using h4,
      by simpa using h5, by simpa using h6, ?_, Nat.not_lt.mp h8⟩, rfl⟩
    intro hs
    by_contra hne
    exact h7 (by rw [Bool.and_eq_true, decide_eq_true_eq, bne_iff_ne]; exact ⟨hs, hne⟩)

/-! What is programmed. -/

theorem supported_of_ne_zero {capability : Bool} {option : BitVec 16}
    (h : ptOptionIsSupported capability option = true) (ho : option ≠ 0) : capability = true := by
  cases capability with
  | true => rfl
  | false =>
    have hz : option = 0 := by simpa [ptOptionIsSupported] using h
    exact absurd hz ho

theorem supported_of_oneBit {capability : Bool} {option : BitVec 16}
    (h : ptOptionIsSupported capability option = true) (ho : oneBit option = true) :
    capability = true := by
  refine supported_of_ne_zero h fun hz => ?_
  simp [hz, oneBit] at ho

theorem addrCfg_shadow (config : IntelPtConfiguration) (n : Fin 4) :
    (rtitCtlShadow config).addrCfg n =
      (config.filteringOptions.filterRange.rangeOptions n).rangeType.setWidth 4 := by
  match n with
  | 0 | 1 | 2 | 3 => rfl

theorem used_of_addrCfg {config : IntelPtConfiguration} {n : Fin 4}
    (h : (rtitCtlShadow config).addrCfg n ≠ 0) :
    (config.filteringOptions.filterRange.rangeOptions n).rangeType ≠ rangeUnused := by
  intro hu
  rw [addrCfg_shadow, hu] at h
  exact h rfl

theorem mem_addrWrites {config : IntelPtConfiguration} {options : IntelPtOutputOptions}
    {w : MsrWrite} {n : Fin 4} (h : w ∈ addrWrites config n) :
    w ∈ configureWrites config options := by
  match n with
  | 0 | 1 | 2 | 3 => simp [configureWrites, filterWrites, h]

theorem configureWrites_cases {config : IntelPtConfiguration} {options : IntelPtOutputOptions}
    {w : MsrWrite} (h : w ∈ configureWrites config options) :
    (config.filteringOptions.filterCr3.enable ≠ 0 ∧
        w = .rtitCr3Match config.filteringOptions.filterCr3.cr3Address) ∨
      (∃ n, w ∈ addrWrites config n) ∨ w = .rtitCtl (rtitCtlShadow config) ∨
      w = .rtitOutputMaskPtrs options.outputMask ∨ w = .rtitOutputBase options.topaTablePa := by
  simp only [configureWrites, filterWrites, List.mem_append, List.mem_cons, List.not_mem_nil,
    or_false] at h
  obtain ((((h | h) | h) | h) | h) | h := h
  · split at h
    · exact Or.inl ⟨‹_›, List.mem_singleton.mp h⟩
    · cases h
  · exact Or.inr (Or.inl ⟨0, h⟩)
  · exact Or.inr (Or.inl ⟨1, h⟩)
  · exact Or.inr (Or.inl ⟨2, h⟩)
  · exact Or.inr (Or.inl ⟨3, h⟩)
  · exact Or.inr (Or.inr h)

theorem rangeType_lt {config : IntelPtConfiguration} {capabilities : IntelPtCapabilities}
    (h : Covered capabilities config) (n : Fin 4) :
    (config.filteringOptions.filterRange.rangeOptions n).rangeType.toInt < rangeMax.toInt := by
  obtain hu | hb := h.ranges n
  · rw [hu]
    decide
  · exact hb.2

theorem backed_of_covered {config : IntelPtConfiguration} {capabilities : IntelPtCapabilities}
    (hp : OptionsPass capabilities config) (hc : Covered capabilities config)
    {options : IntelPtOutputOptions} :
    ∀ w ∈ configureWrites config options, Backed capabilities config w := by
  intro w hw
  obtain ⟨he, rfl⟩ | ⟨n, hn⟩ | rfl | rfl | rfl := configureWrites_cases hw
  · exact supported_of_ne_zero hp.filterCr3 he
  · simp only [addrWrites] at hn
    split at hn
    · have hb := (hc.ranges n).resolve_left ‹_›
      simp only [List.mem_cons, List.not_mem_nil, or_false] at hn
      obtain rfl | rfl := hn <;> exact hb
    · cases hn
  · refine ⟨hc.packetPwr, ?_, supported_of_oneBit hp.packteMtc, supported_of_oneBit hp.packetCyc,
      supported_of_oneBit hp.filterCr3, fun n hn => (hc.ranges n).resolve_left (used_of_addrCfg hn)⟩
    intro h
    obtain h | h := h
    · exact supported_of_oneBit hp.packetPtw h
    · exact supported_of_oneBit hp.fupAfterPtw h
  · trivial
  · trivial

theorem covered_of_backed {config : IntelPtConfiguration} {capabilities : IntelPtCapabilities}
    (hfit : config.filteringOptions.filterRange.numberOfRanges.toNat ≤ 4)
    {options : IntelPtOutputOptions}
    (h : ∀ w ∈ configureWrites config options, Backed capabilities config w) :
    Covered capabilities config where
  fits := hfit
  packetPwr := (h (.rtitCtl (rtitCtlShadow config)) (by simp [configureWrites])).1
  ranges := by
    intro n
    by_cases hu : (config.filteringOptions.filterRange.rangeOptions n).rangeType = rangeUnused
    · exact Or.inl hu
    · right
      let base := (config.filteringOptions.filterRange.rangeOptions n).baseAddress
      have hmem : MsrWrite.rtitAddrA n base ∈ addrWrites config n := by simp [addrWrites, hu, base]
      exact h (.rtitAddrA n base) (mem_addrWrites hmem)

/-! The loop on a configuration. -/

theorem rangeTypeAt_val (config : IntelPtConfiguration) (beyond : Nat → BitVec 32) (n : Fin 4) :
    rangeTypeAt config beyond n = (config.filteringOptions.filterRange.rangeOptions n).rangeType :=
  dif_pos n.isLt

theorem accepted_of_not_rejected {config : IntelPtConfiguration} (h : ¬ RangeRejected config)
    (beyond : Nat → BitVec 32) {n : Nat} (h4 : n < 4)
    (hn : n < config.filteringOptions.filterRange.numberOfRanges.toNat) :
    rangeMax.sle (rangeTypeAt config beyond n) = false := by
  rw [Bool.eq_false_iff, Ne, BitVec.sle_iff_toInt_le, rangeTypeAt_val config beyond ⟨n, h4⟩]
  exact fun hle => h ⟨⟨n, h4⟩, hn, hle⟩

/-- With five ranges and more and none rejected the loop reads behind the array. -/
theorem fits_of_reads {config : IntelPtConfiguration} {beyond : Nat → BitVec 32}
    (h : ¬ RangeRejected config)
    (hreads : ∀ n ∈ (checkRanges (rangeTypeAt config beyond)
      config.filteringOptions.filterRange.numberOfRanges.toNat 0).2, n < 4) :
    config.filteringOptions.filterRange.numberOfRanges.toNat ≤ 4 := by
  by_contra hlt
  have hmem := checkRanges_reads (rangeTypeAt config beyond) 4
    config.filteringOptions.filterRange.numberOfRanges.toNat 0 (by omega) (by omega)
    fun i _ hi => accepted_of_not_rejected h beyond hi (by omega)
  have := hreads 4 hmem
  omega

theorem checkRanges_of_fits {config : IntelPtConfiguration} (h : ¬ RangeRejected config)
    (hfit : config.filteringOptions.filterRange.numberOfRanges.toNat ≤ 4)
    (beyond : Nat → BitVec 32) :
    checkRanges (rangeTypeAt config beyond)
        config.filteringOptions.filterRange.numberOfRanges.toNat 0 =
      (.success, List.range' 0 config.filteringOptions.filterRange.numberOfRanges.toNat) :=
  checkRanges_accept _ _ 0 fun _ _ hn =>
    accepted_of_not_rejected h beyond (by omega) (by omega)

theorem checkRanges_of_rejected {config : IntelPtConfiguration} (h : RangeRejected config)
    (beyond : Nat → BitVec 32) :
    (checkRanges (rangeTypeAt config beyond)
        config.filteringOptions.filterRange.numberOfRanges.toNat 0).1 = .notSupported ∧
      ∀ i ∈ (checkRanges (rangeTypeAt config beyond)
        config.filteringOptions.filterRange.numberOfRanges.toNat 0).2, i < 4 := by
  obtain ⟨n, hn, hle⟩ := h
  have hbad : rangeMax.sle (rangeTypeAt config beyond n) = true := by
    rw [BitVec.sle_iff_toInt_le, rangeTypeAt_val]
    exact hle
  obtain ⟨hstatus, hreads⟩ := checkRanges_reject hbad
    config.filteringOptions.filterRange.numberOfRanges.toNat 0 (by omega) (by omega)
  refine ⟨hstatus, fun i hi => ?_⟩
  have := hreads i hi
  omega

theorem Covered.not_rejected {config : IntelPtConfiguration} {capabilities : IntelPtCapabilities}
    (h : Covered capabilities config) : ¬ RangeRejected config := by
  intro hrejected
  obtain ⟨n, -, hle⟩ := hrejected
  have := rangeType_lt h n
  omega

theorem validationSound_iff (capabilities : IntelPtCapabilities) (config : IntelPtConfiguration)
    (options : IntelPtOutputOptions) (beyond : Nat → BitVec 32) :
    ValidationSound capabilities config options beyond ↔ Supported capabilities config := by
  obtain ⟨hp, hv⟩ | ⟨hp, hv⟩ := validate_cases capabilities config beyond
  · simp only [ValidationSound, hv]
    constructor
    · intro hsound _
      obtain ⟨hsound, hreads⟩ := hsound
      by_cases hrejected : RangeRejected config
      · exact Or.inl hrejected
      · have hfit := fits_of_reads hrejected hreads
        have hloop := checkRanges_of_fits hrejected hfit beyond
        exact Or.inr (covered_of_backed hfit (hsound (by rw [hloop])))
    · intro h
      obtain hrejected | hc := h hp
      · obtain ⟨hstatus, hreads⟩ := checkRanges_of_rejected hrejected beyond
        refine ⟨fun h => ?_, hreads⟩
        rw [hstatus] at h
        cases h
      · rw [checkRanges_of_fits hc.not_rejected hc.fits beyond]
        refine ⟨fun _ => backed_of_covered hp hc, fun i hi => ?_⟩
        have := hc.fits
        rw [List.mem_range'_1] at hi
        omega
  · simp only [ValidationSound, hv]
    exact ⟨fun _ h => absurd h hp, fun _ => ⟨nofun, nofun⟩⟩

/-! The request the driver itself makes. -/

def threadCreationConfiguration (cr3 gImageBasePaStart gImageBasePaEnd : BitVec 64) :
    IntelPtConfiguration where
  filteringOptions := {
    filterCpl := { filterKm := 0, filterUm := 1 }
    filterCr3 := { enable := 1, cr3Address := cr3 }
    filterRange := {
      enable := if gImageBasePaStart ≠ 0 then 1 else 0
      numberOfRanges := if gImageBasePaStart ≠ 0 then 0 else 1
      rangeOptions := ![{
        baseAddress := gImageBasePaStart
        endAddress := gImageBasePaEnd
        rangeType := if gImageBasePaStart ≠ 0 then rangeFilterEn else rangeUnused }, {}, {}, {}] } }
  packetGenerationOptions := {
    packetCofi := { enable := 1 }
    packetTsc := { enable := 1 }
    misc := { psbFrequency := 1, disableRetCompression := 1 } }

/-- Hardware with CR3 filtering and no address range accepts it, and range 0 is programmed. -/
theorem not_validationSound_threadCreation :
    ¬ ∀ capabilities config options beyond,
      ValidationSound capabilities config options beyond := by
  intro h
  let capabilities : IntelPtCapabilities :=
    { maximumValidSubleaf := 1, cr3FilteringSupport := true }
  let config := threadCreationConfiguration 0x1000 0x400000 0x500000
  have hsound := (h capabilities config { topaEntries := 10 } fun _ => 0).1 (by decide +kernel)
  have hrange : RangeBacked capabilities config 0 :=
    hsound (.rtitAddrA 0 0x400000) (mem_addrWrites (n := 0) (by decide +kernel))
  exact absurd hrange.1 (by decide +kernel)

end IntelPt.Driver
