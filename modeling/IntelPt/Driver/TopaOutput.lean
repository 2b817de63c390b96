import IntelPt.Driver.CoreInvariants
import IntelPt.Lib.Bits
import Mathlib.Algebra.Group.Nat.Defs
import Mathlib.Data.List.GetD

/-! The ToPA output of a core: how the table is filled, what unlinking does when there are no
pages for a new buffer, and the size both functions read off the position register. -/
namespace IntelPt.Driver

/-! The table. -/

structure TopaAllocation where
  entriesCount : Nat
  positive : 1 ≤ entriesCount
  topaTable : List TopaEntry
  sized : topaTable.length = entriesCount + 1
  nextTopaPa : BitVec 64
  aligned : nextTopaPa.toNat % 4096 = 0
  pages : Option Mdl
  full : ∀ mdl ∈ pages, mdl.pfns.length = entriesCount

def TopaAllocation.result (a : TopaAllocation) : NtStatus × List TopaEntry × Option Mdl :=
  iptAllocateNewTopaBuffer a.entriesCount a.topaTable a.nextTopaPa a.pages

def size4K : BitVec 4 := 0

/-- The entries of the buffer, in order, one of them with INT, and the entry that closes the
table. -/
structure FilledTable (a : TopaAllocation) (mdl : Mdl) (topaTable : List TopaEntry) : Prop where
  length : topaTable.length = a.entriesCount + 1
  frames : (topaTable.take a.entriesCount).map (·.outputRegionBasePhysicalAddress) = mdl.pfns
  plain : ∀ e ∈ topaTable.take a.entriesCount, e.«end» = false ∧ e.stop = false ∧ e.size = size4K
  interrupt : ∃! i, i < a.entriesCount ∧ (topaTable.getD i {}).int = true
  last : (topaTable.getD a.entriesCount {}).«end» = true ∧
    (topaTable.getD a.entriesCount {}).int = false ∧
    (topaTable.getD a.entriesCount {}).stop = false
  back : (topaTable.getD a.entriesCount {}).outputRegionBasePhysicalAddress.toNat * 4096 =
    a.nextTopaPa.toNat

/-- A success fills the table from the new buffer, a failure leaves table and Mdl alone. -/
def TableConstructed (a : TopaAllocation) : Prop :=
  match a.result with
  | (.success, topaTable, newMdl) =>
    ∃ mdl, a.pages = some mdl ∧ newMdl = some mdl ∧ FilledTable a mdl topaTable
  | (_, topaTable, newMdl) => topaTable = a.topaTable ∧ newMdl = none

def filledEntry (mdl : Mdl) (entriesCount i : Nat) : TopaEntry :=
  { outputRegionBasePhysicalAddress := mdl.pfns.getD i 0
    int := i + 2 == entriesCount }

def filledEntries (mdl : Mdl) (entriesCount : Nat) : List TopaEntry :=
  (List.range entriesCount).map (filledEntry mdl entriesCount)

theorem iptAllocateNewTopaBuffer_some (entriesCount : Nat) (topaTable : List TopaEntry)
    (nextTopaPa : BitVec 64) (mdl : Mdl) : ∃ last : TopaEntry,
    iptAllocateNewTopaBuffer entriesCount topaTable nextTopaPa (some mdl) =
        (.success, filledEntries mdl entriesCount ++ [last], some mdl) ∧
      last.«end» = true ∧ last.int = false ∧ last.stop = false ∧
      last.outputRegionBasePhysicalAddress = (nextTopaPa >>> 12).setWidth 52 :=
  ⟨_, rfl, rfl, rfl, rfl, rfl⟩

@[simp] theorem length_filled (mdl : Mdl) (entriesCount : Nat) :
    (filledEntries mdl entriesCount).length = entriesCount := by
  simp [filledEntries]

theorem take_filled (mdl : Mdl) (entriesCount : Nat) (last : TopaEntry) :
    (filledEntries mdl entriesCount ++ [last]).take entriesCount =
      filledEntries mdl entriesCount := by
  rw [List.take_append_of_le_length (by simp), List.take_of_length_le (by simp)]

theorem getD_filled (mdl : Mdl) (last : TopaEntry) {entriesCount i : Nat} (h : i < entriesCount) :
    (filledEntries mdl entriesCount ++ [last]).getD i {} = filledEntry mdl entriesCount i := by
  rw [List.getD_append _ _ _ _ (by simpa using h)]
  simp [filledEntries, List.getD_eq_getElem?_getD, h]

theorem getD_last (mdl : Mdl) (entriesCount : Nat) (last : TopaEntry) :
    (filledEntries mdl entriesCount ++ [last]).getD entriesCount {} = last := by
  rw [List.getD_append_right _ _ _ _ (by simp), length_filled, Nat.sub_self]
  rfl

theorem frames_filled {mdl : Mdl} {entriesCount : Nat} (h : mdl.pfns.length = entriesCount) :
    (filledEntries mdl entriesCount).map (·.outputRegionBasePhysicalAddress) = mdl.pfns := by
  rw [filledEntries, List.map_map]
  refine List.ext_getElem (by simp [h]) fun i hi hi' => ?_
  simp [filledEntry, List.getD_eq_getElem?_getD, List.getElem?_eq_getElem hi']

theorem interrupt_filled (mdl : Mdl) (entriesCount : Nat) (last : TopaEntry) :
    (∃! i, i < entriesCount ∧
      ((filledEntries mdl entriesCount ++ [last]).getD i {}).int = true) ↔ 2 ≤ entriesCount := by
  have hint {i : Nat} (hi : i < entriesCount) :
      ((filledEntries mdl entriesCount ++ [last]).getD i {}).int = true ↔
        i + 2 = entriesCount := by
    rw [getD_filled mdl last hi, filledEntry, beq_iff_eq]
  constructor
  · intro h
    obtain ⟨i, ⟨hi, hlast⟩, -⟩ := h
    have := (hint hi).mp hlast
    omega
  · intro h
    have hlt : entriesCount - 2 < entriesCount := by omega
    refine ⟨entriesCount - 2, ⟨hlt, (hint hlt).mpr (by omega)⟩, fun i hi => ?_⟩
    have := (hint hi.1).mp hi.2
    omega

theorem toNat_tableFrame {nextTopaPa : BitVec 64} (h : nextTopaPa.toNat % 4096 = 0) :
    ((nextTopaPa >>> 12).setWidth 52).toNat * 4096 = nextTopaPa.toNat := by
  have hlt := nextTopaPa.isLt
  rw [BitVec.toNat_setWidth, BitVec.toNat_ushiftRight, Nat.shiftRight_eq_div_pow,
    Nat.mod_eq_of_lt (by omega)]
  omega

/-- Everything but the interrupt is as it should be for any number of entries. -/
theorem filledTable_iff (a : TopaAllocation) {mdl : Mdl} (hp : a.pages = some mdl)
    {last : TopaEntry} (hlast : last.«end» = true ∧ last.int = false ∧ last.stop = false)
    (hframe : last.outputRegionBasePhysicalAddress = (a.nextTopaPa >>> 12).setWidth 52) :
    FilledTable a mdl (filledEntries mdl a.entriesCount ++ [last]) ↔ 2 ≤ a.entriesCount := by
  have hfull : mdl.pfns.length = a.entriesCount := a.full mdl (by rw [hp]; rfl)
  rw [← interrupt_filled mdl a.entriesCount last]
  constructor
  · exact FilledTable.interrupt
  · intro h
    refine ⟨by simp, ?_, ?_, h, ?_, ?_⟩
    · rw [take_filled, frames_filled hfull]
    · rw [take_filled]
      intro e he
      obtain ⟨i, -, rfl⟩ := List.mem_map.mp he
      exact ⟨rfl, rfl, rfl⟩
    · rw [getD_last]
      exact hlast
    · rw [getD_last, hframe]
      exact toNat_tableFrame a.aligned

/-- The table is built as it should be exactly if it has two entries or more, or if there are no
pages. -/
theorem tableConstructed_iff (a : TopaAllocation) :
    TableConstructed a ↔ 2 ≤ a.entriesCount ∨ a.pages = none := by
  cases hp : a.pages with
  | none =>
    refine iff_of_true ?_ (Or.inr rfl)
    simp [TableConstructed, TopaAllocation.result, hp, iptAllocateNewTopaBuffer]
  | some mdl =>
    obtain ⟨last, hresult, hend, hint, hstop, hframe⟩ :=
      iptAllocateNewTopaBuffer_some a.entriesCount a.topaTable a.nextTopaPa mdl
    have hfilled := filledTable_iff a hp ⟨hend, hint, hstop⟩ hframe
    simp only [TableConstructed, TopaAllocation.result, hp, hresult, reduceCtorEq, or_false]
    constructor
    · intro h
      obtain ⟨_, hsome, -, htable⟩ := h
      cases hsome
      exact hfilled.mp htable
    · intro h
      exact ⟨mdl, rfl, rfl, hfilled.mpr h⟩

theorem not_tableConstructed_single : ¬ ∀ a, TableConstructed a := by
  intro h
  have hone := h ⟨1, by decide, [{}, {}], rfl, 0x1000, by decide, some ⟨0, [0x42]⟩, by
    intro mdl hmdl
    cases hmdl
    rfl⟩
  obtain ⟨mdl, hmdl, -, hfilled⟩ := hone
  obtain ⟨i, ⟨hi, hint⟩, -⟩ := hfilled.interrupt
  cases hmdl
  obtain rfl : i = 0 := by
    change i < 1 at hi
    omega
  cases hint

/-! Unlinking without pages. -/

/-- A call of IptUnlinkFullTopaBuffers that asks for a new buffer, in any state that is not
IPT_STATUS_ENABLED, with whatever the hardware does meanwhile. -/
structure UnlinkCall where
  core : Core
  options : IntelPtOutputOptions
  stored : core.options = some options
  not_enabled : options.runningStatus ≠ .enabled
  pages : Option Mdl
  full : ∀ mdl ∈ pages, mdl.pfns.length = options.topaEntries

def UnlinkCall.result (c : UnlinkCall) : NtStatus × Option Mdl × BitVec 32 × Core :=
  iptUnlinkFullTopaBuffers hw c.pages c.options c.core

def Core.topaState (core : Core) : Option (List TopaEntry × Option Mdl) × BitVec 64 × BitVec 64 :=
  (core.options.map fun o => (o.topaTable, o.topaMdl), core.outputBase, core.outputMaskPtrs)

/-- The new buffer is in place, the old one is handed out with the size of what was captured
before the registers were written. -/
structure Unlinked (c : UnlinkCall) (mdl : Option Mdl) (size : BitVec 32) (core : Core) :
    Prop where
  previous : mdl = c.options.topaMdl
  fresh : ∃ options new, core.options = some options ∧ c.pages = some new ∧
    options.topaMdl = some new ∧
    (options.topaTable.take options.topaEntries).map (·.outputRegionBasePhysicalAddress) =
      new.pfns
  size : size = bufferSize (hw (hw c.core)).outputMaskPtrs

def AtomicOnFailure (c : UnlinkCall) : Prop :=
  match c.result with
  | (.success, mdl, size, core) => Unlinked c mdl size core
  | (_, _, _, core) => core.topaState = c.core.topaState

/-- Where the position register stands when the call is over: at the start of the table, or
where the hardware has moved it in the last access. -/
def UnlinkCall.positionAfter (c : UnlinkCall) : BitVec 64 :=
  if c.core.ctl.traceEn then
    (c.core.env[3]?.bind (·.outputMaskPtrs)).getD c.options.outputMask
  else c.options.outputMask

/-- There is a new buffer, or the registers already have what they are reset to. -/
def UnlinkCall.Harmless (c : UnlinkCall) : Prop :=
  c.pages.isSome = true ∨
    c.core.outputBase = c.options.topaTablePa ∧ c.core.outputMaskPtrs = c.positionAfter

/-! The hardware does not touch the rest, and moves the position only while tracing. -/

@[simp] theorem ctl_hw (core : Core) : (hw core).ctl = core.ctl := by
  cases he : core.env <;> simp [hw, he, Core.hardware]

@[simp] theorem env_hw (core : Core) : (hw core).env = core.env.tail := by
  cases he : core.env <;> simp [hw, he, Core.hardware]

theorem outputMaskPtrs_hw (core : Core) : (hw core).outputMaskPtrs =
    if core.ctl.traceEn then (core.env[0]?.bind (·.outputMaskPtrs)).getD core.outputMaskPtrs
    else core.outputMaskPtrs := by
  cases he : core.env <;> simp [hw, he, Core.hardware]

/-- Without pages the registers are reset nevertheless. -/
theorem UnlinkCall.topaState_failed (c : UnlinkCall) (h : c.pages = none) :
    c.result.1 = .insufficientResources ∧ c.result.2.2.2.topaState =
      ((c.core.options.map fun o => (o.topaTable, o.topaMdl)), c.options.topaTablePa,
        c.positionAfter) := by
  simp only [UnlinkCall.result, iptUnlinkFullTopaBuffers, if_neg c.not_enabled, h,
    iptAllocateNewTopaBuffer, storeNewTopa, true_and]
  have hposition : (hw (wrote (.rtitOutputMaskPtrs c.options.outputMask)
      (hw (hw (hw c.core))))).outputMaskPtrs = c.positionAfter := by
    rw [outputMaskPtrs_hw, UnlinkCall.positionAfter]
    simp [wrote, Core.apply]
  have hoptions : (hw (wrote (.rtitOutputMaskPtrs c.options.outputMask)
      (hw (hw (hw c.core))))).options = c.core.options := by
    simp [options_wrote]
  rw [Core.topaState, writeMsr, writeMsr, options_wrote, hoptions, ← hposition]
  rfl

theorem storeNewTopa_position (options : IntelPtOutputOptions) (topaTable : List TopaEntry)
    (newMdl : Option Mdl) (core : Core) :
    (hw (hw (storeNewTopa options topaTable newMdl core))).outputMaskPtrs =
      (hw (hw core)).outputMaskPtrs := by
  have hctl : (storeNewTopa options topaTable newMdl core).ctl = core.ctl := by
    cases newMdl <;> rfl
  have henv : (storeNewTopa options topaTable newMdl core).env = core.env := by
    cases newMdl <;> rfl
  have hposition : (storeNewTopa options topaTable newMdl core).outputMaskPtrs =
      core.outputMaskPtrs := by
    cases newMdl <;> rfl
  simp only [outputMaskPtrs_hw, ctl_hw, env_hw, hctl, henv, hposition]

theorem UnlinkCall.unlinked (c : UnlinkCall) {new : Mdl} (h : c.pages = some new) :
    c.result.1 = .success ∧ Unlinked c c.result.2.1 c.result.2.2.1 c.result.2.2.2 := by
  have hfull : new.pfns.length = c.options.topaEntries := c.full new (by rw [h]; rfl)
  obtain ⟨last, hresult, -⟩ := iptAllocateNewTopaBuffer_some c.options.topaEntries
    c.options.topaTable c.options.topaTablePa new
  let filled := filledEntries new c.options.topaEntries
  have hoptions (v w : BitVec 64) :
      (writeMsr hw (.rtitOutputBase v) (writeMsr hw (.rtitOutputMaskPtrs w)
        (hw (hw (storeNewTopa c.options (filled ++ [last]) (some new) c.core))))).options =
          some { c.options with topaTable := filled ++ [last], topaMdl := some new } := by
    rw [writeMsr, writeMsr, options_wrote, options_hw, options_wrote, options_hw, options_hw,
      options_hw]
    rfl
  have hframes : ((filled ++ [last]).take c.options.topaEntries).map
      (·.outputRegionBasePhysicalAddress) = new.pfns := by
    rw [take_filled, frames_filled hfull]
  simp only [UnlinkCall.result, iptUnlinkFullTopaBuffers, if_neg c.not_enabled, h, hresult,
    true_and]
  exact ⟨rfl, ⟨_, new, hoptions _ _, h, rfl, hframes⟩, by rw [storeNewTopa_position]⟩

/-- Unlinking is atomic exactly if there are pages, or if the registers need no reset. -/
theorem atomicOnFailure_iff (c : UnlinkCall) : AtomicOnFailure c ↔ c.Harmless := by
  cases hp : c.pages with
  | none =>
    obtain ⟨hstatus, hstate⟩ := c.topaState_failed hp
    have hatomic : AtomicOnFailure c ↔ c.result.2.2.2.topaState = c.core.topaState := by
      rw [AtomicOnFailure]
      split
      · rename_i hr
        rw [hr] at hstatus
        cases hstatus
      · rename_i hr
        rw [hr]
    rw [hatomic, hstate, Core.topaState, UnlinkCall.Harmless, hp]
    simp only [Prod.mk.injEq, true_and, Option.isSome_none, Bool.false_eq_true, false_or]
    exact and_congr eq_comm eq_comm
  | some new =>
    obtain ⟨hstatus, hunlinked⟩ := c.unlinked hp
    refine iff_of_true ?_ (Or.inl (by rw [hp]; rfl))
    rw [AtomicOnFailure]
    split
    · rename_i hr
      rw [hr] at hunlinked
      exact hunlinked
    · rename_i hne hr
      rw [hr] at hstatus
      exact absurd hstatus (by simpa using hne)

/-- No pages, and a page already captured: its position is overwritten. -/
theorem not_atomicOnFailure_position : ¬ ∀ c, AtomicOnFailure c := by
  intro h
  let options : IntelPtOutputOptions :=
    { runningStatus := .paused, topaEntries := 10, outputMask := 0x7F }
  have hc := h ⟨{ options := some options, outputMaskPtrs := 0xFF }, options, rfl, by decide, none,
    fun mdl hmdl => by cases hmdl⟩
  exact absurd (congrArg (·.2.2) hc) (by decide)

/-! The size of what was captured. -/

/-- Where the hardware writes in a table of so many pages, as a register value and as a number
of bytes. -/
structure OutputPosition (entriesCount : Nat) where
  entryIndex : Nat
  outputOffset : Nat
  index_lt : entryIndex < entriesCount
  offset_lt : outputOffset < 4096
  small : entriesCount * 4096 < 2 ^ 32

variable {entriesCount : Nat}

def OutputPosition.mask (p : OutputPosition entriesCount) : BitVec 64 :=
  BitVec.ofNat 64 p.outputOffset <<< 32 ||| BitVec.ofNat 64 p.entryIndex <<< 7 ||| 0x7F

def OutputPosition.bytes (p : OutputPosition entriesCount) : Nat :=
  p.entryIndex * 4096 + p.outputOffset

def readByUnlink (t : Core → Core) (pages : Option Mdl) (options : IntelPtOutputOptions)
    (core : Core) : BitVec 64 :=
  let (_, topaTable, newMdl) := iptAllocateNewTopaBuffer options.topaEntries options.topaTable
    options.topaTablePa pages
  (t (t (storeNewTopa options topaTable newMdl core))).outputMaskPtrs

def readByDisable (t : Core → Core) (core : Core) : BitVec 64 :=
  (t (t (iptClearTraceEn t core))).outputMaskPtrs

/-- Whenever the register reads as that position, the size reported is `n`. -/
structure Reports (p : OutputPosition entriesCount) (n : Nat) : Prop where
  unlink : ∀ t pages options core, options.runningStatus ≠ .enabled →
    readByUnlink t pages options core = p.mask →
    (iptUnlinkFullTopaBuffers t pages options core).2.2.1.toNat = n
  disable : ∀ t core, readByDisable t core = p.mask → (iptDisableTrace t core).2.1.toNat = n

theorem toNat_shifted (value shift : Nat) (h : value * 2 ^ shift < 2 ^ 64) :
    (BitVec.ofNat 64 value <<< shift).toNat = value * 2 ^ shift := by
  have hle : value ≤ value * 2 ^ shift := Nat.le_mul_of_pos_right _ (Nat.two_pow_pos shift)
  rw [BitVec.toNat_shiftLeft, BitVec.toNat_ofNat, Nat.mod_eq_of_lt (hle.trans_lt h),
    Nat.shiftLeft_eq, Nat.mod_eq_of_lt h]

theorem OutputPosition.toNat_mask (p : OutputPosition entriesCount) :
    p.mask.toNat = p.outputOffset * 2 ^ 32 + (p.entryIndex * 2 ^ 7 + 127) := by
  have hoffset := p.offset_lt
  have hshiftedOffset := toNat_shifted p.outputOffset 32 (by omega)
  have hlow : p.entryIndex * 2 ^ 7 + 127 < 2 ^ 32 := by
    have hindex := p.index_lt
    have hsmall := p.small
    omega
  have hshiftedIndex := toNat_shifted p.entryIndex 7 (by omega)
  have hposition : p.entryIndex * 2 ^ 7 ||| 127 = p.entryIndex * 2 ^ 7 + 127 :=
    Bits.or_field (by omega) p.entryIndex
  have hones : (0x7F : BitVec 64).toNat = 127 := rfl
  rw [mask, BitVec.toNat_or, BitVec.toNat_or, hshiftedOffset, hshiftedIndex, hones,
    Nat.or_assoc, hposition, Bits.or_field hlow]

/-- The shift by 8 drops the lowest bit of the index. -/
theorem toNat_bufferSize (p : OutputPosition entriesCount) :
    (bufferSize p.mask).toNat = p.entryIndex / 2 * 4096 + p.outputOffset := by
  have hindex := p.index_lt
  have hoffset := p.offset_lt
  have hsmall := p.small
  have hmask := p.toNat_mask
  have hhigh : (p.mask.extractLsb' 32 32).toNat = p.outputOffset := by
    rw [BitVec.extractLsb'_toNat, hmask, Nat.shiftRight_eq_div_pow]
    omega
  have hlow : (p.mask.extractLsb' 0 32).toNat = p.entryIndex * 2 ^ 7 + 127 := by
    rw [BitVec.extractLsb'_toNat, hmask, Nat.shiftRight_zero]
    omega
  have hpage : (4096 : BitVec 32).toNat = 4096 := rfl
  rw [bufferSize, BitVec.toNat_add, BitVec.toNat_mul, BitVec.toNat_ushiftRight, hhigh, hlow,
    hpage, Nat.shiftRight_eq_div_pow]
  omega

/-- Both functions report the same. -/
theorem reports_iff (p : OutputPosition entriesCount) (n : Nat) :
    Reports p n ↔ n = p.entryIndex / 2 * 4096 + p.outputOffset := by
  rw [← toNat_bufferSize]
  constructor
  · intro h
    exact (h.disable id { outputMaskPtrs := p.mask } rfl).symm
  · intro h
    subst h
    refine ⟨fun t pages options core hs hread => ?_, fun t core hread => ?_⟩
    · simp only [iptUnlinkFullTopaBuffers, if_neg hs]
      exact congrArg (fun mask => (bufferSize mask).toNat) hread
    · exact congrArg (fun mask => (bufferSize mask).toNat) hread

/-- The size is right exactly on the first page, and grows unless the position comes from an
even entry to the one directly behind it without getting further into the page. -/
theorem reports_bytes_iff (p : OutputPosition entriesCount) :
    (Reports p p.bytes ↔ p.entryIndex = 0) ∧
      ∀ q : OutputPosition entriesCount, p.bytes < q.bytes → ∀ m n, Reports p m → Reports q n →
        (m < n ↔ ¬ (q.entryIndex = p.entryIndex + 1 ∧ p.entryIndex % 2 = 0 ∧
          q.outputOffset ≤ p.outputOffset)) := by
  constructor
  · rw [reports_iff, OutputPosition.bytes]
    omega
  · intro q hlt m n hm hn
    have hp := p.offset_lt
    have hq := q.offset_lt
    rw [reports_iff] at hm hn
    rw [OutputPosition.bytes, OutputPosition.bytes] at hlt
    omega

/-- At the start of the second page the size reported is 0. -/
theorem not_reports_second_page : ¬ ∀ (entriesCount : Nat) (p : OutputPosition entriesCount),
    Reports p p.bytes := by
  intro h
  let p : OutputPosition 10 := ⟨1, 0, by decide, by decide, by decide⟩
  have hdisable := (h 10 p).disable id { outputMaskPtrs := p.mask } rfl
  exact absurd hdisable (by decide)

end IntelPt.Driver
