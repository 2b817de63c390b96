import IntelPt.Driver.WindowsControl
import Mathlib.Data.List.Basic

/-! The device control requests of ProcessorTraceWindowsCommunication.c and the handlers of
ProcessorTraceWindowsCommands.c, with every write they make through OutputBuffer. The branch for
a length of 0 leaves the callback's pointer unassigned, and one handler writes a pointer before
it has looked whether there is room for one. Addresses are numbers. -/
namespace IntelPt.Driver

/-! The control codes. -/

def ctlCode (deviceType function method access : BitVec 32) : BitVec 32 :=
  deviceType <<< 16 ||| access <<< 14 ||| function <<< 2 ||| method

def fileDeviceUnknown : BitVec 32 := 0x22
def methodBuffered : BitVec 32 := 0
def fileAnyAccess : BitVec 32 := 0

def commType (function : BitVec 32) : BitVec 32 :=
  ctlCode fileDeviceUnknown function methodBuffered fileAnyAccess

def commTypeTest : BitVec 32 := commType 0x8B0
def commTypeQueryIptCapabilities : BitVec 32 := commType 0x8B1
def commTypeSetupIpt : BitVec 32 := commType 0x8B2
def commTypeGetBuffer : BitVec 32 := commType 0x8B3
def commTypeFreeBuffer : BitVec 32 := commType 0x8B4

/-! Sizes, with 8-byte pointers and `long` of 4 bytes. -/

def sizeofPvoid : Nat := 8

/-- HeaderSize, PacketId, CpuId, SequenceId, Options; packed. -/
def sizeofPacketHeaderInformation : Nat := 4 + 8 + 4 + 4 + 2

def sizeofCommBufferAddress : Nat :=
  sizeofPacketHeaderInformation + max (sizeofPvoid + 4) (sizeofPvoid + 4 + 8)

/-- A short, two CPUID subleaves and a long long, each at its own alignment. -/
def sizeofIntelPtCapabilities : Nat := 4 + 16 + 16 + 4 + 8

/-! A request. -/

abbrev QueueHead := Option (List CommBufferAddress)

/-- What the calls made for a request return, and the callback's stack before it. -/
structure RequestInput where
  /-- WdfRequestRetrieveInputBuffer; a retrieved buffer is as long as the caller said -/
  inputBuffer : Except FailureStatus Nat
  /-- WdfRequestRetrieveOutputBuffer -/
  outputBuffer : Except FailureStatus Nat
  /-- what `inBuffer` and `outBuffer` hold before they are assigned -/
  inBuffer : Nat
  outBuffer : Nat
  /-- gPtCapabilities is set, or can be allocated -/
  capabilities : Bool
  /-- PsSetLoadImageNotifyRoutine -/
  loadImageNotify : NtStatusCode
  /-- the queue at the first DuDequeueElement -/
  gQueueHead : QueueHead
  /-- how each wait ends, and the queue after it -/
  waits : List (NtStatusCode × QueueHead)
  /-- MmMapLockedPagesSpecifyCache can map; it raises an exception if not -/
  mapped : Bool

structure Write where
  address : Nat
  length : Nat
  deriving DecidableEq, Repr

/-- What a handler does; it has no status if it never returns. -/
structure Handled where
  writes : List Write := []
  bytesWritten : Nat := 0
  status : Option NtStatusCode

structure RequestBuffers where
  inBuffer : Nat
  inBufferActualSize : Nat
  outBuffer : Nat
  outBufferActualSize : Nat

/-- One half of PtwCommunicationGetRequestBuffers: for a size of 0 the source sets its own
parameter to NULL, not the caller's variable. -/
def retrieveBuffer (size : Nat) (retrieve : Except FailureStatus Nat) (unassigned : Nat) :
    Except FailureStatus Nat :=
  if size ≠ 0 then retrieve else .ok unassigned

def ptwCommunicationGetRequestBuffers (request : RequestInput)
    (inBufferSize outBufferSize : Nat) : Except FailureStatus RequestBuffers :=
  match retrieveBuffer inBufferSize request.inputBuffer request.inBuffer with
  | .error status => .error status
  | .ok inBuffer =>
    match retrieveBuffer outBufferSize request.outputBuffer request.outBuffer with
    | .error status => .error status
    | .ok outBuffer => .ok {
        inBuffer := inBuffer
        inBufferActualSize := inBufferSize
        outBuffer := outBuffer
        outBufferActualSize := outBufferSize }

/-! The handlers. -/

abbrev CommIoCommand := Nat → Nat → Nat → Nat → Handled

def ptwCommandTest : CommIoCommand := fun _ _ _ _ => { status := some statusSuccess }

def iptGetCapabilities (request : RequestInput) (capabilities : Nat) : Handled :=
  if request.capabilities then
    { writes := [⟨capabilities, sizeofIntelPtCapabilities⟩], status := some statusSuccess }
  else { status := some statusInsufficientResources }

def ptwCommandQueryCapabilities (request : RequestInput) : CommIoCommand :=
  fun _ outputBufferLength _ outputBuffer =>
    if outputBufferLength ≠ sizeofIntelPtCapabilities then
      { status := some statusInvalidParameter2 }
    else iptGetCapabilities request outputBuffer

def ptwHookProcessCr3 (request : RequestInput) : NtStatusCode := request.loadImageNotify

def ptwCommandTraceProcess (request : RequestInput) : CommIoCommand :=
  fun _ _ _ _ => { status := some (ptwHookProcessCr3 request) }

def duDequeueElement : QueueHead → NtStatusCode × Option CommBufferAddress
  | none => (statusInvalidParameter1, none)
  | some [] => (statusNoMoreEntries, none)
  | some (dto :: _) => (statusSuccess, some dto)

/-- The dequeue loop of PtwCommandGetBuffer; it has no result while the last wait lasts. -/
def ptwCommandGetBufferLoop (gQueueHead : QueueHead) (waits : List (NtStatusCode × QueueHead)) :
    Option (Except NtStatusCode CommBufferAddress) :=
  match duDequeueElement gQueueHead with
  | (_, some dto) => some (.ok dto)
  | (status, none) =>
    if status ≠ statusNoMoreEntries then some (.error status)
    else
      match waits with
      | [] => none
      | (wait, gQueueHead') :: waits =>
        if wait.NtSuccess then ptwCommandGetBufferLoop gQueueHead' waits else some (.error wait)

def ptwCommandGetBuffer (request : RequestInput) : CommIoCommand :=
  fun _ outputBufferLength _ outputBuffer =>
    -- `*OutputBuffer = NULL`
    let null : Write := ⟨outputBuffer, sizeofPvoid⟩
    if outputBufferLength ≠ sizeofCommBufferAddress then
      { writes := [null], status := some statusInvalidParameter2 }
    else
      match ptwCommandGetBufferLoop request.gQueueHead request.waits with
      | none => { status := none }
      | some (.error status) => { writes := [null], status := some status }
      | some (.ok dto) =>
        let copy : Write := ⟨outputBuffer, sizeofCommBufferAddress⟩
        -- the status tested behind the mapping is still the one of the dequeue
        if !dto.firstPacket && !request.mapped then { writes := [copy], status := none }
        else
          let bufferAddress : Write :=
            ⟨outputBuffer + sizeofPacketHeaderInformation, sizeofPvoid⟩
          { writes := if dto.firstPacket then [copy] else [copy, bufferAddress]
            bytesWritten := sizeofCommBufferAddress
            status := some statusSuccess }

def ptwCommandFreeBuffer : CommIoCommand := fun _ _ _ _ => { status := some statusSuccess }

def ioCallbacks (request : RequestInput) : Fin 5 → CommIoCommand :=
  ![ptwCommandTest, ptwCommandQueryCapabilities request, ptwCommandTraceProcess request,
    ptwCommandGetBuffer request, ptwCommandFreeBuffer]

def commFunction (ioControlCode : BitVec 32) : Option (Fin 5) :=
  if ioControlCode = commTypeTest then some 0
  else if ioControlCode = commTypeQueryIptCapabilities then some 1
  else if ioControlCode = commTypeSetupIpt then some 2
  else if ioControlCode = commTypeGetBuffer then some 3
  else if ioControlCode = commTypeFreeBuffer then some 4
  else none

def ptwCommunicationIoControlCallback (request : RequestInput)
    (outputBufferLength inputBufferLength : Nat) (ioControlCode : BitVec 32) : Handled :=
  match ptwCommunicationGetRequestBuffers request inputBufferLength outputBufferLength with
  | .error status => { status := some status.val }
  | .ok buffers =>
    match commFunction ioControlCode with
    | none => { status := some statusNotImplemented }
    | some function =>
      ioCallbacks request function buffers.inBufferActualSize buffers.outBufferActualSize
        buffers.inBuffer buffers.outBuffer

/-! Where the writes go. -/

def RequestInput.retrieved (request : RequestInput) (length : Nat) : Option Nat :=
  if length = 0 then none else request.outputBuffer.toOption

def Write.Inside (w : Write) (buffer : Nat) (length : Nat) : Prop :=
  buffer ≤ w.address ∧ w.address + w.length ≤ buffer + length

/-- Every write through OutputBuffer is inside the retrieved buffer, and no more bytes are
reported than it has. -/
def OutputInBounds (request : RequestInput) (outputBufferLength : Nat) (result : Handled) : Prop :=
  (∀ w ∈ result.writes, ∃ buffer ∈ request.retrieved outputBufferLength,
    w.Inside buffer outputBufferLength) ∧
  result.bytesWritten ≤ outputBufferLength

/-- WDF has a buffer for each length that is not 0. -/
def RequestInput.BuffersRetrieved (request : RequestInput)
    (outputBufferLength inputBufferLength : Nat) : Prop :=
  (inputBufferLength = 0 ∨ request.inputBuffer.isOk) ∧
    (outputBufferLength = 0 ∨ request.outputBuffer.isOk)

structure Handled.Fits (h : Handled) (buffer : Nat) (length : Nat) : Prop where
  room : h.writes ≠ [] → length ≠ 0
  inside : ∀ w ∈ h.writes, w.Inside buffer length
  reported : h.bytesWritten ≤ length

theorem Handled.fits_silent (status : Option NtStatusCode) (buffer : Nat) (length : Nat) :
    ({ status := status } : Handled).Fits buffer length :=
  ⟨fun h => absurd rfl h, fun _ h => absurd h List.not_mem_nil, Nat.zero_le length⟩

theorem ptwCommandQueryCapabilities_fits (request : RequestInput) (inputLength length : Nat)
    (inBuffer buffer : Nat) : (ptwCommandQueryCapabilities request inputLength length inBuffer
      buffer).Fits buffer length := by
  simp only [ptwCommandQueryCapabilities, iptGetCapabilities]
  split
  · exact Handled.fits_silent _ _ _
  · next hlen =>
    rw [not_not] at hlen
    subst hlen
    split
    · refine ⟨fun _ => by decide, ?_, Nat.zero_le _⟩
      simp [Write.Inside]
    · exact Handled.fits_silent _ _ _

theorem ptwCommandGetBuffer_fits (request : RequestInput) (inputLength : Nat) {length : Nat}
    (inBuffer buffer : Nat) (h : sizeofPvoid ≤ length) :
    (ptwCommandGetBuffer request inputLength length inBuffer buffer).Fits buffer length := by
  have hpos : length ≠ 0 := by
    have : 0 < sizeofPvoid := by decide
    omega
  have hnull : ∀ w ∈ [(⟨buffer, sizeofPvoid⟩ : Write)], w.Inside buffer length := by
    intro w hw
    cases List.mem_singleton.mp hw
    exact ⟨Nat.le_refl buffer, Nat.add_le_add_left h buffer⟩
  simp only [ptwCommandGetBuffer]
  split
  · exact ⟨fun _ => hpos, hnull, Nat.zero_le _⟩
  · next hlen =>
    rw [not_not] at hlen
    subst hlen
    split
    · exact Handled.fits_silent _ _ _
    · exact ⟨fun _ => hpos, hnull, Nat.zero_le _⟩
    · split
      · refine ⟨fun _ => hpos, ?_, Nat.zero_le _⟩
        simp [Write.Inside]
      · refine ⟨fun _ => hpos, ?_, Nat.le_refl _⟩
        have hfield : sizeofPacketHeaderInformation + sizeofPvoid ≤ sizeofCommBufferAddress := by
          decide
        simp only
        split
        · simp [Write.Inside]
        · simp [Write.Inside, Nat.add_assoc, hfield]

theorem ioCallbacks_fits (request : RequestInput) (function : Fin 5) (inputLength : Nat)
    {length : Nat} (inBuffer buffer : Nat) (h : function = 3 → sizeofPvoid ≤ length) :
    (ioCallbacks request function inputLength length inBuffer buffer).Fits buffer length := by
  match function with
  | 0 | 2 | 4 => exact Handled.fits_silent _ _ _
  | 1 => exact ptwCommandQueryCapabilities_fits request inputLength length inBuffer buffer
  | 3 => exact ptwCommandGetBuffer_fits request inputLength inBuffer buffer (h rfl)

/-- With no room for a pointer GET_BUFFER writes one all the same. -/
theorem ptwCommandGetBuffer_writes (request : RequestInput) (inputLength : Nat) {length : Nat}
    (inBuffer buffer : Nat) (h : length < sizeofPvoid) :
    (ptwCommandGetBuffer request inputLength length inBuffer buffer).writes =
      [⟨buffer, sizeofPvoid⟩] := by
  have hsize : sizeofPvoid < sizeofCommBufferAddress := by decide
  simp only [ptwCommandGetBuffer]
  rw [if_pos (by omega)]

theorem retrieveBuffer_isOk (size : Nat) (retrieve : Except FailureStatus Nat)
    (unassigned : Nat) :
    (retrieveBuffer size retrieve unassigned).isOk ↔ size = 0 ∨ retrieve.isOk := by
  by_cases hsize : size = 0
  · rw [retrieveBuffer, if_neg (not_not.mpr hsize)]
    exact iff_of_true rfl (Or.inl hsize)
  · rw [retrieveBuffer, if_pos hsize, or_iff_right hsize]

theorem getRequestBuffers_isOk (request : RequestInput) (inputLength outputLength : Nat) :
    (ptwCommunicationGetRequestBuffers request inputLength outputLength).isOk ↔
      request.BuffersRetrieved outputLength inputLength := by
  rw [RequestInput.BuffersRetrieved, ← retrieveBuffer_isOk _ _ request.inBuffer,
    ← retrieveBuffer_isOk _ _ request.outBuffer, ptwCommunicationGetRequestBuffers]
  cases retrieveBuffer inputLength request.inputBuffer request.inBuffer with
  | error _ =>
    refine iff_of_false (fun h => ?_) (fun h => ?_)
    · cases h
    · cases h.1
  | ok _ =>
    cases retrieveBuffer outputLength request.outputBuffer request.outBuffer with
    | error _ =>
      refine iff_of_false (fun h => ?_) (fun h => ?_)
      · cases h
      · cases h.2
    | ok _ => exact iff_of_true rfl ⟨rfl, rfl⟩

theorem getRequestBuffers_retrieved {request : RequestInput} {inputLength outputLength : Nat}
    {buffers : RequestBuffers}
    (h : ptwCommunicationGetRequestBuffers request inputLength outputLength = .ok buffers) :
    buffers.outBufferActualSize = outputLength ∧
      (outputLength ≠ 0 → request.retrieved outputLength = some buffers.outBuffer) := by
  simp only [ptwCommunicationGetRequestBuffers] at h
  split at h
  · cases h
  · split at h
    · cases h
    · next outBuffer hout =>
      cases h
      refine ⟨rfl, fun hne => ?_⟩
      rw [retrieveBuffer, if_pos hne] at hout
      rw [RequestInput.retrieved, if_neg hne, hout]
      rfl

theorem Handled.Fits.outputInBounds {request : RequestInput} {length : Nat} {h : Handled}
    {buffer : Nat} (hf : h.Fits buffer length)
    (hr : length ≠ 0 → request.retrieved length = some buffer) :
    OutputInBounds request length h :=
  ⟨fun w hw => ⟨buffer, hr (hf.room (List.ne_nil_of_mem hw)), hf.inside w hw⟩, hf.reported⟩

/-- That pointer is in no buffer of this length, wherever it begins. -/
theorem not_outputInBounds_short (request : RequestInput) (inputLength : Nat) {length : Nat}
    (inBuffer outBuffer : Nat) (h : length < sizeofPvoid) : ¬ OutputInBounds request length
      (ptwCommandGetBuffer request inputLength length inBuffer outBuffer) := by
  intro hbounds
  have hmem : (⟨outBuffer, sizeofPvoid⟩ : Write) ∈
      (ptwCommandGetBuffer request inputLength length inBuffer outBuffer).writes := by
    rw [ptwCommandGetBuffer_writes request inputLength inBuffer outBuffer h]
    exact List.mem_singleton_self _
  obtain ⟨buffer, -, hge, hle⟩ := hbounds.1 _ hmem
  have hroom : outBuffer + sizeofPvoid ≤ buffer + length := hle
  have hstart : buffer ≤ outBuffer := hge
  omega

theorem commFunction_three {ioControlCode : BitVec 32} :
    commFunction ioControlCode = some 3 ↔ ioControlCode = commTypeGetBuffer := by
  constructor
  · intro h
    simp only [commFunction] at h
    split at h
    · cases h
    · split at h
      · cases h
      · split at h
        · cases h
        · split at h
          · assumption
          · split at h <;> cases h
  · intro h
    subst h
    decide

/-- Every output write stays inside the caller's buffer exactly if the request is not GET_BUFFER
with fewer bytes than a pointer has, or its buffers cannot be retrieved. -/
theorem outputInBounds_iff (request : RequestInput) (outputBufferLength inputBufferLength : Nat)
    (ioControlCode : BitVec 32) :
    OutputInBounds request outputBufferLength (ptwCommunicationIoControlCallback request
      outputBufferLength inputBufferLength ioControlCode) ↔
    ¬ (ioControlCode = commTypeGetBuffer ∧ outputBufferLength < sizeofPvoid ∧
      request.BuffersRetrieved outputBufferLength inputBufferLength) := by
  simp only [ptwCommunicationIoControlCallback]
  rw [← getRequestBuffers_isOk]
  cases hb : ptwCommunicationGetRequestBuffers request inputBufferLength outputBufferLength with
  | error status =>
    refine iff_of_true ?_ fun h => by cases h.2.2
    exact ⟨fun _ hw => absurd hw List.not_mem_nil, Nat.zero_le _⟩
  | ok buffers =>
    obtain ⟨hsize, hr⟩ := getRequestBuffers_retrieved hb
    cases hf : commFunction ioControlCode with
    | none =>
      refine iff_of_true ?_ fun h => ?_
      · exact ⟨fun _ hw => absurd hw List.not_mem_nil, Nat.zero_le _⟩
      · rw [commFunction_three.mpr h.1] at hf
        cases hf
    | some function =>
      simp only [hsize]
      by_cases hshort : function = 3 ∧ outputBufferLength < sizeofPvoid
      · obtain ⟨rfl, hlt⟩ := hshort
        exact iff_of_false (not_outputInBounds_short request buffers.inBufferActualSize
          buffers.inBuffer buffers.outBuffer hlt) (not_not.mpr ⟨commFunction_three.mp hf, hlt, rfl⟩)
      · refine iff_of_true ?_ fun h => hshort ⟨?_, h.2.1⟩
        · have hfits := ioCallbacks_fits request function buffers.inBufferActualSize
            buffers.inBuffer buffers.outBuffer
            (fun h3 => Nat.le_of_not_lt fun hlt => hshort ⟨h3, hlt⟩)
          exact hfits.outputInBounds hr
        · rw [commFunction_three.mpr h.1] at hf
          exact (Option.some.inj hf).symm

def emptyRequest : RequestInput where
  inputBuffer := .error ⟨statusInvalidParameter2, by decide⟩
  outputBuffer := .error ⟨statusInvalidParameter2, by decide⟩
  inBuffer := 0
  outBuffer := 0xDEAD
  capabilities := true
  loadImageNotify := statusSuccess
  gQueueHead := some []
  waits := []
  mapped := true

/-- GET_BUFFER without an output buffer writes through a pointer that was never assigned. -/
theorem not_outputInBounds_getBuffer_empty : ¬ ∀ (request : RequestInput)
    (outputBufferLength inputBufferLength : Nat) (ioControlCode : BitVec 32),
    OutputInBounds request outputBufferLength (ptwCommunicationIoControlCallback request
      outputBufferLength inputBufferLength ioControlCode) := by
  intro h
  have hwrites : (ptwCommunicationIoControlCallback emptyRequest 0 0 commTypeGetBuffer).writes =
      [⟨0xDEAD, 8⟩] := by decide
  obtain ⟨buffer, hbuffer, -⟩ := (h emptyRequest 0 0 commTypeGetBuffer).1 ⟨0xDEAD, 8⟩
    (by rw [hwrites]; exact List.mem_singleton_self _)
  cases hbuffer

end IntelPt.Driver
