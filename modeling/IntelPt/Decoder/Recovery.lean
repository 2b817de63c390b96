import IntelPt.Decoder.Dispatch
import IntelPt.Lib.Runs

/-! When the header search can go on. A byte no candidate takes leaves no candidate at all, and
the branch that would reset the search is the one that is skipped then. -/
namespace IntelPt.Decoder
open HeaderCode Transducer
variable {table : List PacketDefinition}

def stepByte (table : List PacketDefinition) (st : PacketInterpretor) (byte : Byte) :
    Option PacketInterpretor :=
  match (processByte table st byte).halt with
  | none => some (processByte table st byte).st
  | some _ => none

theorem stepByte_eq_some {st st' : PacketInterpretor} {byte : Byte} :
    stepByte table st byte = some st' ↔
      (processByte table st byte).halt = none ∧ (processByte table st byte).st = st' := by
  unfold stepByte
  cases h : (processByte table st byte).halt <;> simp

/-- Inside a packet, or on the way into each of the candidates that are left, and not far from
a packet boundary; `longest` bounds the packets of the table. -/
structure Lively (table : List PacketDefinition) (longest : Nat) (st : PacketInterpretor) :
    Prop where
  searching : st.inPacket = true ∨
    st.currentCandidates ≠ [] ∧ ∀ d ∈ st.currentCandidates, headerAlive st.accumulator d = true
  bounded : st.accumulator.length ≤ longest
  recovers : (feed table st (List.replicate longest 0x00)).halt = none →
    ∃ n ≤ longest, AtBoundary table (feed table st (List.replicate n 0x00)).st

/-- The byte is buffered outside a packet, no candidate takes it, and no packet is remembered
that would be handed over now. -/
def DeadStep (st : PacketInterpretor) (byte : Byte) : Prop :=
  st.inPacket = false ∧ byte ∉ unusedPacketBytes ∧
    (∀ d ∈ st.currentCandidates, takes byte st.headerIndex d = false) ∧
    ∀ d, st.currentPacket = some d → st.accumulator.length + 1 < st.currentPacketLength

structure PacketsWithin (table : List PacketDefinition) (longest : Nat) : Prop where
  header_le : ∀ d ∈ table, d.packetHeader.length ≤ longest
  length_le : ∀ d ∈ table, ∀ header n, header.length = d.packetHeader.length →
    d.packetLength.eval header = .ok n → n ≤ longest
  one_byte : ∃ d ∈ table, d.packetHeader.length = 1

theorem dictGet_le {sizes : List (Nat × Option Nat)} {key n k : Nat}
    (hs : ∀ e ∈ sizes, ∀ m, e.2 = some m → m ≤ k) (h : dictGet sizes key = .ok (some n)) :
    n ≤ k := by
  unfold dictGet at h
  split at h
  · rename_i e he
    exact hs e (List.mem_of_find?_eq_some he) n (Except.ok.inj h)
  · cases h

theorem headerPlusSize_le_add {sizes : List (Nat × Option Nat)} {index mask n k : Nat}
    (hs : ∀ e ∈ sizes, ∀ m, e.2 = some m → m ≤ k) {header : List Byte}
    (h : headerPlusSize sizes index mask header = .ok n) : n ≤ header.length + k := by
  unfold headerPlusSize at h
  split at h
  · cases h
  · split at h
    · cases h
    · cases h
    · rename_i hget
      cases h
      have := dictGet_le hs hget
      omega

theorem sizes_le : (∀ e ∈ ipCompressionPacketSize, ∀ m, e.2 = some m → m ≤ 8) ∧
    ∀ e ∈ ptwPacketSize, ∀ m, e.2 = some m → m ≤ 8 := by
  simp [ipCompressionPacketSize, ptwPacketSize]

theorem packetDefinitions_length_le : ∀ d ∈ packetDefinitions, ∀ header n,
    header.length = d.packetHeader.length → d.packetLength.eval header = .ok n →
      n ≤ if d.packetName = .psb then 16 else 11 := by
  intro d hd header n hl hn
  have hc : (match d.packetLength with
      | .const n => n ≤ if d.packetName = .psb then 16 else 11
      | .call f => d.packetName ≠ .psb ∧ d.packetHeader.length ≤ 2 ∧
          (f = headerPlusSize ipCompressionPacketSize 0 0b0111 ∨
            f = headerPlusSize ptwPacketSize 1 0b011)) := by
    revert d
    simp only [packetDefinitions, List.forall_mem_cons]
    simp [ipPacketLength, ptwPacketLength]
  cases hp : d.packetLength with
  | const k =>
    rw [hp] at hc hn
    cases hn
    exact hc
  | call f =>
    rw [hp] at hc hn
    obtain ⟨hname, h2, rfl | rfl⟩ := hc
    · have := headerPlusSize_le_add sizes_le.1 hn
      rw [if_neg hname]
      omega
    · have := headerPlusSize_le_add sizes_le.2 hn
      rw [if_neg hname]
      omega

theorem packetDefinitions_within : PacketsWithin packetDefinitions 16 where
  header_le := by decide +kernel
  length_le := by
    intro d hd header n hl hn
    have := packetDefinitions_length_le d hd header n hl hn
    split at this <;> omega
  one_byte := ⟨⟨.tnt, [tntHeader], .const 1, some tntPacketHandler⟩, by simp [packetDefinitions],
    rfl⟩

structure Seeking (table : List PacketDefinition) (st : PacketInterpretor) : Prop where
  running : Running table st
  candidate : st.inPacket = true ∨ st.currentCandidates ≠ []

theorem PacketsWithin.ne_nil {longest : Nat} (h : PacketsWithin table longest) : table ≠ [] := by
  obtain ⟨d, hd, -⟩ := h.one_byte
  exact List.ne_nil_of_mem hd

theorem AtBoundary.seeking (ht : TableWellFormed table) {longest : Nat}
    (hw : PacketsWithin table longest) {st : PacketInterpretor} (h : AtBoundary table st)
    (hm : ∀ d, st.currentPacket = some d → d ∈ table) : Seeking table st where
  running := ⟨Or.inl (h.searching ht), hm⟩
  candidate := Or.inr (by rw [h.candidates]; exact hw.ne_nil)

theorem processByte_fill_candidates (table : List PacketDefinition) {st : PacketInterpretor}
    (h : st.inPacket = false) {byte : Byte} (hb : byte ∈ unusedPacketBytes) :
    (processByte table st byte).st.currentCandidates = st.currentCandidates ∨
      (processByte table st byte).st.currentCandidates = table := by
  simp only [processByte, h, Bool.false_eq_true, if_false, hb, if_true]
  split
  · exact Or.inr rfl
  · exact Or.inl rfl

theorem completePacket_candidate (ht : TableWellFormed table) {longest : Nat}
    (hw : PacketsWithin table longest) (st : PacketInterpretor)
    (hm : ∀ d, st.currentPacket = some d → d ∈ table)
    (hh : (completePacket table st).halt = none)
    (hwait : (∀ d, st.currentPacket = some d → st.accumulator.length < st.currentPacketLength) →
      st.inPacket = true ∨ st.currentCandidates ≠ []) :
    (completePacket table st).st.inPacket = true ∨
      (completePacket table st).st.currentCandidates ≠ [] := by
  obtain ⟨heq, hlt⟩ | ⟨hb, -⟩ := completePacket_cases ht st hm hh
  · rw [heq]
    exact hwait hlt
  · right
    rw [hb.candidates]
    exact hw.ne_nil

theorem Seeking.candidates_ne_nil {st : PacketInterpretor} (h : Seeking table st)
    (hs : Searching table st) : st.currentCandidates ≠ [] := by
  obtain hin | hc := h.candidate
  · rw [hs.not_in] at hin
    cases hin
  · exact hc

/-- A byte that is not dead keeps the search able to go on. -/
theorem Seeking.step (ht : TableWellFormed table) {longest : Nat}
    (hw : PacketsWithin table longest) {st : PacketInterpretor} (h : Seeking table st)
    {byte : Byte} (hok : ¬ DeadStep st byte) (hh : (processByte table st byte).halt = none) :
    Seeking table (processByte table st byte).st := by
  have hm := h.running.current_mem
  refine ⟨h.running.step ht hh, ?_⟩
  obtain hs | ⟨d, hb⟩ := h.running.phase
  · by_cases hfill : byte ∈ unusedPacketBytes
    · right
      obtain hc | hc := processByte_fill_candidates table hs.not_in hfill
      · rw [hc]
        exact h.candidates_ne_nil hs
      · rw [hc]
        exact hw.ne_nil
    · by_cases hc : ∃ d ∈ st.currentCandidates, completes byte st.headerIndex d = true
      · obtain ⟨d, hd, -, ⟨e, -, -, he⟩ | ⟨n, -, hp⟩⟩ := processByte_enter hs hfill hc
        · rw [hh] at he
          cases he
        · rw [hp] at hh ⊢
          refine completePacket_candidate ht hw _ (fun e he => ?_) hh fun _ => Or.inl rfl
          cases he
          exact hd
      · have hnc : ∀ d ∈ st.currentCandidates, completes byte st.headerIndex d = false := by
          simpa using hc
        rw [processByte_narrow hs hfill hnc] at hh ⊢
        refine completePacket_candidate ht hw (narrowed st byte) hm hh
          fun hlt => Or.inr fun hempty => hok ?_
        refine ⟨hs.not_in, hfill, fun d hd => ?_, fun d hd => ?_⟩
        · have := List.filter_eq_nil_iff.mp hempty d hd
          simpa using this
        · have := hlt d hd
          simpa [narrowed, buffered] using this
  · rw [processByte_buffer hb.in_packet] at hh ⊢
    exact completePacket_candidate ht hw (buffered st byte) hm hh
      fun _ => Or.inl hb.in_packet

theorem processByte_dead {st : PacketInterpretor} (hs : Searching table st) {byte : Byte}
    (h : DeadStep st byte) : processByte table st byte = { st := narrowed st byte } ∧
      (narrowed st byte).currentCandidates = [] := by
  obtain ⟨-, hfill, ht, hl⟩ := h
  have hnc : ∀ d ∈ st.currentCandidates, completes byte st.headerIndex d = false := by
    intro d hd
    rw [completes, ht d hd, Bool.false_and]
  refine ⟨?_, List.filter_eq_nil_iff.mpr fun d hd => by rw [ht d hd]; exact Bool.false_ne_true⟩
  rw [processByte_narrow hs hfill hnc]
  refine completePacket_wait fun d hd => ?_
  have := hl d hd
  simpa [narrowed, buffered] using this

/-- Inside a packet the bytes that are missing lead to its end, unless the handler raises. -/
theorem feed_missing (ht : TableWellFormed table) {d : PacketDefinition} (hd : d ∈ table)
    (bs : List Byte) : ∀ st : PacketInterpretor, st.inPacket = true → st.currentPacket = some d →
      bs ≠ [] → st.currentPacketLength = st.accumulator.length + bs.length →
      (feed table st bs).halt = none → AtBoundary table (feed table st bs).st := by
  induction bs with
  | nil => intro st _ _ h; exact absurd rfl h
  | cons b bs ih =>
    intro st hin hc _ hl hh
    have hm : ∀ e, (buffered st b).currentPacket = some e → e ∈ table := by
      intro e he
      cases hc.symm.trans he
      exact hd
    have hlen : (buffered st b).accumulator.length = st.accumulator.length + 1 := by
      simp [buffered]
    cases bs with
    | nil =>
      rw [feed_singleton, processByte_buffer hin] at hh ⊢
      obtain ⟨-, hlt⟩ | ⟨hb, -⟩ := completePacket_cases ht _ hm hh
      · have : (buffered st b).accumulator.length < st.currentPacketLength := hlt d hc
        rw [hlen, hl] at this
        exact absurd this (Nat.lt_irrefl _)
      · exact hb
    | cons b' bs =>
      have hwait : processByte table st b = { st := buffered st b } := by
        rw [processByte_buffer hin]
        refine completePacket_wait fun e _ => ?_
        change (buffered st b).accumulator.length < st.currentPacketLength
        rw [hlen, hl, List.length_cons, List.length_cons]
        omega
      rw [feed, run_cons (by rw [hwait]), hwait] at hh ⊢
      refine ih (buffered st b) hin hc (by simp) ?_ hh
      change st.currentPacketLength = _
      simp only [hlen, hl, List.length_cons]
      omega

theorem feed_halt_append {st : PacketInterpretor} {bs : List Byte} (cs : List Byte)
    (h : (feed table st (bs ++ cs)).halt = none) : (feed table st bs).halt = none := by
  cases hb : (feed table st bs).halt with
  | none => rfl
  | some e =>
    rw [feed, run_append_halt hb] at h
    exact hb.symm.trans h

theorem Searching.feed_zero {longest : Nat} (hw : PacketsWithin table longest)
    {st : PacketInterpretor} (h : Searching table st)
    (hc : st.currentCandidates ≠ []) :
    AtBoundary table st ∨ AtBoundary table (feed table st [0x00]).st := by
  by_cases hlen : st.currentCandidates.length = table.length
  · -- a one-byte header is still alive, so nothing has been read yet
    left
    have hall : table.filter (headerAlive st.accumulator) = table :=
      List.filter_sublist.eq_of_length (by rw [← h.candidates, hlen])
    obtain ⟨d, hd, hone⟩ := hw.one_byte
    have halive := alive_length (List.filter_eq_self.mp hall d hd)
    have hnil : st.accumulator = [] := List.length_eq_zero_iff.mp (by omega)
    exact ⟨h.not_in, hnil, h.candidates.trans hall, by rw [h.index, hnil]; rfl⟩
  · right
    have hpos : st.currentCandidates.length ≠ 0 := fun h0 => hc (List.length_eq_zero_iff.mp h0)
    have hfill : (0x00 : Byte) ∈ unusedPacketBytes := by decide
    simp only [feed_singleton, processByte, h.not_in, Bool.false_eq_true, if_false, hfill, hlen,
      hpos, ne_eq, not_false_eq_true, and_self, if_true]
    exact ⟨rfl, rfl, rfl, rfl⟩

theorem Seeking.lively (ht : TableWellFormed table) {longest : Nat}
    (hw : PacketsWithin table longest) {st : PacketInterpretor} (h : Seeking table st) :
    Lively table longest st := by
  obtain hs | ⟨d, hb⟩ := h.running.phase
  · have hnil := h.candidates_ne_nil hs
    have halive : ∀ d ∈ st.currentCandidates, d ∈ table ∧ headerAlive st.accumulator d = true := by
      intro d hd
      rwa [hs.candidates, List.mem_filter] at hd
    obtain ⟨d, hd⟩ := List.exists_mem_of_ne_nil _ hnil
    have hlt := alive_length (halive d hd).2
    have hle := hw.header_le d (halive d hd).1
    refine ⟨Or.inr ⟨hnil, fun d hd => (halive d hd).2⟩, by omega, fun _ => ?_⟩
    obtain hb | hb := hs.feed_zero hw hnil
    · exact ⟨0, Nat.zero_le _, hb⟩
    · exact ⟨1, by omega, hb⟩
  · have hd := h.running.current_mem d hb.current
    have hle := hw.length_le d hd _ _ (spells_length (starts_take hb.starts)) hb.length
    have hshort := hb.short
    refine ⟨Or.inl hb.in_packet, by omega, fun hh => ?_⟩
    let n := st.currentPacketLength - st.accumulator.length
    refine ⟨n, by omega, feed_missing ht hd _ st hb.in_packet hb.current ?_ ?_ ?_⟩
    · intro hnil
      have := congrArg List.length hnil
      rw [List.length_replicate] at this
      exact absurd this (by simp only [n, List.length_nil]; omega)
    · rw [List.length_replicate]
      omega
    · refine feed_halt_append (List.replicate (longest - n) 0x00) ?_
      rwa [← List.replicate_add, Nat.add_sub_of_le (by omega)]

/-- After every byte of a stream the interpreter is lively iff no byte of it is dead. -/
theorem every_lively_iff_of_table (ht : TableWellFormed table) {longest : Nat}
    (hw : PacketsWithin table longest) (frequency base size : Option Nat) (stream : List Byte) :
    Runs.Every (stepByte table) (Lively table longest)
        (packetInterpretor table frequency base size) stream ↔
      Runs.Meets (stepByte table) (fun st byte => ¬ DeadStep st byte)
        (packetInterpretor table frequency base size) stream := by
  refine Runs.every_iff_meets (Seeking table) (fun st h => h.lively ht hw) ?_ ?_ _ stream ?_
  · intro st byte st' h hok hstep
    obtain ⟨hh, rfl⟩ := stepByte_eq_some.mp hstep
    exact h.step ht hw hok hh
  · intro st byte h hdead
    rw [not_not] at hdead
    have hs : Searching table st := by
      obtain hs | ⟨d, hb⟩ := h.running.phase
      · exact hs
      · have := hdead.1
        rw [hb.in_packet] at this
        cases this
    obtain ⟨hp, hnil⟩ := processByte_dead hs hdead
    refine ⟨narrowed st byte, stepByte_eq_some.mpr (by rw [hp]; exact ⟨rfl, rfl⟩), fun hl => ?_⟩
    obtain hin | ⟨hne, -⟩ := hl.searching
    · have hout : (narrowed st byte).inPacket = false := hs.not_in
      rw [hout] at hin
      cases hin
    · exact hne hnil
  · exact (atBoundary_new table frequency base size).seeking ht hw fun d hd => by cases hd

theorem lively_iff (frequency base size : Option Nat) (stream : List Byte) :
    Runs.Every (stepByte packetDefinitions) (Lively packetDefinitions 16)
        (packetInterpretor packetDefinitions frequency base size) stream ↔
      Runs.Meets (stepByte packetDefinitions) (fun st byte => ¬ DeadStep st byte)
        (packetInterpretor packetDefinitions frequency base size) stream :=
  every_lively_iff_of_table packetDefinitions_wellFormed packetDefinitions_within ..

/-- 0x03 begins no header of the table. -/
theorem not_lively_after_unknown_byte :
    ¬ ∀ stream : List Byte, Runs.Every (stepByte packetDefinitions)
      (Lively packetDefinitions 16) (packetInterpretor packetDefinitions) stream := by
  intro h
  have hmeets := (every_lively_iff_of_table packetDefinitions_wellFormed
    packetDefinitions_within none none none [0x03]).mp (h [0x03])
  have htakes : ∀ d ∈ packetDefinitions, takes 0x03 0 d = false := by decide +kernel
  exact hmeets.1 ⟨rfl, by decide, htakes, fun d hd => by cases hd⟩

def Stranded (st : PacketInterpretor) : Prop :=
  st.inPacket = false ∧ st.currentCandidates = [] ∧ st.currentPacket = none

theorem Stranded.step (table : List PacketDefinition) {st : PacketInterpretor} (h : Stranded st)
    (byte : Byte) :
    (processByte table st byte).halt = none ∧ (processByte table st byte).out = [] ∧
      Stranded (processByte table st byte).st := by
  obtain ⟨hin, hc, hp⟩ := h
  by_cases hfill : byte ∈ unusedPacketBytes
  · simp [processByte, hin, hfill, hc, Stranded, hp]
  · have hsearch : searchHeader byte (buffered st byte) = (narrowed st byte, none) :=
      searchHeader_narrow hin (by simp [buffered, hc]) (by simp [buffered, hc])
    have hwait : completePacket table (narrowed st byte) = { st := narrowed st byte } :=
      completePacket_wait fun d hd => by cases hp.symm.trans hd
    have hstep : processByte table st byte = { st := narrowed st byte } := by
      rw [processByte_search hin hfill, hsearch]
      exact hwait
    rw [hstep]
    exact ⟨rfl, rfl, hin, by simp [narrowed, hc], hp⟩

/-- A stranded interpreter ignores every further byte. -/
theorem Stranded.feed (table : List PacketDefinition) {st : PacketInterpretor} (h : Stranded st)
    (stream : List Byte) :
    (feed table st stream).halt = none ∧ (feed table st stream).out = [] ∧
      Stranded (feed table st stream).st := by
  induction stream generalizing st with
  | nil => exact ⟨rfl, rfl, h⟩
  | cons b bs ih =>
    obtain ⟨hh, ho, hst⟩ := h.step table b
    have hrest := ih hst
    rw [IntelPt.Decoder.feed, run_cons hh, ho]
    exact hrest

end IntelPt.Decoder
