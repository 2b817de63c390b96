import IntelPt.Decoder.Framing

/-! The order of the packet table. No two headers of it can be completed by one byte, so the
candidate the search stops at is the only one, wherever it stands in the list. -/
namespace IntelPt.Decoder
open HeaderCode Transducer
variable {table table' : List PacketDefinition}

def PacketInterpretor.trying (st : PacketInterpretor) (candidates : List PacketDefinition) :
    PacketInterpretor :=
  { st with currentCandidates := candidates }

def SameUpToOrder (st st' : PacketInterpretor) : Prop :=
  ∃ candidates, candidates.Perm st.currentCandidates ∧ st' = st.trying candidates

/-- If the byte completes the header of a candidate, it completes and extends no other: among
the candidates the byte is tried on, that one is the only one it matches. -/
def Decisive (st : PacketInterpretor) (byte : Byte) : Prop :=
  ∀ d ∈ st.currentCandidates, completes byte st.headerIndex d = true →
    st.currentCandidates.filter (takes byte st.headerIndex) = [d]

def interpreted (table : List PacketDefinition) (frequency base size : Option Nat)
    (stream : List Byte) : Result PacketInterpretor HandlerCall PyError :=
  feed table (packetInterpretor table frequency base size) stream

/-- On the stream the interpreter with this table does what the program's does, and every byte
that may come next is decisive. -/
structure DecodesAlike (table : List PacketDefinition) (frequency base size : Option Nat)
    (stream : List Byte) : Prop where
  calls : (interpreted table frequency base size stream).out =
    (interpreted packetDefinitions frequency base size stream).out
  packets : (interpreted table frequency base size stream).st.succession =
    (interpreted packetDefinitions frequency base size stream).st.succession
  raises : (interpreted table frequency base size stream).halt =
    (interpreted packetDefinitions frequency base size stream).halt
  raises_at : (interpreted table frequency base size stream).st.internalByteIdx =
    (interpreted packetDefinitions frequency base size stream).st.internalByteIdx
  decisive : (interpreted table frequency base size stream).halt = none →
    (interpreted table frequency base size stream).st.inPacket = false →
    ∀ byte, Decisive (interpreted table frequency base size stream).st byte

theorem TableWellFormed.perm (ht : TableWellFormed table) (h : table'.Perm table) :
    TableWellFormed table' where
  header_ne_nil := fun d hd => ht.header_ne_nil d (h.mem_iff.mp hd)
  no_fill := fun d hd => ht.no_fill d (h.mem_iff.mp hd)
  apart := (h.pairwise_iff fun hde => hde.symm).mpr ht.apart
  length_fits := fun d hd => ht.length_fits d (h.mem_iff.mp hd)
  has_handle := fun d hd => ht.has_handle d (h.mem_iff.mp hd)

theorem eq_singleton_of_pairwise {α : Type*} {R : α → α → Prop} {l : List α} {a : α}
    (hl : l.Pairwise R) (ha : a ∈ l) (hR : ∀ b ∈ l, ¬ R a b ∧ ¬ R b a) : l = [a] := by
  cases l with
  | nil => cases ha
  | cons b t =>
    have hb : ∀ c ∈ t, R b c := (List.pairwise_cons.mp hl).1
    cases ha with
    | head =>
      cases t with
      | nil => rfl
      | cons c t => exact absurd (hb c (by simp)) (hR c (by simp)).1
    | tail _ ha => exact absurd (hb a ha) (hR b (by simp)).2

theorem not_apart_of_takes {st : PacketInterpretor} (h : Searching table st) {byte : Byte}
    {d e : PacketDefinition}
    (hd : spells validateHeaderByte d.packetHeader (st.accumulator ++ [byte]) = true)
    (he : e ∈ st.currentCandidates) (ht : takes byte st.headerIndex e = true) :
    ¬ Apart validateHeaderByte d.packetHeader e.packetHeader := by
  intro hde
  have hstarts : starts validateHeaderByte d.packetHeader (st.accumulator ++ [byte]) = true := by
    simpa using starts_append hd []
  rw [h.candidates, List.mem_filter] at he
  rw [h.index, takes_iff] at ht
  by_cases hl : st.accumulator.length + 1 = e.packetHeader.length
  · have hspelled := spells_append_one.mpr ⟨he.2, hl, ht⟩
    have hfalse := hde.not_starts hstarts
    rw [starts_append_one, hspelled, Bool.or_true] at hfalse
    cases hfalse
  · have hlt := alive_length he.2
    have halive := alive_append_one.mpr ⟨he.2, by omega, ht⟩
    have hfalse := hde.not_alive hstarts
    rw [halive] at hfalse
    cases hfalse

/-- Headers that are pairwise apart leave a completed candidate alone. -/
theorem Searching.decisive (ht : TableWellFormed table) {st : PacketInterpretor}
    (h : Searching table st) (byte : Byte) : Decisive st byte := by
  intro d hd hc
  have happart : (st.currentCandidates.filter (takes byte st.headerIndex)).Pairwise
      fun d e => Apart validateHeaderByte d.packetHeader e.packetHeader := by
    rw [h.candidates]
    exact (ht.apart.filter _).filter _
  have hspelled : spells validateHeaderByte d.packetHeader (st.accumulator ++ [byte]) = true := by
    rw [h.candidates, List.mem_filter] at hd
    rw [h.index] at hc
    exact spells_iff_completes.mpr ⟨hd.2, hc⟩
  have htakes : takes byte st.headerIndex d = true := by
    rw [completes, Bool.and_eq_true] at hc
    exact hc.1
  refine eq_singleton_of_pairwise happart (List.mem_filter.mpr ⟨hd, htakes⟩) ?_
  intro e he
  obtain ⟨hmem, he⟩ := List.mem_filter.mp he
  have hde := not_apart_of_takes h hspelled hmem he
  exact ⟨hde, fun hed => hde hed.symm⟩

/-! One byte, in two states that are the same up to order. -/

theorem completePacket_sameUpToOrder (hp : table'.Perm table) {st st' : PacketInterpretor}
    (h : SameUpToOrder st st') :
    (completePacket table st).Similar SameUpToOrder (completePacket table' st') := by
  obtain ⟨candidates, hc, rfl⟩ := h
  have hsame : SameUpToOrder st (st.trying candidates) := ⟨candidates, hc, rfl⟩
  have haccumulator : (st.trying candidates).accumulator = st.accumulator := rfl
  have hcontext : (st.trying candidates).context = st.context := rfl
  cases hcur : st.currentPacket with
  | none =>
    have hcur' : (st.trying candidates).currentPacket = none := hcur
    simp only [completePacket, hcur, hcur']
    exact ⟨hsame, rfl, rfl⟩
  | some d =>
    have hcur' : (st.trying candidates).currentPacket = some d := hcur
    by_cases hl : st.currentPacketLength ≤ st.accumulator.length
    · have hl' : (st.trying candidates).currentPacketLength ≤
          (st.trying candidates).accumulator.length := hl
      cases hd : d.handle with
      | none =>
        simp only [completePacket, hcur, hcur', hl, hl', if_true, hd, hcontext]
        split
        · exact ⟨⟨table', hp, rfl⟩, rfl, rfl⟩
        · exact ⟨hsame, rfl, rfl⟩
      | some handle =>
        rw [completePacket_fire hcur hl hd, completePacket_fire hcur' hl' hd, haccumulator,
          hcontext]
        cases handle st.accumulator d.packetName st.context with
        | error e => exact ⟨hsame, rfl, rfl⟩
        | ok r => exact ⟨⟨table', hp, rfl⟩, rfl, rfl⟩
    · have hl' : ¬ (st.trying candidates).currentPacketLength ≤
          (st.trying candidates).accumulator.length := hl
      simp only [completePacket, hcur, hcur', hl, hl', if_false]
      exact ⟨hsame, rfl, rfl⟩

theorem enterPacket_sameUpToOrder (st : PacketInterpretor) {candidates : List PacketDefinition}
    (hp : candidates.Perm st.currentCandidates) (d : PacketDefinition) :
    SameUpToOrder (enterPacket st d).1 (enterPacket (st.trying candidates) d).1 ∧
      (enterPacket (st.trying candidates) d).2 = (enterPacket st d).2 := by
  have haccumulator : (st.trying candidates).accumulator = st.accumulator := rfl
  simp only [enterPacket, haccumulator]
  cases d.packetLength.eval st.accumulator with
  | error e => exact ⟨⟨candidates, hp, rfl⟩, rfl⟩
  | ok n => exact ⟨⟨candidates, hp, rfl⟩, rfl⟩

/-- The search finds the same definition in any order of the candidates. -/
theorem searchHeader_sameUpToOrder (ht : TableWellFormed table) {st : PacketInterpretor}
    (hs : Searching table st) (byte : Byte) {candidates : List PacketDefinition}
    (hp : candidates.Perm st.currentCandidates) :
    SameUpToOrder (searchHeader byte (buffered st byte)).1
        (searchHeader byte ((buffered st byte).trying candidates)).1 ∧
      (searchHeader byte ((buffered st byte).trying candidates)).2 =
        (searchHeader byte (buffered st byte)).2 := by
  have hlt : ∀ d ∈ candidates, st.headerIndex < d.packetHeader.length :=
    fun d hd => hs.candidate_lt d (hp.mem_iff.mp hd)
  by_cases hc : ∃ d ∈ st.currentCandidates, completes byte st.headerIndex d = true
  · have hc' : ∃ d ∈ candidates, completes byte st.headerIndex d = true :=
      hc.imp fun d hd => ⟨hp.mem_iff.mpr hd.1, hd.2⟩
    obtain ⟨d, hd, hcd, hsearch⟩ :=
      @searchHeader_enter byte (buffered st byte) hs.candidate_lt hc
    obtain ⟨e, he, hce, hsearch'⟩ :=
      @searchHeader_enter byte ((buffered st byte).trying candidates) hlt hc'
    have hde : d = e := by
      have honly := hs.decisive ht byte d hd hcd
      have hmem : e ∈ st.currentCandidates.filter (takes byte st.headerIndex) := by
        rw [completes, Bool.and_eq_true] at hce
        exact List.mem_filter.mpr ⟨hp.mem_iff.mp he, hce.1⟩
      rw [honly, List.mem_singleton] at hmem
      exact hmem.symm
    subst hde
    rw [hsearch, hsearch']
    exact enterPacket_sameUpToOrder (buffered st byte) hp d
  · have hnc : ∀ d ∈ st.currentCandidates, completes byte st.headerIndex d = false := by
      simpa using hc
    have hnc' : ∀ d ∈ candidates, completes byte st.headerIndex d = false :=
      fun d hd => hnc d (hp.mem_iff.mp hd)
    have hnarrow := @searchHeader_narrow byte (buffered st byte) hs.not_in hs.candidate_lt hnc
    have hnarrow' := @searchHeader_narrow byte ((buffered st byte).trying candidates)
      hs.not_in hlt hnc'
    rw [hnarrow, hnarrow']
    exact ⟨⟨candidates.filter (takes byte st.headerIndex), hp.filter _, rfl⟩, rfl⟩

theorem processByte_sameUpToOrder (ht : TableWellFormed table) (hp : table'.Perm table)
    {st st' : PacketInterpretor} (hr : Running table st) (h : SameUpToOrder st st')
    (byte : Byte) :
    (processByte table st byte).Similar SameUpToOrder (processByte table' st' byte) := by
  obtain ⟨candidates, hc, rfl⟩ := h
  cases hin : st.inPacket with
  | true =>
    have hin' : (st.trying candidates).inPacket = true := hin
    rw [processByte_buffer hin, processByte_buffer hin']
    exact completePacket_sameUpToOrder hp ⟨candidates, hc, rfl⟩
  | false =>
    have hin' : (st.trying candidates).inPacket = false := hin
    have hcandidates : (st.trying candidates).currentCandidates = candidates := rfl
    by_cases hfill : byte ∈ unusedPacketBytes
    · simp only [processByte, hin, hin', hcandidates, Bool.false_eq_true, if_false, hfill,
        if_true, hc.length_eq, hp.length_eq]
      split
      · exact ⟨⟨table', hp, rfl⟩, rfl, rfl⟩
      · exact ⟨⟨candidates, hc, rfl⟩, rfl, rfl⟩
    · have hsearch := searchHeader_sameUpToOrder ht (hr.searching hin) byte hc
      have hbuffered : buffered (st.trying candidates) byte =
          (buffered st byte).trying candidates := rfl
      rw [processByte_search hin hfill, processByte_search hin' hfill, hbuffered]
      generalize searchHeader byte (buffered st byte) = found at hsearch ⊢
      generalize searchHeader byte ((buffered st byte).trying candidates) = found' at hsearch ⊢
      obtain ⟨st₁, error⟩ := found
      obtain ⟨st₂, error'⟩ := found'
      obtain ⟨hst, herror⟩ := hsearch
      obtain rfl : error' = error := herror
      cases error' with
      | some e => exact ⟨hst, rfl, rfl⟩
      | none => exact completePacket_sameUpToOrder hp hst

theorem interpreted_sameUpToOrder (ht : TableWellFormed table) (hp : table'.Perm table)
    (frequency base size : Option Nat) (stream : List Byte) :
    (interpreted table frequency base size stream).Similar SameUpToOrder
      (interpreted table' frequency base size stream) :=
  run_similar (Running table) (fun _ _ hr hh => hr.step ht hh)
    (fun _ _ byte hr h => processByte_sameUpToOrder ht hp hr h byte)
    (running_new ht frequency base size) ⟨table', hp, rfl⟩ stream

theorem table_order_irrelevant {table : List PacketDefinition}
    (h : table.Perm packetDefinitions) (frequency base size : Option Nat)
    (stream : List Byte) : DecodesAlike table frequency base size stream := by
  have ht := packetDefinitions_wellFormed
  have ht' := ht.perm h
  have hsimilar := interpreted_sameUpToOrder ht h frequency base size stream
  obtain ⟨candidates, -, hst⟩ := hsimilar.st
  refine ⟨hsimilar.out, ?_, hsimilar.halt, ?_, fun hrun hin byte => ?_⟩
  · rw [hst]
    rfl
  · rw [hst]
    rfl
  · have hr := (running_new ht' frequency base size).feed ht' hrun
    exact (hr.searching hin).decisive ht' byte

/-- An MNT packet, whose header begins like that of thirteen others, on the reversed table. -/
theorem table_order_irrelevant_reverse :
    packetDefinitions.reverse.Perm packetDefinitions ∧
      DecodesAlike packetDefinitions.reverse none none none
        [0x02, 0xC3, 0x88, 1, 2, 3, 4, 5, 6, 7, 8] :=
  have h := packetDefinitions.reverse_perm
  ⟨h, table_order_irrelevant h none none none _⟩

end IntelPt.Decoder
