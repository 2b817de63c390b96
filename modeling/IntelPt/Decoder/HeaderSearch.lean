import IntelPt.Decoder.PacketInterpreter

/-! What one byte does to the state machine, said once: the header search either enters the
first candidate the byte completes or narrows the candidates, and a full packet is handed
over. Every property of whole streams is derived from these lemmas. -/
namespace IntelPt.Decoder
open HeaderCode Transducer
variable {table : List PacketDefinition}

abbrev headerAlive (accumulator : List Byte) (d : PacketDefinition) : Bool :=
  alive validateHeaderByte d.packetHeader accumulator

def takes (byte : Byte) (headerIndex : Nat) (d : PacketDefinition) : Bool :=
  d.packetHeader[headerIndex]?.any (validateHeaderByte byte)

def completes (byte : Byte) (headerIndex : Nat) (d : PacketDefinition) : Bool :=
  takes byte headerIndex d && headerIndex + 1 == d.packetHeader.length

theorem takes_iff {byte : Byte} {i : Nat} {d : PacketDefinition} :
    takes byte i d = true ↔
      ∃ p, d.packetHeader[i]? = some p ∧ validateHeaderByte byte p = true := by
  cases h : d.packetHeader[i]? <;> simp [takes, h]

theorem spells_iff_completes {byte : Byte} {w : List Byte} {d : PacketDefinition} :
    spells validateHeaderByte d.packetHeader (w ++ [byte]) = true ↔
      headerAlive w d = true ∧ completes byte w.length d = true := by
  rw [spells_append_one, completes, Bool.and_eq_true, takes_iff, beq_iff_eq]
  constructor
  · exact fun ⟨ha, hl, hp⟩ => ⟨ha, hp, hl⟩
  · exact fun ⟨ha, hp, hl⟩ => ⟨ha, hl, hp⟩

def enterPacket (st : PacketInterpretor) (d : PacketDefinition) :
    PacketInterpretor × Option PyError :=
  let st := { st with headerIndex := 0, inPacket := true, currentPacket := some d }
  match d.packetLength.eval st.accumulator with
  | .error e => (st, some e)
  | .ok n => ({ st with currentPacketLength := n }, none)

theorem searchLoop_narrow {byte : Byte} {st : PacketInterpretor} {ds : List PacketDefinition}
    (hi : ∀ d ∈ ds, st.headerIndex < d.packetHeader.length)
    (hc : ∀ d ∈ ds, completes byte st.headerIndex d = false) (new : List PacketDefinition) :
    searchLoop byte st ds new = (st, new ++ ds.filter (takes byte st.headerIndex), none) := by
  induction ds generalizing new with
  | nil => simp [searchLoop]
  | cons d ds ih =>
    have hlt := hi d (by simp)
    have hnc := hc d (by simp)
    have ht := ih (fun e he => hi e (List.mem_cons_of_mem d he))
      (fun e he => hc e (List.mem_cons_of_mem d he))
    simp only [completes, takes, List.getElem?_eq_getElem hlt, Option.any_some] at hnc
    simp only [searchLoop, List.getElem?_eq_getElem hlt]
    by_cases hv : validateHeaderByte byte d.packetHeader[st.headerIndex] = true
    · have hne : ¬ st.headerIndex + 1 = d.packetHeader.length := by simpa [hv] using hnc
      simp [hv, hne, ht, takes, List.getElem?_eq_getElem hlt]
    · simp [hv, ht, takes, List.getElem?_eq_getElem hlt]

/-- The loop stops at the first candidate the byte completes. -/
theorem searchLoop_enter {byte : Byte} {st : PacketInterpretor} {ds : List PacketDefinition}
    (hi : ∀ d ∈ ds, st.headerIndex < d.packetHeader.length)
    (hc : ∃ d ∈ ds, completes byte st.headerIndex d = true) (new : List PacketDefinition) :
    ∃ d ∈ ds, completes byte st.headerIndex d = true ∧
      searchLoop byte st ds new = ((enterPacket st d).1, [], (enterPacket st d).2) := by
  induction ds generalizing new with
  | nil => simp at hc
  | cons d ds ih =>
    have hlt := hi d (by simp)
    by_cases hd : completes byte st.headerIndex d = true
    · refine ⟨d, by simp, hd, ?_⟩
      simp only [completes, takes, List.getElem?_eq_getElem hlt, Option.any_some,
        Bool.and_eq_true, beq_iff_eq] at hd
      simp only [searchLoop, List.getElem?_eq_getElem hlt, hd, if_true, enterPacket]
      cases d.packetLength.eval st.accumulator <;> rfl
    · have htail : ∃ e ∈ ds, completes byte st.headerIndex e = true := by
        obtain ⟨e, he, hce⟩ := hc
        obtain rfl | he := List.mem_cons.mp he
        · exact absurd hce hd
        · exact ⟨e, he, hce⟩
      have hrec := ih (fun e he => hi e (List.mem_cons_of_mem d he)) htail
      simp only [completes, takes, List.getElem?_eq_getElem hlt, Option.any_some,
        Bool.and_eq_true, beq_iff_eq, not_and] at hd
      simp only [searchLoop, List.getElem?_eq_getElem hlt]
      by_cases hv : validateHeaderByte byte d.packetHeader[st.headerIndex] = true
      · obtain ⟨e, he, hce, hr⟩ := hrec (new ++ [d])
        exact ⟨e, List.mem_cons_of_mem d he, hce, by simp [hv, hd hv, hr]⟩
      · obtain ⟨e, he, hce, hr⟩ := hrec new
        exact ⟨e, List.mem_cons_of_mem d he, hce, by simp [hv, hr]⟩

def SearchFrame (st st' : PacketInterpretor) : Prop :=
  ∃ candidates index inPacket packet length,
    st' = { st with
      currentCandidates := candidates, headerIndex := index, inPacket := inPacket,
      currentPacket := packet, currentPacketLength := length }

theorem searchLoop_frame (byte : Byte) (st : PacketInterpretor) (ds : List PacketDefinition) :
    ∀ new, SearchFrame st (searchLoop byte st ds new).1 := by
  have hsame : SearchFrame st st := ⟨_, _, _, _, _, rfl⟩
  induction ds with
  | nil => exact fun _ => hsame
  | cons d ds ih =>
    intro new
    simp only [searchLoop]
    split
    · exact hsame
    · split
      · split
        · split <;> exact ⟨_, _, _, _, _, rfl⟩
        · exact ih _
      · exact ih _

theorem searchHeader_frame (byte : Byte) (st : PacketInterpretor) :
    SearchFrame st (searchHeader byte st).1 := by
  have hloop := searchLoop_frame byte st st.currentCandidates []
  rw [searchHeader]
  split
  · rename_i h
    rw [h] at hloop
    exact hloop
  · rename_i h
    rw [h] at hloop
    obtain ⟨_, _, _, _, _, rfl⟩ := hloop
    split <;> exact ⟨_, _, _, _, _, rfl⟩

theorem searchHeader_narrow {byte : Byte} {st : PacketInterpretor} (hn : st.inPacket = false)
    (hi : ∀ d ∈ st.currentCandidates, st.headerIndex < d.packetHeader.length)
    (hc : ∀ d ∈ st.currentCandidates, completes byte st.headerIndex d = false) :
    searchHeader byte st =
      ({ st with headerIndex := st.headerIndex + 1,
                 currentCandidates := st.currentCandidates.filter (takes byte st.headerIndex) },
        none) := by
  simp [searchHeader, searchLoop_narrow hi hc, hn]

theorem searchHeader_enter {byte : Byte} {st : PacketInterpretor}
    (hi : ∀ d ∈ st.currentCandidates, st.headerIndex < d.packetHeader.length)
    (hc : ∃ d ∈ st.currentCandidates, completes byte st.headerIndex d = true) :
    ∃ d ∈ st.currentCandidates, completes byte st.headerIndex d = true ∧
      searchHeader byte st = enterPacket st d := by
  obtain ⟨d, hd, hcd, hr⟩ := searchLoop_enter hi hc []
  refine ⟨d, hd, hcd, ?_⟩
  rw [searchHeader, hr]
  cases hn : d.packetLength.eval st.accumulator <;> simp [enterPacket, hn]

def afterPacket (table : List PacketDefinition) (st : PacketInterpretor) (result : HandlerResult)
    (context : Context) : PacketInterpretor :=
  { st with
    context := context, inPacket := false, accumulator := [], currentCandidates := table,
    headerIndex := 0,
    succession := if context.disableInterpreting then st.succession
      else st.succession ++ result.packets }

theorem completePacket_wait {st : PacketInterpretor}
    (h : ∀ d, st.currentPacket = some d → st.accumulator.length < st.currentPacketLength) :
    completePacket table st = { st := st } := by
  cases hc : st.currentPacket with
  | none => simp [completePacket, hc]
  | some d =>
    have := h d hc
    simp only [completePacket, hc]
    rw [if_neg (by omega)]

theorem completePacket_fire {st : PacketInterpretor} {d : PacketDefinition} {handle : Handler}
    (hc : st.currentPacket = some d) (hl : st.currentPacketLength ≤ st.accumulator.length)
    (hh : d.handle = some handle) :
    completePacket table st =
      match handle st.accumulator d.packetName st.context with
      | .error e => { st := st, out := [⟨d, d.packetName, st.accumulator⟩], halt := some e }
      | .ok (result, context) =>
        { st := afterPacket table st result context,
          out := [⟨d, d.packetName, st.accumulator⟩] } := by
  simp only [completePacket, hc, hl, if_true, hh]
  cases handle st.accumulator d.packetName st.context with
  | error e => rfl
  | ok r =>
    simp only [afterPacket]
    split_ifs <;> simp [hc]

theorem completePacket_fire_out {st : PacketInterpretor} {d : PacketDefinition}
    {handle : Handler} (hc : st.currentPacket = some d)
    (hl : st.currentPacketLength ≤ st.accumulator.length) (hh : d.handle = some handle) :
    (completePacket table st).out = [⟨d, d.packetName, st.accumulator⟩] := by
  rw [completePacket_fire hc hl hh]
  split <;> rfl

/-! The invariant. `Searching` holds between packets and inside a header, whatever packet is
still remembered from before; `Buffering` holds inside a packet. -/

structure Searching (table : List PacketDefinition) (st : PacketInterpretor) : Prop where
  not_in : st.inPacket = false
  candidates : st.currentCandidates = table.filter (headerAlive st.accumulator)
  index : st.headerIndex = st.accumulator.length
  unmatched : ∀ d ∈ table, starts validateHeaderByte d.packetHeader st.accumulator = false

structure Buffering (table : List PacketDefinition) (st : PacketInterpretor)
    (d : PacketDefinition) : Prop where
  in_packet : st.inPacket = true
  current : st.currentPacket = some d
  starts : starts validateHeaderByte d.packetHeader st.accumulator = true
  length : d.packetLength.eval (st.accumulator.take d.packetHeader.length) =
    .ok st.currentPacketLength
  short : st.accumulator.length < st.currentPacketLength

theorem filter_alive_nil (ht : TableWellFormed table) :
    table.filter (headerAlive []) = table := by
  apply List.filter_eq_self.mpr
  intro d hd
  have := ht.header_ne_nil d hd
  cases h : d.packetHeader with
  | nil => exact absurd h this
  | cons p ps => simp [headerAlive, alive, h]

theorem starts_nil (ht : TableWellFormed table) :
    ∀ d ∈ table, HeaderCode.starts validateHeaderByte d.packetHeader [] = false := by
  intro d hd
  have := ht.header_ne_nil d hd
  cases h : d.packetHeader with
  | nil => exact absurd h this
  | cons p ps => rfl

structure AtBoundary (table : List PacketDefinition) (st : PacketInterpretor) : Prop where
  not_in : st.inPacket = false
  accumulator : st.accumulator = []
  candidates : st.currentCandidates = table
  index : st.headerIndex = 0

theorem AtBoundary.searching (ht : TableWellFormed table) {st : PacketInterpretor}
    (h : AtBoundary table st) : Searching table st where
  not_in := h.not_in
  candidates := by rw [h.accumulator, filter_alive_nil ht, h.candidates]
  index := by rw [h.accumulator, h.index]; rfl
  unmatched := by rw [h.accumulator]; exact starts_nil ht

theorem atBoundary_new (table : List PacketDefinition) (frequency base size : Option Nat) :
    AtBoundary table (packetInterpretor table frequency base size) :=
  ⟨rfl, rfl, rfl, rfl⟩

theorem atBoundary_afterPacket (table : List PacketDefinition) (st : PacketInterpretor)
    (result : HandlerResult) (context : Context) :
    AtBoundary table (afterPacket table st result context) :=
  ⟨rfl, rfl, rfl, rfl⟩

theorem Searching.candidate_lt {st : PacketInterpretor} (h : Searching table st) :
    ∀ d ∈ st.currentCandidates, st.headerIndex < d.packetHeader.length := by
  intro d hd
  rw [h.candidates, List.mem_filter] at hd
  rw [h.index]
  exact alive_length hd.2

/-- A byte that completes no candidate narrows the candidates and nothing more. -/
theorem Searching.narrow {st : PacketInterpretor} (h : Searching table st) {byte : Byte}
    (hc : ∀ d ∈ st.currentCandidates, completes byte st.headerIndex d = false) :
    Searching table
      { st with accumulator := st.accumulator ++ [byte], headerIndex := st.headerIndex + 1,
                currentCandidates := st.currentCandidates.filter (takes byte st.headerIndex) }
    where
  not_in := h.not_in
  index := by simp [h.index]
  candidates := by
    simp only [h.candidates, List.filter_filter]
    apply List.filter_congr
    intro d hd
    have hnc : headerAlive st.accumulator d = true →
        completes byte st.accumulator.length d = false := by
      intro ha
      rw [← h.index]
      exact hc d (by rw [h.candidates]; exact List.mem_filter.mpr ⟨hd, ha⟩)
    rw [Bool.eq_iff_iff, Bool.and_eq_true, h.index, takes_iff, headerAlive, alive_append_one]
    constructor
    · intro hpa
      obtain ⟨hp, ha⟩ := hpa
      have hlt := alive_length ha
      have hn := hnc ha
      simp only [completes, takes_iff.mpr hp, Bool.true_and, beq_eq_false_iff_ne] at hn
      exact ⟨ha, by omega, hp⟩
    · exact fun ⟨ha, _, hp⟩ => ⟨hp, ha⟩
  unmatched := by
    intro d hd
    by_contra hs
    rw [Bool.not_eq_false] at hs
    have hold := h.unmatched d hd
    rw [starts_append_one, hold, Bool.false_or, spells_iff_completes] at hs
    have := hc d (by rw [h.candidates]; exact List.mem_filter.mpr ⟨hd, hs.1⟩)
    rw [h.index, hs.2] at this
    cases this

/-- A fill byte outside a packet keeps the invariant and calls no handler. -/
theorem processByte_fill (ht : TableWellFormed table) {st : PacketInterpretor}
    (h : Searching table st) {byte : Byte} (hb : byte ∈ unusedPacketBytes) :
    (processByte table st byte).out = [] ∧ (processByte table st byte).halt = none ∧
      Searching table (processByte table st byte).st ∧
      (processByte table st byte).st.currentPacket = st.currentPacket := by
  simp only [processByte, h.not_in, Bool.false_eq_true, if_false, hb, if_true]
  split_ifs
  · exact ⟨rfl, rfl, AtBoundary.searching ht ⟨rfl, rfl, rfl, rfl⟩, rfl⟩
  · exact ⟨rfl, rfl, ⟨rfl, h.candidates, h.index, h.unmatched⟩, rfl⟩

def buffered (st : PacketInterpretor) (byte : Byte) : PacketInterpretor :=
  { st with internalByteIdx := st.internalByteIdx + 1, accumulator := st.accumulator ++ [byte] }

def narrowed (st : PacketInterpretor) (byte : Byte) : PacketInterpretor :=
  { buffered st byte with
    headerIndex := st.headerIndex + 1,
    currentCandidates := st.currentCandidates.filter (takes byte st.headerIndex) }

def entered (st : PacketInterpretor) (byte : Byte) (d : PacketDefinition) (n : Nat) :
    PacketInterpretor :=
  { buffered st byte with
    headerIndex := 0, inPacket := true, currentPacket := some d, currentPacketLength := n }

theorem Searching.narrowed {st : PacketInterpretor} (h : Searching table st) {byte : Byte}
    (hc : ∀ d ∈ st.currentCandidates, completes byte st.headerIndex d = false) :
    Searching table (narrowed st byte) :=
  have hn := h.narrow hc
  ⟨hn.not_in, hn.candidates, hn.index, hn.unmatched⟩

theorem processByte_search {st : PacketInterpretor} (h : st.inPacket = false) {byte : Byte}
    (hb : byte ∉ unusedPacketBytes) :
    processByte table st byte =
      match searchHeader byte (buffered st byte) with
      | (st, some e) => { st := st, halt := some e }
      | (st, none) => completePacket table st := by
  obtain ⟨idx, acc, cands, hdr, succ, inPacket⟩ := st
  obtain rfl : inPacket = false := h
  exact if_neg hb

theorem processByte_narrow {st : PacketInterpretor} (h : Searching table st) {byte : Byte}
    (hb : byte ∉ unusedPacketBytes)
    (hc : ∀ d ∈ st.currentCandidates, completes byte st.headerIndex d = false) :
    processByte table st byte = completePacket table (narrowed st byte) := by
  have hs : searchHeader byte (buffered st byte) = (IntelPt.Decoder.narrowed st byte, none) :=
    searchHeader_narrow h.not_in h.candidate_lt hc
  rw [processByte_search h.not_in hb, hs]

/-- A byte that completes a candidate enters a definition whose header is what was read. -/
theorem processByte_enter {st : PacketInterpretor} (h : Searching table st) {byte : Byte}
    (hb : byte ∉ unusedPacketBytes)
    (hc : ∃ d ∈ st.currentCandidates, completes byte st.headerIndex d = true) :
    ∃ d ∈ table, spells validateHeaderByte d.packetHeader (st.accumulator ++ [byte]) = true ∧
      ((∃ e, d.packetLength.eval (st.accumulator ++ [byte]) = .error e ∧
          (processByte table st byte).out = [] ∧ (processByte table st byte).halt = some e) ∨
        ∃ n, d.packetLength.eval (st.accumulator ++ [byte]) = .ok n ∧
          processByte table st byte = completePacket table (entered st byte d n)) := by
  obtain ⟨d, hd, hcd, hs⟩ : ∃ d ∈ (buffered st byte).currentCandidates,
      completes byte (buffered st byte).headerIndex d = true ∧
        searchHeader byte (buffered st byte) = enterPacket (buffered st byte) d :=
    searchHeader_enter h.candidate_lt hc
  have hm : d ∈ table ∧ headerAlive st.accumulator d = true := by
    have hd' : d ∈ st.currentCandidates := hd
    rwa [h.candidates, List.mem_filter] at hd'
  have hcd' : completes byte st.accumulator.length d = true := by rw [← h.index]; exact hcd
  refine ⟨d, hm.1, spells_iff_completes.mpr ⟨hm.2, hcd'⟩, ?_⟩
  rw [processByte_search h.not_in hb, hs]
  cases hn : d.packetLength.eval (st.accumulator ++ [byte]) with
  | error e => exact Or.inl ⟨e, rfl, by simp [enterPacket, buffered, hn]⟩
  | ok n => exact Or.inr ⟨n, rfl, by simp [enterPacket, buffered, hn, entered]⟩

theorem processByte_buffer {st : PacketInterpretor} (h : st.inPacket = true) (byte : Byte) :
    processByte table st byte = completePacket table (buffered st byte) := by
  simp only [processByte, h, if_true, buffered]

end IntelPt.Decoder
