import IntelPt.Decoder.Dispatch
import Mathlib.Data.List.Induction

/-! Framing of well-formed traces: the interpreter calls each packet's handler once, in order,
on exactly its bytes, if and only if no packet is shorter than the header that follows it. -/
namespace IntelPt.Decoder
open HeaderCode Transducer
variable {table : List PacketDefinition}

/-- Bytes that spell the header of a definition, extended to its packet_length. -/
structure WellFormedPacket (table : List PacketDefinition) where
  definition : PacketDefinition
  mem : definition ∈ table
  header : List Byte
  payload : List Byte
  spelled : spells validateHeaderByte definition.packetHeader header = true
  length : definition.packetLength.eval header = .ok (header.length + payload.length)

def WellFormedPacket.bytes (p : WellFormedPacket table) : List Byte := p.header ++ p.payload

def packetBytes (ps : List (WellFormedPacket table)) : List Byte := ps.flatMap (·.bytes)

def Accepted : Context → List (WellFormedPacket table) → Prop
  | _, [] => True
  | context, p :: ps => ∃ handle result context',
      p.definition.handle = some handle ∧
      handle p.bytes p.definition.packetName context = .ok (result, context') ∧
      Accepted context' ps

/-- From `st`, exactly one handler call per packet, with its name and its bytes, and a packet
boundary at the end. -/
def FramedFrom (st : PacketInterpretor) (ps : List (WellFormedPacket table)) : Prop :=
  let r := feed table st (packetBytes ps)
  r.halt = none ∧
    r.out.map (fun call => (call.packetName, call.packetData)) =
      ps.map (fun p => (p.definition.packetName, p.bytes)) ∧
    r.st.inPacket = false ∧ r.st.accumulator = []

def RemembersAbove (st : PacketInterpretor) (n : Nat) : Prop :=
  ∀ d, st.currentPacket = some d → n < st.currentPacketLength

theorem spells_mem_fill (ht : TableWellFormed table) {d : PacketDefinition} (hd : d ∈ table)
    {w : List Byte} (h : spells validateHeaderByte d.packetHeader w = true) {b : Byte}
    (hb : b ∈ w) : b ∉ unusedPacketBytes := by
  intro hfill
  have hgen : ∀ ps : List HeaderPattern, (∀ p ∈ ps, validateHeaderByte b p = false) →
      ∀ w, spells validateHeaderByte ps w = true → b ∉ w := by
    intro ps
    induction ps with
    | nil => intro _ w hw; cases w <;> simp_all [spells]
    | cons p ps ih =>
      intro hp w hw
      cases w with
      | nil => simp
      | cons a w =>
        simp only [spells, Bool.and_eq_true] at hw
        have hpa := hp p (by simp)
        have htail := ih (fun q hq => hp q (List.mem_cons_of_mem p hq)) w hw.2
        intro hmem
        cases hmem with
        | head =>
          rw [hw.1] at hpa
          cases hpa
        | tail _ hmem => exact htail hmem
  exact hgen _ (fun p hp => ht.no_fill d hd p hp b hfill) w h hb

/-- Two definitions of the table that spell a word and a prefix of it are the same. -/
theorem definition_unique (ht : TableWellFormed table) {d e : PacketDefinition}
    (hd : d ∈ table) (he : e ∈ table) {u v : List Byte}
    (hu : spells validateHeaderByte d.packetHeader u = true)
    (hv : spells validateHeaderByte e.packetHeader (u ++ v) = true) : d = e := by
  obtain h | h := ht.eq_or_apart hd he
  · exact h
  · have hs := h.not_starts (starts_append hu v)
    have := starts_append hv []
    rw [List.append_nil, hs] at this
    cases this

structure Prefixed (table : List PacketDefinition) (st : PacketInterpretor) (w : List Byte)
    (r : Result PacketInterpretor HandlerCall PyError) : Prop where
  halt : r.halt = none
  out : r.out = []
  searching : Searching table r.st
  accumulator : r.st.accumulator = w
  currentPacket : r.st.currentPacket = st.currentPacket
  currentPacketLength : r.st.currentPacketLength = st.currentPacketLength
  context : r.st.context = st.context

/-- No definition is complete on a proper prefix of a packet's header. -/
theorem not_completes (ht : TableWellFormed table) (p : WellFormedPacket table)
    {st : PacketInterpretor} (hs : Searching table st) {b : Byte} {v : List Byte}
    (hw : st.accumulator ++ [b] ++ v = p.header) (hv : v ≠ []) :
    ∀ d ∈ st.currentCandidates, completes b st.headerIndex d = false := by
  intro d hd
  rw [hs.candidates, List.mem_filter] at hd
  by_contra hc
  rw [Bool.not_eq_false, hs.index] at hc
  have hsp := spells_iff_completes.mpr ⟨hd.2, hc⟩
  have heq := definition_unique ht hd.1 p.mem hsp (by rw [hw]; exact p.spelled)
  subst heq
  have h1 := spells_length hsp
  have h2 := spells_length p.spelled
  rw [← hw, List.length_append, ← h1] at h2
  have := List.length_pos_iff.mpr hv
  omega

theorem feed_prefix (ht : TableWellFormed table) (p : WellFormedPacket table)
    {st : PacketInterpretor} (hst : AtBoundary table st) (w : List Byte) :
    ∀ v, w ++ v = p.header → v ≠ [] → RemembersAbove st w.length →
      Prefixed table st w (feed table st w) := by
  induction w using List.reverseRecOn with
  | nil =>
    intro v _ _ _
    exact ⟨rfl, rfl, hst.searching ht, hst.accumulator, rfl, rfl, rfl⟩
  | append_singleton w b ih =>
    intro v hw hv hrem
    have hrem' : RemembersAbove st w.length := fun d hd => by
      have := hrem d hd
      rw [List.length_append] at this
      omega
    have h := ih ([b] ++ v) (by rw [← hw, List.append_assoc]) (by simp) hrem'
    have hacc := h.accumulator
    have hfill : b ∉ unusedPacketBytes :=
      spells_mem_fill ht p.mem p.spelled (by rw [← hw]; simp)
    have hnc := not_completes ht p h.searching (b := b) (v := v) (by rw [hacc, hw]) hv
    have hstep : processByte table (feed table st w).st b =
        { st := narrowed (feed table st w).st b } := by
      rw [processByte_narrow h.searching hfill hnc]
      apply completePacket_wait
      intro d hd
      have hd' : st.currentPacket = some d := h.currentPacket ▸ hd
      have := hrem d hd'
      change ((feed table st w).st.accumulator ++ [b]).length <
        (feed table st w).st.currentPacketLength
      rw [hacc, h.currentPacketLength]
      exact this
    have hrun : feed table st (w ++ [b]) = { st := narrowed (feed table st w).st b } := by
      rw [feed_append h.halt, feed_singleton, hstep, h.out]
      rfl
    rw [hrun]
    refine ⟨rfl, rfl, h.searching.narrowed hnc, ?_, h.currentPacket, h.currentPacketLength,
      h.context⟩
    change (feed table st w).st.accumulator ++ [b] = w ++ [b]
    rw [hacc]

structure Delivered (table : List PacketDefinition) (d : PacketDefinition) (bytes : List Byte)
    (context : Context) (r : Result PacketInterpretor HandlerCall PyError) : Prop where
  halt : r.halt = none
  out : r.out = [⟨d, d.packetName, bytes⟩]
  boundary : AtBoundary table r.st
  currentPacket : r.st.currentPacket = some d
  currentPacketLength : r.st.currentPacketLength = bytes.length
  context : r.st.context = context

theorem completePacket_delivered (st : PacketInterpretor) {d : PacketDefinition}
    {handle : Handler} {result : HandlerResult} {context : Context}
    (hc : st.currentPacket = some d) (hl : st.currentPacketLength = st.accumulator.length)
    (hh : d.handle = some handle)
    (hr : handle st.accumulator d.packetName st.context = .ok (result, context)) :
    Delivered table d st.accumulator context (completePacket table st) := by
  rw [completePacket_fire hc (by omega) hh, hr]
  exact ⟨rfl, rfl, atBoundary_afterPacket table st result context, hc, hl, rfl⟩

theorem feed_payload {d : PacketDefinition} {handle : Handler} {result : HandlerResult}
    {context : Context} (hh : d.handle = some handle) (bs : List Byte) :
    ∀ st : PacketInterpretor, st.inPacket = true → st.currentPacket = some d → bs ≠ [] →
      st.currentPacketLength = (st.accumulator ++ bs).length →
      handle (st.accumulator ++ bs) d.packetName st.context = .ok (result, context) →
      Delivered table d (st.accumulator ++ bs) context (feed table st bs) := by
  induction bs with
  | nil => intro st _ _ h; exact absurd rfl h
  | cons b bs ih =>
    intro st hin hc _ hl hr
    have hstep : processByte table st b = completePacket table (buffered st b) :=
      processByte_buffer hin b
    have happ : st.accumulator ++ b :: bs = (st.accumulator ++ [b]) ++ bs := by simp
    cases bs with
    | nil =>
      have hd : Delivered table d (st.accumulator ++ [b]) context
          (completePacket table (buffered st b)) :=
        completePacket_delivered (buffered st b) hc hl hh hr
      rw [← hstep] at hd
      rw [feed, run_cons hd.halt]
      exact ⟨rfl, by simp [hd.out], hd.boundary, hd.currentPacket, hd.currentPacketLength,
        hd.context⟩
    | cons b' bs' =>
      have hwait : processByte table st b = { st := buffered st b } := by
        rw [hstep]
        apply completePacket_wait
        intro e _
        change (st.accumulator ++ [b]).length < st.currentPacketLength
        rw [hl]
        simp
      have h := ih (buffered st b) hin hc (by simp) (by rw [happ] at hl; exact hl)
        (by rw [happ] at hr; exact hr)
      rw [feed, run_cons (by rw [hwait]), hwait, happ]
      exact ⟨h.halt, h.out, h.boundary, h.currentPacket, h.currentPacketLength, h.context⟩

theorem WellFormedPacket.header_ne_nil (ht : TableWellFormed table) (p : WellFormedPacket table) :
    p.header ≠ [] := by
  intro h
  have hl := spells_length p.spelled
  rw [h] at hl
  exact ht.header_ne_nil _ p.mem (List.length_eq_zero_iff.mp hl.symm)

/-- The last header byte enters the packet's own definition. -/
theorem processByte_last (ht : TableWellFormed table) (p : WellFormedPacket table)
    {st : PacketInterpretor} (hs : Searching table st) {b : Byte}
    (hw : st.accumulator ++ [b] = p.header) :
    processByte table st b =
      completePacket table (entered st b p.definition p.bytes.length) := by
  have hsp := p.spelled
  rw [← hw] at hsp
  have hfill : b ∉ unusedPacketBytes := spells_mem_fill ht p.mem hsp (by simp)
  have hac := spells_iff_completes.mp hsp
  have hc : ∃ d ∈ st.currentCandidates, completes b st.headerIndex d = true := by
    refine ⟨p.definition, ?_, by rw [hs.index]; exact hac.2⟩
    rw [hs.candidates]
    exact List.mem_filter.mpr ⟨p.mem, hac.1⟩
  obtain ⟨d, hd, hdsp, hlen⟩ := processByte_enter hs hfill hc
  have heq : d = p.definition :=
    definition_unique ht hd p.mem hdsp (v := []) (by rw [List.append_nil]; exact hsp)
  subst heq
  have hl := p.length
  rw [← hw] at hl
  obtain ⟨e, he, -, -⟩ | ⟨n, hn, hp⟩ := hlen
  · rw [hl] at he; cases he
  · rw [hl] at hn
    cases hn
    simp only [hp, WellFormedPacket.bytes, ← hw, List.length_append]

/-- The last header byte and the payload, from the state the last header byte is read in. -/
theorem feed_rest (p : WellFormedPacket table) {st : PacketInterpretor} {b : Byte}
    (hlast : processByte table st b =
      completePacket table (entered st b p.definition p.bytes.length))
    (hacc : (entered st b p.definition p.bytes.length).accumulator = p.header)
    {handle : Handler} {result : HandlerResult} {context : Context}
    (hh : p.definition.handle = some handle)
    (hr : handle p.bytes p.definition.packetName st.context = .ok (result, context)) :
    Delivered table p.definition p.bytes context (run (processByte table) st (b :: p.payload)) := by
  have hctx : (entered st b p.definition p.bytes.length).context = st.context := rfl
  by_cases hp : p.payload = []
  · have hd : Delivered table p.definition
        (entered st b p.definition p.bytes.length).accumulator context
        (completePacket table (entered st b p.definition p.bytes.length)) :=
      completePacket_delivered _ rfl
        (by rw [hacc, WellFormedPacket.bytes, hp, List.append_nil]; rfl) hh
        (by rw [hacc, hctx]; simpa [WellFormedPacket.bytes, hp] using hr)
    have hb : p.bytes = p.header := by rw [WellFormedPacket.bytes, hp, List.append_nil]
    rw [hacc, ← hlast, ← hb] at hd
    rw [run_cons hd.halt, hp]
    exact ⟨rfl, by simp [hd.out], hd.boundary, hd.currentPacket, hd.currentPacketLength,
      hd.context⟩
  · have hwait : processByte table st b = { st := entered st b p.definition p.bytes.length } := by
      rw [hlast]
      apply completePacket_wait
      intro e _
      rw [hacc]
      have := List.length_pos_iff.mpr hp
      change p.header.length < p.bytes.length
      rw [WellFormedPacket.bytes, List.length_append]
      omega
    have h : Delivered table _ _ _ (feed table _ p.payload) := feed_payload hh p.payload
      (entered st b p.definition p.bytes.length) rfl rfl hp
      (by rw [hacc]; rfl) (by rw [hacc, hctx]; exact hr)
    rw [hacc] at h
    rw [run_cons (by rw [hwait]), hwait]
    exact ⟨h.halt, h.out, h.boundary, h.currentPacket, h.currentPacketLength, h.context⟩

/-- A whole packet, fed at a boundary that remembers nothing shorter than its header. -/
theorem feed_packet (ht : TableWellFormed table) (p : WellFormedPacket table)
    {st : PacketInterpretor} (hst : AtBoundary table st)
    (hrem : ∀ d, st.currentPacket = some d → p.header.length ≤ st.currentPacketLength)
    {handle : Handler} {result : HandlerResult} {context : Context}
    (hh : p.definition.handle = some handle)
    (hr : handle p.bytes p.definition.packetName st.context = .ok (result, context)) :
    Delivered table p.definition p.bytes context (feed table st p.bytes) := by
  obtain ⟨w, b, hwb⟩ : ∃ w b, p.header = w ++ [b] :=
    ⟨_, _, (List.dropLast_concat_getLast (p.header_ne_nil ht)).symm⟩
  have hpre := feed_prefix ht p hst w [b] hwb.symm (by simp) (fun d hd => by
    have := hrem d hd
    rw [hwb, List.length_append, List.length_singleton] at this
    omega)
  have hlast := processByte_last ht p hpre.searching (b := b) (by rw [hpre.accumulator, hwb])
  have hacc : (feed table st w).st.accumulator ++ [b] = p.header := by
    rw [hpre.accumulator, hwb]
  have hsplit : p.bytes = w ++ (b :: p.payload) := by
    rw [WellFormedPacket.bytes, hwb, List.append_assoc]
    rfl
  have hrun : feed table st p.bytes =
      run (processByte table) (feed table st w).st (b :: p.payload) := by
    rw [hsplit, feed_append hpre.halt, hpre.out]
    rfl
  rw [hrun]
  exact feed_rest p hlast hacc hh (by rw [hpre.context]; exact hr)

/-- A header longer than the remembered packet is cut: the first bytes of it are taken for a full
packet. -/
theorem feed_cut_eq (ht : TableWellFormed table) (q : WellFormedPacket table)
    {st : PacketInterpretor} (hst : AtBoundary table st) {d : PacketDefinition}
    (hcur : st.currentPacket = some d) (hpos : 0 < st.currentPacketLength)
    (hlt : st.currentPacketLength < q.header.length) :
    ∃ full, feed table st (q.header.take st.currentPacketLength) = completePacket table full ∧
      full.currentPacket = some d ∧ full.currentPacketLength = st.currentPacketLength ∧
      full.accumulator = q.header.take st.currentPacketLength ∧ full.context = st.context := by
  obtain ⟨n, hn⟩ : ∃ n, st.currentPacketLength = n + 1 := ⟨_, (Nat.succ_pred_eq_of_pos hpos).symm⟩
  obtain ⟨b, hb⟩ : ∃ b, q.header[n]? = some b :=
    ⟨_, List.getElem?_eq_getElem (by omega)⟩
  have htake : q.header.take (n + 1) = q.header.take n ++ [b] := by
    rw [List.take_add_one, hb]
    rfl
  have hlen : (q.header.take n).length = n := by rw [List.length_take]; omega
  have hdrop : q.header.take n ++ [b] ++ q.header.drop (n + 1) = q.header := by
    rw [← htake, List.take_append_drop]
  have hne : q.header.drop (n + 1) ≠ [] := by
    intro h
    have := List.drop_eq_nil_iff.mp h
    omega
  have hpre := feed_prefix ht q hst (q.header.take n) ([b] ++ q.header.drop (n + 1))
    (by rw [← List.append_assoc, hdrop]) (by simp) (fun e _ => by rw [hlen]; omega)
  have hfill : b ∉ unusedPacketBytes :=
    spells_mem_fill ht q.mem q.spelled (by rw [← hdrop]; simp)
  have hnc := not_completes ht q hpre.searching (b := b) (v := q.header.drop (n + 1))
    (by rw [hpre.accumulator, hdrop]) hne
  refine ⟨narrowed (feed table st (q.header.take n)).st b, ?_, hpre.currentPacket.trans hcur,
    hpre.currentPacketLength, ?_, hpre.context⟩
  · rw [hn, htake, feed_append hpre.halt, hpre.out, List.nil_append, feed_singleton,
      processByte_narrow hpre.searching hfill hnc]
  · rw [hn, htake]
    change (feed table st (q.header.take n)).st.accumulator ++ [b] = _
    rw [hpre.accumulator]

theorem feed_cut (ht : TableWellFormed table) (q : WellFormedPacket table)
    {st : PacketInterpretor} (hst : AtBoundary table st) {d : PacketDefinition}
    (hd : d ∈ table) (hcur : st.currentPacket = some d) (hpos : 0 < st.currentPacketLength)
    (hlt : st.currentPacketLength < q.header.length) :
    ∃ calls, (feed table st q.header).out =
      ⟨d, d.packetName, q.header.take st.currentPacketLength⟩ :: calls := by
  obtain ⟨full, hfull, hc, hl, hacc, -⟩ := feed_cut_eq ht q hst hcur hpos hlt
  obtain ⟨handle, hh⟩ := Option.isSome_iff_exists.mp (ht.has_handle d hd)
  have hle : full.currentPacketLength ≤ full.accumulator.length := by
    rw [hl, hacc, List.length_take]
    omega
  have hpre := feed_out_prefix table st (q.header.take st.currentPacketLength)
    (q.header.drop st.currentPacketLength)
  rw [List.take_append_drop, hfull, completePacket_fire_out hc hle hh, hacc] at hpre
  obtain ⟨calls, hcalls⟩ := hpre
  exact ⟨calls, hcalls.symm⟩

theorem framedFrom_cons {p : WellFormedPacket table} {st : PacketInterpretor} {context : Context}
    (hd : Delivered table p.definition p.bytes context (feed table st p.bytes))
    (ps : List (WellFormedPacket table)) :
    FramedFrom st (p :: ps) ↔ FramedFrom (feed table st p.bytes).st ps := by
  have hfeed : feed table st (packetBytes (p :: ps)) =
      { st := (feed table (feed table st p.bytes).st (packetBytes ps)).st,
        out := ⟨p.definition, p.definition.packetName, p.bytes⟩ ::
          (feed table (feed table st p.bytes).st (packetBytes ps)).out,
        halt := (feed table (feed table st p.bytes).st (packetBytes ps)).halt } := by
    have happ := feed_append hd.halt (packetBytes ps)
    rw [hd.out] at happ
    exact happ
  simp only [FramedFrom, hfeed, List.map_cons, List.cons.injEq, true_and]

/-- A packet shorter than the next header spoils the framing: the first call on the next packet
has too few bytes. -/
theorem not_framedFrom_of_short (ht : TableWellFormed table) {st : PacketInterpretor}
    (hst : AtBoundary table st) {d : PacketDefinition} (hd : d ∈ table)
    (hcur : st.currentPacket = some d) (hpos : 0 < st.currentPacketLength)
    {q : WellFormedPacket table} (hlt : st.currentPacketLength < q.header.length)
    (ps : List (WellFormedPacket table)) : ¬ FramedFrom st (q :: ps) := by
  intro hf
  obtain ⟨calls, hcalls⟩ := feed_cut ht q hst hd hcur hpos hlt
  obtain ⟨more, hmore⟩ := feed_out_prefix table st q.header (q.payload ++ packetBytes ps)
  have hbytes : q.header ++ (q.payload ++ packetBytes ps) = packetBytes (q :: ps) := by
    simp [packetBytes, WellFormedPacket.bytes]
  rw [hcalls, hbytes] at hmore
  have hout := hf.2.1
  rw [← hmore] at hout
  simp only [List.cons_append, List.map_cons, List.cons.injEq, Prod.mk.injEq] at hout
  have hle := congrArg List.length hout.1.2
  rw [List.length_take, WellFormedPacket.bytes, List.length_append] at hle
  omega

/-- From a boundary the framing of a well-formed trace is exact iff no packet is shorter than
the header after it. -/
theorem framedFrom_iff (ht : TableWellFormed table) (ps : List (WellFormedPacket table)) :
    ∀ st : PacketInterpretor, AtBoundary table st →
      (∀ d, st.currentPacket = some d → ∀ q ∈ ps.head?, q.header.length ≤ st.currentPacketLength) →
      Accepted st.context ps →
      (FramedFrom st ps ↔
        ps.IsChain fun p q => q.header.length ≤ p.bytes.length) := by
  induction ps with
  | nil =>
    intro st hst _ _
    exact ⟨fun _ => List.IsChain.nil, fun _ => ⟨rfl, rfl, hst.not_in, hst.accumulator⟩⟩
  | cons p ps ih =>
    intro st hst hrem hacc
    obtain ⟨handle, result, context, hh, hr, hacc⟩ := hacc
    have hd := feed_packet ht p hst (fun d hd => hrem d hd p rfl) hh hr
    rw [framedFrom_cons hd]
    rw [← hd.context] at hacc
    have hlen := hd.currentPacketLength
    cases ps with
    | nil =>
      have := ih _ hd.boundary (by simp) hacc
      simpa using this
    | cons q ps =>
      by_cases hpq : q.header.length ≤ p.bytes.length
      · have := ih _ hd.boundary (by
          intro d _ q' hq'
          obtain rfl : q = q' := by simpa using hq'
          rw [hlen]
          exact hpq) hacc
        simpa [List.isChain_cons_cons, hpq] using this
      · have hpos : 0 < (feed table st p.bytes).st.currentPacketLength := by
          rw [hlen, WellFormedPacket.bytes, List.length_append]
          have := List.length_pos_iff.mpr (p.header_ne_nil ht)
          omega
        have hnot := not_framedFrom_of_short ht hd.boundary p.mem hd.currentPacket hpos
          (q := q) (by omega) ps
        exact iff_of_false hnot fun hch => hpq (List.isChain_cons_cons.mp hch).1

structure WellFormedTrace where
  packets : List (WellFormedPacket packetDefinitions)
  accepted : Accepted {} packets

def ExactlyFramed (trace : WellFormedTrace) : Prop :=
  FramedFrom (packetInterpretor packetDefinitions) trace.packets

theorem exactlyFramed_iff (trace : WellFormedTrace) :
    ExactlyFramed trace ↔
      trace.packets.IsChain fun p q => q.header.length ≤ p.bytes.length :=
  framedFrom_iff packetDefinitions_wellFormed trace.packets _
    (atBoundary_new packetDefinitions none none none) (fun d h => by cases h) trace.accepted

def shortTntPacket : WellFormedPacket packetDefinitions where
  definition := ⟨.tnt, [tntHeader], .const 1, some tntPacketHandler⟩
  mem := by simp [packetDefinitions]
  header := [0x04]
  payload := []
  spelled := by decide
  length := rfl

def psbendPacket : WellFormedPacket packetDefinitions where
  definition := ⟨.psbend, [extended, .bits ['0', '0', '1', '0', '0', '0', '1', '1']], .const 2,
    some psbendPacketHandler⟩
  mem := by simp [packetDefinitions]
  header := [0x02, 0x23]
  payload := []
  spelled := by decide
  length := rfl

/-- PSBEND directly after a short TNT packet: its first byte goes to the TNT handler. -/
theorem not_exactlyFramed_psbend_after_tnt :
    ¬ ∀ trace : WellFormedTrace, ExactlyFramed trace := by
  intro h
  have hacc : Accepted {} [shortTntPacket, psbendPacket] :=
    ⟨_, _, _, rfl, rfl, _, _, _, rfl, rfl, trivial⟩
  have hchain := (framedFrom_iff packetDefinitions_wellFormed _ _
    (atBoundary_new packetDefinitions none none none) (fun d h => by cases h) hacc).mp
    (h ⟨_, hacc⟩)
  have hle : 2 ≤ 1 := (List.isChain_cons_cons.mp hchain).1
  omega

end IntelPt.Decoder
