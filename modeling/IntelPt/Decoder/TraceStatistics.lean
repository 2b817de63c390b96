import IntelPt.Lib.Tally
import IntelPt.Decoder.Synchronisation
import IntelPt.Decoder.TraceDecoder

/-! The statistics `read_trace` keeps of the packets it decodes. A packet is counted by kind where
the loop body begins and by time where it ends; in between an IP packet without an address leaves
the body, and a packet without a time stamp is compared with one. Python's `/` on integers is
`divide`, whatever floats it yields, and `zero` is the time of a packet without a stamp. -/
namespace IntelPt.Decoder
open Tally Transducer

/- PACKET_ID_TO_STRING. -/
def packetIdToString : PacketId → String
  | .tntTaken => "TAKEN"
  | .tntNotTaken => "NOT_TAKEN"
  | .fup => "FUP"
  | .tip => "TIP"
  | .tipPge => "TIP_PGE"
  | .tipPgd => "TIP_PGD"
  | .cbr => "CBR"
  | .mode => "MODE"
  | .psb => "PSB"
  | .psbend => "PSBEND"
  | .tsc => "TSC"
  | .undefined => "UNDEFINED"

def ipPacketIds : List PacketId := [.fup, .tip, .tipPgd, .tipPge]

inductive AggregationError where
  | typeError | attributeError | zeroDivisionError | unboundLocalError
  deriving DecidableEq, Repr

/- `el.address`, which only PacketTip and its derived classes have. -/
def Packet.address (el : Packet) : Except AggregationError (Option Nat) :=
  match el.fields with
  | .tip _ address => .ok address
  | _ => .error .attributeError

structure TraceStatistics (φ : Type*) where
  packets : Counter String := ∅
  ips : List φ := []
  firstTsc : Option Int := some (-1)
  lastTsc : Option Int := some (-1)
  packetsByTime : Table φ String := ∅

section

variable {φ : Type*} [DecidableEq φ] (divide : Nat → Nat → φ) (zero : φ)

/- `processor_frequency` is not bound before the first FIRST message. -/
def relativeTime (processorFrequency : Option Nat) (tsc : Option Nat) :
    Except AggregationError φ :=
  match tsc, processorFrequency with
  | none, _ => .ok zero
  | some _, none => .error .unboundLocalError
  | some _, some 0 => .error .zeroDivisionError
  | some tsc, some frequency => .ok (divide tsc frequency)

omit [DecidableEq φ] in
def noteTsc (el : Packet) (st : TraceStatistics φ) : TraceStatistics φ :=
  if el.packetId = .tsc then
    { st with
      firstTsc := if st.firstTsc = some (-1) then el.tsc.map Int.ofNat else st.firstTsc
      lastTsc := el.tsc.map Int.ofNat }
  else st

/-- The loop body behind the `continue`. -/
def aggregateTime (processorFrequency : Option Nat) (el : Packet) (st : TraceStatistics φ) :
    Except AggregationError (TraceStatistics φ) :=
  let st := noteTsc el st
  match relativeTime divide zero processorFrequency el.tsc with
  | .error e => .error e
  | .ok time =>
    -- `el.tsc < first_tsc` decides about a print only, but it has to be evaluated
    match el.tsc, st.firstTsc with
    | some _, some _ =>
      .ok { st with
        packetsByTime := bumpAt st.packetsByTime time (packetIdToString el.packetId) }
    | _, _ => .error .typeError

def aggregatePacket (processorFrequency : Option Nat) (st : TraceStatistics φ) (el : Packet) :
    Except AggregationError (TraceStatistics φ) :=
  let st := { st with packets := bump st.packets (packetIdToString el.packetId) }
  if el.packetId ∈ ipPacketIds then
    match el.address with
    | .error e => .error e
    | .ok none => .ok st
    | .ok (some addr) =>
      aggregateTime divide zero processorFrequency el
        { st with ips := st.ips ++ [divide addr (1024 * 1024)] }
  else aggregateTime divide zero processorFrequency el st

def aggregate (processorFrequency : Option Nat) (st : TraceStatistics φ) (els : List Packet) :
    Except AggregationError (TraceStatistics φ) :=
  els.foldlM (aggregatePacket divide zero processorFrequency) st

/-! The message loop with its statistics. -/

inductive TraceError where
  | decoding (e : PyError)
  | aggregation (e : AggregationError)
  deriving DecidableEq, Repr

structure StatisticsReader (φ : Type*) where
  reader : TraceReader := {}
  processorFrequency : Option Nat := none
  statistics : TraceStatistics φ := {}

def StatisticsReader.begin (st : StatisticsReader φ) (reader : TraceReader) (msg : Message) :
    StatisticsReader φ :=
  match msg.header.packetType, unpackFirst msg.body with
  | .first, .ok values =>
    { reader := reader, processorFrequency := some values.processorFrequency, statistics := {} }
  | _, _ => { st with reader := reader }

def readMessageStatistics (st : StatisticsReader φ) (msg : Message) :
    Result (StatisticsReader φ) Decoded TraceError :=
  let r := readMessage st.reader msg
  match r.halt with
  | some e => { st := { st with reader := r.st }, halt := some (.decoding e) }
  | none =>
    let st := st.begin r.st msg
    match aggregate divide zero st.processorFrequency st.statistics
        (r.out.flatMap (·.packets)) with
    | .error e => { st := st, out := r.out, halt := some (.aggregation e) }
    | .ok statistics => { st := { st with statistics := statistics }, out := r.out }

def readStatistics : StatisticsReader φ → List Message →
    Result (StatisticsReader φ) Decoded TraceError :=
  run (readMessageStatistics divide zero)

end

/-! The packets an interpreter yields. -/

def Packet.carried (el : Packet) : Option Nat :=
  if el.packetId ∈ ipPacketIds then
    match el.fields with
    | .tip _ address => address
    | _ => none
  else none

def Packet.suppressed (el : Packet) : Bool := el.packetId ∈ ipPacketIds && el.carried.isNone

def Packet.named (name : String) (el : Packet) : Bool := packetIdToString el.packetId == name

/-- The packet has a time stamp and, if it is an IP packet, an address. -/
def Regular (el : Packet) : Prop := el.tsc ≠ none ∧ el.suppressed = false

instance (el : Packet) : Decidable (Regular el) := inferInstanceAs (Decidable (_ ∧ _))

/-- IP packets have an address attribute, and a TSC packet has its own stamp. -/
structure Emittable (el : Packet) : Prop where
  ip : el.packetId ∈ ipPacketIds → ∃ type address, el.fields = .tip type address
  tsc : el.packetId = .tsc → el.tsc ≠ none

theorem fupTipPacketHandler_emittable {data : List Byte} {name : PacketName} {c c' : Context}
    {r : HandlerResult} (h : fupTipPacketHandler data name c = .ok (r, c')) :
    ∃ packet, r = .one packet ∧ Emittable packet := by
  have hid : ∀ packetId, fupTipPacketId name = some packetId → packetId ≠ .tsc := by
    cases name <;> simp [fupTipPacketId]
  simp only [fupTipPacketHandler] at h
  split at h
  · cases h
  · rename_i packetId hname
    have htsc := hid packetId hname
    split at h
    · cases h
    · split at h
      · cases h
        exact ⟨_, rfl, fun _ => ⟨_, _, rfl⟩, fun he => absurd he htsc⟩
      · split at h
        · cases h
        · cases h
          exact ⟨_, rfl, fun _ => ⟨_, _, rfl⟩, fun he => absurd he htsc⟩

theorem emittable_of_id (id : PacketId) {packet : Packet} (h : packet.packetId = id)
    (hid : id ∉ ipPacketIds ∧ id ≠ .tsc) : Emittable packet where
  ip := fun hmem => absurd (h ▸ hmem) hid.1
  tsc := fun htsc => absurd (h.symm.trans htsc) hid.2

theorem emittable_tntEmit {tsc : Option Nat} {packet : Packet} (n : Nat) :
    ∀ auxData, packet ∈ tntEmit tsc n auxData → Emittable packet := by
  have htnt (taken : Bool) : Emittable (packetTnt taken tsc) := by
    cases taken with
    | false => exact emittable_of_id .tntNotTaken rfl (by decide)
    | true => exact emittable_of_id .tntTaken rfl (by decide)
  induction n with
  | zero =>
    intro auxData h
    cases h
  | succ n ih =>
    intro auxData h
    obtain rfl | h := List.mem_cons.mp h
    · exact htnt _
    · exact ih _ h

theorem handler_emittable {name : PacketName} {data : List Byte} {c c' : Context}
    {r : HandlerResult} (h : name.handler data name c = .ok (r, c')) :
    ∀ packet ∈ r.packets, Emittable packet := by
  cases name with
  | tnt | tntExtended =>
    simp only [PacketName.handler] at h
    obtain ⟨_, _, rfl, -⟩ := tntPacketHandler_ok h
    exact fun packet hp => emittable_tntEmit _ _ hp
  | tip | tipPge | tipPgd | fup =>
    simp only [PacketName.handler] at h
    obtain ⟨_, rfl, hp⟩ := fupTipPacketHandler_emittable h
    exact HandlerResult.forall_mem_one hp
  | mode =>
    simp only [PacketName.handler] at h
    obtain ⟨packet, _, hid, -, rfl, -⟩ := modePacketHandler_ok h
    exact HandlerResult.forall_mem_one (emittable_of_id _ hid (by decide))
  | cbr =>
    simp only [PacketName.handler] at h
    obtain ⟨_, rfl, -⟩ := cbrPacketHandler_ok h
    exact HandlerResult.forall_mem_one (emittable_of_id .cbr rfl (by decide))
  | tsc =>
    cases h
    have hid : PacketId.tsc ∉ ipPacketIds := by decide
    exact HandlerResult.forall_mem_one ⟨fun hip => absurd hip hid, fun _ => Option.some_ne_none _⟩
  | psb =>
    cases h
    exact HandlerResult.forall_mem_one (emittable_of_id .psb rfl (by decide))
  | psbend =>
    cases h
    exact HandlerResult.forall_mem_one (emittable_of_id .psbend rfl (by decide))
  | pip | traceStop | mtc | tma | vmcs | ovf | mnt | ptw | exstop | mwait | pwre | pwrx | bbp
  | bep =>
    cases h
    exact HandlerResult.forall_mem_one (emittable_of_id .undefined rfl (by decide))

theorem Emission.emittable_take {e : Emission} {call : HandlerCall}
    (hd : call.definition ∈ packetDefinitions)
    (hname : call.packetName = call.definition.packetName)
    (he : ∀ el ∈ e.succession, Emittable el) : ∀ el ∈ (e.take call).succession, Emittable el := by
  have hh := packetDefinitions_handle call.definition hd
  rw [← hname] at hh
  simp only [Emission.take, hh]
  cases hr : call.packetName.handler call.packetData call.packetName e.context with
  | error _ => exact he
  | ok r =>
    simp only [Emission.accept]
    split
    · exact he
    · intro el hel
      obtain hel | hel := List.mem_append.mp hel
      · exact he el hel
      · exact handler_emittable hr el hel

theorem feed_emittable {st : PacketInterpretor} (hr : Running packetDefinitions st)
    (hs : ∀ el ∈ st.succession, Emittable el) (bs : List Byte) :
    ∀ el ∈ (feed packetDefinitions st bs).st.succession, Emittable el := by
  have hcalls (calls : List HandlerCall) : ∀ e : Emission,
      (∀ call ∈ calls, call.definition ∈ packetDefinitions ∧
        call.packetName = call.definition.packetName) →
      (∀ el ∈ e.succession, Emittable el) →
      ∀ el ∈ (calls.foldl Emission.take e).succession, Emittable el := by
    induction calls with
    | nil => exact fun e _ he => he
    | cons call calls ih =>
      intro e hmem he
      have hcall := hmem call List.mem_cons_self
      exact ih _ (fun c hc => hmem c (List.mem_cons_of_mem call hc))
        (Emission.emittable_take hcall.1 hcall.2 he)
  have hemission := feed_emission packetDefinitions st bs
  have hsucc : (feed packetDefinitions st bs).st.succession =
      ((feed packetDefinitions st bs).out.foldl Emission.take st.emission).succession :=
    congrArg Emission.succession hemission
  rw [hsucc]
  exact hcalls _ _ (feed_out_mem packetDefinitions_wellFormed hr bs) hs

structure Drained (st : TraceReader) : Prop where
  running : Running packetDefinitions st.interpretor
  succession : st.interpretor.succession = []

theorem drained_new : Drained {} :=
  ⟨running_new packetDefinitions_wellFormed none none none, rfl⟩

theorem Running.getSuccession {table : List PacketDefinition} {st : PacketInterpretor}
    (h : Running table st) : Running table (getSuccession st).2 where
  phase := by
    obtain hs | ⟨d, hb⟩ := h.phase
    · exact Or.inl ⟨hs.not_in, hs.candidates, hs.index, hs.unmatched⟩
    · exact Or.inr ⟨d, hb.in_packet, hb.current, hb.starts, hb.length, hb.short⟩
  current_mem := h.current_mem

theorem readMessage_emittable {st : TraceReader} (h : Drained st) (msg : Message) :
    ((readMessage st msg).halt = none → Drained (readMessage st msg).st) ∧
      ∀ el ∈ (readMessage st msg).out.flatMap (·.packets), Emittable el := by
  have hnone : ∀ el ∈ st.interpretor.succession, Emittable el := by
    rw [h.succession]
    exact fun el hel => absurd hel List.not_mem_nil
  cases ht : msg.header.packetType with
  | first =>
    cases hu : unpackFirst msg.body with
    | error e => simp [readMessage, ht, hu]
    | ok values =>
      simp only [readMessage, ht, hu, List.flatMap_singleton]
      exact ⟨fun _ => ⟨h.running.getSuccession, rfl⟩, hnone⟩
  | last | data =>
    obtain ⟨hst, -, hhalt⟩ := parser_interpretor (processByte packetDefinitions) msg.body
      msg.header.sequenceId msg.header.packetId msg.header.cpuId
      ⟨st.interpretor, st.packetOrderLists⟩
    cases hh : (parser (processByte packetDefinitions) msg.body msg.header.sequenceId
      msg.header.packetId msg.header.cpuId ⟨st.interpretor, st.packetOrderLists⟩).halt with
    | some e => simp [readMessage, ht, hh]
    | none =>
      rw [hh] at hhalt
      have hrun := h.running.feed packetDefinitions_wellFormed hhalt.symm
      have hem := feed_emittable h.running hnone msg.body
      simp only [readMessage, ht, hh, List.flatMap_singleton, hst]
      exact ⟨fun _ => ⟨hrun.getSuccession, rfl⟩, hem⟩

/-! The loop over a succession. -/

section

variable {φ : Type*}

def Packet.unstamped (el : Packet) : Bool := el.tsc.isNone && !el.suppressed

/-- What the packets add to the tallies: the suppressed ones are counted by kind only. -/
structure Aggregated (els : List Packet) (st st' : TraceStatistics φ) : Prop where
  packets : ∀ name, count st'.packets name = count st.packets name + els.countP (·.named name)
  byTime : ∀ name, total st'.packetsByTime name +
      els.countP (fun el => el.named name && el.suppressed) =
    total st.packetsByTime name + els.countP (·.named name)
  ips : st'.ips.length = st.ips.length + els.countP (·.carried.isSome)
  firstTsc : st'.firstTsc ≠ none

theorem aggregated_nil {st : TraceStatistics φ} (h : st.firstTsc ≠ none) : Aggregated [] st st :=
  ⟨fun _ => rfl, fun _ => rfl, rfl, h⟩

theorem Aggregated.append {els els' : List Packet} {st st' st'' : TraceStatistics φ}
    (h : Aggregated els st st') (h' : Aggregated els' st' st'') :
    Aggregated (els ++ els') st st'' where
  packets := fun name => by
    rw [List.countP_append, h'.packets, h.packets, Nat.add_assoc]
  byTime := fun name => by
    have := h.byTime name
    have := h'.byTime name
    rw [List.countP_append, List.countP_append]
    omega
  ips := by rw [List.countP_append, h'.ips, h.ips, Nat.add_assoc]
  firstTsc := h'.firstTsc

/-- From empty tallies the two counts of a kind agree as long as none of it was suppressed. -/
theorem Aggregated.counts_iff {els : List Packet} {st : TraceStatistics φ}
    (h : Aggregated els {} st) (name : String) :
    count st.packets name = total st.packetsByTime name ↔
      ∀ el ∈ els, el.named name = true → el.suppressed = false := by
  have hpackets := h.packets name
  have hbyTime := h.byTime name
  simp only [count_empty, total_empty, Nat.zero_add] at hpackets hbyTime
  have hzero : count st.packets name = total st.packetsByTime name ↔
      els.countP (fun el => el.named name && el.suppressed) = 0 := by omega
  rw [hzero, List.countP_eq_zero]
  simp only [Bool.and_eq_true, not_and, Bool.not_eq_true]

theorem noteTsc_firstTsc {el : Packet} (he : Emittable el) {st : TraceStatistics φ}
    (h : st.firstTsc ≠ none) : (noteTsc el st).firstTsc ≠ none := by
  simp only [noteTsc]
  split
  · rename_i htsc
    have hstamp := he.tsc htsc
    simp only
    split
    · simpa using hstamp
    · exact h
  · exact h

theorem noteTsc_frame (el : Packet) (st : TraceStatistics φ) :
    (noteTsc el st).packets = st.packets ∧ (noteTsc el st).ips = st.ips ∧
      (noteTsc el st).packetsByTime = st.packetsByTime := by
  simp only [noteTsc]
  split <;> exact ⟨rfl, rfl, rfl⟩

def TraceStatistics.counted (divide : Nat → Nat → φ) (el : Packet) (st : TraceStatistics φ) :
    TraceStatistics φ :=
  { st with
    packets := bump st.packets (packetIdToString el.packetId)
    ips := st.ips ++ el.carried.toList.map fun addr => divide addr (1024 * 1024) }

variable [DecidableEq φ] (divide : Nat → Nat → φ) (zero : φ)

theorem aggregateTime_unstamped (frequency : Option Nat) {el : Packet} (h : el.tsc = none)
    (st : TraceStatistics φ) :
    aggregateTime divide zero frequency el st = .error .typeError := by
  simp [aggregateTime, relativeTime, h]

theorem aggregateTime_stamped {frequency : Nat} (hf : frequency ≠ 0) {el : Packet}
    (he : Emittable el) {tsc : Nat} (h : el.tsc = some tsc) (st : TraceStatistics φ)
    (hst : st.firstTsc ≠ none) :
    ∃ firstTsc lastTsc, firstTsc ≠ none ∧
      aggregateTime divide zero (some frequency) el st = .ok { st with
        firstTsc := firstTsc, lastTsc := lastTsc,
        packetsByTime :=
          bumpAt st.packetsByTime (divide tsc frequency) (packetIdToString el.packetId) } := by
  obtain ⟨first, hfirst⟩ := Option.ne_none_iff_exists'.mp (noteTsc_firstTsc he hst)
  obtain ⟨hpackets, hips, hbyTime⟩ := noteTsc_frame el st
  obtain ⟨n, rfl⟩ := Nat.exists_eq_succ_of_ne_zero hf
  refine ⟨(noteTsc el st).firstTsc, (noteTsc el st).lastTsc, by simp [hfirst], ?_⟩
  simp only [aggregateTime, relativeTime, h, hfirst, hbyTime, ← hpackets, ← hips]

theorem aggregatePacket_eq {el : Packet} (he : Emittable el) (frequency : Option Nat)
    (st : TraceStatistics φ) :
    aggregatePacket divide zero frequency st el =
      if el.suppressed then .ok (st.counted divide el)
      else aggregateTime divide zero frequency el (st.counted divide el) := by
  by_cases hip : el.packetId ∈ ipPacketIds
  · obtain ⟨type, address, hfields⟩ := he.ip hip
    cases address with
    | none =>
      simp [aggregatePacket, TraceStatistics.counted, Packet.suppressed, Packet.carried,
        Packet.address, hip, hfields]
    | some addr =>
      simp [aggregatePacket, TraceStatistics.counted, Packet.suppressed, Packet.carried,
        Packet.address, hip, hfields]
  · simp [aggregatePacket, TraceStatistics.counted, Packet.suppressed, Packet.carried, hip]

/-- One packet raises, or adds what it should up to its suppression. -/
theorem aggregatePacket_cases {frequency : Nat} (hf : frequency ≠ 0) {el : Packet}
    (he : Emittable el) {st : TraceStatistics φ} (hst : st.firstTsc ≠ none) :
    (el.unstamped = true ∧
        aggregatePacket divide zero (some frequency) st el = .error .typeError) ∨
      (el.unstamped = false ∧ ∃ st',
        aggregatePacket divide zero (some frequency) st el = .ok st' ∧
          Aggregated [el] st st') := by
  have hpackets (name : String) : count (st.counted divide el).packets name =
      count st.packets name + [el].countP (·.named name) := by
    simp [TraceStatistics.counted, Packet.named, List.countP_singleton]
  have hips : (st.counted divide el).ips.length =
      st.ips.length + [el].countP (·.carried.isSome) := by
    cases hc : el.carried <;> simp [TraceStatistics.counted, hc]
  rw [aggregatePacket_eq divide zero he]
  cases hs : el.suppressed with
  | true =>
    refine Or.inr ⟨by simp [Packet.unstamped, hs], _, rfl, hpackets, fun name => ?_, hips, hst⟩
    simp [TraceStatistics.counted, Packet.named, List.countP_singleton, hs]
  | false =>
    cases htsc : el.tsc with
    | none =>
      refine Or.inl ⟨by simp [Packet.unstamped, hs, htsc], ?_⟩
      exact aggregateTime_unstamped divide zero (some frequency) htsc _
    | some tsc =>
      refine Or.inr ⟨by simp [Packet.unstamped, htsc], ?_⟩
      obtain ⟨firstTsc, lastTsc, hfirst, hok⟩ :=
        aggregateTime_stamped divide zero hf he htsc (st.counted divide el) hst
      refine ⟨_, hok, hpackets, fun name => ?_, hips, hfirst⟩
      simp [TraceStatistics.counted, Packet.named, List.countP_singleton, hs]

/-- The whole loop raises at the first unstamped packet, or goes through. -/
theorem aggregate_cases {frequency : Nat} (hf : frequency ≠ 0) (els : List Packet) :
    ∀ {st : TraceStatistics φ}, (∀ el ∈ els, Emittable el) → st.firstTsc ≠ none →
      ((∃ el ∈ els, el.unstamped = true) ∧
          ∃ e, aggregate divide zero (some frequency) st els = .error e) ∨
        ((∀ el ∈ els, el.unstamped = false) ∧ ∃ st',
          aggregate divide zero (some frequency) st els = .ok st' ∧ Aggregated els st st') := by
  induction els with
  | nil =>
    intro st _ hst
    have hnone : ∀ el ∈ ([] : List Packet), el.unstamped = false :=
      fun el hel => absurd hel List.not_mem_nil
    exact Or.inr ⟨hnone, st, rfl, aggregated_nil hst⟩
  | cons el els ih =>
    intro st hels hst
    have hcons : aggregate divide zero (some frequency) st (el :: els) =
        (aggregatePacket divide zero (some frequency) st el).bind fun st' =>
          aggregate divide zero (some frequency) st' els := List.foldlM_cons
    obtain ⟨hun, herr⟩ | ⟨hun, st₁, hok, hadd⟩ :=
      aggregatePacket_cases divide zero hf
        (hels el List.mem_cons_self) hst
    · refine Or.inl ⟨⟨el, List.mem_cons_self, hun⟩, .typeError, ?_⟩
      rw [hcons, herr]
      rfl
    · have hnext : aggregate divide zero (some frequency) st (el :: els) =
          aggregate divide zero (some frequency) st₁ els := by
        rw [hcons, hok]
        rfl
      rw [hnext]
      obtain ⟨⟨el', hmem, hun'⟩, herr⟩ | ⟨hall, st₂, hok', hadd'⟩ :=
        ih (fun e he => hels e (List.mem_cons_of_mem el he)) hadd.firstTsc
      · exact Or.inl ⟨⟨el', List.mem_cons_of_mem el hmem, hun'⟩, herr⟩
      · refine Or.inr ⟨?_, st₂, hok', hadd.append hadd'⟩
        exact List.forall_mem_cons.mpr ⟨hun, hall⟩

end

/-! Over the messages. -/

section

variable {φ : Type*}

def yielded (r : Result (StatisticsReader φ) Decoded TraceError) : List Packet :=
  r.out.flatMap (·.packets)

structure Accounted (st : TraceStatistics φ)
    (r : Result (StatisticsReader φ) Decoded TraceError) : Prop where
  raises : (∃ e, r.halt = some (.aggregation e)) ↔ ∃ el ∈ yielded r, el.unstamped = true
  aggregated : (∀ e, r.halt ≠ some (.aggregation e)) →
    Aggregated (yielded r) st r.st.statistics

theorem accounted_silent {st : TraceStatistics φ}
    {r : Result (StatisticsReader φ) Decoded TraceError} (hout : r.out = [])
    (hhalt : ∀ e, r.halt ≠ some (.aggregation e)) (hst : r.st.statistics = st)
    (hfirst : st.firstTsc ≠ none) : Accounted st r := by
  have hnone : yielded r = [] := by rw [yielded, hout, List.flatMap_nil]
  refine ⟨⟨fun h => ?_, fun h => ?_⟩, fun _ => ?_⟩
  · obtain ⟨e, he⟩ := h
    exact absurd he (hhalt e)
  · obtain ⟨el, hel, -⟩ := h
    rw [hnone] at hel
    exact absurd hel List.not_mem_nil
  · rw [hnone, hst]
    exact aggregated_nil hfirst

/-- What a message added goes in front of what is accounted for behind it. -/
theorem Accounted.prepend {st st' : TraceStatistics φ}
    {t : Result (StatisticsReader φ) Decoded TraceError} (h : Accounted st' t)
    {out : List Decoded} (hall : ∀ el ∈ out.flatMap (·.packets), el.unstamped = false)
    (hadd : Aggregated (out.flatMap (·.packets)) st st') :
    Accounted st { st := t.st, out := out ++ t.out, halt := t.halt } := by
  have hyielded : yielded (φ := φ) { st := t.st, out := out ++ t.out, halt := t.halt } =
      out.flatMap (·.packets) ++ yielded t := List.flatMap_append
  refine ⟨?_, fun hhalt => ?_⟩
  · rw [hyielded]
    refine h.raises.trans ⟨fun hun => ?_, fun hun => ?_⟩
    · obtain ⟨el, hel, hun⟩ := hun
      exact ⟨el, List.mem_append_right _ hel, hun⟩
    · obtain ⟨el, hel, hun⟩ := hun
      obtain hel | hel := List.mem_append.mp hel
      · have := hall el hel
        rw [hun] at this
        cases this
      · exact ⟨el, hel, hun⟩
  · rw [hyielded]
    exact hadd.append (h.aggregated hhalt)

structure Timed (st : StatisticsReader φ) : Prop where
  frequency : ∃ n, n ≠ 0 ∧ st.processorFrequency = some n
  firstTsc : st.statistics.firstTsc ≠ none

variable [DecidableEq φ] (divide : Nat → Nat → φ) (zero : φ)

/-- A message that is no FIRST one fails in the decoder, or its packets go through the loop. -/
theorem readMessageStatistics_cases (st : StatisticsReader φ) {msg : Message}
    (hno : msg.header.packetType ≠ .first) :
    (∃ e reader, readMessageStatistics divide zero st msg =
        { st := { st with reader := reader }, halt := some (.decoding e) }) ∨
      ((readMessage st.reader msg).halt = none ∧ readMessageStatistics divide zero st msg =
        match aggregate divide zero st.processorFrequency st.statistics
            ((readMessage st.reader msg).out.flatMap (·.packets)) with
        | .error e => {
            st := { st with reader := (readMessage st.reader msg).st }
            out := (readMessage st.reader msg).out
            halt := some (.aggregation e) }
        | .ok statistics => {
            st := { st with
              reader := (readMessage st.reader msg).st, statistics := statistics }
            out := (readMessage st.reader msg).out }) := by
  have hbegin (reader : TraceReader) : st.begin reader msg = { st with reader := reader } := by
    cases ht : msg.header.packetType with
    | first => exact absurd ht hno
    | last | data => simp only [StatisticsReader.begin, ht]
  cases hh : (readMessage st.reader msg).halt with
  | some e =>
    exact Or.inl ⟨e, (readMessage st.reader msg).st, by simp only [readMessageStatistics, hh]⟩
  | none => exact Or.inr ⟨rfl, by simp only [readMessageStatistics, hh, hbegin]⟩

theorem readStatistics_accounted (msgs : List Message)
    (hno : ∀ msg ∈ msgs, msg.header.packetType ≠ .first) :
    ∀ st : StatisticsReader φ, Drained st.reader → Timed st →
      Accounted st.statistics (readStatistics divide zero st msgs) := by
  induction msgs with
  | nil =>
    intro st _ ht
    exact accounted_silent rfl (fun _ he => by cases he) rfl ht.firstTsc
  | cons msg msgs ih =>
    intro st hd ht
    have hrest := fun m hm => hno m (List.mem_cons_of_mem msg hm)
    obtain ⟨e, reader, heq⟩ | ⟨hhalt, heq⟩ :=
      readMessageStatistics_cases divide zero st (hno msg List.mem_cons_self)
    · have hrun : readStatistics divide zero st (msg :: msgs) =
          { st := { st with reader := reader }, halt := some (.decoding e) } := by
        rw [readStatistics, run_cons_halt (by rw [heq]), heq]
      rw [hrun]
      exact accounted_silent rfl (fun _ he => by cases he) rfl ht.firstTsc
    · obtain ⟨hdrained, hemittable⟩ := readMessage_emittable hd msg
      obtain ⟨n, hn, hfrequency⟩ := ht.frequency
      obtain ⟨hun, e, herr⟩ | ⟨hall, st', hok, hadd⟩ :=
        hfrequency ▸ aggregate_cases divide zero hn _ hemittable ht.firstTsc
      · have hrun : readStatistics divide zero st (msg :: msgs) = {
            st := { st with reader := (readMessage st.reader msg).st }
            out := (readMessage st.reader msg).out
            halt := some (.aggregation e) } := by
          rw [herr] at heq
          rw [readStatistics, run_cons_halt (by rw [heq]), heq]
        rw [hrun]
        exact ⟨⟨fun _ => hun, fun _ => ⟨e, rfl⟩⟩, fun h => absurd rfl (h e)⟩
      · rw [hok] at heq
        have htail := ih hrest
          { st with reader := (readMessage st.reader msg).st, statistics := st' }
          (hdrained hhalt) ⟨ht.frequency, hadd.firstTsc⟩
        rw [readStatistics, run_cons (by rw [heq]), heq]
        exact htail.prepend hall hadd

/-- A FIRST message with a frequency, where the decoder got to it, and messages up to the next. -/
structure StartedTrace where
  before : List Message
  first : Message
  values : FirstPacketValues
  after : List Message
  read : (readTrace before).halt = none
  is_first : first.header.packetType = .first
  unpacked : unpackFirst first.body = .ok values
  frequency_ne : values.processorFrequency ≠ 0
  no_first : ∀ msg ∈ after, msg.header.packetType ≠ .first

def StartedTrace.result (divide : Nat → Nat → φ) (zero : φ) (trace : StartedTrace)
    (frequency : Option Nat) (statistics : TraceStatistics φ) :
    Result (StatisticsReader φ) Decoded TraceError :=
  readStatistics divide zero ⟨(readTrace trace.before).st, frequency, statistics⟩
    (trace.first :: trace.after)

/-- The loops raised nothing, the kinds are counted alike in both tallies, and every address an
IP packet carried has an entry. -/
structure Consistent (r : Result (StatisticsReader φ) Decoded TraceError) : Prop where
  total : ∀ e, r.halt ≠ some (.aggregation e)
  counts : ∀ id, count r.st.statistics.packets (packetIdToString id) =
    Tally.total r.st.statistics.packetsByTime (packetIdToString id)
  ips : r.st.statistics.ips.length = (yielded r).countP (·.carried.isSome)

theorem drained_readTrace {messages : List Message} (h : (readTrace messages).halt = none) :
    Drained (readTrace messages).st :=
  run_invariant Drained (fun _ msg hd => (readMessage_emittable hd msg).1) drained_new h

/-- The FIRST message makes the tallies anew, and every packet after it is accounted for. -/
theorem StartedTrace.accounted (trace : StartedTrace)
    (frequency : Option Nat) (statistics : TraceStatistics φ) :
    Accounted {} (trace.result divide zero frequency statistics) := by
  have hd := drained_readTrace trace.read
  have hfirst : (readMessage (readTrace trace.before).st trace.first).halt = none ∧
      (readMessage (readTrace trace.before).st trace.first).out =
        [⟨trace.first.header.sequenceId, []⟩] := by
    simp [readMessage, trace.is_first, trace.unpacked, getSuccession, hd.succession]
  have hstep : readMessageStatistics divide zero
      ⟨(readTrace trace.before).st, frequency, statistics⟩ trace.first =
        { st := {
            reader := (readMessage (readTrace trace.before).st trace.first).st
            processorFrequency := some trace.values.processorFrequency }
          out := [⟨trace.first.header.sequenceId, []⟩] } := by
    simp only [readMessageStatistics, hfirst, StatisticsReader.begin, trace.is_first,
      trace.unpacked]
    rfl
  have htail := readStatistics_accounted divide zero trace.after trace.no_first {
      reader := (readMessage (readTrace trace.before).st trace.first).st
      processorFrequency := some trace.values.processorFrequency }
    ((readMessage_emittable hd trace.first).1 hfirst.1)
    ⟨⟨_, trace.frequency_ne, rfl⟩, Option.some_ne_none _⟩
  have hhalt : (readMessageStatistics divide zero
      ⟨(readTrace trace.before).st, frequency, statistics⟩ trace.first).halt = none := by
    rw [hstep]
  have hrun := run_cons hhalt trace.after
  rw [hstep] at hrun
  rw [StartedTrace.result, readStatistics, hrun]
  exact ⟨htail.raises, htail.aggregated⟩

theorem trace_statistics_consistent_iff (trace : StartedTrace)
    (frequency : Option Nat) (statistics : TraceStatistics φ) :
    Consistent (trace.result divide zero frequency statistics) ↔
      ∀ el ∈ yielded (trace.result divide zero frequency statistics), Regular el := by
  have hacc := trace.accounted divide zero frequency statistics
  generalize trace.result divide zero frequency statistics = r at hacc ⊢
  constructor
  · intro h el hel
    have hadd := hacc.aggregated h.total
    have hsup : el.suppressed = false :=
      (hadd.counts_iff (packetIdToString el.packetId)).mp (h.counts el.packetId) el hel
        (beq_self_eq_true _)
    refine ⟨fun htsc => ?_, hsup⟩
    have hun : el.unstamped = true := by simp [Packet.unstamped, htsc, hsup]
    obtain ⟨e, he⟩ := hacc.raises.mpr ⟨el, hel, hun⟩
    exact h.total e he
  · intro h
    have htotal : ∀ e, r.halt ≠ some (.aggregation e) := by
      intro e he
      obtain ⟨el, hel, hun⟩ := hacc.raises.mp ⟨e, he⟩
      simp [Packet.unstamped, (h el hel).1] at hun
    have hadd := hacc.aggregated htotal
    refine ⟨htotal, fun id => ?_, ?_⟩
    · exact (hadd.counts_iff _).mpr fun el hel _ => (h el hel).2
    · have hips := hadd.ips
      simpa using hips

end

def unstampedTnt : StartedTrace where
  before := []
  first := ⟨⟨1, 0, 0, .first⟩, List.replicate 20 1⟩
  values := ⟨littleEndian (List.replicate 8 1), littleEndian (List.replicate 4 1),
    littleEndian (List.replicate 8 1)⟩
  after := [⟨⟨1, 0, 0, .data⟩, [0x04]⟩]
  read := rfl
  is_first := rfl
  unpacked := rfl
  frequency_ne := by decide
  no_first := by decide

theorem not_trace_statistics_consistent : ¬ ∀ (divide : Nat → Nat → Nat) (noTime : Nat)
    (trace : StartedTrace) (frequency : Option Nat) (statistics : TraceStatistics Nat),
      Consistent (trace.result divide noTime frequency statistics) := by
  intro h
  have hhalt : (unstampedTnt.result (· / ·) 0 none {}).halt =
      some (.aggregation .typeError) := by decide +kernel
  exact (h (· / ·) 0 unstampedTnt none {}).total _ hhalt

end IntelPt.Decoder
