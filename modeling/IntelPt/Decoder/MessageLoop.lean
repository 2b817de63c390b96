import IntelPt.Decoder.TraceSummary
import IntelPt.Decoder.WireFormat

/-! The whole message loop of read_trace but for its plots: each message is decoded, the packets it
completes are counted, and the traced time is printed. The loop over a succession goes on where it
ended at the message before, so read_trace gets through a trace exactly if everything the trace
tells has a time, wherever the trace is cut. -/
namespace IntelPt.Decoder
open Tally Transducer

theorem length_of_unpackFirst {body : List Byte} {values : FirstPacketValues}
    (h : unpackFirst body = .ok values) : body.length = 20 := by
  by_contra hlength
  rw [unpackFirst, if_neg hlength] at h
  cases h

theorem first_length_of_goes (st : TraceReader) (msg : Message)
    (hgoes : (readMessage st msg).halt = none) :
    msg.header.packetType = .first → msg.body.length = 20 := by
  intro hfirst
  cases hunpacked : unpackFirst msg.body with
  | ok values => exact length_of_unpackFirst hunpacked
  | error e => simp [readMessage, hfirst, hunpacked] at hgoes

section

variable {φ : Type*}

/-- What the print of the traced time raises. -/
def tracedTime (st : StatisticsReader φ) : Option AggregationError :=
  match st.statistics.lastTsc, st.statistics.firstTsc, st.processorFrequency with
  | some _, some _, some 0 => some .zeroDivisionError
  | some _, some _, some _ => none
  | some _, some _, none => some .unboundLocalError
  | _, _, _ => some .typeError

variable [DecidableEq φ] (divide : Nat → Nat → φ) (zero : φ)

def loopBody (st : StatisticsReader φ) (msg : Message) :
    Result (StatisticsReader φ) Decoded TraceError :=
  let r := readMessageStatistics divide zero st msg
  match r.halt with
  | some _ => r
  | none => { r with halt := (tracedTime r.st).map .aggregation }

def rawLoopBody (st : StatisticsReader φ) (msg : List Byte) :
    Result (StatisticsReader φ) Decoded TraceError :=
  match parseMessage msg with
  | .error e => { st := st, halt := some (.decoding e) }
  | .ok none => { st := st }
  | .ok (some m) => loopBody divide zero st m

theorem run_rawLoopBody {raw : List (List Byte)} {messages : List Message}
    (h : List.Forall₂ (fun r m => parseMessage r = .ok (some m)) raw messages)
    (st : StatisticsReader φ) :
    run (rawLoopBody divide zero) st raw = run (loopBody divide zero) st messages :=
  run_forall₂ (fun st r m hm => by rw [rawLoopBody, hm]) h st

/-- A FIRST message comes first, and each has a frequency to divide by. -/
structure Announced (messages : List Message) : Prop where
  first : ∀ m ∈ messages.head?, m.header.packetType = .first
  frequency : ∀ m ∈ messages, m.header.packetType = .first →
    ∃ values, unpackFirst m.body = .ok values ∧ values.processorFrequency ≠ 0

structure Tallied (frequency : Nat) (els : List Packet) (st : StatisticsReader φ) : Prop where
  drained : Drained st.reader
  frequency_ne : frequency ≠ 0
  processorFrequency : st.processorFrequency = some frequency
  summary : Summarises divide frequency els st.statistics

omit [DecidableEq φ] in
theorem tracedTime_eq_none {st : StatisticsReader φ} {frequency : Nat} (hne : frequency ≠ 0)
    (hfrequency : st.processorFrequency = some frequency)
    (hfirst : st.statistics.firstTsc ≠ none) (hlast : st.statistics.lastTsc ≠ none) :
    tracedTime st = none := by
  obtain ⟨first, hfirst⟩ := Option.ne_none_iff_exists'.mp hfirst
  obtain ⟨last, hlast⟩ := Option.ne_none_iff_exists'.mp hlast
  obtain ⟨n, rfl⟩ := Nat.exists_eq_succ_of_ne_zero hne
  simp only [tracedTime, hfirst, hlast, hfrequency]

variable {divide} in
theorem Tallied.tracedTime {frequency : Nat} {els : List Packet} {st : StatisticsReader φ}
    (h : Tallied divide frequency els st) : tracedTime st = none :=
  tracedTime_eq_none h.frequency_ne h.processorFrequency
    (by rw [h.summary.firstTsc]; exact Option.some_ne_none _)
    (by rw [h.summary.lastTsc]; exact Option.some_ne_none _)

/-- A FIRST message completes no packet and begins new tallies. -/
theorem loopBody_first {st : StatisticsReader φ} (hd : Drained st.reader) {msg : Message}
    (hfirst : msg.header.packetType = .first) {values : FirstPacketValues}
    (hunpacked : unpackFirst msg.body = .ok values) (hne : values.processorFrequency ≠ 0) :
    (readMessage st.reader msg).halt = none ∧
      allPackets (readMessage st.reader msg).out = [] ∧
      ∃ st', loopBody divide zero st msg = { st := st', out := (readMessage st.reader msg).out } ∧
        st'.reader = (readMessage st.reader msg).st ∧
        Tallied divide values.processorFrequency [] st' := by
  have hread : (readMessage st.reader msg).halt = none ∧
      (readMessage st.reader msg).out = [⟨msg.header.sequenceId, []⟩] := by
    simp [readMessage, hfirst, hunpacked, getSuccession, hd.succession]
  let started : StatisticsReader φ := {
    reader := (readMessage st.reader msg).st
    processorFrequency := some values.processorFrequency }
  have hdrained : Drained started.reader := (readMessage_emittable hd msg).1 hread.1
  have hstarted : Tallied divide values.processorFrequency [] started :=
    ⟨hdrained, hne, rfl, summarises_nil divide _⟩
  have hstep : readMessageStatistics divide zero st msg =
      { st := started, out := (readMessage st.reader msg).out } := by
    simp only [readMessageStatistics, hread, StatisticsReader.begin, hfirst, hunpacked]
    rfl
  refine ⟨hread.1, by rw [hread.2]; rfl, started, ?_, rfl, hstarted⟩
  simp only [loopBody, hstep, hstarted.tracedTime, Option.map_none]

/-- Another message ends the loop at a packet without a time, or its packets are counted. -/
theorem loopBody_data {frequency : Nat} {els : List Packet} {st : StatisticsReader φ}
    (h : Tallied divide frequency els st) {msg : Message}
    (hno : msg.header.packetType ≠ .first) (hread : (readMessage st.reader msg).halt = none) :
    let new := allPackets (readMessage st.reader msg).out
    ((∃ el ∈ new, el.unstamped = true) ∧
        (loopBody divide zero st msg).halt = some (.aggregation .typeError)) ∨
      ((∀ el ∈ new, el.unstamped = false) ∧ ∃ st',
        loopBody divide zero st msg = { st := st', out := (readMessage st.reader msg).out } ∧
        st'.reader = (readMessage st.reader msg).st ∧
        Tallied divide frequency (els ++ new) st') := by
  intro new
  obtain ⟨hdrained, hemittable⟩ := readMessage_emittable h.drained msg
  obtain ⟨e, reader, hone⟩ | ⟨-, hone⟩ := readMessageStatistics_cases divide zero st hno
  · have hhalt := congrArg Result.halt hone
    simp only [readMessageStatistics, hread] at hhalt
    split at hhalt <;> simp at hhalt
  rw [h.processorFrequency, ← allPackets] at hone
  obtain ⟨hun, herr⟩ | ⟨hall, statistics, hok, hsummary⟩ :=
    aggregate_summarises divide h.frequency_ne zero new h.summary hemittable
  · rw [herr] at hone
    exact Or.inl ⟨hun, by simp only [loopBody, hone]⟩
  · rw [hok] at hone
    let st' : StatisticsReader φ := ⟨(readMessage st.reader msg).st, some frequency, statistics⟩
    have htallied : Tallied divide frequency (els ++ new) st' :=
      ⟨hdrained hread, h.frequency_ne, rfl, hsummary⟩
    have hone' : readMessageStatistics divide zero st msg =
        { st := st', out := (readMessage st.reader msg).out } := hone
    refine Or.inr ⟨hall, st', ?_, rfl, htallied⟩
    simp only [loopBody, hone', htallied.tracedTime, Option.map_none]

/-- The loop goes through what is decoded. -/
structure Goes (st : StatisticsReader φ) (msgs : List Message) : Prop where
  stamped : ∀ el ∈ allPackets (run readMessage st.reader msgs).out, el.unstamped = false
  halt : (run (loopBody divide zero) st msgs).halt = none
  out : (run (loopBody divide zero) st msgs).out = (run readMessage st.reader msgs).out
  reader : (run (loopBody divide zero) st msgs).st.reader = (run readMessage st.reader msgs).st
  tallied : ∀ frequency els, Tallied divide frequency els st →
    (∀ m ∈ msgs, m.header.packetType ≠ .first) →
      Tallied divide frequency (els ++ allPackets (run readMessage st.reader msgs).out)
        (run (loopBody divide zero) st msgs).st

/-- It ends at the first packet without a time. -/
def Ends (st : StatisticsReader φ) (msgs : List Message) : Prop :=
  (∃ el ∈ allPackets (run readMessage st.reader msgs).out, el.unstamped = true) ∧
    (run (loopBody divide zero) st msgs).halt = some (.aggregation .typeError)

section

variable {divide zero} {st st' : StatisticsReader φ} {m : Message} {msgs : List Message}

theorem goes_nil (st : StatisticsReader φ) : Goes divide zero st [] := by
  refine ⟨fun el hel => absurd hel List.not_mem_nil, rfl, rfl, rfl, fun frequency els h _ => ?_⟩
  rwa [run_nil, allPackets, List.flatMap_nil, List.append_nil]

/-- A message that goes through, in front of others. -/
theorem Ends.cons (h : Ends divide zero st' msgs)
    (hread : (readMessage st.reader m).halt = none)
    (hone : loopBody divide zero st m = { st := st', out := (readMessage st.reader m).out })
    (hreader : st'.reader = (readMessage st.reader m).st) : Ends divide zero st (m :: msgs) := by
  obtain ⟨⟨el, hel, hun⟩, herr⟩ := h
  rw [hreader] at hel
  refine ⟨⟨el, ?_, hun⟩, ?_⟩
  · rw [run_cons hread, allPackets, List.flatMap_append]
    exact List.mem_append_right _ hel
  · rw [run_cons (by rw [hone]), hone]
    exact herr

theorem Goes.cons (h : Goes divide zero st' msgs)
    (hread : (readMessage st.reader m).halt = none)
    (hone : loopBody divide zero st m = { st := st', out := (readMessage st.reader m).out })
    (hreader : st'.reader = (readMessage st.reader m).st)
    (hall : ∀ el ∈ allPackets (readMessage st.reader m).out, el.unstamped = false)
    (hels : ∀ frequency els, Tallied divide frequency els st → m.header.packetType ≠ .first →
      Tallied divide frequency (els ++ allPackets (readMessage st.reader m).out) st') :
    Goes divide zero st (m :: msgs) := by
  obtain ⟨hall', hhalt, hout, hreader', hels'⟩ := h
  rw [hreader] at hall' hout hreader' hels'
  have hgo : (loopBody divide zero st m).halt = none := by rw [hone]
  have hloop := run_cons hgo msgs
  rw [hone] at hloop
  refine ⟨?_, ?_, ?_, ?_, fun frequency els hst hno => ?_⟩
  · rw [run_cons hread, allPackets, List.flatMap_append]
    exact List.forall_mem_append.mpr ⟨hall, hall'⟩
  · rw [hloop]
    exact hhalt
  · rw [hloop, run_cons hread, hout]
  · rw [hloop, run_cons hread]
    exact hreader'
  · rw [hloop, run_cons hread, allPackets, List.flatMap_append, ← List.append_assoc]
    exact hels' _ _ (hels frequency els hst (hno m List.mem_cons_self))
      fun m' hm' => hno m' (List.mem_cons_of_mem m hm')

end

/-- From a FIRST message on, or between two messages. -/
theorem loop_cases (msgs : List Message) : ∀ st : StatisticsReader φ, Drained st.reader →
    (∀ m ∈ msgs, m.header.packetType = .first →
      ∃ values, unpackFirst m.body = .ok values ∧ values.processorFrequency ≠ 0) →
    ((∃ frequency els, Tallied divide frequency els st) ∨
      ∀ m ∈ msgs.head?, m.header.packetType = .first) →
    (run readMessage st.reader msgs).halt = none →
      Ends divide zero st msgs ∨ Goes divide zero st msgs := by
  induction msgs with
  | nil => exact fun st _ _ _ _ => Or.inr (goes_nil st)
  | cons m msgs ih =>
    intro st hd hfrequency hbegins hrun
    have hrest := fun m' hm' => hfrequency m' (List.mem_cons_of_mem m hm')
    have hread : (readMessage st.reader m).halt = none := by
      cases hh : (readMessage st.reader m).halt with
      | none => rfl
      | some e =>
        rw [run_cons_halt hh, hh] at hrun
        cases hrun
    rw [run_cons hread] at hrun
    -- what comes behind a message that goes through
    have hlater {st' : StatisticsReader φ} {frequency : Nat} {els : List Packet}
        (hreader : st'.reader = (readMessage st.reader m).st)
        (hst' : Tallied divide frequency els st') :
        Ends divide zero st' msgs ∨ Goes divide zero st' msgs :=
      ih st' hst'.drained hrest (Or.inl ⟨frequency, els, hst'⟩) (hreader ▸ hrun)
    by_cases hfirst : m.header.packetType = .first
    · obtain ⟨values, hunpacked, hne⟩ := hfrequency m List.mem_cons_self hfirst
      obtain ⟨-, hnothing, st', hone, hreader, hst'⟩ :=
        loopBody_first divide zero hd hfirst hunpacked hne
      obtain hends | hgoes := hlater hreader hst'
      · exact Or.inl (hends.cons hread hone hreader)
      · refine Or.inr (hgoes.cons hread hone hreader ?_ fun _ _ _ hno => absurd hfirst hno)
        rw [hnothing]
        exact fun el hel => absurd hel List.not_mem_nil
    · obtain ⟨frequency, els, hst⟩ := hbegins.resolve_right fun h => hfirst (h m rfl)
      obtain ⟨⟨el, hel, hun⟩, herr⟩ | ⟨hall, st', hone, hreader, hst'⟩ :=
        loopBody_data divide zero hst hfirst hread
      · refine Or.inl ⟨⟨el, ?_, hun⟩, ?_⟩
        · rw [run_cons hread, allPackets, List.flatMap_append]
          exact List.mem_append_left _ hel
        · exact (congrArg Result.halt (run_cons_halt herr msgs)).trans herr
      · obtain hends | hgoes := hlater hreader hst'
        · exact Or.inl (hends.cons hread hone hreader)
        refine Or.inr (hgoes.cons hread hone hreader hall fun frequency₀ els₀ h₀ _ => ?_)
        obtain ⟨-, st'', hone', -, hst''⟩ :=
          (loopBody_data divide zero h₀ hfirst hread).resolve_left fun hbad => by
            obtain ⟨⟨el, hel, hun⟩, -⟩ := hbad
            rw [hall el hel] at hun
            cases hun
        obtain rfl : st'' = st' := congrArg Result.st (hone'.symm.trans hone)
        exact hst''

end

/-- What read_trace makes of a trace: it gets through exactly if everything told has a time, and
then it decodes what the trace means; otherwise a comparison of None with first_tsc ends it. -/
structure Traced {φ : Type*} (trace : List TraceEvent)
    (r : Result (StatisticsReader φ) Decoded TraceError) : Prop where
  goes : r.halt = none ↔ StampedTrace {} trace
  ends : r.halt ≠ none → r.halt = some (.aggregation .typeError)
  decodes : r.halt = none → allPackets r.out = meaning {} trace

/-- The trace may be cut anywhere, with FIRST messages in between. -/
theorem traced_loop {φ : Type*} [DecidableEq φ] (divide : Nat → Nat → φ) (zero : φ)
    {messages : List Message} (hannounced : Announced messages) {trace : List TraceEvent}
    (hpossible : PossibleTrace {} trace) (hfit : HeadersFit none trace)
    (htrace : traceBytes messages = encodeEvents trace) :
    Traced trace (run (loopBody divide zero) {} messages) := by
  have hlength : ∀ m ∈ messages, m.header.packetType = .first → m.body.length = 20 := by
    intro m hm hfirst
    obtain ⟨values, hunpacked, -⟩ := hannounced.frequency m hm hfirst
    exact length_of_unpackFirst hunpacked
  obtain ⟨hhalt, hpackets⟩ := readTrace_traceBytes hlength
  obtain ⟨hfed, hmeaning, -⟩ := decode_encodeEvents trace hpossible hfit none none none
  rw [htrace] at hhalt hpackets
  have hgoes := hhalt.trans hfed
  have hdecoded := (hpackets hgoes).trans hmeaning
  obtain ⟨⟨el, hel, hun⟩, herr⟩ | ⟨hall, hnone, hout, -, -⟩ :=
    loop_cases divide zero messages {} drained_new hannounced.frequency
      (Or.inr hannounced.first) hgoes
  · have hnot : ¬ StampedTrace {} trace := fun hstamped => by
      rw [(stamped_meaning trace {}).mpr hstamped el (hdecoded ▸ hel)] at hun
      cases hun
    refine ⟨⟨fun hnone => ?_, fun h => absurd h hnot⟩, fun _ => herr, fun hnone => ?_⟩
    · cases herr.symm.trans hnone
    · cases herr.symm.trans hnone
  · have hstamped : StampedTrace {} trace :=
      (stamped_meaning trace {}).mp fun el hel => hall el (hdecoded ▸ hel)
    exact ⟨⟨fun _ => hstamped, fun _ => hnone⟩, fun hne => absurd hnone hne,
      fun _ => (congrArg allPackets hout).trans hdecoded⟩

/-! The tallies. -/

def StartedTrace.reader (start : StartedTrace) : TraceReader :=
  (readMessage (readTrace start.before).st start.first).st

theorem StartedTrace.first_read (start : StartedTrace) :
    (readMessage (readTrace start.before).st start.first).halt = none ∧
      allPackets (readMessage (readTrace start.before).st start.first).out = [] := by
  have hd := drained_readTrace start.read
  simp [readMessage, start.is_first, start.unpacked, getSuccession, hd.succession, allPackets]

/-- The messages carry a trace, `earlier` in front of the FIRST message, `later` behind it. -/
structure StartedTrace.OfTrace (start : StartedTrace) (earlier later : List TraceEvent) : Prop where
  possible : PossibleTrace {} (earlier ++ later)
  fit : HeadersFit none (earlier ++ later)
  before : traceBytes start.before = encodeEvents earlier
  after : traceBytes start.after = encodeEvents later

def StartedTrace.messages (start : StartedTrace) : List Message :=
  start.before ++ start.first :: start.after

section

variable {start : StartedTrace} {earlier later : List TraceEvent}

theorem StartedTrace.OfTrace.traceBytes (h : start.OfTrace earlier later) :
    traceBytes start.messages = encodeEvents (earlier ++ later) := by
  rw [encodeEvents, List.flatMap_append, ← encodeEvents, ← encodeEvents, ← h.before, ← h.after]
  simp [StartedTrace.messages, Decoder.traceBytes, start.is_first]

/-- The messages behind the FIRST one say what the trace says behind what came earlier. -/
theorem StartedTrace.OfTrace.decoded (h : start.OfTrace earlier later) :
    (run readMessage start.reader start.after).halt = none ∧
      allPackets (run readMessage start.reader start.after).out =
        meaning (earlier.foldl TraceEvent.next {}) later := by
  have hbeforeLength := run_forall first_length_of_goes start.read
  have hlength : ∀ m ∈ start.messages, m.header.packetType = .first → m.body.length = 20 := by
    refine List.forall_mem_append.mpr ⟨hbeforeLength, List.forall_mem_cons.mpr ⟨fun _ => ?_, ?_⟩⟩
    · exact length_of_unpackFirst start.unpacked
    · exact fun m hm hfirst => absurd hfirst (start.no_first m hm)
  obtain ⟨hhalt, hpackets⟩ := readTrace_traceBytes hlength
  obtain ⟨hfed, hmeaning, -⟩ :=
    decode_encodeEvents (earlier ++ later) h.possible h.fit none none none
  rw [h.traceBytes] at hhalt hpackets
  have hwhole := hpackets (hhalt.trans hfed)
  obtain ⟨hhalt', hpackets'⟩ := readTrace_traceBytes hbeforeLength
  obtain ⟨hfed', hmeaning', -⟩ :=
    decode_encodeEvents earlier h.possible.of_append h.fit.of_append none none none
  rw [h.before] at hhalt' hpackets'
  have hearlier := hpackets' (hhalt'.trans hfed')
  obtain ⟨hfirst, hnothing⟩ := start.first_read
  have hrest := run_cons hfirst start.after
  have hsplit : readTrace start.messages = _ :=
    run_append start.read (start.first :: start.after)
  rw [← readTrace, hrest] at hsplit
  rw [hsplit] at hhalt
  refine ⟨hhalt.trans hfed, ?_⟩
  rw [hsplit, hmeaning, meaning_append, ← hmeaning', ← hearlier] at hwhole
  simp only [allPackets, List.flatMap_append] at hwhole hnothing ⊢
  rw [hnothing, List.nil_append] at hwhole
  exact List.append_cancel_left hwhole

theorem StartedTrace.announced (h : Announced start.before) : Announced start.messages := by
  refine ⟨fun m hm => ?_, List.forall_mem_append.mpr
    ⟨h.frequency, List.forall_mem_cons.mpr ⟨fun _ => ?_, fun m hm hfirst => ?_⟩⟩⟩
  · rw [StartedTrace.messages, List.head?_append] at hm
    cases hbefore : start.before.head? with
    | none =>
      rw [hbefore] at hm
      cases hm
      exact start.is_first
    | some m' => exact h.first m (by rw [hbefore] at hm ⊢; exact hm)
  · exact ⟨start.values, start.unpacked, start.frequency_ne⟩
  · exact absurd hfirst (start.no_first m hm)

/-- read_trace gets through all the messages exactly if everything they tell has a time, and then
the tallies are those of what came behind the FIRST message. -/
theorem loop_summarises {φ : Type*} [DecidableEq φ] (divide : Nat → Nat → φ) (zero : φ)
    (h : start.OfTrace earlier later) (hannounced : Announced start.before) :
    let r := run (loopBody divide zero) {} start.messages
    Traced (earlier ++ later) r ∧
      (r.halt = none → Summarises divide start.values.processorFrequency
        (meaning (earlier.foldl TraceEvent.next {}) later) r.st.statistics) := by
  intro r
  refine ⟨traced_loop divide zero (StartedTrace.announced hannounced) h.possible h.fit
    h.traceBytes, fun hnone => ?_⟩
  obtain ⟨hgoes, hpackets⟩ := h.decoded
  -- up to the FIRST message
  have hbefore : (run (loopBody divide zero) {} start.before).halt = none := by
    cases hh : (run (loopBody divide zero) {} start.before).halt with
    | none => rfl
    | some e =>
      have hsame : r = _ := run_append_halt hh (start.first :: start.after)
      rw [hsame, hh] at hnone
      cases hnone
  obtain ⟨-, herr⟩ | ⟨-, -, -, hreader, -⟩ := loop_cases divide zero
    start.before {} drained_new hannounced.frequency (Or.inr hannounced.first) start.read
  · cases herr.symm.trans hbefore
  have hread : (run (loopBody divide zero) {} start.before).st.reader =
      (readTrace start.before).st := hreader
  -- the FIRST message, and what is behind it
  have hdrained : Drained (run (loopBody divide zero) {} start.before).st.reader := by
    rw [hread]
    exact drained_readTrace start.read
  obtain ⟨-, -, started, hone, hstarted, htallied⟩ := loopBody_first divide zero hdrained
    start.is_first start.unpacked start.frequency_ne
  rw [hread, ← StartedTrace.reader] at hstarted
  have hsplit : r = _ := run_append hbefore (start.first :: start.after)
  have hnone' : (loopBody divide zero (run (loopBody divide zero) {} start.before).st
      start.first).halt = none := by rw [hone]
  have hrest := run_cons hnone' start.after
  rw [hone] at hrest
  rw [hrest] at hsplit
  rw [hsplit] at hnone ⊢
  obtain ⟨-, herr⟩ | ⟨-, -, -, -, htallies⟩ := loop_cases divide zero
    start.after started htallied.drained (fun m hm hfirst => absurd hfirst (start.no_first m hm))
    (Or.inl ⟨_, _, htallied⟩) (hstarted ▸ hgoes)
  · cases herr.symm.trans hnone
  · have hafter := (htallies _ _ htallied start.no_first).summary
    rw [hstarted, hpackets, List.nil_append] at hafter
    exact hafter

end

def secondTrace : StartedTrace where
  before := [⟨⟨0, 0, 1, .first⟩, List.replicate 20 1⟩,
    ⟨⟨1, 0, 1, .last⟩, [0x19, 5, 0, 0, 0, 0, 0, 0, 0x06]⟩]
  first := ⟨⟨0, 0, 2, .first⟩, List.replicate 12 0 ++ [0xE8, 0x03, 0, 0, 0, 0, 0, 0]⟩
  values := ⟨0, 0, 1000⟩
  after := [⟨⟨1, 0, 2, .data⟩, [0x19, 0x70, 0x17]⟩, ⟨⟨2, 0, 2, .last⟩,
    [0, 0, 0, 0, 0, 0x0C, 0xCD, 0, 0, 0x40, 0, 0, 0, 0, 0, 0x0D, 0x19, 0x28, 0x23, 0, 0, 0, 0, 0]⟩]
  read := rfl
  is_first := rfl
  unpacked := rfl
  frequency_ne := by decide
  no_first := by decide

/-- The tallies are of the second trace only. The TIP packet without an address is not counted
under a time. -/
theorem loop_summarises_second :
    let r := run (loopBody ((· / ·) : Nat → Nat → Nat) 0) {} secondTrace.messages
    r.halt = none ∧ count r.st.statistics.packets "TAKEN" = 1 ∧
      count r.st.statistics.packets "TIP" = 2 ∧
      countAt r.st.statistics.packetsByTime 6 "TIP" = 1 ∧ r.st.statistics.ips = [4] ∧
      r.st.statistics.firstTsc = some 6000 ∧ r.st.statistics.lastTsc = some 9000 := by
  intro r
  let earlier : List TraceEvent := [.time 5, .branches ⟨[true], by decide, by decide⟩]
  let later : List TraceEvent := [.time 6000, .branches ⟨[true, false], by decide, by decide⟩,
    .ip ⟨.tip, .full, some 0x400000⟩, .ip ⟨.tip, .suppressed, none⟩, .time 9000]
  have htrace : secondTrace.OfTrace earlier later :=
    ⟨⟨trivial, trivial, trivial, trivial, trivial, trivial, trivial, trivial⟩, by decide, rfl, rfl⟩
  have hannounced : Announced secondTrace.before := by
    refine ⟨by decide, fun m hm hfirst => ?_⟩
    obtain rfl | hm := List.mem_cons.mp hm
    · exact ⟨_, rfl, by decide⟩
    · rw [List.mem_singleton.mp hm] at hfirst
      cases hfirst
  obtain ⟨htraced, hsummary⟩ := loop_summarises (· / ·) 0 htrace hannounced
  have hhalt : r.halt = none := htraced.goes.mpr (by decide)
  have h := hsummary hhalt
  exact ⟨hhalt, h.packets "TAKEN", h.packets "TIP", h.byTime 6 "TIP", h.ips, h.firstTsc, h.lastTsc⟩

end IntelPt.Decoder
