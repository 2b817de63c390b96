import IntelPt.Decoder.TraceDecoder

/-! Several sequences in one message stream. `read_trace` feeds one interpreter, so what a
sequence decodes to is independent of the others only if their messages never meet. -/
namespace IntelPt.Decoder
open Transducer

def packetsOf (sequenceId : Nat) (decoded : List Decoded) : List Packet :=
  (decoded.filter (·.sequenceId = sequenceId)).flatMap (·.packets)

def decodedOf (sequenceId : Nat) (messages : List Message) : List Packet :=
  packetsOf sequenceId (readTrace messages).out

def ofSequence (sequenceId : Nat) (messages : List Message) : List Message :=
  messages.filter (·.header.sequenceId = sequenceId)

/-- As new, but for the byte count and the constructor arguments, which decoding never reads. -/
def FreshDecoder (st : PacketInterpretor) : Prop :=
  { st with internalByteIdx := 0, procFrequency := none, imgBase := none, imgSize := none } =
    packetInterpretor packetDefinitions

/-- Every sequence decodes as if it were alone, and after its FIRST message the interpreter
that `parser` will be given is fresh. -/
structure NonInterfering (messages : List Message) : Prop where
  decoded : ∀ s, decodedOf s messages = decodedOf s (ofSequence s messages)
  first_fresh : ∀ before m, before ++ [m] <+: messages → m.header.packetType = .first →
    FreshDecoder (readTrace (before ++ [m])).st.interpretor

/-- Messages in a given order; a FIRST message has the 20 bytes that are unpacked. -/
structure MessageRun (order : List MessageHeader) where
  messages : List Message
  headers : messages.map (·.header) = order
  first_body : ∀ m ∈ messages, m.header.packetType = .first → m.body.length = 20

/-- FIRST first and once, then data and LAST packets numbered from 1. -/
def InOwnOrder (order : List MessageHeader) : Prop :=
  ∀ s, ∀ first rest, order.filter (·.sequenceId = s) = first :: rest →
    first.packetType = .first ∧ (∀ h ∈ rest, h.packetType ≠ .first) ∧
      rest.map (·.packetId) = List.range' 1 rest.length

def Continues (h h' : MessageHeader) : Prop :=
  h.packetType ≠ .first → h'.packetType ≠ .first ∧ h'.sequenceId = h.sequenceId

def SingleStream (order : List MessageHeader) : Prop := order.Pairwise Continues

/-! The loop seen from the interpreter: the order lists and the interpreters kept for the
sequences have no influence on it. -/

def decodeMessage (st : PacketInterpretor) (m : Message) :
    Result PacketInterpretor Decoded PyError :=
  let fed := if m.header.packetType = .first then { st := st }
    else feed packetDefinitions st m.body
  match fed.halt with
  | some e => { st := fed.st, halt := some e }
  | none =>
    { st := (getSuccession fed.st).2,
      out := [⟨m.header.sequenceId, (getSuccession fed.st).1⟩] }

abbrev newInterpretor : PacketInterpretor := packetInterpretor packetDefinitions

theorem readMessage_map {m : Message} (hm : m.header.packetType = .first → m.body.length = 20)
    (st : TraceReader) :
    (readMessage st m).map (·.interpretor) = decodeMessage st.interpretor m := by
  by_cases hf : m.header.packetType = .first
  · have hb := hm hf
    simp only [readMessage, hf, unpackFirst, hb, if_true, decodeMessage]
    rfl
  · have hp := parser_interpretor (processByte packetDefinitions) m.body m.header.sequenceId
      m.header.packetId m.header.cpuId ⟨st.interpretor, st.packetOrderLists⟩
    obtain ⟨hst, -, hhalt⟩ := hp
    have hfeed : run (processByte packetDefinitions) st.interpretor m.body =
        feed packetDefinitions st.interpretor m.body := rfl
    rw [hfeed] at hst hhalt
    cases ht : m.header.packetType with
    | first => exact absurd ht hf
    | last | data =>
      cases hh : (feed packetDefinitions st.interpretor m.body).halt <;>
        simp only [readMessage, ht, hst, hhalt, hh, decodeMessage, reduceCtorEq, if_false] <;> rfl

theorem readTrace_map {messages : List Message}
    (hm : ∀ m ∈ messages, m.header.packetType = .first → m.body.length = 20) :
    (readTrace messages).map (·.interpretor) = run decodeMessage newInterpretor messages :=
  run_map (fun st m h => readMessage_map (hm m h) st) {}

theorem decodedOf_eq {messages : List Message}
    (hm : ∀ m ∈ messages, m.header.packetType = .first → m.body.length = 20) (s : Nat) :
    decodedOf s messages = packetsOf s (run decodeMessage newInterpretor messages).out := by
  rw [← readTrace_map hm]
  rfl

def Idle (m : Message) : Prop := m.header.packetType = .first ∨ m.body = []

theorem decodeMessage_idle {m : Message} (hm : Idle m) {st : PacketInterpretor}
    (hs : st.succession = []) :
    decodeMessage st m = { st := st, out := [⟨m.header.sequenceId, []⟩] } := by
  have hst : { st with succession := [] } = st := by rw [← hs]
  have hfed : (if m.header.packetType = .first then { st := st }
      else feed packetDefinitions st m.body) =
      ({ st := st } : Result PacketInterpretor HandlerCall PyError) := by
    obtain h | h := hm
    · rw [if_pos h]
    · rw [h]; exact ite_self _
  simp only [decodeMessage, hfed, getSuccession, hs, hst]

theorem packetsOf_append (s : Nat) (a b : List Decoded) :
    packetsOf s (a ++ b) = packetsOf s a ++ packetsOf s b := by
  simp [packetsOf]

/-- Idle messages leave the interpreter alone and decode to nothing. -/
theorem run_idle {messages : List Message} (hm : ∀ m ∈ messages, Idle m)
    {st : PacketInterpretor} (hs : st.succession = []) :
    (run decodeMessage st messages).st = st ∧ (run decodeMessage st messages).halt = none ∧
      ∀ s, packetsOf s (run decodeMessage st messages).out = [] := by
  induction messages with
  | nil => exact ⟨rfl, rfl, fun _ => rfl⟩
  | cons m ms ih =>
    have hone := decodeMessage_idle (hm m (by simp)) hs
    obtain ⟨h1, h2, h3⟩ := ih (fun n hn => hm n (List.mem_cons_of_mem m hn))
    rw [run_cons (by rw [hone]), hone]
    refine ⟨h1, h2, fun s => ?_⟩
    rw [packetsOf_append, h3 s, List.append_nil]
    by_cases h : m.header.sequenceId = s <;> simp [packetsOf, h]

theorem run_idle_append {idle : List Message} (hm : ∀ m ∈ idle, Idle m) (st : PacketInterpretor)
    (hs : st.succession = []) (messages : List Message) :
    (run decodeMessage st (idle ++ messages)).st = (run decodeMessage st messages).st ∧
      ∀ s, packetsOf s (run decodeMessage st (idle ++ messages)).out =
        packetsOf s (run decodeMessage st messages).out := by
  obtain ⟨h1, h2, h3⟩ := run_idle hm hs
  rw [run_append h2, h1]
  refine ⟨rfl, fun s => ?_⟩
  rw [packetsOf_append, h3 s]
  rfl

/-! A single stream: FIRST messages, then the data of one sequence. -/

theorem SingleStream.split {messages : List Message}
    (h : SingleStream (messages.map (·.header))) :
    ∃ firsts rest s, messages = firsts ++ rest ∧
      (∀ m ∈ firsts, m.header.packetType = .first) ∧ ∀ m ∈ rest, m.header.sequenceId = s := by
  induction messages with
  | nil => exact ⟨[], [], 0, rfl, by simp, by simp⟩
  | cons m ms ih =>
    obtain ⟨hm, hms⟩ := List.pairwise_cons.mp h
    by_cases hf : m.header.packetType = .first
    · obtain ⟨firsts, rest, s, heq, h1, h2⟩ := ih hms
      refine ⟨m :: firsts, rest, s, by rw [heq]; rfl, ?_, h2⟩
      intro n hn
      obtain rfl | hn := List.mem_cons.mp hn
      · exact hf
      · exact h1 n hn
    · refine ⟨[], m :: ms, m.header.sequenceId, rfl, by simp, ?_⟩
      intro n hn
      obtain rfl | hn := List.mem_cons.mp hn
      · rfl
      · exact (hm _ (List.mem_map_of_mem hn) hf).2

theorem decodeMessage_sequenceId (st : PacketInterpretor) (m : Message) :
    ∀ o ∈ (decodeMessage st m).out, o.sequenceId = m.header.sequenceId := by
  intro o ho
  simp only [decodeMessage] at ho
  split at ho
  · cases ho
  · rw [List.mem_singleton.mp ho]

theorem nonInterfering_of_singleStream {messages : List Message}
    (hm : ∀ m ∈ messages, m.header.packetType = .first → m.body.length = 20)
    (h : SingleStream (messages.map (·.header))) : NonInterfering messages where
  decoded := by
    intro s
    have hsub : ∀ m ∈ ofSequence s messages, m ∈ messages :=
      fun m h => (List.mem_filter.mp h).1
    rw [decodedOf_eq hm, decodedOf_eq fun m h => hm m (hsub m h)]
    obtain ⟨firsts, rest, a, rfl, hfirst, hrest⟩ := h.split
    have hidle : ∀ m ∈ firsts, Idle m := fun m hm => Or.inl (hfirst m hm)
    have hidle' : ∀ m ∈ ofSequence s firsts, Idle m :=
      fun m hm => hidle m (List.mem_filter.mp hm).1
    have happ : ofSequence s (firsts ++ rest) = ofSequence s firsts ++ ofSequence s rest :=
      List.filter_append ..
    rw [happ, (run_idle_append hidle _ rfl rest).2, (run_idle_append hidle' _ rfl _).2]
    by_cases hs : a = s
    · have hall : ofSequence s rest = rest :=
        List.filter_eq_self.mpr fun m hm => by simpa [hs] using hrest m hm
      rw [hall]
    · have hnone : ofSequence s rest = [] :=
        List.filter_eq_nil_iff.mpr fun m hm => by simpa [hrest m hm] using hs
      have hout : ∀ o ∈ (run decodeMessage newInterpretor rest).out, o.sequenceId = a :=
        run_out_forall
          (fun st m hm o ho => (decodeMessage_sequenceId st m o ho).trans (hrest m hm)) _
      rw [hnone, packetsOf, List.filter_eq_nil_iff.mpr fun o ho => by
        simpa [hout o ho] using hs]
      rfl
  first_fresh := by
    intro before m hp hfirst
    have hmap : (readTrace (before ++ [m])).st.interpretor =
        (run decodeMessage newInterpretor (before ++ [m])).st :=
      congrArg Result.st (readTrace_map fun n hn => hm n (hp.subset hn))
    have hpair : SingleStream ((before ++ [m]).map (·.header)) :=
      List.Pairwise.sublist (hp.sublist.map _) h
    have hidle : ∀ n ∈ before ++ [m], Idle n := by
      intro n hn
      obtain hn | hn := List.mem_append.mp hn
      · left
        by_contra hne
        rw [SingleStream, List.map_append, List.pairwise_append] at hpair
        exact (hpair.2.2 _ (List.mem_map_of_mem hn) m.header (by simp) hne).1 hfirst
      · rw [List.mem_singleton.mp hn]
        exact Or.inl hfirst
    rw [hmap, (run_idle hidle rfl).1]
    rfl

/-! Two messages out of line: a TSC packet in the first shows in what follows it. -/

def tscPayload : List Byte := [0x19, 0x01, 0x00, 0x00, 0x00, 0x00, 0x00, 0x00]
def tntPayload : List Byte := [0x04]

def firstBody : List Byte := List.replicate 12 0 ++ 1 :: List.replicate 7 0

def quiet (h : MessageHeader) : Message :=
  ⟨h, if h.packetType = .first then firstBody else []⟩

def timed : PacketInterpretor :=
  (getSuccession (feed packetDefinitions newInterpretor tscPayload).st).2

theorem feed_tsc : (feed packetDefinitions newInterpretor tscPayload).halt = none := by
  decide +kernel

theorem timed_tsc : timed.context.tsc = some 1 := by decide +kernel

theorem feed_tnt_timed :
    (feed packetDefinitions timed tntPayload).halt = none ∧
      (feed packetDefinitions timed tntPayload).st.succession = [packetTnt false (some 1)] := by
  decide +kernel

theorem feed_tnt_new :
    (feed packetDefinitions newInterpretor tntPayload).halt = none ∧
      (feed packetDefinitions newInterpretor tntPayload).st.succession =
        [packetTnt false none] := by
  decide +kernel

theorem idle_quiet (h : MessageHeader) : Idle (quiet h) := by
  by_cases hf : h.packetType = .first
  · exact Or.inl hf
  · exact Or.inr (if_neg hf)

theorem quiet_body {h : MessageHeader} (hf : h.packetType = .first) :
    (quiet h).body.length = 20 := by
  simp [quiet, firstBody, hf]

theorem decodeMessage_data {h : MessageHeader} (hf : h.packetType ≠ .first) {bytes : List Byte}
    {st : PacketInterpretor} (hh : (feed packetDefinitions st bytes).halt = none) :
    decodeMessage st ⟨h, bytes⟩ =
      { st := (getSuccession (feed packetDefinitions st bytes).st).2,
        out := [⟨h.sequenceId, (feed packetDefinitions st bytes).st.succession⟩] } := by
  simp only [decodeMessage, hf, if_false, hh]
  rfl

theorem packetsOf_data {h : MessageHeader} (hf : h.packetType ≠ .first) {bytes : List Byte}
    {st : PacketInterpretor} (hh : (feed packetDefinitions st bytes).halt = none)
    {idle : List Message} (hm : ∀ m ∈ idle, Idle m) :
    packetsOf h.sequenceId (run decodeMessage st (⟨h, bytes⟩ :: idle)).out =
      (feed packetDefinitions st bytes).st.succession := by
  have hone := decodeMessage_data hf hh
  rw [run_cons (by rw [hone]), hone, packetsOf_append, (run_idle hm rfl).2.2]
  simp [packetsOf]

theorem exists_of_not_singleStream {order : List MessageHeader} (h : ¬ SingleStream order) :
    ∃ pre first mid second post, order = pre ++ first :: (mid ++ second :: post) ∧
      ¬ Continues first second := by
  induction order with
  | nil => exact absurd List.Pairwise.nil h
  | cons x xs ih =>
    by_cases hx : ∀ y ∈ xs, Continues x y
    · have htail : ¬ SingleStream xs := fun ht => h (List.pairwise_cons.mpr ⟨hx, ht⟩)
      obtain ⟨pre, first, mid, second, post, heq, hn⟩ := ih htail
      exact ⟨x :: pre, first, mid, second, post, by rw [heq]; rfl, hn⟩
    · push Not at hx
      obtain ⟨y, hy, hn⟩ := hx
      obtain ⟨mid, post, rfl⟩ := List.append_of_mem hy
      exact ⟨[], x, mid, y, post, rfl, hn⟩

def meeting (pre : List MessageHeader) (first : MessageHeader) (mid : List MessageHeader)
    (second : Message) (post : List MessageHeader) : List Message :=
  pre.map quiet ++ ⟨first, tscPayload⟩ :: (mid.map quiet ++ second :: post.map quiet)

theorem idle_map_quiet (hs : List MessageHeader) : ∀ m ∈ hs.map quiet, Idle m := by
  intro m hm
  obtain ⟨h, -, rfl⟩ := List.mem_map.mp hm
  exact idle_quiet h

theorem idle_ofSequence_quiet (s : Nat) (hs : List MessageHeader) :
    ∀ m ∈ ofSequence s (hs.map quiet), Idle m :=
  fun m hm => idle_map_quiet hs m (List.mem_filter.mp hm).1

theorem first_body_quiet (hs : List MessageHeader) :
    ∀ m ∈ hs.map quiet, m.header.packetType = .first → m.body.length = 20 := by
  intro m hm hf
  obtain ⟨h, -, rfl⟩ := List.mem_map.mp hm
  exact quiet_body hf

theorem first_body_meeting {pre mid post : List MessageHeader} {first : MessageHeader}
    {second : Message} (hf : first.packetType ≠ .first)
    (hs : second.header.packetType = .first → second.body.length = 20) :
    ∀ m ∈ meeting pre first mid second post,
      m.header.packetType = .first → m.body.length = 20 := by
  intro m hm ht
  simp only [meeting, List.mem_append, List.mem_cons] at hm
  obtain hm | rfl | hm | rfl | hm := hm
  · exact first_body_quiet _ m hm ht
  · exact absurd ht hf
  · exact first_body_quiet _ m hm ht
  · exact hs ht
  · exact first_body_quiet _ m hm ht

/-- What the message after the TSC packet meets. -/
theorem run_timed {first : MessageHeader} (hf : first.packetType ≠ .first)
    (pre mid : List MessageHeader) (messages : List Message) :
    let r := run decodeMessage newInterpretor
      (pre.map quiet ++ ⟨first, tscPayload⟩ :: (mid.map quiet ++ messages))
    r.st = (run decodeMessage timed messages).st ∧
      ∀ s, s ≠ first.sequenceId →
        packetsOf s r.out = packetsOf s (run decodeMessage timed messages).out := by
  have htsc := decodeMessage_data hf feed_tsc
  have hmid := run_idle_append (idle_map_quiet mid) timed rfl messages
  have hpre := run_idle_append (idle_map_quiet pre) newInterpretor rfl
    (⟨first, tscPayload⟩ :: (mid.map quiet ++ messages))
  let rest := run decodeMessage timed (mid.map quiet ++ messages)
  have hcons : run decodeMessage newInterpretor
      (⟨first, tscPayload⟩ :: (mid.map quiet ++ messages)) =
      { st := rest.st,
        out := [⟨first.sequenceId,
          (feed packetDefinitions newInterpretor tscPayload).st.succession⟩] ++ rest.out,
        halt := rest.halt } := by
    rw [run_cons (by rw [htsc]), htsc]
    rfl
  refine ⟨?_, fun s hs => ?_⟩
  · rw [hpre.1, hcons]
    exact hmid.1
  · rw [hpre.2, hcons, packetsOf_append, hmid.2]
    simp [packetsOf, hs.symm]

theorem not_fresh_timed : ¬ FreshDecoder timed := by
  intro h
  have : timed.context.tsc = none := congrArg (fun st => st.context.tsc) h
  rw [timed_tsc] at this
  cases this

/-- A TNT packet of another sequence is stamped with the foreign TSC. -/
theorem interfering_data {pre mid post : List MessageHeader} {first second : MessageHeader}
    (hf : first.packetType ≠ .first) (hd : second.packetType ≠ .first)
    (hs : second.sequenceId ≠ first.sequenceId) :
    ¬ NonInterfering (meeting pre first mid ⟨second, tntPayload⟩ post) := by
  intro h
  have hbody : ∀ m ∈ meeting pre first mid ⟨second, tntPayload⟩ post,
      m.header.packetType = .first → m.body.length = 20 :=
    first_body_meeting hf fun ht => absurd ht hd
  have hdec := h.decoded second.sequenceId
  have halone : ∀ m ∈ ofSequence second.sequenceId
      (meeting pre first mid ⟨second, tntPayload⟩ post),
      m.header.packetType = .first → m.body.length = 20 :=
    fun m hm => hbody m (List.mem_filter.mp hm).1
  rw [decodedOf_eq hbody, decodedOf_eq halone] at hdec
  have htogether := (run_timed hf pre mid (⟨second, tntPayload⟩ :: post.map quiet)).2 _ hs
  rw [packetsOf_data hd feed_tnt_timed.1 (idle_map_quiet post), feed_tnt_timed.2] at htogether
  have hfilter : ofSequence second.sequenceId
      (meeting pre first mid ⟨second, tntPayload⟩ post) =
      (ofSequence second.sequenceId (pre.map quiet) ++
        ofSequence second.sequenceId (mid.map quiet)) ++
        (⟨second, tntPayload⟩ :: ofSequence second.sequenceId (post.map quiet)) := by
    simp [ofSequence, meeting, hs.symm]
  have hidle : ∀ m ∈ ofSequence second.sequenceId (pre.map quiet) ++
      ofSequence second.sequenceId (mid.map quiet), Idle m := by
    intro m hm
    obtain hm | hm := List.mem_append.mp hm
    · exact idle_ofSequence_quiet _ pre m hm
    · exact idle_ofSequence_quiet _ mid m hm
  rw [meeting, htogether, ← meeting, hfilter, (run_idle_append hidle _ rfl _).2,
    packetsOf_data hd feed_tnt_new.1 (idle_ofSequence_quiet _ post), feed_tnt_new.2] at hdec
  simp [packetTnt, packetBase] at hdec

/-- A FIRST message after data leaves the interpreter as it is. -/
theorem interfering_first {pre mid post : List MessageHeader} {first second : MessageHeader}
    (hf : first.packetType ≠ .first) (hs : second.packetType = .first) :
    ¬ NonInterfering (meeting pre first mid (quiet second) post) := by
  intro h
  let before := pre.map quiet ++ ⟨first, tscPayload⟩ :: mid.map quiet
  have hsplit : before ++ [quiet second] =
      pre.map quiet ++ ⟨first, tscPayload⟩ :: (mid.map quiet ++ [quiet second]) := by
    simp [before]
  have hpre : before ++ [quiet second] <+: meeting pre first mid (quiet second) post :=
    ⟨post.map quiet, by rw [hsplit]; simp [meeting]⟩
  have hbody : ∀ m ∈ before ++ [quiet second], m.header.packetType = .first →
      m.body.length = 20 :=
    fun m hm => first_body_meeting hf quiet_body m (hpre.subset hm)
  have hfresh := h.first_fresh before (quiet second) hpre hs
  have hmap : (readTrace (before ++ [quiet second])).st.interpretor =
      (run decodeMessage newInterpretor (before ++ [quiet second])).st :=
    congrArg Result.st (readTrace_map hbody)
  have hidle : (run decodeMessage timed [quiet second]).st = timed :=
    (run_idle (idle_map_quiet [second]) rfl).1
  rw [hmap, hsplit, (run_timed hf pre mid [quiet second]).1, hidle] at hfresh
  exact not_fresh_timed hfresh

theorem meeting_headers (pre : List MessageHeader) (first : MessageHeader)
    (mid : List MessageHeader) (second : Message) (post : List MessageHeader) :
    (meeting pre first mid second post).map (·.header) =
      pre ++ first :: (mid ++ second.header :: post) := by
  have hquiet : ∀ hs : List MessageHeader, (hs.map quiet).map (·.header) = hs := by
    intro hs
    rw [List.map_map]
    exact List.map_id hs
  simp [meeting, hquiet]

theorem nonInterfering_iff (order : List MessageHeader) :
    (∀ r : MessageRun order, NonInterfering r.messages) ↔ SingleStream order := by
  constructor
  · intro h
    by_contra hn
    obtain ⟨pre, first, mid, second, post, rfl, hc⟩ := exists_of_not_singleStream hn
    have hf : first.packetType ≠ .first := fun hf => hc fun hne => absurd hf hne
    by_cases hs : second.packetType = .first
    · exact interfering_first hf hs (h ⟨meeting pre first mid (quiet second) post,
        meeting_headers .., first_body_meeting hf quiet_body⟩)
    · have hne : second.sequenceId ≠ first.sequenceId := fun he => hc fun _ => ⟨hs, he⟩
      exact interfering_data hf hs hne (h ⟨meeting pre first mid ⟨second, tntPayload⟩ post,
        meeting_headers .., first_body_meeting hf fun ht => absurd ht hs⟩)
  · intro h r
    exact nonInterfering_of_singleStream r.first_body (by rw [r.headers]; exact h)

/-- FIRST 1, FIRST 2, a TSC packet in sequence 1, a TNT packet in sequence 2. -/
theorem not_nonInterfering_two_sequences :
    ¬ ∀ order, InOwnOrder order → ∀ r : MessageRun order, NonInterfering r.messages := by
  intro h
  let pre : List MessageHeader := [⟨0, 0, 1, .first⟩, ⟨0, 0, 2, .first⟩]
  let one : MessageHeader := ⟨1, 0, 1, .data⟩
  let two : MessageHeader := ⟨1, 1, 2, .data⟩
  have horder : InOwnOrder (pre ++ [one, two]) := by
    intro s first rest hs
    by_cases h1 : 1 = s
    · subst h1
      obtain ⟨rfl, rfl⟩ : first = ⟨0, 0, 1, .first⟩ ∧ rest = [one] := by
        simpa [pre, one, two, eq_comm] using hs
      decide
    · by_cases h2 : 2 = s
      · subst h2
        obtain ⟨rfl, rfl⟩ : first = ⟨0, 0, 2, .first⟩ ∧ rest = [two] := by
          simpa [pre, one, two, eq_comm] using hs
        decide
      · simp [pre, one, two, h1, h2] at hs
  have hf : one.packetType ≠ .first := by decide
  have hd : two.packetType ≠ .first := by decide
  exact interfering_data hf hd (by decide) (h _ horder ⟨meeting pre one [] ⟨two, tntPayload⟩ [],
    meeting_headers .., first_body_meeting hf fun ht => absurd ht hd⟩)

end IntelPt.Decoder
