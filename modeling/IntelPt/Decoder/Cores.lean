import IntelPt.Decoder.Sequences

/-! The cores of one sequence. `cpu_id` reaches `parser` and no further, so the buffers of all
cores are fed to one interpreter in the order they come in. -/
namespace IntelPt.Decoder
open Transducer

structure CoreBuffer where
  cpuId : Nat
  last : Bool
  bytes : List Byte
  deriving DecidableEq, Repr

def CoreBuffer.message (sequenceId packetId : Nat) (buffer : CoreBuffer) : Message :=
  ⟨⟨packetId, buffer.cpuId, sequenceId, if buffer.last then .last else .data⟩, buffer.bytes⟩

def numbered (sequenceId : Nat) : Nat → List CoreBuffer → List Message
  | _, [] => []
  | packetId, buffer :: buffers =>
    buffer.message sequenceId packetId :: numbered sequenceId (packetId + 1) buffers

structure CoreTrace where
  sequenceId : Nat
  firstCpuId : Nat
  first : List Byte
  first_length : first.length = 20
  buffers : List CoreBuffer

def CoreTrace.messages (t : CoreTrace) : List Message :=
  ⟨⟨0, t.firstCpuId, t.sequenceId, .first⟩, t.first⟩ :: numbered t.sequenceId 1 t.buffers

def CoreTrace.ofCore (t : CoreTrace) (cpuId : Nat) : CoreTrace :=
  { t with buffers := t.buffers.filter (·.cpuId = cpuId) }

def packetsOfCore (cpuId : Nat) (messages : List Message) (decoded : List Decoded) : List Packet :=
  ((messages.zip decoded).filter (·.1.header.cpuId = cpuId)).flatMap (·.2.packets)

def CoreTrace.decodedOf (t : CoreTrace) (cpuId : Nat) : List Packet :=
  packetsOfCore cpuId t.messages (readTrace t.messages).out

/-- Every core decodes as if it were alone. -/
def CoresApart (t : CoreTrace) : Prop :=
  ∀ cpuId, t.decodedOf cpuId = (t.ofCore cpuId).decodedOf cpuId

theorem messages_first_body (t : CoreTrace) :
    ∀ m ∈ t.messages, m.header.packetType = .first → m.body.length = 20 := by
  have hdata : ∀ s n buffers, ∀ m ∈ numbered s n buffers, m.header.packetType ≠ .first := by
    intro s n buffers
    induction buffers generalizing n with
    | nil => intro m hm; cases hm
    | cons buffer buffers ih =>
      intro m hm
      obtain rfl | hm := List.mem_cons.mp hm
      · cases h : buffer.last <;> simp [CoreBuffer.message, h]
      · exact ih (n + 1) m hm
  intro m hm hf
  obtain rfl | hm := List.mem_cons.mp hm
  · exact t.first_length
  · exact absurd hf (hdata _ _ _ m hm)

theorem CoreTrace.decodedOf_eq (t : CoreTrace) (cpuId : Nat) :
    t.decodedOf cpuId =
      packetsOfCore cpuId t.messages (run decodeMessage newInterpretor t.messages).out := by
  rw [← readTrace_map (messages_first_body t)]
  rfl

theorem packetsOfCore_append {messages : List Message} {decoded : List Decoded}
    (h : messages.length = decoded.length) (cpuId : Nat) (messages' : List Message)
    (decoded' : List Decoded) :
    packetsOfCore cpuId (messages ++ messages') (decoded ++ decoded') =
      packetsOfCore cpuId messages decoded ++ packetsOfCore cpuId messages' decoded' := by
  simp only [packetsOfCore, List.zip_append h, List.filter_append, List.flatMap_append]

theorem run_idle_out {messages : List Message} (hm : ∀ m ∈ messages, Idle m)
    {st : PacketInterpretor} (hs : st.succession = []) :
    (run decodeMessage st messages).out = messages.map fun m => ⟨m.header.sequenceId, []⟩ := by
  induction messages with
  | nil => rfl
  | cons m ms ih =>
    have hone := decodeMessage_idle (hm m (by simp)) hs
    have hrest := ih fun n hn => hm n (List.mem_cons_of_mem m hn)
    rw [run_cons (by rw [hone]), hone, hrest]
    rfl

theorem packetsOfCore_idle (cpuId : Nat) (messages : List Message) :
    packetsOfCore cpuId messages (messages.map fun m => ⟨m.header.sequenceId, []⟩) = [] := by
  induction messages with
  | nil => rfl
  | cons m ms ih =>
    rw [packetsOfCore, List.flatMap_eq_nil_iff] at ih ⊢
    intro x hx
    rw [List.map_cons, List.zip_cons_cons, List.mem_filter, List.mem_cons] at hx
    obtain ⟨rfl | hx, hc⟩ := hx
    · rfl
    · exact ih x (List.mem_filter.mpr ⟨hx, hc⟩)

/-- After idle messages a data message decodes to what its bytes do in the interpreter so far. -/
theorem packetsOfCore_data {idle : List Message} (hm : ∀ m ∈ idle, Idle m)
    {st : PacketInterpretor} (hs : st.succession = []) {h : MessageHeader}
    (hf : h.packetType ≠ .first) {bytes : List Byte}
    (hh : (feed packetDefinitions st bytes).halt = none) (rest : List Message) (cpuId : Nat) :
    packetsOfCore cpuId (idle ++ ⟨h, bytes⟩ :: rest)
        (run decodeMessage st (idle ++ ⟨h, bytes⟩ :: rest)).out =
      (if h.cpuId = cpuId then (feed packetDefinitions st bytes).st.succession else []) ++
        packetsOfCore cpuId rest
          (run decodeMessage (getSuccession (feed packetDefinitions st bytes).st).2 rest).out := by
  obtain ⟨hst, hhalt, -⟩ := run_idle hm hs
  have hone := decodeMessage_data hf hh
  have hlen : idle.length = (run decodeMessage st idle).out.length := by
    rw [run_idle_out hm hs, List.length_map]
  rw [run_append hhalt, hst, packetsOfCore_append hlen, run_idle_out hm hs, packetsOfCore_idle,
    List.nil_append, run_cons (by rw [hone]), hone, ← List.singleton_append,
    packetsOfCore_append rfl]
  by_cases hc : h.cpuId = cpuId <;> simp [packetsOfCore, hc]

theorem numbered_append (s n : Nat) (bs cs : List CoreBuffer) :
    numbered s n (bs ++ cs) = numbered s n bs ++ numbered s (n + bs.length) cs := by
  induction bs generalizing n with
  | nil => rfl
  | cons b bs ih =>
    rw [List.cons_append, numbered, ih, List.length_cons]
    simp only [numbered, List.cons_append, Nat.add_assoc, Nat.add_comm 1]

theorem mem_numbered {s n : Nat} {buffers : List CoreBuffer} {m : Message}
    (h : m ∈ numbered s n buffers) : ∃ b ∈ buffers, ∃ packetId, m = b.message s packetId := by
  induction buffers generalizing n with
  | nil => cases h
  | cons b bs ih =>
    obtain rfl | h := List.mem_cons.mp h
    · exact ⟨b, List.mem_cons_self, n, rfl⟩
    · obtain ⟨b', hb', packetId, heq⟩ := ih h
      exact ⟨b', List.mem_cons_of_mem b hb', packetId, heq⟩

theorem idle_numbered {buffers : List CoreBuffer} (h : ∀ b ∈ buffers, b.bytes = []) (s n : Nat) :
    ∀ m ∈ numbered s n buffers, Idle m := by
  intro m hm
  obtain ⟨b, hb, packetId, rfl⟩ := mem_numbered hm
  exact Or.inr (h b hb)

def emptyBuffers (order : List Nat) : List CoreBuffer := order.map fun c => ⟨c, false, []⟩

theorem emptyBuffers_bytes {order : List Nat} : ∀ b ∈ emptyBuffers order, b.bytes = [] := by
  intro b hb
  obtain ⟨c, -, rfl⟩ := List.mem_map.mp hb
  rfl

def coresMeeting (pre : List Nat) (c d : Nat) (post : List Nat) : CoreTrace where
  sequenceId := 1
  firstCpuId := 0
  first := firstBody
  first_length := rfl
  buffers := emptyBuffers pre ++ ⟨c, false, tscPayload⟩ :: ⟨d, false, tntPayload⟩ ::
    emptyBuffers post

theorem idle_first_numbered {buffers : List CoreBuffer} (h : ∀ b ∈ buffers, b.bytes = [])
    (s firstCpuId : Nat) (first : List Byte) (n : Nat) :
    ∀ m ∈ (⟨⟨0, firstCpuId, s, .first⟩, first⟩ : Message) :: numbered s n buffers, Idle m := by
  intro m hm
  obtain rfl | hm := List.mem_cons.mp hm
  · exact Or.inl rfl
  · exact idle_numbered h _ _ m hm

theorem packetsOfCore_run_idle {messages : List Message} (hm : ∀ m ∈ messages, Idle m)
    {st : PacketInterpretor} (hs : st.succession = []) (cpuId : Nat) :
    packetsOfCore cpuId messages (run decodeMessage st messages).out = [] := by
  rw [run_idle_out hm hs, packetsOfCore_idle]

/-- Together, the TNT packet is stamped by the TSC packet of the other core. -/
theorem decodedOf_meeting {pre : List Nat} {c d : Nat} (hne : c ≠ d) (post : List Nat) :
    (coresMeeting pre c d post).decodedOf d = [packetTnt false (some 1)] := by
  let t := coresMeeting pre c d post
  let n := pre.length
  let rest := numbered 1 (1 + n + 1 + 1) (emptyBuffers post)
  have hmessages : t.messages =
      (⟨⟨0, 0, 1, .first⟩, t.first⟩ :: numbered 1 1 (emptyBuffers pre)) ++
        ⟨⟨1 + n, c, 1, .data⟩, tscPayload⟩ :: ([] ++ ⟨⟨1 + n + 1, d, 1, .data⟩, tntPayload⟩ ::
          rest) := by
    simp [CoreTrace.messages, t, coresMeeting, numbered_append, numbered, CoreBuffer.message,
      emptyBuffers, n, rest]
  have htimed : timed.succession = [] := rfl
  have hdata : PacketType.data ≠ .first := by decide
  rw [CoreTrace.decodedOf_eq]
  change packetsOfCore d t.messages (run decodeMessage newInterpretor t.messages).out = _
  rw [hmessages, packetsOfCore_data (idle_first_numbered emptyBuffers_bytes 1 0 _ 1) rfl hdata
    feed_tsc, if_neg hne, List.nil_append, ← timed,
    packetsOfCore_data (by simp) htimed hdata feed_tnt_timed.1, if_pos rfl,
    feed_tnt_timed.2, packetsOfCore_run_idle (idle_numbered emptyBuffers_bytes _ _) rfl]
  rfl

/-- Alone, it is not stamped. -/
theorem decodedOf_meeting_alone {pre : List Nat} {c d : Nat} (hne : c ≠ d) (post : List Nat) :
    ((coresMeeting pre c d post).ofCore d).decodedOf d = [packetTnt false none] := by
  let t := (coresMeeting pre c d post).ofCore d
  let before := (emptyBuffers pre).filter (·.cpuId = d)
  let after := (emptyBuffers post).filter (·.cpuId = d)
  let n := before.length
  have hmessages : t.messages =
      (⟨⟨0, 0, 1, .first⟩, t.first⟩ :: numbered 1 1 before) ++
        ⟨⟨1 + n, d, 1, .data⟩, tntPayload⟩ :: numbered 1 (1 + n + 1) after := by
    simp [CoreTrace.messages, t, CoreTrace.ofCore, coresMeeting, numbered_append, numbered,
      CoreBuffer.message, hne, n, before, after]
  have hbytes : ∀ order : List Nat, ∀ b ∈ (emptyBuffers order).filter (·.cpuId = d),
      b.bytes = [] := fun order b hb => emptyBuffers_bytes b (List.mem_filter.mp hb).1
  have hdata : PacketType.data ≠ .first := by decide
  rw [CoreTrace.decodedOf_eq]
  change packetsOfCore d t.messages (run decodeMessage newInterpretor t.messages).out = _
  rw [hmessages, packetsOfCore_data (idle_first_numbered (hbytes pre) 1 0 _ 1) rfl hdata
    feed_tnt_new.1, if_pos rfl, feed_tnt_new.2,
    packetsOfCore_run_idle (idle_numbered (hbytes post) _ _) rfl]
  rfl

theorem not_coresApart_meeting (pre : List Nat) {c d : Nat} (hne : c ≠ d) (post : List Nat) :
    ¬ CoresApart (coresMeeting pre c d post) := by
  intro h
  have hd := h d
  rw [decodedOf_meeting hne, decodedOf_meeting_alone hne] at hd
  simp [packetTnt, packetBase] at hd

theorem exists_neighbours {order : List Nat} (h : ¬ ∀ c ∈ order, ∀ d ∈ order, c = d) :
    ∃ pre c d post, order = pre ++ c :: d :: post ∧ c ≠ d := by
  induction order with
  | nil => exact absurd (fun c hc => by cases hc) h
  | cons x xs ih =>
    by_cases htail : ∀ c ∈ xs, ∀ d ∈ xs, c = d
    · cases xs with
      | nil =>
        refine absurd (fun c hc d hd => ?_) h
        rw [List.mem_singleton.mp hc, List.mem_singleton.mp hd]
      | cons y ys =>
        refine ⟨[], x, y, ys, rfl, fun hxy => h fun c hc d hd => ?_⟩
        have hy : ∀ c ∈ x :: y :: ys, c = y := by
          intro c hc
          obtain rfl | hc := List.mem_cons.mp hc
          · exact hxy
          · exact htail c hc y (by simp)
        rw [hy c hc, hy d hd]
    · obtain ⟨pre, c, d, post, heq, hne⟩ := ih htail
      exact ⟨x :: pre, c, d, post, by rw [heq]; rfl, hne⟩

theorem packetsOfCore_none {messages : List Message} {cpuId : Nat}
    (h : ∀ m ∈ messages, m.header.cpuId ≠ cpuId) (decoded : List Decoded) :
    packetsOfCore cpuId messages decoded = [] := by
  rw [packetsOfCore, List.filter_eq_nil_iff.mpr fun x hx => by
    simpa using h x.1 (List.of_mem_zip hx).1]
  rfl

theorem decodedOf_none {t : CoreTrace} {cpuId : Nat} (h : ∀ b ∈ t.buffers, b.cpuId ≠ cpuId) :
    t.decodedOf cpuId = [] := by
  have hone : decodeMessage newInterpretor
      ⟨⟨0, t.firstCpuId, t.sequenceId, .first⟩, t.first⟩ =
        { st := newInterpretor, out := [⟨t.sequenceId, []⟩] } :=
    decodeMessage_idle (Or.inl rfl) rfl
  have hrest : ∀ m ∈ numbered t.sequenceId 1 t.buffers, m.header.cpuId ≠ cpuId := by
    intro m hm
    obtain ⟨b, hb, packetId, rfl⟩ := mem_numbered hm
    exact h b hb
  rw [CoreTrace.decodedOf_eq, CoreTrace.messages, run_cons (by rw [hone]), hone,
    ← List.singleton_append, packetsOfCore_append rfl, packetsOfCore_none hrest]
  by_cases hc : t.firstCpuId = cpuId <;> simp [packetsOfCore, hc]

/-- With the buffers of one core only, the others decode to nothing either way. -/
theorem coresApart_of_one {t : CoreTrace}
    (h : ∀ b ∈ t.buffers, ∀ b' ∈ t.buffers, b.cpuId = b'.cpuId) : CoresApart t := by
  intro cpuId
  by_cases hc : ∃ b ∈ t.buffers, b.cpuId = cpuId
  · obtain ⟨b, hb, rfl⟩ := hc
    have hall : t.ofCore b.cpuId = t := by
      rw [CoreTrace.ofCore, List.filter_eq_self.mpr fun b' hb' => by simpa using h b' hb' b hb]
    rw [hall]
  · have hnone : ∀ b ∈ t.buffers, b.cpuId ≠ cpuId := fun b hb heq => hc ⟨b, hb, heq⟩
    rw [decodedOf_none hnone, decodedOf_none fun b hb => hnone b (List.mem_filter.mp hb).1]

/-- Whatever the cores record in an order of their buffers, each decodes as if it were alone,
exactly if all buffers are of one core. -/
theorem coresApart_iff (order : List Nat) :
    (∀ t : CoreTrace, t.buffers.map (·.cpuId) = order → CoresApart t) ↔
      ∀ c ∈ order, ∀ d ∈ order, c = d := by
  constructor
  · intro h
    by_contra hn
    obtain ⟨pre, c, d, post, rfl, hne⟩ := exists_neighbours hn
    refine not_coresApart_meeting pre hne post (h (coresMeeting pre c d post) ?_)
    simp [coresMeeting, emptyBuffers, Function.comp_def]
  · intro h t ht
    refine coresApart_of_one fun b hb b' hb' => ?_
    rw [← ht] at h
    exact h _ (List.mem_map_of_mem hb) _ (List.mem_map_of_mem hb')

/-- A TSC packet of core 0 stamps a TNT packet of core 1. -/
theorem not_coresApart_two_cores : ¬ ∀ t : CoreTrace, CoresApart t := fun h =>
  not_coresApart_meeting [] (by decide : 0 ≠ 1) [] (h _)

end IntelPt.Decoder
