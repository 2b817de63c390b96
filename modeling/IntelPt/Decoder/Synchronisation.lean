import IntelPt.Decoder.Emission
import IntelPt.Decoder.Recovery
import Mathlib.Data.List.Chain

/-! Whether a PSB cuts off what was decoded before it. The handlers would see to it, but the
PSB's own header is cut by whatever packet came before, so it is never recognised there. -/
namespace IntelPt.Decoder
open HeaderCode Transducer

abbrev IntelPacket := WellFormedPacket packetDefinitions

def IntelPacket.name (p : IntelPacket) : PacketName := p.definition.packetName

def PacketName.gate (inGroup : Bool) : PacketName → Bool
  | .psb => true
  | .psbend => false
  | _ => inGroup

def endsInGroup (packets : List IntelPacket) : Bool :=
  (packets.map IntelPacket.name).foldl PacketName.gate false

/-- A well-formed prefix that ends outside a group. -/
structure PacketPrefix where
  packets : List IntelPacket
  accepted : Accepted {} packets
  outside : endsInGroup packets = false

/-- A group and what follows. The encoder restarts IP compression at the PSB, so every packet is
accepted without an address from before. -/
structure PsbSuffix where
  psb : IntelPacket
  before : List IntelPacket
  tsc : IntelPacket
  after : List IntelPacket
  psbend : IntelPacket
  rest : List IntelPacket
  psb_name : psb.name = .psb
  tsc_name : tsc.name = .tsc
  psbend_name : psbend.name = .psbend
  inside : ∀ p ∈ before ++ after, p.name ≠ .psbend
  accepted : Accepted {} (psb :: (before ++ tsc :: (after ++ psbend :: rest)))

def PsbSuffix.packets (t : PsbSuffix) : List IntelPacket :=
  t.psb :: (t.before ++ t.tsc :: (t.after ++ t.psbend :: t.rest))

def emittedAfter (p t : List IntelPacket) : List Packet :=
  let st := packetInterpretor packetDefinitions
  (feed packetDefinitions st (packetBytes p ++ packetBytes t)).st.succession.drop
    (feed packetDefinitions st (packetBytes p)).st.succession.length

/-! The handlers of the table. -/

def PacketName.handler : PacketName → Handler
  | .tnt | .tntExtended => tntPacketHandler
  | .tip | .tipPge | .tipPgd | .fup => fupTipPacketHandler
  | .mode => modePacketHandler
  | .cbr => cbrPacketHandler
  | .tsc => tscPacketHandler
  | .psb => psbPacketHandler
  | .psbend => psbendPacketHandler
  | _ => placeholderFunction

theorem packetDefinitions_handle : ∀ d ∈ packetDefinitions,
    d.handle = some d.packetName.handler := by
  simp only [packetDefinitions, List.forall_mem_cons]
  simp [PacketName.handler]

/-- Only PSB and PSBEND open and close the gate, and only TSC sets the stamp. -/
theorem handler_context {name : PacketName} {data : List Byte} {c c' : Context}
    {r : HandlerResult} (h : name.handler data name c = .ok (r, c')) :
    c'.disableInterpreting = name.gate c.disableInterpreting ∧
      c'.tsc = if name = .tsc then some (foldBytes (data.drop 1)) else c.tsc := by
  cases name with
  | tnt | tntExtended =>
    simp only [PacketName.handler] at h
    obtain ⟨_, _, -, rfl⟩ := tntPacketHandler_ok h
    exact ⟨rfl, rfl⟩
  | tip | tipPge | tipPgd | fup =>
    simp only [PacketName.handler] at h
    obtain ⟨_, _, _, -, -, rfl⟩ := fupTipPacketHandler_ok h
    exact ⟨rfl, rfl⟩
  | mode =>
    simp only [PacketName.handler] at h
    obtain ⟨_, _, -, -, -, rfl⟩ := modePacketHandler_ok h
    exact ⟨rfl, rfl⟩
  | cbr =>
    simp only [PacketName.handler] at h
    obtain ⟨_, -, rfl⟩ := cbrPacketHandler_ok h
    exact ⟨rfl, rfl⟩
  | tsc | psb | psbend =>
    cases h
    exact ⟨rfl, rfl⟩
  | pip | traceStop | mtc | tma | vmcs | ovf | mnt | ptw | exstop | mwait | pwre | pwrx | bbp
  | bep =>
    cases h
    exact ⟨rfl, rfl⟩

theorem handler_gate {name : PacketName} {data : List Byte} {c c' : Context} {r : HandlerResult}
    (h : name.handler data name c = .ok (r, c')) :
    c'.disableInterpreting = name.gate c.disableInterpreting :=
  (handler_context h).1

theorem handler_psbend {data : List Byte} {c c' : Context} {r : HandlerResult}
    (h : PacketName.psbend.handler data .psbend c = .ok (r, c')) :
    r = .one (packetBase .psbend c.tsc) := by
  cases h
  rfl

/-! Inside a group nothing is emitted before the PSBEND. -/

def Gated (before : List Packet) (e : Emission) : Prop :=
  (e.context.disableInterpreting = true ∧ e.succession = before) ∨
    ∃ tsc rest, e.succession = before ++ packetBase .psbend tsc :: rest

theorem Gated.take {before : List Packet} {e : Emission} (h : Gated before e)
    {call : HandlerCall} (hc : call.definition ∈ packetDefinitions ∧
      call.packetName = call.definition.packetName) : Gated before (e.take call) := by
  obtain ⟨hgate, hsame⟩ | ⟨tsc, rest, hs⟩ := h
  · have hh := packetDefinitions_handle call.definition hc.1
    rw [← hc.2] at hh
    simp only [Emission.take, hh]
    cases hr : call.packetName.handler call.packetData call.packetName e.context with
    | error _ => exact Or.inl ⟨hgate, hsame⟩
    | ok result =>
      obtain ⟨r, c'⟩ := result
      have hg := handler_gate hr
      rw [hgate] at hg
      by_cases hend : call.packetName = .psbend
      · rw [hend] at hr hg
        have hopen : c'.disableInterpreting = false := hg
        refine Or.inr ⟨e.context.tsc, [], ?_⟩
        simp [Emission.accept, hopen, handler_psbend hr, HandlerResult.packets, hsame]
      · have hclosed : c'.disableInterpreting = true := by
          rw [hg]
          revert hend
          cases call.packetName <;> simp [PacketName.gate]
        exact Or.inl ⟨hclosed, by simp [Emission.accept, hclosed, hsame]⟩
  · obtain ⟨more, hmore⟩ := e.succession_take call
    exact Or.inr ⟨tsc, rest ++ more, by rw [← hmore, hs]; simp⟩

theorem Gated.foldl {before : List Packet} {calls : List HandlerCall} {e : Emission}
    (h : Gated before e) (hc : ∀ call ∈ calls, call.definition ∈ packetDefinitions ∧
      call.packetName = call.definition.packetName) :
    Gated before (calls.foldl Emission.take e) := by
  induction calls generalizing e with
  | nil => exact h
  | cons call calls ih =>
    exact ih (h.take (hc call (by simp))) fun d hd => hc d (List.mem_cons_of_mem call hd)

/-- A fresh interpreter emits a PSBEND first, if anything, for a suffix that begins with a PSB. -/
theorem emittedAfter_nil (t : PsbSuffix) : emittedAfter [] t.packets = [] ∨
    ∃ tsc rest, emittedAfter [] t.packets = packetBase .psbend tsc :: rest := by
  have ht := packetDefinitions_wellFormed
  obtain ⟨handle, result, context, hh, hr, -⟩ := t.accepted
  let st := packetInterpretor packetDefinitions
  have hd : Delivered packetDefinitions t.psb.definition t.psb.bytes context
      (feed packetDefinitions st t.psb.bytes) :=
    feed_packet ht t.psb (atBoundary_new packetDefinitions none none none)
      (fun d hd => by cases hd) hh hr
  have hname : t.psb.definition.packetName = .psb := t.psb_name
  have hgate : context.disableInterpreting = true := by
    rw [packetDefinitions_handle _ t.psb.mem, Option.some.injEq] at hh
    subst hh
    have := handler_gate hr
    rwa [hname] at this
  have hem := hd.emission hh hr
  have hsucc : (feed packetDefinitions st t.psb.bytes).st.succession = [] := by
    have := congrArg Emission.succession hem
    rw [Emission.accept, if_pos hgate] at this
    exact this
  have hrun : Running packetDefinitions (feed packetDefinitions st t.psb.bytes).st :=
    ⟨Or.inl (hd.boundary.searching ht), fun d hc => by
      cases hd.currentPacket.symm.trans hc
      exact t.psb.mem⟩
  let more := packetBytes (t.before ++ t.tsc :: (t.after ++ t.psbend :: t.rest))
  have hgated : Gated [] (feed packetDefinitions (feed packetDefinitions st t.psb.bytes).st
      more).st.emission := by
    rw [feed_emission]
    refine Gated.foldl (Or.inl ⟨?_, hsucc⟩) (feed_out_mem ht hrun more)
    change (feed packetDefinitions st t.psb.bytes).st.context.disableInterpreting = true
    rw [hd.context, hgate]
  have hall : emittedAfter [] t.packets = (feed packetDefinitions
      (feed packetDefinitions st t.psb.bytes).st more).st.succession := by
    have := congrArg (fun r => r.st.succession) (feed_append hd.halt more)
    exact this
  rw [hall]
  obtain ⟨-, hs⟩ | ⟨tsc, rest, hs⟩ := hgated
  · exact Or.inl hs
  · exact Or.inr ⟨tsc, rest, hs⟩

/-! After a short TNT packet the PSB header is read as TNT packets. -/

theorem validateHeaderByte_extended :
    ∀ b : Byte, validateHeaderByte b extended = true → b = 0x02 := by
  decide +kernel

theorem psb_bytes {p : IntelPacket} (h : p.name = .psb) :
    ∃ bytes, p.bytes = 0x02 :: 0x82 :: bytes := by
  have hhead : ∀ d ∈ packetDefinitions, d.packetName = .psb → ∃ more, d.packetHeader =
      extended :: .bits ['1', '0', '0', '0', '0', '0', '1', '0'] :: more := by
    simp only [packetDefinitions, List.forall_mem_cons]
    simp
  have hsecond : ∀ b : Byte,
      validateHeaderByte b (.bits ['1', '0', '0', '0', '0', '0', '1', '0']) = true → b = 0x82 := by
    decide +kernel
  obtain ⟨more, hp⟩ := hhead _ p.mem h
  have hs := p.spelled
  rw [hp] at hs
  match hw : p.header with
  | [] => rw [hw] at hs; cases hs
  | [_] =>
    rw [hw] at hs
    simp [spells] at hs
  | a :: b :: w =>
    rw [hw] at hs
    simp only [spells, Bool.and_eq_true] at hs
    refine ⟨w ++ p.payload, ?_⟩
    rw [WellFormedPacket.bytes, hw, validateHeaderByte_extended a hs.1, hsecond b hs.2.1]
    rfl

def tntPrefix : PacketPrefix where
  packets := [shortTntPacket]
  accepted := ⟨_, _, _, rfl, rfl, trivial⟩
  outside := rfl

theorem emittedAfter_tnt (t : PsbSuffix) :
    ∃ rest, emittedAfter tntPrefix.packets t.packets = packetTnt false none :: rest := by
  obtain ⟨bytes, hb⟩ := psb_bytes t.psb_name
  let st := packetInterpretor packetDefinitions
  let more := bytes ++ packetBytes (t.before ++ t.tsc :: (t.after ++ t.psbend :: t.rest))
  have hbytes : packetBytes tntPrefix.packets ++ packetBytes t.packets =
      [0x04, 0x02, 0x82] ++ more := by
    have ht : packetBytes t.packets = t.psb.bytes ++
      packetBytes (t.before ++ t.tsc :: (t.after ++ t.psbend :: t.rest)) := rfl
    rw [ht, hb]
    rfl
  have hthree : (feed packetDefinitions st [0x04, 0x02, 0x82]).st.succession =
      packetTnt false none :: packetTnt false none ::
        [packetTnt false none, packetTnt false none, packetTnt false none,
          packetTnt false none, packetTnt true none] := by
    decide +kernel
  have hone : (feed packetDefinitions st (packetBytes tntPrefix.packets)).st.succession.length =
      1 := by
    decide +kernel
  obtain ⟨rest, hrest⟩ := feed_succession_prefix packetDefinitions st
    [0x04, 0x02, 0x82] more
  simp only [emittedAfter]
  rw [hone, hbytes, ← hrest, hthree]
  exact ⟨_, rfl⟩

/-- No prefix is as good as every other one, for any suffix. -/
theorem exists_emittedAfter_ne (p : List IntelPacket) (t : PsbSuffix) :
    ∃ q : PacketPrefix, emittedAfter p t.packets ≠ emittedAfter q.packets t.packets := by
  by_contra h
  push Not at h
  let empty : PacketPrefix := ⟨[], trivial, rfl⟩
  have heq : emittedAfter [] t.packets = emittedAfter tntPrefix.packets t.packets :=
    (h empty).symm.trans (h tntPrefix)
  obtain ⟨more, htnt⟩ := emittedAfter_tnt t
  rw [htnt] at heq
  obtain hnil | ⟨tsc, rest, hend⟩ := emittedAfter_nil t
  · rw [hnil] at heq
    cases heq
  · rw [hend] at heq
    cases heq

/-! After any packet a PSB is cut, since only a PSB is as long as its header. -/

structure Remembering (st : PacketInterpretor) (d : PacketDefinition) (n : Nat) : Prop where
  boundary : AtBoundary packetDefinitions st
  enabled : st.context.disableInterpreting = false
  currentPacket : st.currentPacket = some d
  currentPacketLength : st.currentPacketLength = n

theorem feed_framed (ps : List IntelPacket) : ∀ st : PacketInterpretor,
    AtBoundary packetDefinitions st →
    (∀ d, st.currentPacket = some d → ∀ q ∈ ps.head?, q.header.length ≤ st.currentPacketLength) →
    Accepted st.context ps → (ps.IsChain fun p q => q.header.length ≤ p.bytes.length) →
    let r := feed packetDefinitions st (packetBytes ps)
    r.halt = none ∧ AtBoundary packetDefinitions r.st ∧
      r.st.context.disableInterpreting =
        (ps.map IntelPacket.name).foldl PacketName.gate st.context.disableInterpreting ∧
      ∀ last ∈ ps.getLast?, r.st.currentPacket = some last.definition ∧
        r.st.currentPacketLength = last.bytes.length := by
  induction ps with
  | nil =>
    intro st hst _ _ _
    exact ⟨rfl, hst, rfl, fun last hl => by cases hl⟩
  | cons p ps ih =>
    intro st hst hrem hacc hch
    obtain ⟨handle, result, context, hh, hr, hacc⟩ := hacc
    have hd := feed_packet packetDefinitions_wellFormed p hst (fun d hd => hrem d hd p rfl) hh hr
    have hname : handle = p.name.handler := by
      rw [packetDefinitions_handle _ p.mem, Option.some.injEq] at hh
      exact hh.symm
    have hgate : context.disableInterpreting = p.name.gate st.context.disableInterpreting := by
      rw [hname] at hr
      exact handler_gate hr
    rw [← hd.context] at hacc hgate
    obtain ⟨hnext, hch⟩ := List.isChain_cons.mp hch
    have hrem' : ∀ d, (feed packetDefinitions st p.bytes).st.currentPacket = some d →
        ∀ q ∈ ps.head?, q.header.length ≤
          (feed packetDefinitions st p.bytes).st.currentPacketLength := by
      intro d _ q hq
      rw [hd.currentPacketLength]
      exact hnext q hq
    obtain ⟨hhalt, hb, hg, hlast⟩ := ih _ hd.boundary hrem' hacc hch
    have happ : feed packetDefinitions st (packetBytes (p :: ps)) = _ :=
      feed_append hd.halt (packetBytes ps)
    rw [happ]
    refine ⟨hhalt, hb, by rw [hg, hgate]; rfl, fun last hl => ?_⟩
    cases ps with
    | nil =>
      cases hl
      exact ⟨hd.currentPacket, hd.currentPacketLength⟩
    | cons q ps => exact hlast last (by simpa using hl)

theorem PacketPrefix.remembering (p : PacketPrefix)
    (hp : FramedFrom (packetInterpretor packetDefinitions) p.packets) {last : IntelPacket}
    (hl : p.packets.getLast? = some last) :
    let r := feed packetDefinitions (packetInterpretor packetDefinitions) (packetBytes p.packets)
    r.halt = none ∧ Remembering r.st last.definition last.bytes.length := by
  have hb := atBoundary_new packetDefinitions none none none
  have hch := (framedFrom_iff packetDefinitions_wellFormed p.packets _ hb
    (fun d h => by cases h) p.accepted).mp hp
  obtain ⟨hhalt, hb, hg, hlast⟩ := feed_framed p.packets _ hb (fun d h => by cases h) p.accepted hch
  obtain ⟨hc, hn⟩ := hlast last hl
  exact ⟨hhalt, hb, hg.trans p.outside, hc, hn⟩

/-- The last packet is not a PSB, and so it is shorter than a PSB header. -/
theorem PacketPrefix.last_short (p : PacketPrefix) {last : IntelPacket}
    (hl : p.packets.getLast? = some last) :
    last.name ≠ .psb ∧ 0 < last.bytes.length ∧ last.bytes.length < 14 := by
  have hname : last.name ≠ .psb := by
    obtain ⟨front, hfront⟩ : ∃ front, p.packets = front ++ [last] :=
      ⟨_, (List.dropLast_append_getLast? last hl).symm⟩
    intro hpsb
    have hout := p.outside
    rw [endsInGroup, hfront, List.map_append, List.foldl_append, List.map_singleton,
      List.foldl_cons, List.foldl_nil, hpsb] at hout
    cases hout
  have hlen := packetDefinitions_length_le _ last.mem _ _ (spells_length last.spelled) last.length
  have hname' : last.definition.packetName ≠ .psb := hname
  rw [if_neg hname'] at hlen
  have hpos := List.length_pos_iff.mpr (last.header_ne_nil packetDefinitions_wellFormed)
  have hbytes : last.bytes.length = last.header.length + last.payload.length :=
    List.length_append
  exact ⟨hname, by omega, by omega⟩

def psbPacket : IntelPacket where
  definition := packetDefinitions[15]
  mem := List.getElem_mem _
  header := (List.replicate 7 [0x02, 0x82]).flatten
  payload := [0x02, 0x82]
  spelled := by decide
  length := rfl

def tscPacket : IntelPacket where
  definition := packetDefinitions[10]
  mem := List.getElem_mem _
  header := [0x19]
  payload := List.replicate 7 0x00
  spelled := by decide
  length := rfl

def plainGroup : PsbSuffix where
  psb := psbPacket
  before := []
  tsc := tscPacket
  after := []
  psbend := psbendPacket
  rest := []
  psb_name := rfl
  tsc_name := rfl
  psbend_name := rfl
  inside := by simp
  accepted := ⟨_, _, _, rfl, rfl, _, _, _, rfl, rfl, _, _, _, rfl, rfl, trivial⟩

theorem emittedAfter_nil_plainGroup :
    emittedAfter [] plainGroup.packets = [packetBase .psbend (some 0)] := by
  decide +kernel

/-- The PSB header goes to the remembered packet's handler, `n` bytes of it. -/
theorem Remembering.full {st : PacketInterpretor} {d : PacketDefinition} {n : Nat}
    (h : Remembering st d n) (hpos : 0 < n) (hlt : n < 14) :
    ∃ full, feed packetDefinitions st (psbPacket.header.take n) =
        completePacket packetDefinitions full ∧
      full.currentPacket = some d ∧ full.currentPacketLength = n ∧
      full.currentPacketLength = full.accumulator.length ∧
      full.accumulator = psbPacket.header.take n ∧ full.context = st.context := by
  obtain ⟨hb, -, hc, rfl⟩ := h
  obtain ⟨full, hfull, hfc, hfl, hacc, hctx⟩ :=
    feed_cut_eq packetDefinitions_wellFormed psbPacket hb hc hpos hlt
  refine ⟨full, hfull, hfc, hfl, ?_, hacc, hctx⟩
  have : psbPacket.header.length = 14 := rfl
  rw [hfl, hacc, List.length_take]
  omega

/-- If the handler raises on them, nothing more is emitted. -/
theorem Remembering.cut_error {st : PacketInterpretor} {d : PacketDefinition} {n : Nat}
    (h : Remembering st d n) (hd : d ∈ packetDefinitions) (hpos : 0 < n) (hlt : n < 14)
    {e : PyError} (hr : d.packetName.handler (psbPacket.header.take n) d.packetName st.context =
      .error e) (more : List Byte) :
    (feed packetDefinitions st (psbPacket.header.take n ++ more)).st.succession =
      st.succession := by
  obtain ⟨full, hfull, hfc, -, hlen, hacc, hctx⟩ := h.full hpos hlt
  have hh := packetDefinitions_handle d hd
  have hr' : d.packetName.handler full.accumulator d.packetName full.context = .error e := by
    rw [hacc, hctx]
    exact hr
  have hout : feed packetDefinitions st (psbPacket.header.take n) =
      { st := full, out := [⟨d, d.packetName, full.accumulator⟩], halt := some e } := by
    rw [hfull, completePacket_fire hfc (by omega) hh, hr']
  have hstop : feed packetDefinitions st (psbPacket.header.take n ++ more) =
      feed packetDefinitions st (psbPacket.header.take n) :=
    run_append_halt (e := e) (by rw [← feed, hout]) more
  have hem := feed_emission packetDefinitions st (psbPacket.header.take n)
  rw [hout, List.foldl_cons, List.foldl_nil, Emission.take, hh, hacc] at hem
  simp only [PacketInterpretor.emission, hr] at hem
  rw [hstop, hout]
  exact congrArg Emission.succession hem

theorem Remembering.cut {st : PacketInterpretor} {d : PacketDefinition} {n : Nat}
    (h : Remembering st d n) (hd : d ∈ packetDefinitions) (hname : d.packetName ≠ .psb)
    (hpos : 0 < n) (hlt : n < 14) {result : HandlerResult} {context : Context}
    (hr : d.packetName.handler (psbPacket.header.take n) d.packetName st.context =
      .ok (result, context)) :
    let r := feed packetDefinitions st (psbPacket.header.take n)
    r.halt = none ∧ Remembering r.st d n ∧
      r.st.succession = st.succession ++ result.packets := by
  obtain ⟨full, hfull, hfc, hfl, hlen, hacc, hctx⟩ := h.full hpos hlt
  have hh := packetDefinitions_handle d hd
  have hdel : Delivered packetDefinitions d (psbPacket.header.take n) context
      (feed packetDefinitions st (psbPacket.header.take n)) := by
    have : Delivered packetDefinitions d full.accumulator context
        (completePacket packetDefinitions full) :=
      completePacket_delivered full hfc hlen hh (by rw [hacc, hctx]; exact hr)
    rwa [hacc, ← hfull] at this
  have hopen : context.disableInterpreting = false := by
    rw [handler_gate hr, h.enabled]
    revert hname
    cases d.packetName <;> simp [PacketName.gate]
  refine ⟨hdel.halt, ⟨hdel.boundary, by rw [hdel.context, hopen], hdel.currentPacket, ?_⟩,
    hdel.succession hh hr hopen⟩
  rw [hdel.currentPacketLength, ← hacc, ← hlen, hfl]

theorem Remembering.read {st : PacketInterpretor} {d : PacketDefinition} {n : Nat}
    (h : Remembering st d n) (hpos : 0 < n) (p : IntelPacket) (hp : p.header.length = 1)
    {result : HandlerResult} {context : Context}
    (hr : p.name.handler p.bytes p.name st.context = .ok (result, context))
    (hopen : context.disableInterpreting = false) :
    (feed packetDefinitions st p.bytes).st.succession = st.succession ++ result.packets := by
  have hh := packetDefinitions_handle _ p.mem
  have hdel := feed_packet packetDefinitions_wellFormed p h.boundary
    (fun _ _ => by rw [hp, h.currentPacketLength]; exact hpos) hh hr
  exact hdel.succession hh hr hopen

theorem fupTipPacketId_ne_psbend {name : PacketName} {packetId : PacketId}
    (h : fupTipPacketId name = some packetId) : packetId ≠ .psbend := by
  cases name <;> cases h <;> exact PacketId.noConfusion

theorem handler_one {name : PacketName} (hname : name ∉ [.tnt, .tntExtended, .psb, .psbend])
    {data : List Byte} {c c' : Context} {r : HandlerResult}
    (h : name.handler data name c = .ok (r, c')) :
    ∃ packet, r.packets = [packet] ∧ packet.packetId ≠ .psbend := by
  cases name with
  | tnt | tntExtended | psb | psbend => simp at hname
  | tip | tipPge | tipPgd | fup =>
    simp only [PacketName.handler] at h
    obtain ⟨packetId, _, _, hid, rfl, -⟩ := fupTipPacketHandler_ok h
    exact ⟨_, rfl, fupTipPacketId_ne_psbend hid⟩
  | mode =>
    simp only [PacketName.handler] at h
    obtain ⟨packet, _, hid, -, rfl, -⟩ := modePacketHandler_ok h
    exact ⟨packet, rfl, by rw [hid]; exact fun h => by cases h⟩
  | cbr =>
    simp only [PacketName.handler] at h
    obtain ⟨_, rfl, -⟩ := cbrPacketHandler_ok h
    exact ⟨_, rfl, fun h => by cases h⟩
  | tsc =>
    cases h
    exact ⟨_, rfl, fun h => by cases h⟩
  | pip | traceStop | mtc | tma | vmcs | ovf | mnt | ptw | exstop | mwait | pwre | pwrx | bbp
  | bep =>
    cases h
    exact ⟨_, rfl, fun h => by cases h⟩

theorem packetLength_of_name : ∀ d ∈ packetDefinitions,
    (d.packetName = .tnt → d.packetLength = .const 1) ∧
      (d.packetName = .tntExtended → d.packetLength = .const 8) ∧
      (d.packetName = .psbend → d.packetLength = .const 2) := by
  simp only [packetDefinitions, List.forall_mem_cons]
  simp

def emittedFrom (st : PacketInterpretor) (bs : List Byte) : List Packet :=
  (feed packetDefinitions st bs).st.succession.drop st.succession.length

theorem emittedFrom_append {st : PacketInterpretor} {bs : List Byte} {packets : List Packet}
    (h : (feed packetDefinitions st bs).st.succession = st.succession ++ packets)
    (cs : List Byte) : packets <+: emittedFrom st (bs ++ cs) := by
  have hpre := feed_succession_prefix packetDefinitions st bs cs
  rw [h] at hpre
  obtain ⟨more, hmore⟩ := hpre
  refine ⟨more, ?_⟩
  rw [emittedFrom, ← hmore, List.append_assoc, List.drop_left]

theorem emittedAfter_eq {p : List IntelPacket}
    (h : (feed packetDefinitions (packetInterpretor packetDefinitions) (packetBytes p)).halt = none)
    (t : List IntelPacket) : emittedAfter p t = emittedFrom
      (feed packetDefinitions (packetInterpretor packetDefinitions) (packetBytes p)).st
      (packetBytes t) := by
  simp only [emittedAfter, emittedFrom, feed_append h]

theorem succession_append {st : PacketInterpretor} {bs cs : List Byte} {xs ys : List Packet}
    (hh : (feed packetDefinitions st bs).halt = none)
    (hx : (feed packetDefinitions st bs).st.succession = st.succession ++ xs)
    (hy : (feed packetDefinitions (feed packetDefinitions st bs).st cs).st.succession =
      (feed packetDefinitions st bs).st.succession ++ ys) :
    (feed packetDefinitions st (bs ++ cs)).st.succession = st.succession ++ (xs ++ ys) := by
  rw [feed_append hh, hy, hx, List.append_assoc]

def cutTntPacket : IntelPacket where
  definition := packetDefinitions[0]
  mem := List.getElem_mem _
  header := [0x82]
  payload := []
  spelled := by decide
  length := rfl

theorem emittedFrom_ne {st : PacketInterpretor} {bs : List Byte} {packets : List Packet}
    (h : (feed packetDefinitions st bs).st.succession = st.succession ++ packets)
    (hp : ∃ first rest, packets = first :: rest ∧ (first.packetId ≠ .psbend ∨ rest ≠ []))
    (cs : List Byte) (tsc : Option Nat) :
    emittedFrom st (bs ++ cs) ≠ [packetBase .psbend tsc] := by
  obtain ⟨first, rest, rfl, hne⟩ := hp
  have hpre := emittedFrom_append h cs
  intro heq
  rw [heq] at hpre
  obtain ⟨rfl, hrest⟩ := List.cons_prefix_cons.mp hpre
  obtain hid | hrest' := hne
  · exact hid rfl
  · exact hrest' (List.prefix_nil.mp hrest)

variable {st : PacketInterpretor} {d : PacketDefinition}

/-- After a PSBEND the first two pairs of bytes are PSBEND packets again. -/
theorem Remembering.emitted_psbend (h : Remembering st d 2) (hd : d ∈ packetDefinitions)
    (hname : d.packetName = .psbend) (tsc : Option Nat) :
    emittedFrom st (packetBytes plainGroup.packets) ≠ [packetBase .psbend tsc] := by
  have hne : d.packetName ≠ .psb := by rw [hname]; decide
  have hr : ∀ c, d.packetName.handler (psbPacket.header.take 2) d.packetName c =
      .ok (.one (packetBase .psbend c.tsc), { c with disableInterpreting := false }) := by
    intro c
    rw [hname]
    rfl
  obtain ⟨hh, hst, hs⟩ := h.cut hd hne (by decide) (by decide) (hr _)
  obtain ⟨-, -, hs'⟩ := hst.cut hd hne (by decide) (by decide) (hr _)
  exact emittedFrom_ne (succession_append hh hs hs') ⟨_, _, rfl, Or.inr (List.cons_ne_nil _ _)⟩
    (packetBytes plainGroup.packets |>.drop 4) tsc

/-- After a short TNT the second byte is a TNT packet. -/
theorem Remembering.emitted_tnt (h : Remembering st d 1) (hd : d ∈ packetDefinitions)
    (hname : d.packetName = .tnt) (tsc : Option Nat) :
    emittedFrom st (packetBytes plainGroup.packets) ≠ [packetBase .psbend tsc] := by
  have hne : d.packetName ≠ .psb := by rw [hname]; decide
  have hr : d.packetName.handler (psbPacket.header.take 1) d.packetName st.context =
      .ok (.list [], st.context) := by
    rw [hname]
    rfl
  obtain ⟨hh, hst, hs⟩ := h.cut hd hne (by decide) (by decide) hr
  have hs' := hst.read (by decide) cutTntPacket rfl rfl hst.enabled
  exact emittedFrom_ne (succession_append hh hs hs')
    ⟨_, _, rfl, Or.inl fun h => by cases h⟩ (packetBytes plainGroup.packets |>.drop 2) tsc

/-- After an extended TNT the PSB is gone without a trace, and the TSC packet is emitted. -/
theorem Remembering.emitted_tntExtended (h : Remembering st d 8) (hd : d ∈ packetDefinitions)
    (hname : d.packetName = .tntExtended) (tsc : Option Nat) :
    emittedFrom st (packetBytes plainGroup.packets) ≠ [packetBase .psbend tsc] := by
  have hne : d.packetName ≠ .psb := by rw [hname]; decide
  have hr : ∀ c, d.packetName.handler (psbPacket.header.take 8) d.packetName c =
      .ok (.list [], c) := by
    intro c
    rw [hname]
    rfl
  obtain ⟨hh, hst, hs⟩ := h.cut hd hne (by decide) (by decide) (hr _)
  obtain ⟨hh', hst', hs'⟩ := hst.cut hd hne (by decide) (by decide) (hr _)
  have hs'' := hst'.read (by decide) tscPacket rfl rfl hst'.enabled
  have hall := succession_append hh hs (succession_append hh' hs' hs'')
  exact emittedFrom_ne hall ⟨_, _, rfl, Or.inl fun h => by cases h⟩
    (packetBytes [psbendPacket]) tsc

/-- After a packet that is no PSB a plain group decodes to something else than it should. -/
theorem Remembering.emitted_plainGroup {last : IntelPacket}
    (h : Remembering st last.definition last.bytes.length) (hname : last.name ≠ .psb)
    (hpos : 0 < last.bytes.length) (hlt : last.bytes.length < 14) (tsc : Option Nat) :
    emittedFrom st (packetBytes plainGroup.packets) ≠ [packetBase .psbend tsc] := by
  have hd := last.mem
  obtain ⟨htnt, hext, hend⟩ := packetLength_of_name _ hd
  have hlen : ∀ n, last.definition.packetLength = .const n → last.bytes.length = n := by
    intro n hn
    have hl := last.length
    rw [hn, ← List.length_append] at hl
    exact (Except.ok.inj hl).symm
  by_cases hone : last.name ∉ [.tnt, .tntExtended, .psb, .psbend]
  · have hsplit : packetBytes plainGroup.packets =
        psbPacket.header.take last.bytes.length ++
          (psbPacket.header.drop last.bytes.length ++ (psbPacket.payload ++
            packetBytes [tscPacket, psbendPacket])) := by
      rw [← List.append_assoc, List.take_append_drop]
      rfl
    rw [hsplit]
    cases hr : last.name.handler (psbPacket.header.take last.bytes.length) last.name
        st.context with
    | error e =>
      rw [emittedFrom, h.cut_error hd hpos hlt hr, List.drop_length]
      exact fun h => by cases h
    | ok r =>
      obtain ⟨packet, hp, hid⟩ := handler_one hone hr
      exact emittedFrom_ne (h.cut hd hname hpos hlt hr).2.2 ⟨packet, [], hp, Or.inl hid⟩ _ tsc
  · simp only [not_not, List.mem_cons, List.not_mem_nil, or_false] at hone
    obtain hn | hn | hn | hn := hone
    · rw [hlen 1 (htnt hn)] at h
      exact h.emitted_tnt hd hn tsc
    · rw [hlen 8 (hext hn)] at h
      exact h.emitted_tntExtended hd hn tsc
    · exact absurd hn hname
    · rw [hlen 2 (hend hn)] at h
      exact h.emitted_psbend hd hn tsc

/-- After a prefix that is framed exactly, every suffix decodes as if nothing came before it
exactly if nothing did. Framed or not, no prefix does as well as every other one, whatever the
suffix. -/
theorem synchronises_iff (p : PacketPrefix) :
    (FramedFrom (packetInterpretor packetDefinitions) p.packets →
      ((∀ t : PsbSuffix, emittedAfter p.packets t.packets = emittedAfter [] t.packets) ↔
        p.packets = [])) ∧
    ∀ t : PsbSuffix, ∃ q : PacketPrefix,
      emittedAfter p.packets t.packets ≠ emittedAfter q.packets t.packets := by
  refine ⟨fun hp => ⟨fun h => ?_, fun h t => by rw [h]⟩, exists_emittedAfter_ne p.packets⟩
  by_contra hne
  have hl := List.getLast?_eq_some_getLast hne
  obtain ⟨hhalt, hrem⟩ := p.remembering hp hl
  obtain ⟨hname, hpos, hlt⟩ := p.last_short hl
  have hgroup := h plainGroup
  rw [emittedAfter_nil_plainGroup, emittedAfter_eq hhalt] at hgroup
  exact hrem.emitted_plainGroup hname hpos hlt _ hgroup

theorem not_synchronised_after_tnt : ¬ ∀ (p q : PacketPrefix) (t : PsbSuffix),
    emittedAfter p.packets t.packets = emittedAfter q.packets t.packets := by
  intro h
  obtain ⟨rest, htnt⟩ := emittedAfter_tnt plainGroup
  have hsame := h tntPrefix ⟨[], trivial, rfl⟩ plainGroup
  rw [htnt, emittedAfter_nil_plainGroup] at hsame
  cases hsame

end IntelPt.Decoder
