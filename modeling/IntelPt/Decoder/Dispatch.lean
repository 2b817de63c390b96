import IntelPt.Decoder.HeaderSearch

/-! Which handler calls are sound on arbitrary input. A stale packet, remembered from before,
is handed over while the next header is still being matched; that is the only way a call can
go wrong, and it always does. -/
namespace IntelPt.Decoder
open HeaderCode Transducer
variable {table : List PacketDefinition}

/-- The call is on bytes that begin with the header of the very definition whose handler and
name are used, and that are as many as its packet_length says for this header. -/
def SoundCall (table : List PacketDefinition) (call : HandlerCall) : Prop :=
  call.definition ∈ table ∧ call.packetName = call.definition.packetName ∧
    starts validateHeaderByte call.definition.packetHeader call.packetData = true ∧
    call.definition.packetLength.eval
      (call.packetData.take call.definition.packetHeader.length) = .ok call.packetData.length

/-- The byte is buffered outside a packet and completes no header, while a packet is remembered
whose length the accumulator now reaches. -/
def StaleStep (st : PacketInterpretor) (byte : Byte) : Prop :=
  st.inPacket = false ∧ byte ∉ unusedPacketBytes ∧
    (∀ d ∈ st.currentCandidates, completes byte st.headerIndex d = false) ∧
    ∃ d, st.currentPacket = some d ∧ st.currentPacketLength ≤ st.accumulator.length + 1

structure Running (table : List PacketDefinition) (st : PacketInterpretor) : Prop where
  phase : Searching table st ∨ ∃ d, Buffering table st d
  current_mem : ∀ d, st.currentPacket = some d → d ∈ table

theorem Running.searching {st : PacketInterpretor} (h : Running table st)
    (hin : st.inPacket = false) : Searching table st := by
  refine h.phase.resolve_right fun hb => ?_
  obtain ⟨d, hb⟩ := hb
  rw [hb.in_packet] at hin
  cases hin

theorem completePacket_sound (ht : TableWellFormed table) {st : PacketInterpretor}
    {d : PacketDefinition} (hd : d ∈ table) (hc : st.currentPacket = some d)
    (hs : starts validateHeaderByte d.packetHeader st.accumulator = true)
    (hn : d.packetLength.eval (st.accumulator.take d.packetHeader.length) =
      .ok st.currentPacketLength)
    (hl : st.accumulator.length ≤ st.currentPacketLength) (hin : st.inPacket = true) :
    (∀ call ∈ (completePacket table st).out, SoundCall table call) ∧
      ((completePacket table st).halt = none → Running table (completePacket table st).st) := by
  by_cases hfull : st.currentPacketLength ≤ st.accumulator.length
  · obtain ⟨handle, hh⟩ := Option.isSome_iff_exists.mp (ht.has_handle d hd)
    have he : st.currentPacketLength = st.accumulator.length := by omega
    refine ⟨?_, ?_⟩
    · rw [completePacket_fire_out hc hfull hh]
      intro call hcall
      rw [List.mem_singleton] at hcall
      subst hcall
      exact ⟨hd, rfl, hs, by rw [hn, he]⟩
    · rw [completePacket_fire hc hfull hh]
      cases handle st.accumulator d.packetName st.context with
      | error e => intro h; cases h
      | ok r =>
        intro _
        refine ⟨Or.inl ((atBoundary_afterPacket table st r.1 r.2).searching ht), ?_⟩
        intro e hce
        have : some d = some e := hc.symm.trans hce
        cases this
        exact hd
  · have hwait : completePacket table st = { st := st } :=
      completePacket_wait fun e hce => by
        rw [hc] at hce
        omega
    rw [hwait]
    refine ⟨by simp, fun _ => ⟨Or.inr ⟨d, hin, hc, hs, hn, Nat.lt_of_not_le hfull⟩, ?_⟩⟩
    intro e hce
    rw [hc] at hce
    cases hce
    exact hd

theorem processByte_sound (ht : TableWellFormed table) {st : PacketInterpretor} {byte : Byte}
    (hr : Running table st) (hok : ¬ StaleStep st byte) :
    (∀ call ∈ (processByte table st byte).out, SoundCall table call) ∧
      ((processByte table st byte).halt = none → Running table (processByte table st byte).st) := by
  obtain hs | ⟨d, hb⟩ := hr.phase
  · by_cases hfill : byte ∈ unusedPacketBytes
    · obtain ⟨ho, -, hst, hcur⟩ := processByte_fill ht hs hfill
      refine ⟨by simp [ho], fun _ => ⟨Or.inl hst, ?_⟩⟩
      rw [hcur]
      exact hr.current_mem
    · by_cases hc : ∃ d ∈ st.currentCandidates, completes byte st.headerIndex d = true
      · obtain ⟨d, hd, hsp, hlen⟩ := processByte_enter hs hfill hc
        have hw := spells_length hsp
        obtain ⟨e, -, ho, hh⟩ | ⟨n, hn, hp⟩ := hlen
        · exact ⟨by simp [ho], by simp [hh]⟩
        · rw [hp]
          refine completePacket_sound ht hd rfl ?_ ?_ ?_ rfl
          · simpa [entered, buffered] using starts_append hsp []
          · change d.packetLength.eval
              ((st.accumulator ++ [byte]).take d.packetHeader.length) = .ok n
            rw [← hw, List.take_length, hn]
          · exact ht.length_fits d hd _ n hw hn
      · have hnc : ∀ d ∈ st.currentCandidates, completes byte st.headerIndex d = false := by
          simpa using hc
        rw [processByte_narrow hs hfill hnc]
        have hwait : completePacket table (narrowed st byte) = { st := narrowed st byte } := by
          apply completePacket_wait
          intro d hcur
          by_contra hlt
          refine hok ⟨hs.not_in, hfill, hnc, d, hcur, ?_⟩
          have hlt' : ¬ (st.accumulator ++ [byte]).length < st.currentPacketLength := hlt
          simp only [List.length_append, List.length_singleton] at hlt'
          omega
        rw [hwait]
        exact ⟨by simp, fun _ => ⟨Or.inl (hs.narrowed hnc), hr.current_mem⟩⟩
  · have hd := hr.current_mem d hb.current
    rw [processByte_buffer hb.in_packet]
    have hlen := spells_length (starts_take hb.starts)
    rw [List.length_take] at hlen
    refine completePacket_sound ht hd hb.current ?_ ?_ ?_ hb.in_packet
    · exact starts_append_right hb.starts [byte]
    · change d.packetLength.eval ((st.accumulator ++ [byte]).take d.packetHeader.length) = _
      rw [List.take_append_of_le_length (by omega)]
      exact hb.length
    · have := hb.short
      simp only [buffered, List.length_append, List.length_singleton]
      omega

/-- A stale step hands the remembered packet bytes that no header of the table begins. -/
theorem processByte_stale (ht : TableWellFormed table) {st : PacketInterpretor} {byte : Byte}
    (hr : Running table st) (h : StaleStep st byte) :
    ∃ d, st.currentPacket = some d ∧
      (processByte table st byte).out = [⟨d, d.packetName, st.accumulator ++ [byte]⟩] ∧
      starts validateHeaderByte d.packetHeader (st.accumulator ++ [byte]) = false := by
  obtain ⟨hin, hfill, hnc, d, hcur, hlen⟩ := h
  have hs := hr.searching hin
  have hd := hr.current_mem d hcur
  obtain ⟨handle, hh⟩ := Option.isSome_iff_exists.mp (ht.has_handle d hd)
  refine ⟨d, hcur, ?_, (hs.narrowed hnc).unmatched d hd⟩
  rw [processByte_narrow hs hfill hnc]
  refine completePacket_fire_out hcur ?_ hh
  change st.currentPacketLength ≤ (st.accumulator ++ [byte]).length
  simpa using hlen

/-- A full packet leaves a boundary, any other state is left as it is. -/
theorem completePacket_cases (ht : TableWellFormed table) (st : PacketInterpretor)
    (hm : ∀ d, st.currentPacket = some d → d ∈ table) (hh : (completePacket table st).halt = none) :
    (completePacket table st = { st := st } ∧
        ∀ d, st.currentPacket = some d → st.accumulator.length < st.currentPacketLength) ∨
      (AtBoundary table (completePacket table st).st ∧
        (completePacket table st).st.currentPacket = st.currentPacket) := by
  by_cases hw : ∀ d, st.currentPacket = some d → st.accumulator.length < st.currentPacketLength
  · exact Or.inl ⟨completePacket_wait hw, hw⟩
  · push Not at hw
    obtain ⟨d, hc, hl⟩ := hw
    obtain ⟨handle, hd⟩ := Option.isSome_iff_exists.mp (ht.has_handle d (hm d hc))
    right
    rw [completePacket_fire hc hl hd] at hh ⊢
    cases hr : handle st.accumulator d.packetName st.context with
    | error e =>
      rw [hr] at hh
      cases hh
    | ok r => exact ⟨atBoundary_afterPacket table st r.1 r.2, rfl⟩

/-- Every byte that raises nothing keeps the machine's invariant, a stale step included. -/
theorem Running.step (ht : TableWellFormed table) {st : PacketInterpretor} {byte : Byte}
    (hr : Running table st) (hh : (processByte table st byte).halt = none) :
    Running table (processByte table st byte).st := by
  by_cases hstale : StaleStep st byte
  · obtain ⟨hin, hfill, hnc, d, hcur, hlen⟩ := hstale
    have hs := hr.searching hin
    rw [processByte_narrow hs hfill hnc] at hh ⊢
    obtain ⟨-, hlt⟩ | ⟨hb, hc⟩ :=
      completePacket_cases ht (narrowed st byte) hr.current_mem hh
    · have hlt' : (st.accumulator ++ [byte]).length < st.currentPacketLength := hlt d hcur
      rw [List.length_append, List.length_singleton] at hlt'
      omega
    · exact ⟨Or.inl (hb.searching ht), fun e he => hr.current_mem e (hc ▸ he)⟩
  · exact (processByte_sound ht hr hstale).2 hh

theorem Running.feed (ht : TableWellFormed table) {st : PacketInterpretor} {bs : List Byte}
    (h : Running table st) (hhalt : (feed table st bs).halt = none) :
    Running table (feed table st bs).st :=
  run_invariant (Running table) (fun _ _ hr hh => hr.step ht hh) h hhalt

theorem running_new (ht : TableWellFormed table) (frequency base size : Option Nat) :
    Running table (packetInterpretor table frequency base size) where
  phase := Or.inl ((atBoundary_new table frequency base size).searching ht)
  current_mem := fun d hd => by cases hd

theorem processByte_out_mem (ht : TableWellFormed table) {st : PacketInterpretor}
    (hr : Running table st) (byte : Byte) : ∀ call ∈ (processByte table st byte).out,
      call.definition ∈ table ∧ call.packetName = call.definition.packetName := by
  intro call hcall
  by_cases hstale : StaleStep st byte
  · obtain ⟨d, hcur, ho, -⟩ := processByte_stale ht hr hstale
    rw [ho, List.mem_singleton] at hcall
    subst hcall
    exact ⟨hr.current_mem d hcur, rfl⟩
  · have hsound := (processByte_sound ht hr hstale).1 call hcall
    exact ⟨hsound.1, hsound.2.1⟩

theorem feed_out_mem (ht : TableWellFormed table) {st : PacketInterpretor}
    (hr : Running table st) (bs : List Byte) : ∀ call ∈ (feed table st bs).out,
      call.definition ∈ table ∧ call.packetName = call.definition.packetName :=
  run_out_invariant (Running table) (fun _ _ hr hh => hr.step ht hh)
    (fun _ b hr => processByte_out_mem ht hr b) hr bs

/-- Every handler call on a stream is sound exactly if no step of the run is stale. -/
theorem dispatch_sound_iff_of_table (ht : TableWellFormed table) (stream : List Byte) :
    (∀ call ∈ (feed table (packetInterpretor table) stream).out, SoundCall table call) ↔
      Meets (processByte table) (fun st byte => ¬ StaleStep st byte)
        (packetInterpretor table) stream := by
  refine good_iff_meets (Running table) ?_ ?_ _ stream (running_new ht none none none)
  · intro st byte hr hok
    exact processByte_sound ht hr hok
  · intro st byte hr hstale
    obtain ⟨d, -, ho, hs⟩ := processByte_stale ht hr (not_not.mp hstale)
    refine ⟨_, by rw [ho]; exact List.mem_singleton_self _, fun hsound => ?_⟩
    have := hsound.2.2.1
    rw [hs] at this
    cases this

theorem dispatch_sound_iff (stream : List Byte) :
    (∀ call ∈ (feed packetDefinitions (packetInterpretor packetDefinitions) stream).out,
        SoundCall packetDefinitions call) ↔
      Meets (processByte packetDefinitions) (fun st byte => ¬ StaleStep st byte)
        (packetInterpretor packetDefinitions) stream :=
  dispatch_sound_iff_of_table packetDefinitions_wellFormed stream

/-- A short TNT packet and the first byte of any longer header: the TNT handler gets the 0x02. -/
theorem dispatch_unsound_after_tnt :
    ¬ ∀ stream : List Byte,
      ∀ call ∈ (feed packetDefinitions (packetInterpretor packetDefinitions) stream).out,
        SoundCall packetDefinitions call := by
  intro h
  have hall : (feed packetDefinitions (packetInterpretor packetDefinitions)
      [0x04, 0x02]).out.all (fun call =>
        starts validateHeaderByte call.definition.packetHeader call.packetData) = true :=
    List.all_eq_true.mpr fun call hc => (h _ call hc).2.2.1
  have hnot : (feed packetDefinitions (packetInterpretor packetDefinitions)
      [0x04, 0x02]).out.all (fun call =>
        starts validateHeaderByte call.definition.packetHeader call.packetData) = false := by
    decide +kernel
  rw [hnot] at hall
  cases hall

end IntelPt.Decoder
