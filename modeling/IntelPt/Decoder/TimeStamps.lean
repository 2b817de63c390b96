import IntelPt.Decoder.IpCompression
import IntelPt.Decoder.Synchronisation

/-! Time stamps. Every handler of its own copies the stamp of the context into its packets; the
default handler does not, so MTC packets lose it. -/
namespace IntelPt.Decoder
open Transducer

def TraceItem.stamp (tsc : Option Nat) : TraceItem → Option Nat
  | .tsc payload => some (LittleEndian.value payload)
  | _ => tsc

def lastTsc (items : List TraceItem) : Option Nat := items.foldl TraceItem.stamp none

def decoded (st : PacketInterpretor) (items : List TraceItem) : List Packet :=
  (feed packetDefinitions st (encode items)).st.succession

/-- Each element of the succession has the time stamp of the last TSC packet up to the item that
added it. -/
def TimeStamped (st : PacketInterpretor) (items : List TraceItem) : Prop :=
  ∀ before item after, items = before ++ item :: after →
    ∀ k packet, (decoded st items)[k]? = some packet → (decoded st before).length ≤ k →
      k < (decoded st (before ++ [item])).length → packet.tsc = lastTsc (before ++ [item])

def NoMtcAfterTsc (items : List TraceItem) : Prop :=
  items.Pairwise fun item later => ¬ (item.packetName = some .tsc ∧ later.packetName = some .mtc)

instance (items : List TraceItem) : Decidable (NoMtcAfterTsc items) :=
  inferInstanceAs (Decidable (List.Pairwise _ _))

/-! The handlers. -/

def PacketName.stamped : PacketName → Bool
  | .tnt | .tntExtended | .tip | .tipPge | .tipPgd | .fup | .mode | .cbr | .tsc | .psb
  | .psbend => true
  | _ => false

theorem tsc_tntEmit {tsc : Option Nat} {packet : Packet} (n : Nat) :
    ∀ auxData, packet ∈ tntEmit tsc n auxData → packet.tsc = tsc := by
  induction n with
  | zero =>
    intro auxData h
    cases h
  | succ n ih =>
    intro auxData h
    obtain rfl | h := List.mem_cons.mp h
    · rfl
    · exact ih _ h

/-- The stamp a call leaves in the context. -/
theorem handler_tsc {name : PacketName} {data : List Byte} {c c' : Context} {r : HandlerResult}
    (h : name.handler data name c = .ok (r, c')) :
    c'.tsc = if name = .tsc then some (LittleEndian.value (data.drop 1)) else c.tsc := by
  rw [(handler_context h).2, foldBytes_eq]

theorem handler_stamped {name : PacketName} {data : List Byte} {c c' : Context}
    {r : HandlerResult} (h : name.handler data name c = .ok (r, c')) :
    ∀ packet ∈ r.packets, packet.tsc = if name.stamped then c'.tsc else none := by
  cases name with
  | tnt | tntExtended =>
    simp only [PacketName.handler] at h
    obtain ⟨_, _, rfl, rfl⟩ := tntPacketHandler_ok h
    exact fun packet hp => tsc_tntEmit _ _ hp
  | tip | tipPge | tipPgd | fup =>
    simp only [PacketName.handler] at h
    obtain ⟨_, _, _, -, rfl, rfl⟩ := fupTipPacketHandler_ok h
    exact HandlerResult.forall_mem_one rfl
  | mode =>
    simp only [PacketName.handler] at h
    obtain ⟨_, _, -, htsc, rfl, rfl⟩ := modePacketHandler_ok h
    exact HandlerResult.forall_mem_one htsc
  | cbr =>
    simp only [PacketName.handler] at h
    obtain ⟨_, rfl, rfl⟩ := cbrPacketHandler_ok h
    exact HandlerResult.forall_mem_one rfl
  | tsc | psb | psbend | pip | traceStop | mtc | tma | vmcs | ovf | mnt | ptw | exstop | mwait
  | pwre | pwrx | bbp | bep =>
    cases h
    exact HandlerResult.forall_mem_one rfl

/-! The items. -/

theorem isSome_foldl_stamp (items : List TraceItem) : ∀ tsc,
    (items.foldl TraceItem.stamp tsc).isSome = true ↔
      tsc.isSome = true ∨ ∃ item ∈ items, item.packetName = some .tsc := by
  induction items with
  | nil =>
    intro tsc
    simp
  | cons item items ih =>
    intro tsc
    have hitem : (item.stamp tsc).isSome = true ↔
        tsc.isSome = true ∨ item.packetName = some .tsc := by
      cases item with
      | ip event => cases hk : event.kind <;> simp [TraceItem.stamp, TraceItem.packetName, hk,
          IpKind.packetName]
      | tnt _ | mode _ | tsc _ | mtc _ | fill _ => simp [TraceItem.stamp, TraceItem.packetName]
    rw [List.foldl_cons, ih, hitem, or_assoc]
    simp

theorem HandledItem.stamped {st : PacketInterpretor} {item : TraceItem} {packets : List Packet}
    (h : HandledItem st item packets) :
    (feed packetDefinitions st item.bytes).st.context.tsc = item.stamp st.context.tsc ∧
      ∀ packet ∈ packets, packet.tsc =
        if item.packetName = some .mtc then none else item.stamp st.context.tsc := by
  have hcall {name : PacketName} (hh : Handled st item.bytes name packets) :
      (feed packetDefinitions st item.bytes).st.context.tsc =
          (if name = .tsc then some (LittleEndian.value (item.bytes.drop 1))
            else st.context.tsc) ∧
        ∀ packet ∈ packets, packet.tsc = if name.stamped
          then (feed packetDefinitions st item.bytes).st.context.tsc else none := by
    obtain ⟨d, hd, rfl, handle, hh, result, hr, rfl⟩ := hh
    rw [packetDefinitions_handle d hd] at hh
    cases hh
    exact ⟨handler_tsc hr, handler_stamped hr⟩
  cases item with
  | ip event =>
    obtain ⟨kind, compression, address⟩ := event
    obtain ⟨htsc, hp⟩ := hcall h
    rw [htsc] at hp
    cases kind <;> exact ⟨htsc, hp⟩
  | tnt _ | mode _ | tsc _ | mtc _ =>
    obtain ⟨htsc, hp⟩ := hcall h
    rw [htsc] at hp
    exact ⟨htsc, hp⟩
  | fill byte =>
    obtain ⟨rfl, hcontext⟩ := h
    refine ⟨by rw [hcontext]; rfl, fun packet hp => ?_⟩
    cases hp

theorem encode_append (items more : List TraceItem) :
    encode (items ++ more) = encode items ++ encode more := List.flatMap_append

theorem validTrace_append (items more : List TraceItem) : ∀ last,
    ValidTrace last (items ++ more) ↔
      ValidTrace last items ∧ ValidTrace (items.foldl TraceItem.last last) more := by
  induction items with
  | nil =>
    intro last
    simp [ValidTrace]
  | cons item items ih =>
    intro last
    simp only [List.cons_append, ValidTrace, List.foldl_cons, ih, and_assoc]

/-- After valid items the interpreter is ready, with the stamp of the last TSC packet. -/
theorem ready_encode (items : List TraceItem) : ∀ {st : PacketInterpretor}
    {last : Option Address}, Ready st last → ValidTrace last items →
      Ready (feed packetDefinitions st (encode items)).st (items.foldl TraceItem.last last) ∧
        (feed packetDefinitions st (encode items)).halt = none ∧
        (feed packetDefinitions st (encode items)).st.context.tsc =
          items.foldl TraceItem.stamp st.context.tsc := by
  induction items with
  | nil =>
    intro st last h _
    exact ⟨h, rfl, rfl⟩
  | cons item items ih =>
    intro st last h hv
    obtain ⟨packets, hread, hhandled, -⟩ := read_item h hv.1
    obtain ⟨hready, hhalt, htsc⟩ := ih hread.ready hv.2
    have happ := feed_append hread.halt (encode items)
    have hcons : encode (item :: items) = item.bytes ++ encode items := rfl
    rw [hcons, happ]
    refine ⟨hready, hhalt, htsc.trans ?_⟩
    rw [hhandled.stamped.1, List.foldl_cons]

/-- An item adds packets with the last stamp, or one without a stamp if it is an MTC. -/
theorem decoded_item {items before after : List TraceItem} {item : TraceItem}
    (h : ValidTrace none items) (hsplit : items = before ++ item :: after)
    (frequency base size : Option Nat) :
    let st := packetInterpretor packetDefinitions frequency base size
    ∃ packets, decoded st (before ++ [item]) = decoded st before ++ packets ∧
      decoded st (before ++ [item]) <+: decoded st items ∧
      (∀ packet ∈ packets, packet.tsc =
        if item.packetName = some .mtc then none else lastTsc (before ++ [item])) ∧
      (item.packetName = some .mtc → packets ≠ []) := by
  rw [hsplit, validTrace_append] at h
  obtain ⟨hready, hhalt, htsc⟩ := ready_encode before (ready_new frequency base size) h.1
  obtain ⟨packets, hread, hhandled, -⟩ := read_item hready h.2.1
  have hone : encode (before ++ [item]) = encode before ++ item.bytes := by
    rw [encode_append]
    simp [encode]
  have hall : encode items = encode (before ++ [item]) ++ encode after := by
    rw [hsplit, ← encode_append, List.append_assoc, List.singleton_append]
  have hstamp : item.stamp (before.foldl TraceItem.stamp none) = lastTsc (before ++ [item]) := by
    rw [lastTsc, List.foldl_append]
    rfl
  have hpackets := hhandled.stamped.2
  rw [htsc, show (packetInterpretor packetDefinitions frequency base size).context.tsc = none
    from rfl, hstamp] at hpackets
  refine ⟨packets, ?_, ?_, hpackets, fun hmtc => ?_⟩
  · rw [decoded, hone, feed_append hhalt]
    exact hread.succession
  · rw [decoded, decoded, hall]
    exact feed_succession_prefix packetDefinitions _ _ _
  · unfold HandledItem at hhandled
    rw [hmtc] at hhandled
    obtain ⟨d, hd, hname, handle, hh, result, hr, rfl⟩ := hhandled
    rw [packetDefinitions_handle d hd, hname] at hh
    cases hh
    obtain ⟨hresult, -⟩ := Prod.mk.inj (Except.ok.inj hr)
    rw [← hresult]
    exact List.cons_ne_nil _ _

theorem getElem?_added {all before added : List Packet} (h : before ++ added <+: all) {k : Nat}
    (hle : before.length ≤ k) (hlt : k < (before ++ added).length) :
    all[k]? = added[k - before.length]? := by
  obtain ⟨rest, rfl⟩ := h
  rw [List.getElem?_append_left hlt, List.getElem?_append_right hle]

/-- Time stamps are right exactly if no MTC packet comes after a TSC packet. -/
theorem timeStamped_iff (items : List TraceItem) (h : ValidTrace none items)
    (frequency base size : Option Nat) :
    TimeStamped (packetInterpretor packetDefinitions frequency base size) items ↔
      NoMtcAfterTsc items := by
  have hlast (before : List TraceItem) (item : TraceItem) (hmtc : item.packetName = some .mtc) :
      lastTsc (before ++ [item]) = none ↔ ∀ i ∈ before, i.packetName ≠ some .tsc := by
    have hsome := isSome_foldl_stamp (before ++ [item]) none
    rw [← Option.not_isSome_iff_eq_none, lastTsc, hsome]
    simp [hmtc]
  constructor
  · intro hstamped
    rw [NoMtcAfterTsc, List.pairwise_iff_getElem]
    intro i j hi hj hij hbad
    obtain ⟨htsc, hmtc⟩ := hbad
    have hsplit : items = items.take j ++ items[j] :: items.drop (j + 1) := by simp
    obtain ⟨packets, hadded, hprefix, hnone, hne⟩ := decoded_item h hsplit frequency base size
    have hpos := List.length_pos_iff.mpr (hne hmtc)
    have hlt : (decoded (packetInterpretor packetDefinitions frequency base size)
        (items.take j)).length < (decoded (packetInterpretor packetDefinitions frequency base size)
          (items.take j ++ [items[j]])).length := by
      rw [hadded, List.length_append]
      omega
    have hk := getElem?_added (hadded ▸ hprefix) (Nat.le_refl _) (hadded ▸ hlt)
    rw [Nat.sub_self, List.getElem?_eq_getElem hpos] at hk
    have heq := hnone packets[0] (List.getElem_mem hpos)
    rw [if_pos hmtc, hstamped _ _ _ hsplit _ _ hk (Nat.le_refl _) hlt, hlast _ _ hmtc] at heq
    exact heq items[i] (List.mem_take_iff_getElem.mpr ⟨i, by omega, rfl⟩) htsc
  · intro hno before item after hsplit k packet hk hle hlt
    obtain ⟨packets, hadded, hprefix, htsc, -⟩ := decoded_item h hsplit frequency base size
    have hmem : packet ∈ packets := by
      rw [getElem?_added (hadded ▸ hprefix) hle (hadded ▸ hlt)] at hk
      exact List.mem_of_getElem? hk
    by_cases hmtc : item.packetName = some .mtc
    · rw [htsc packet hmem, if_pos hmtc, eq_comm, hlast _ _ hmtc]
      intro i hi hname
      rw [NoMtcAfterTsc, hsplit, List.pairwise_append] at hno
      exact hno.2.2 i hi item List.mem_cons_self ⟨hname, hmtc⟩
    · rw [htsc packet hmem, if_neg hmtc]

theorem timeStamped_mtc_before_tsc :
    TimeStamped (packetInterpretor packetDefinitions)
      [.mtc 0x07, .fill 0xFF, .tsc [0x2A, 0, 0, 0, 0, 0, 0], .tnt 0x06] := by
  have hfill : (0xFF : Byte) ∈ unusedPacketBytes := by decide
  have hvalid : ValidTrace none
      [.mtc 0x07, .fill 0xFF, .tsc [0x2A, 0, 0, 0, 0, 0, 0], .tnt 0x06] :=
    ⟨trivial, hfill, rfl, ⟨by decide, by decide⟩, trivial⟩
  exact (timeStamped_iff _ hvalid none none none).mpr (by decide)

theorem not_timeStamped_mtc_after_tsc : ¬ ∀ items, ValidTrace none items →
    TimeStamped (packetInterpretor packetDefinitions) items := by
  intro h
  let tsc : TraceItem := .tsc [0x2A, 0, 0, 0, 0, 0, 0]
  have hstamped := h [tsc, .mtc 0x07] ⟨rfl, trivial, trivial⟩ [tsc] (.mtc 0x07) [] rfl 1
    (packetBase .undefined) (by decide +kernel) (by decide +kernel) (by decide +kernel)
  have hlast : lastTsc [tsc, .mtc 0x07] = some 0x2A := by decide
  cases hstamped.trans hlast

end IntelPt.Decoder
