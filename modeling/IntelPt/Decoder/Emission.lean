import IntelPt.Decoder.Framing

/-! What the interpreter emits depends on its handler calls alone: the context and the succession
after a run are those before it with every call of the run taken in. -/
namespace IntelPt.Decoder
open Transducer
variable {table : List PacketDefinition}

structure Emission where
  context : Context := {}
  succession : List Packet := []
  deriving DecidableEq, Repr

def PacketInterpretor.emission (st : PacketInterpretor) : Emission := ⟨st.context, st.succession⟩

def Emission.accept (e : Emission) (result : HandlerResult) (context : Context) : Emission where
  context := context
  succession :=
    if context.disableInterpreting then e.succession else e.succession ++ result.packets

def Emission.take (e : Emission) (call : HandlerCall) : Emission :=
  match call.definition.handle with
  | none => e
  | some handle =>
    match handle call.packetData call.packetName e.context with
    | .error _ => e
    | .ok (result, context) => e.accept result context

theorem completePacket_emission (table : List PacketDefinition) (st : PacketInterpretor) :
    (completePacket table st).st.emission =
      (completePacket table st).out.foldl Emission.take st.emission := by
  cases hc : st.currentPacket with
  | none => simp [completePacket, hc]
  | some d =>
    by_cases hl : st.currentPacketLength ≤ st.accumulator.length
    · cases hd : d.handle with
      | none =>
        simp only [completePacket, hc, hl, if_true, hd]
        split <;> rfl
      | some handle =>
        rw [completePacket_fire hc hl hd]
        have htake : Emission.take st.emission ⟨d, d.packetName, st.accumulator⟩ =
            match handle st.accumulator d.packetName st.context with
            | .error _ => st.emission
            | .ok (result, context) => st.emission.accept result context := by
          simp only [Emission.take, hd]
          rfl
        cases hr : handle st.accumulator d.packetName st.context with
        | error e =>
          rw [hr] at htake
          exact htake.symm
        | ok r =>
          rw [hr] at htake
          exact htake.symm
    · rw [completePacket_wait fun e he => by rw [hc] at he; omega]
      rfl

theorem searchHeader_emission (byte : Byte) (st : PacketInterpretor) :
    (searchHeader byte st).1.emission = st.emission := by
  obtain ⟨_, _, _, _, _, h⟩ := searchHeader_frame byte st
  rw [h]
  rfl

theorem processByte_emission (table : List PacketDefinition) (st : PacketInterpretor)
    (byte : Byte) :
    (processByte table st byte).st.emission =
      (processByte table st byte).out.foldl Emission.take st.emission := by
  cases hin : st.inPacket with
  | true =>
    rw [processByte_buffer hin]
    exact completePacket_emission table _
  | false =>
    by_cases hfill : byte ∈ unusedPacketBytes
    · simp only [processByte, hin, Bool.false_eq_true, if_false, hfill, if_true]
      split <;> rfl
    · have hs := searchHeader_emission byte (buffered st byte)
      rw [processByte_search hin hfill]
      cases hr : searchHeader byte (buffered st byte) with
      | mk found error =>
        rw [hr] at hs
        have hfound : found.emission = st.emission := hs
        cases error with
        | some e => exact hfound
        | none =>
          rw [← hfound]
          exact completePacket_emission table found

/-- A run emits what its handler calls make of the emission before it, raising or not. -/
theorem feed_emission (table : List PacketDefinition) (st : PacketInterpretor)
    (bs : List Byte) :
    (feed table st bs).st.emission = (feed table st bs).out.foldl Emission.take st.emission := by
  induction bs generalizing st with
  | nil => rfl
  | cons b bs ih =>
    have hb := processByte_emission table st b
    cases hh : (processByte table st b).halt with
    | some e =>
      rw [feed, run_cons_halt hh]
      exact hb
    | none =>
      rw [feed, run_cons hh, List.foldl_append, ← hb]
      exact ih _

/-- A handler call only adds packets. -/
theorem Emission.succession_take (e : Emission) (call : HandlerCall) :
    e.succession <+: (e.take call).succession := by
  unfold Emission.take
  split
  · exact List.prefix_refl _
  · split
    · exact List.prefix_refl _
    · simp only [Emission.accept]
      split
      · exact List.prefix_refl _
      · exact List.prefix_append _ _

theorem Emission.succession_foldl (calls : List HandlerCall) (e : Emission) :
    e.succession <+: (calls.foldl Emission.take e).succession := by
  induction calls generalizing e with
  | nil => exact List.prefix_refl _
  | cons call calls ih => exact (e.succession_take call).trans (ih _)

theorem feed_succession_prefix (table : List PacketDefinition) (st : PacketInterpretor)
    (bs cs : List Byte) :
    (feed table st bs).st.succession <+: (feed table st (bs ++ cs)).st.succession := by
  cases h : (feed table st bs).halt with
  | some e =>
    have hsame : feed table st (bs ++ cs) = feed table st bs := run_append_halt h cs
    exact ⟨[], by rw [hsame, List.append_nil]⟩
  | none =>
    rw [feed_append h]
    have hrest := Emission.succession_foldl
      (feed table (feed table st bs).st cs).out (feed table st bs).st.emission
    rw [← feed_emission] at hrest
    exact hrest

/-- A delivered packet adds what its handler returned. -/
theorem Delivered.emission {d : PacketDefinition} {bytes : List Byte} {context : Context}
    {st : PacketInterpretor} (h : Delivered table d bytes context (feed table st bytes))
    {handle : Handler} {result : HandlerResult} (hh : d.handle = some handle)
    (hr : handle bytes d.packetName st.context = .ok (result, context)) :
    (feed table st bytes).st.emission = st.emission.accept result context := by
  rw [feed_emission, h.out, List.foldl_cons, List.foldl_nil, Emission.take, hh]
  simp only [PacketInterpretor.emission, hr]

/-- Outside a group they are emitted. -/
theorem Delivered.succession {d : PacketDefinition} {bytes : List Byte} {context : Context}
    {st : PacketInterpretor} (h : Delivered table d bytes context (feed table st bytes))
    {handle : Handler} {result : HandlerResult} (hh : d.handle = some handle)
    (hr : handle bytes d.packetName st.context = .ok (result, context))
    (hopen : context.disableInterpreting = false) :
    (feed table st bytes).st.succession = st.succession ++ result.packets := by
  have hem := congrArg Emission.succession (h.emission hh hr)
  rw [Emission.accept, if_neg (by rw [hopen]; exact Bool.false_ne_true)] at hem
  exact hem

end IntelPt.Decoder
