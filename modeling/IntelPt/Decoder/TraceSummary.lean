import IntelPt.Decoder.Messages
import IntelPt.Decoder.TraceStatistics

/-! What the loop over a succession makes of the packets: it ends at the first one that has no time
and is compared with one, or its tallies are those of all packets it went through. -/
namespace IntelPt.Decoder
open Tally Transducer

/-! What has a time. -/

def TraceEvent.Stamped (time : Option Nat) : TraceEvent → Prop
  | .fill _ => True
  | .unclassified _ => False
  | .ip event => event.address = none ∨ time ≠ none
  | _ => time ≠ none

instance TraceEvent.Stamped.decidable (time : Option Nat) :
    (event : TraceEvent) → Decidable (event.Stamped time)
  | .fill _ => isTrue trivial
  | .unclassified _ => isFalse id
  | .ip event => inferInstanceAs (Decidable (event.address = none ∨ time ≠ none))
  | .branches _ | .exec .. | .tsx .. | .time _ | .frequency .. | .psb | .psbend =>
    inferInstanceAs (Decidable (time ≠ none))

def StampedTrace : Knowledge → List TraceEvent → Prop
  | _, [] => True
  | k, event :: events =>
    ((event.next k).inGroup = false → event.Stamped (event.next k).time) ∧
      StampedTrace (event.next k) events

instance StampedTrace.decidable : ∀ k events, Decidable (StampedTrace k events)
  | _, [] => isTrue trivial
  | k, event :: events =>
    have := StampedTrace.decidable (event.next k) events
    inferInstanceAs (Decidable (_ ∧ _))

theorem stampedTrace_fill {byte : Byte} (k : Knowledge) (n : Nat) {rest : List TraceEvent}
    (h : StampedTrace k rest) : StampedTrace k (List.replicate n (.fill byte) ++ rest) := by
  induction n with
  | zero => exact h
  | succ n ih =>
    rw [List.replicate_succ, List.cons_append]
    exact ⟨fun _ => trivial, ih⟩

theorem unstamped_of_id (id : PacketId) {el : Packet} (h : el.packetId = id)
    (hid : id ∉ ipPacketIds) : el.unstamped = false ↔ el.tsc ≠ none := by
  simp [Packet.unstamped, Packet.suppressed, h, hid, Option.isSome_iff_ne_none]

theorem stamped_tells (time : Option Nat) (event : TraceEvent) :
    (∀ el ∈ event.tells time, el.unstamped = false) ↔ event.Stamped time := by
  have hone (id : PacketId) (hid : id ∉ ipPacketIds) {el : Packet} (hel : el.packetId = id)
      (htsc : el.tsc = time) : (∀ el' ∈ [el], el'.unstamped = false) ↔ time ≠ none := by
    rw [List.forall_mem_singleton, unstamped_of_id id hel hid, htsc]
  cases event with
  | fill byte => exact ⟨fun _ => trivial, fun _ el hel => absurd hel List.not_mem_nil⟩
  | unclassified packet =>
    refine ⟨fun h => ?_, fun h => h.elim⟩
    exact absurd (h _ List.mem_cons_self) (by decide)
  | ip event =>
    have hid : event.kind.packetId ∈ ipPacketIds := by cases event.kind <;> decide
    rw [TraceEvent.tells, List.forall_mem_singleton]
    cases haddress : event.address <;>
      simp [Packet.unstamped, Packet.suppressed, Packet.carried, hid, TraceEvent.Stamped, haddress,
        Option.isSome_iff_ne_none]
  | branches outcomes =>
    have htnt (taken : Bool) : (packetTnt taken time).unstamped = false ↔ time ≠ none := by
      cases taken with
      | false => exact unstamped_of_id .tntNotTaken rfl (by decide)
      | true => exact unstamped_of_id .tntTaken rfl (by decide)
    obtain ⟨taken, rest, hcons⟩ := List.exists_cons_of_ne_nil outcomes.ne_nil
    simp only [TraceEvent.tells, TraceEvent.Stamped, List.forall_mem_map, htnt]
    exact ⟨fun h => h taken (hcons ▸ List.mem_cons_self), fun h _ _ => h⟩
  | exec interruptFlag csd cslLma => exact hone .mode (by decide) rfl rfl
  | tsx txAbort inTx => exact hone .mode (by decide) rfl rfl
  | time value => exact hone .tsc (by decide) rfl rfl
  | frequency ratio reserved => exact hone .cbr (by decide) rfl rfl
  | psb => exact hone .psb (by decide) rfl rfl
  | psbend => exact hone .psbend (by decide) rfl rfl

theorem stamped_meaning (events : List TraceEvent) : ∀ k : Knowledge,
    (∀ el ∈ meaning k events, el.unstamped = false) ↔ StampedTrace k events := by
  induction events with
  | nil => exact fun k => ⟨fun _ => trivial, fun _ el hel => absurd hel List.not_mem_nil⟩
  | cons event events ih =>
    intro k
    rw [meaning, List.forall_mem_append, ih, StampedTrace]
    refine and_congr_left fun _ => ?_
    cases (event.next k).inGroup with
    | true => exact ⟨fun _ h => (by cases h), fun _ el hel => absurd hel List.not_mem_nil⟩
    | false => exact (stamped_tells _ event).trans ⟨fun h _ => h, fun h => h rfl⟩

/-! What the tallies are. -/

section

variable {φ : Type*} [DecidableEq φ] (divide : Nat → Nat → φ)

def Packet.atTime (frequency : Nat) (time : φ) (el : Packet) : Bool :=
  !el.suppressed && el.tsc.any fun tsc => divide tsc frequency == time

def stamps (els : List Packet) : List Nat :=
  (els.filter fun el => el.packetId == .tsc).filterMap (·.tsc)

def stampOr (stamp : Option Nat) : Int := stamp.elim (-1) Int.ofNat

structure Summarises (frequency : Nat) (els : List Packet) (st : TraceStatistics φ) : Prop where
  packets : ∀ name, count st.packets name = els.countP (·.named name)
  byTime : ∀ time name, countAt st.packetsByTime time name =
    els.countP fun el => el.named name && el.atTime divide frequency time
  ips : st.ips = (els.filterMap (·.carried)).map fun addr => divide addr (1024 * 1024)
  firstTsc : st.firstTsc = some (stampOr (stamps els).head?)
  lastTsc : st.lastTsc = some (stampOr (stamps els).getLast?)

theorem summarises_nil (frequency : Nat) :
    Summarises divide frequency [] ({} : TraceStatistics φ) :=
  ⟨fun _ => rfl, fun _ _ => rfl, rfl, rfl, rfl⟩

variable {divide} {frequency : Nat} {els : List Packet} {el : Packet} {st : TraceStatistics φ}

theorem Summarises.counted_packets (h : Summarises divide frequency els st) (name : String) :
    count (st.counted divide el).packets name = (els ++ [el]).countP (·.named name) := by
  simp [TraceStatistics.counted, h.packets name, Packet.named, List.countP_singleton]

theorem Summarises.counted_ips (h : Summarises divide frequency els st) :
    (st.counted divide el).ips =
      ((els ++ [el]).filterMap (·.carried)).map fun addr => divide addr (1024 * 1024) := by
  cases hc : el.carried <;> simp [TraceStatistics.counted, h.ips, hc]

theorem Summarises.counted (h : Summarises divide frequency els st) (hid : el.packetId ≠ .tsc)
    (hsuppressed : el.suppressed = true) :
    Summarises divide frequency (els ++ [el]) (st.counted divide el) := by
  have hstamps : stamps (els ++ [el]) = stamps els := by
    simp [stamps, hid]
  refine ⟨h.counted_packets, fun time name => ?_, h.counted_ips, ?_, ?_⟩
  · simp [TraceStatistics.counted, h.byTime time name, Packet.atTime, hsuppressed]
  · rw [hstamps]
    exact h.firstTsc
  · rw [hstamps]
    exact h.lastTsc

omit [DecidableEq φ] in
theorem noteTsc_stamps {tsc : Nat} (htsc : el.tsc = some tsc)
    (hfirst : st.firstTsc = some (stampOr (stamps els).head?))
    (hlast : st.lastTsc = some (stampOr (stamps els).getLast?)) :
    (noteTsc el st).firstTsc = some (stampOr (stamps (els ++ [el])).head?) ∧
      (noteTsc el st).lastTsc = some (stampOr (stamps (els ++ [el])).getLast?) := by
  by_cases hid : el.packetId = .tsc
  · have hstamps : stamps (els ++ [el]) = stamps els ++ [tsc] := by
      simp [stamps, hid, htsc]
    rw [hstamps]
    refine ⟨?_, by simp [noteTsc, hid, htsc, stampOr]⟩
    cases hels : stamps els with
    | nil => simp [noteTsc, hid, htsc, hfirst, hels, stampOr]
    | cons first rest =>
      -- a stamp is never the -1 that says there was none
      have hset : ¬ (first : Int) = -1 := by omega
      simp [noteTsc, hid, hfirst, hels, stampOr, hset]
  · have hstamps : stamps (els ++ [el]) = stamps els := by
      simp [stamps, hid]
    rw [hstamps, noteTsc, if_neg hid]
    exact ⟨hfirst, hlast⟩

/-- A packet with a time is counted under it. -/
theorem Summarises.timed (h : Summarises divide frequency els st) (hf : frequency ≠ 0) (zero : φ)
    (hsuppressed : el.suppressed = false) {tsc : Nat} (htsc : el.tsc = some tsc) :
    ∃ st', aggregateTime divide zero (some frequency) el (st.counted divide el) = .ok st' ∧
      Summarises divide frequency (els ++ [el]) st' := by
  obtain ⟨n, rfl⟩ := Nat.exists_eq_succ_of_ne_zero hf
  obtain ⟨hpackets, hips, hbyTime⟩ := noteTsc_frame el (st.counted divide el)
  have hfirst : (st.counted divide el).firstTsc = some _ := h.firstTsc
  have hlast : (st.counted divide el).lastTsc = some _ := h.lastTsc
  obtain ⟨hfirst, hlast⟩ := noteTsc_stamps htsc hfirst hlast
  refine ⟨{ noteTsc el (st.counted divide el) with
    packetsByTime := bumpAt (noteTsc el (st.counted divide el)).packetsByTime (divide tsc (n + 1))
      (packetIdToString el.packetId) }, ?_, fun name => ?_, fun time name => ?_, ?_, hfirst, hlast⟩
  · simp only [aggregateTime, relativeTime, htsc, hfirst]
  · exact (congrArg (count · name) hpackets).trans (h.counted_packets name)
  · have hbefore := (congrArg (countAt · time name) hbyTime).trans (h.byTime time name)
    rw [countAt_bumpAt, hbefore, List.countP_append, List.countP_singleton]
    simp [Packet.named, Packet.atTime, hsuppressed, htsc, and_comm]
  · exact hips.trans h.counted_ips

variable (divide)

/-- The loop over a succession ends at the first packet without a time, or counts them all. -/
theorem aggregate_summarises (hf : frequency ≠ 0) (zero : φ) (els' : List Packet) :
    ∀ {els : List Packet} {st : TraceStatistics φ}, Summarises divide frequency els st →
      (∀ el ∈ els', Emittable el) →
      ((∃ el ∈ els', el.unstamped = true) ∧
          aggregate divide zero (some frequency) st els' = .error .typeError) ∨
        ((∀ el ∈ els', el.unstamped = false) ∧ ∃ st',
          aggregate divide zero (some frequency) st els' = .ok st' ∧
            Summarises divide frequency (els ++ els') st') := by
  induction els' with
  | nil =>
    intro els st h _
    refine Or.inr ⟨fun el hel => absurd hel List.not_mem_nil, st, rfl, ?_⟩
    rwa [List.append_nil]
  | cons el els' ih =>
    intro els st h hem
    have he := hem el List.mem_cons_self
    have hcons : aggregate divide zero (some frequency) st (el :: els') =
        (aggregatePacket divide zero (some frequency) st el).bind fun st' =>
          aggregate divide zero (some frequency) st' els' := List.foldlM_cons
    -- what one packet adds, the loop over the rest goes on from
    have hgoes {st' : TraceStatistics φ} (hun : el.unstamped = false)
        (hok : aggregatePacket divide zero (some frequency) st el = .ok st')
        (hone : Summarises divide frequency (els ++ [el]) st') :
        ((∃ el' ∈ el :: els', el'.unstamped = true) ∧
            aggregate divide zero (some frequency) st (el :: els') = .error .typeError) ∨
          ((∀ el' ∈ el :: els', el'.unstamped = false) ∧ ∃ st'',
            aggregate divide zero (some frequency) st (el :: els') = .ok st'' ∧
              Summarises divide frequency (els ++ el :: els') st'') := by
      rw [hcons, hok, List.append_cons]
      obtain ⟨⟨el', hmem, hun'⟩, herr⟩ | ⟨hall, st'', hok', hrest⟩ :=
        ih hone fun e hmem => hem e (List.mem_cons_of_mem el hmem)
      · exact Or.inl ⟨⟨el', List.mem_cons_of_mem el hmem, hun'⟩, herr⟩
      · exact Or.inr ⟨List.forall_mem_cons.mpr ⟨hun, hall⟩, st'', hok', hrest⟩
    have hone := aggregatePacket_eq divide zero he (some frequency) st
    cases hsuppressed : el.suppressed with
    | true =>
      rw [hsuppressed, if_pos rfl] at hone
      have hid : el.packetId ≠ .tsc := by
        intro hid
        simp [Packet.suppressed, hid, ipPacketIds] at hsuppressed
      exact hgoes (by simp [Packet.unstamped, hsuppressed]) hone (h.counted hid hsuppressed)
    | false =>
      rw [hsuppressed, if_neg Bool.false_ne_true] at hone
      cases htsc : el.tsc with
      | none =>
        have hun : el.unstamped = true := by simp [Packet.unstamped, hsuppressed, htsc]
        rw [aggregateTime_unstamped divide zero (some frequency) htsc] at hone
        refine Or.inl ⟨⟨el, List.mem_cons_self, hun⟩, ?_⟩
        rw [hcons, hone]
        rfl
      | some tsc =>
        obtain ⟨st', hok, hsummary⟩ := h.timed hf zero hsuppressed htsc
        exact hgoes (by simp [Packet.unstamped, htsc]) (hone.trans hok) hsummary

end

end IntelPt.Decoder
