import IntelPt.Decoder.TraceDecoder
import Mathlib.Data.List.Induction

/-! The packet reordering of `parser`: what a series of calls for one sequence hands to the
interpreter, and that it is in id order exactly if the calls already are. -/
namespace IntelPt.Decoder
open Transducer
variable {σ ω : Type*}

structure Delivery where
  packetId : Nat
  cpuId : Nat

/-- Calls of `parser` for one sequence that has no entry yet, or the entry a FIRST message
leaves: every id from 1 to `count` is delivered at least once, and no other. -/
structure Deliveries where
  sequenceId : Nat
  packetOrderLists : PacketOrderLists
  new : (packetOrderLists sequenceId).getD {} = {}
  payload : Nat → List Byte
  count : Nat
  calls : List Delivery
  in_range : ∀ call ∈ calls, 1 ≤ call.packetId ∧ call.packetId ≤ count
  complete : ∀ id, 1 ≤ id → id ≤ count → id ∈ calls.map (·.packetId)

def Deliveries.call (d : Deliveries) (processByte : σ → Byte → Result σ ω PyError)
    (st : ParserState σ) (call : Delivery) : Result (ParserState σ) ω PyError :=
  parser processByte (d.payload call.packetId) d.sequenceId call.packetId call.cpuId st

def recorder : Unit → Byte → Result Unit Byte PyError := fun _ byte => { st := (), out := [byte] }

def Deliveries.after (d : Deliveries) (calls : List Delivery) :
    Result (ParserState Unit) Byte PyError :=
  run (d.call recorder) ⟨(), d.packetOrderLists⟩ calls

def Deliveries.handed (d : Deliveries) (calls : List Delivery) : List Byte := (d.after calls).out

def Deliveries.order (d : Deliveries) (calls : List Delivery) : OrderList :=
  ((d.after calls).st.packetOrderLists d.sequenceId).getD {}

def Deliveries.inOrder (d : Deliveries) (k : Nat) : List Byte :=
  (List.range' 1 k).flatMap d.payload

def ArrivedUpTo (calls : List Delivery) (k : Nat) : Prop :=
  (∀ id, 1 ≤ id → id ≤ k → id ∈ calls.map (·.packetId)) ∧ k + 1 ∉ calls.map (·.packetId)

structure Reassembled (d : Deliveries) (calls : List Delivery) (k : Nat) : Prop where
  arrived : ArrivedUpTo calls k
  handed : d.handed calls = d.inOrder k
  lastPacketId : (d.order calls).lastPacketId = k
  cached : ∀ packet ∈ (d.order calls).outOfOrderPackets, k + 1 < packet.packetId

/-- After every prefix of the calls the arrived ids are reassembled, and after all of them
every payload has been handed over once, in id order. -/
def DeliveredInOrder (d : Deliveries) : Prop :=
  (∀ calls, calls <+: d.calls → ∃ k, Reassembled d calls k) ∧
    d.handed d.calls = d.inOrder d.count

theorem run_recorder (bytes : List Byte) :
    run recorder () bytes = { st := (), out := bytes } := by
  induction bytes with
  | nil => rfl
  | cons b bs ih => rw [run_cons rfl, show (recorder () b).st = () from rfl, ih]; rfl

theorem Deliveries.call_recorder (d : Deliveries) (st : ParserState Unit) (call : Delivery) :
    d.call recorder st call =
      { st := ⟨(), Function.update st.packetOrderLists d.sequenceId
          (some (((st.packetOrderLists d.sequenceId).getD {}).after (d.payload call.packetId)
            call.packetId call.cpuId))⟩,
        out := d.payload call.packetId } := by
  have h : run recorder st.interpretor (d.payload call.packetId) =
      { st := (), out := d.payload call.packetId } := run_recorder _
  rw [Deliveries.call, parser_ok (by rw [h]), h]

theorem Deliveries.after_halt (d : Deliveries) (calls : List Delivery) :
    (d.after calls).halt = none := by
  have hgen : ∀ st, (run (d.call recorder) st calls).halt = none := by
    induction calls with
    | nil => intro st; rfl
    | cons c cs ih =>
      intro st
      rw [run_cons (by rw [d.call_recorder])]
      exact ih _
  exact hgen _

theorem Deliveries.handed_append_one (d : Deliveries) (calls : List Delivery) (c : Delivery) :
    d.handed (calls ++ [c]) = d.handed calls ++ d.payload c.packetId := by
  rw [Deliveries.handed, Deliveries.after, run_append (d.after_halt calls), run_singleton,
    d.call_recorder]
  rfl

theorem Deliveries.run_call (d : Deliveries) (processByte : σ → Byte → Result σ ω PyError)
    (interpretor : σ) (calls : List Delivery) :
    let r := run (d.call processByte) ⟨interpretor, d.packetOrderLists⟩ calls
    let fed := run processByte interpretor (d.handed calls)
    r.st.interpretor = fed.st ∧ r.out = fed.out ∧ r.halt = fed.halt := by
  induction calls using List.reverseRecOn with
  | nil => exact ⟨rfl, rfl, rfl⟩
  | append_singleton calls c ih =>
    obtain ⟨hst, hout, hhalt⟩ := ih
    rw [d.handed_append_one]
    cases h : (run processByte interpretor (d.handed calls)).halt with
    | some e =>
      rw [h] at hhalt
      rw [run_append_halt h, run_append_halt hhalt]
      exact ⟨hst, hout, hhalt.trans h.symm⟩
    | none =>
      rw [h] at hhalt
      obtain ⟨h1, h2, h3⟩ := parser_interpretor processByte (d.payload c.packetId) d.sequenceId
        c.packetId c.cpuId (run (d.call processByte) ⟨interpretor, d.packetOrderLists⟩ calls).st
      rw [hst] at h1 h2 h3
      rw [run_append h, run_append hhalt, run_singleton, hout]
      exact ⟨h1, congrArg _ h2, h3⟩

theorem Deliveries.order_append_one (d : Deliveries) (calls : List Delivery) (c : Delivery) :
    d.order (calls ++ [c]) =
      (d.order calls).after (d.payload c.packetId) c.packetId c.cpuId := by
  rw [Deliveries.order, Deliveries.after, run_append (d.after_halt calls), run_singleton,
    d.call_recorder]
  simp only [Function.update_self, Option.getD_some]
  rfl

theorem Deliveries.inOrder_succ (d : Deliveries) (k : Nat) :
    d.inOrder (k + 1) = d.inOrder k ++ d.payload (k + 1) := by
  simp [Deliveries.inOrder, List.range'_concat, Nat.add_comm]

theorem mem_sortByPacketId {packets : List CachedPacket} {packet : CachedPacket} :
    packet ∈ sortByPacketId packets ↔ packet ∈ packets :=
  (List.perm_insertionSort _ packets).mem_iff

theorem OrderList.mem_after {order : OrderList} {packetId : Nat}
    (h : packetId ≠ order.lastPacketId + 1) (bytes : List Byte) (cpuId : Nat) :
    ⟨bytes, packetId, cpuId⟩ ∈ (order.after bytes packetId cpuId).outOfOrderPackets := by
  simp only [OrderList.after, if_pos h]
  exact mem_sortByPacketId.mpr (by simp)

theorem OrderList.after_next {order : OrderList} {packetId : Nat}
    (h : packetId = order.lastPacketId + 1) (bytes : List Byte) (cpuId : Nat) :
    order.after bytes packetId cpuId = ⟨packetId, order.outOfOrderPackets⟩ := by
  simp [OrderList.after, h]

theorem arrivedUpTo_of_range {calls : List Delivery} {m : Nat}
    (h : calls.map (·.packetId) = List.range' 1 m) : ArrivedUpTo calls m := by
  constructor
  · intro id h1 h2
    rw [h, List.mem_range'_1]
    omega
  · rw [h, List.mem_range'_1]
    omega

/-- Calls in id order are reassembled: nothing is ever cached. -/
theorem reassembled_of_range (d : Deliveries) {calls : List Delivery} :
    ∀ m, calls.map (·.packetId) = List.range' 1 m →
      d.handed calls = d.inOrder m ∧ d.order calls = ⟨m, []⟩ := by
  induction calls using List.reverseRecOn with
  | nil =>
    intro m h
    obtain rfl : 0 = m := by simpa using congrArg List.length h
    exact ⟨rfl, d.new⟩
  | append_singleton calls c ih =>
    intro m h
    obtain ⟨m, rfl⟩ : ∃ n, m = n + 1 := by
      have := congrArg List.length h
      simp only [List.length_map, List.length_append, List.length_range', List.length_cons,
        List.length_nil] at this
      exact ⟨_, this.symm⟩
    rw [List.map_append, List.range'_concat] at h
    obtain ⟨hcalls, hc⟩ := List.append_inj' h rfl
    have hid : c.packetId = m + 1 := by
      have : c.packetId = 1 + 1 * m := by simpa using hc
      omega
    obtain ⟨hh, ho⟩ := ih m hcalls
    rw [d.handed_append_one, d.order_append_one, hh, ho, hid, d.inOrder_succ]
    exact ⟨rfl, OrderList.after_next rfl _ _⟩

/-- The first call out of order already breaks the reassembly. -/
theorem next_of_reassembled (d : Deliveries) {calls : List Delivery} {c : Delivery} {m : Nat}
    (hids : calls.map (·.packetId) = List.range' 1 m) (hpos : 1 ≤ c.packetId)
    (h : ∃ k, Reassembled d (calls ++ [c]) k) : c.packetId = m + 1 := by
  obtain ⟨k, hk⟩ := h
  have hlast := hk.lastPacketId
  rw [d.order_append_one] at hlast
  change c.packetId = k at hlast
  subst hlast
  have hmem : ∀ id, id ∈ (calls ++ [c]).map (·.packetId) ↔
      (1 ≤ id ∧ id ≤ m) ∨ id = c.packetId := by
    intro id
    rw [List.map_append, hids, List.mem_append, List.mem_range'_1]
    simp only [List.map_cons, List.map_nil, List.mem_singleton]
    omega
  by_contra hne
  obtain hlt | hgt := Nat.lt_or_gt_of_ne hne
  · -- a repetition: it is cached although it was processed
    have hnext : c.packetId ≠ (d.order calls).lastPacketId + 1 := by
      rw [(reassembled_of_range d m hids).2]
      exact hne
    have hc := hk.cached
    rw [d.order_append_one] at hc
    have := hc _ (OrderList.mem_after hnext _ _)
    change c.packetId + 1 < c.packetId at this
    omega
  · -- a packet from ahead: the ids before it have not arrived
    have := (hmem (m + 1)).mp (hk.arrived.1 (m + 1) (by omega) (by omega))
    omega

/-- If every prefix is reassembled, the ids come in order: induction on the prefix. -/
theorem range_of_reassembled (d : Deliveries)
    (h : ∀ calls, calls <+: d.calls → ∃ k, Reassembled d calls k) :
    ∀ calls, calls <+: d.calls → calls.map (·.packetId) = List.range' 1 calls.length := by
  intro calls
  induction calls using List.reverseRecOn with
  | nil => intro _; rfl
  | append_singleton calls c ih =>
    intro hp
    have hids := ih ((List.prefix_append calls [c]).trans hp)
    have hpos := (d.in_range c (hp.subset (by simp))).1
    have hc := next_of_reassembled d hids hpos (h _ hp)
    rw [List.map_append, hids, List.length_append, List.length_singleton,
      List.range'_concat, List.map_singleton, hc]
    simp [Nat.add_comm]

theorem range_of_prefix {calls all : List Delivery} {m : Nat} (hp : calls <+: all)
    (hids : all.map (·.packetId) = List.range' 1 m) :
    calls.map (·.packetId) = List.range' 1 calls.length := by
  obtain ⟨rest, hrest⟩ := hp
  rw [← hrest, List.map_append] at hids
  have hlen := congrArg List.length hids
  rw [List.length_append, List.length_map, List.length_range'] at hlen
  rw [← hlen, ← List.range'_append_1] at hids
  exact (List.append_inj hids (by simp)).1

/-- A complete series whose ids come in order has one call for each packet. -/
theorem Deliveries.length_of_range (d : Deliveries)
    (hids : d.calls.map (·.packetId) = List.range' 1 d.calls.length) :
    d.calls.length = d.count := by
  apply Nat.le_antisymm
  · by_contra hlt
    have hmem : d.calls.length ∈ d.calls.map (·.packetId) := by
      rw [hids, List.mem_range'_1]
      omega
    obtain ⟨call, hcall, hid⟩ := List.mem_map.mp hmem
    have := (d.in_range call hcall).2
    omega
  · by_contra hlt
    have hmem := d.complete d.count (by omega) (Nat.le_refl _)
    rw [hids, List.mem_range'_1] at hmem
    omega

theorem deliveredInOrder_iff (d : Deliveries) :
    DeliveredInOrder d ↔ d.calls.map (·.packetId) = List.range' 1 d.count := by
  constructor
  · intro hinOrder
    have hids := range_of_reassembled d hinOrder.1 d.calls List.prefix_rfl
    rw [hids, d.length_of_range hids]
  · intro hids
    refine ⟨fun calls hp => ⟨calls.length, ?_⟩, (reassembled_of_range d _ hids).1⟩
    have hcalls := range_of_prefix hp hids
    obtain ⟨hh, ho⟩ := reassembled_of_range d _ hcalls
    exact ⟨arrivedUpTo_of_range hcalls, hh, by rw [ho], by rw [ho]; simp⟩

def swappedDeliveries : Deliveries where
  sequenceId := 1
  packetOrderLists := fun _ => none
  new := rfl
  payload := fun id => [BitVec.ofNat 8 id]
  count := 2
  calls := [⟨2, 0⟩, ⟨1, 0⟩]
  in_range := by decide
  complete := by intro id h1 h2; simp; omega

/-- The second packet is handed over first. -/
theorem not_deliveredInOrder_swapped : ¬ ∀ d : Deliveries, DeliveredInOrder d := by
  intro h
  have hbytes := (h swappedDeliveries).2
  have hne : swappedDeliveries.handed swappedDeliveries.calls ≠ swappedDeliveries.inOrder 2 := by
    decide +kernel
  exact hne hbytes

end IntelPt.Decoder
