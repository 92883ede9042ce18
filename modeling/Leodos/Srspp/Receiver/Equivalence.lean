/-
The Packed backend against the Fast one.

Both backends match the reference storage as long as no store damages a buffered
packet.  A Fast slot is as wide as the largest payload, so its stores cannot touch
another slot.  The Packed slab is emptied whenever a delivery loop ends, buffered
packets or not, and `SlabClear` is what later stores must then keep clear of.
-/
import Mathlib.Algebra.GroupWithZero.Nat
import Leodos.Srspp.Receiver.Ideal

namespace Leodos
namespace Srspp

open Memory Spp

variable {REASM WIN : Nat}

/-! ## Stores that keep what is buffered -/

theorem storeKeeps_fast {MTU : Nat} {s : FastSlots} {occ : Bitset} {idx : Nat}
    {flags : SequenceFlag} {payload : Bytes} (hlen : s.slots.data.length = WIN * MTU)
    (hidx : idx < WIN) (hmtu : payload.length ≤ MTU) (hu16 : payload.length < 65536) :
    StoreKeeps (FastReceiver.slotsOf WIN MTU) WIN occ s idx flags payload := by
  have hrow : ∀ i j, i < j → i * MTU + MTU ≤ j * MTU := by
    intro i j hij
    rw [← Nat.succ_mul]
    exact Nat.mul_le_mul_right _ hij
  have hfit : idx * MTU + payload.length ≤ s.slots.data.length := by
    have := hrow idx WIN hidx
    omega
  have hmod : payload.length % 65536 = payload.length := Nat.mod_eq_of_lt hu16
  refine ⟨_, by simp [fastSlots, SlotMap.write, hfit]; rfl, ?_, ?_⟩
  · simp [fastSlots, SlotMap.read, hmod, hmtu, hfit, slice_write_self hfit]
  · intro i _ hne _
    simp only [fastSlots, SlotMap.read, Function.update_of_ne hne, write_length]
    by_cases hroom : s.slots.lens i ≤ MTU ∧ i * MTU + s.slots.lens i ≤ s.slots.data.length
    · have hsep : i * MTU + s.slots.lens i ≤ idx * MTU ∨
          idx * MTU + payload.length ≤ i * MTU := by
        rcases Nat.lt_or_gt_of_ne hne with hlt | hgt
        · have := hrow i idx hlt
          omega
        · have := hrow idx i hgt
          omega
      rw [if_pos hroom, if_pos hroom, slice_write_of_disjoint hsep]
    · rw [if_neg hroom, if_neg hroom]

theorem storeKeeps_packed {BUF : Nat} {s : PackedSlots} {occ : Bitset} {idx : Nat}
    {flags : SequenceFlag} {payload : Bytes}
    (hfit : s.slab.len + payload.length ≤ s.slab.data.length) (hreasm : payload.length ≤ REASM)
    (hclear : payload = [] ∨ ∀ i < WIN, occ.isSet i = true →
      (s.slotMeta i).offset + (s.slotMeta i).len ≤ s.slab.len ∨
        s.slab.len + payload.length ≤ (s.slotMeta i).offset) :
    StoreKeeps (PackedReceiver.slotsOf BUF REASM) WIN occ s idx flags payload := by
  refine ⟨_, by simp [packedSlots, BumpSlab.alloc, Nat.not_lt.mpr hfit]; rfl, ?_, ?_⟩
  · simp [packedSlots, BumpSlab.get, hfit, slice_write_self hfit, Nat.min_eq_left hreasm]
  · intro i hi hne hset
    have hcells : slice (Memory.write s.slab.data s.slab.len payload) (s.slotMeta i).offset
        (s.slotMeta i).len = slice s.slab.data (s.slotMeta i).offset (s.slotMeta i).len := by
      rcases hclear with hnil | hclear
      · rw [hnil, write_nil]
      · exact slice_write_of_disjoint (hclear i hi hset)
    simp only [packedSlots, BumpSlab.get, Function.update_of_ne hne, write_length, hcells]

theorem keepsStored_fast {MTU : Nat} {f : FastReceiver REASM} {seq : SequenceCount}
    {flags : SequenceFlag} {payload : Bytes} (hW : 0 < WIN)
    (hlen : f.slots.slots.data.length = WIN * MTU) (hmtu : payload.length ≤ MTU)
    (hu16 : f.Buffers WIN seq → payload.length < 65536) :
    KeepsStored (FastReceiver.slotsOf WIN MTU) WIN f (.handleData seq flags payload) := by
  intro seq' flags' payload' hc hb
  injection hc with h₁ h₂ h₃
  subst h₁ h₂ h₃
  exact storeKeeps_fast hlen (Nat.mod_lt _ hW) hmtu (hu16 hb)

/-! ## Storage sizes along a run -/

def Call.bytes : Call → Nat
  | .handleData _ _ payload => payload.length
  | _ => 0

theorem fast_call_length {MTU : Nat} {f f' : FastReceiver REASM} {c : Call} {obs : Observation}
    (hlen : f.slots.slots.data.length = WIN * MTU)
    (h : f.call (FastReceiver.slotsOf WIN MTU) WIN c = some (f', obs)) :
    f'.slots.slots.data.length = WIN * MTU := by
  rcases call_slots h with hs | hs | ⟨seq, flags, payload, -, hst⟩
  · rw [hs, hlen]
  · rw [hs]
    exact hlen
  · simp only [fastSlots, SlotMap.write] at hst
    split at hst <;> simp at hst
    rw [← hst]
    simpa using hlen

theorem packed_call_length {BUF : Nat} {p p' : PackedReceiver REASM} {c : Call}
    {obs : Observation} (h : p.call (PackedReceiver.slotsOf BUF REASM) WIN c = some (p', obs)) :
    p'.slots.slab.data.length = p.slots.slab.data.length ∧
      p'.slots.slab.len ≤ p.slots.slab.len + c.bytes := by
  rcases call_slots h with hs | hs | ⟨seq, flags, payload, rfl, hst⟩
  · rw [hs]
    omega
  · rw [hs]
    exact ⟨rfl, Nat.zero_le _⟩
  · simp only [packedSlots, BumpSlab.alloc] at hst
    split at hst
    · simp at hst
    · rename_i halloc
      split at halloc
      · cases halloc
      · simp only [Option.some.injEq, Prod.mk.injEq] at halloc hst
        obtain ⟨-, rfl⟩ := halloc
        rw [← hst.1]
        exact ⟨write_length _ _ _, Nat.le_refl _⟩

/-! ## Equivalence -/

/-- A packet that the call buffers fits the delivery scratch and the `u16` length,
and its cells on the slab are not those of a packet still buffered. -/
def PackedReceiver.SlabClear (WIN : Nat) (p : PackedReceiver REASM) : Call → Prop
  | .handleData seq _ payload =>
      p.Buffers WIN seq →
        payload.length ≤ REASM ∧ payload.length < 65536 ∧
          (payload = [] ∨ ∀ i < WIN, p.occupied.isSet i = true →
            (p.slots.slotMeta i).offset + (p.slots.slotMeta i).len ≤ p.slots.slab.len ∨
              p.slots.slab.len + payload.length ≤ (p.slots.slotMeta i).offset)
  | _ => True

theorem keepsStored_packed {BUF : Nat} {p : PackedReceiver REASM} {c : Call}
    (hfit : p.slots.slab.len + c.bytes ≤ p.slots.slab.data.length)
    (hclear : PackedReceiver.SlabClear WIN p c) :
    KeepsStored (PackedReceiver.slotsOf BUF REASM) WIN p c := by
  rintro seq flags payload rfl hb
  obtain ⟨hreasm, -, hsep⟩ := hclear hb
  exact storeKeeps_packed hfit hreasm hsep

theorem trace_eq_ideal {MTU BUF : Nat} (hW : 0 < WIN) (hW32 : WIN ≤ 32) (cs : List Call)
    {f : FastReceiver REASM} {p : PackedReceiver REASM} {q : IdealReceiver REASM}
    (hf : Matches (FastReceiver.slotsOf WIN MTU) WIN f q)
    (hp : Matches (PackedReceiver.slotsOf BUF REASM) WIN p q)
    (hflen : f.slots.slots.data.length = WIN * MTU)
    (hmtu : ∀ c ∈ cs, c.bytes ≤ MTU)
    (hplen : p.slots.slab.len + (cs.map Call.bytes).sum ≤ p.slots.slab.data.length)
    (hclear : p.Meets (PackedReceiver.slotsOf BUF REASM) WIN (PackedReceiver.SlabClear WIN) cs) :
    f.trace (FastReceiver.slotsOf WIN MTU) WIN cs = q.trace idealSlots WIN cs ∧
      p.trace (PackedReceiver.slotsOf BUF REASM) WIN cs = q.trace idealSlots WIN cs := by
  induction cs generalizing f p q with
  | nil => exact ⟨rfl, rfl⟩
  | cons c cs ih =>
    rw [List.map_cons, List.sum_cons] at hplen
    have hkp : KeepsStored (PackedReceiver.slotsOf BUF REASM) WIN p c :=
      keepsStored_packed (by omega) hclear.1
    have hkf : KeepsStored (FastReceiver.slotsOf WIN MTU) WIN f c := by
      cases c with
      | handleData seq flags payload =>
        refine keepsStored_fast hW hflen (hmtu _ (List.mem_cons_self ..)) fun hb => ?_
        exact (hclear.1 ((hp.buffers_iff seq).2 ((hf.buffers_iff seq).1 hb))).2.1
      | skipGap | takeMessage | consumeMessage => rintro _ _ _ ⟨⟩
    obtain ⟨f', q', obs, hfc, hqc, hf'⟩ := matches_call hW hW32 hf hkf
    obtain ⟨p', q'', obs', hpc, hqc', hp'⟩ := matches_call hW hW32 hp hkp
    rw [hqc, Option.some.injEq, Prod.mk.injEq] at hqc'
    obtain ⟨rfl, rfl⟩ := hqc'
    obtain ⟨hdata, hslab⟩ := packed_call_length hpc
    obtain ⟨ihf, ihp⟩ := ih hf' hp' (fast_call_length hflen hfc)
      (fun c hc => hmtu c (List.mem_cons_of_mem _ hc))
      (by rw [hdata]; omega) (hclear.2 p' obs hpc)
    simp only [Backend.trace, hfc, hpc, hqc, hf'.base, hp'.base, ihf, ihp, and_self]

/-- Driven by the same calls the two backends return the same results, those of
the reference storage, as long as no store on the slab reaches a buffered packet. -/
theorem packed_trace_eq_fast {MTU BUF : Nat} (hW : 0 < WIN) (hW16 : WIN ≤ 16) {cs : List Call}
    (hmtu : ∀ c ∈ cs, c.bytes ≤ MTU)
    (hbuf : (cs.map Call.bytes).sum ≤ BUF)
    (hclear : (Backend.new (PackedReceiver.slotsOf BUF REASM) REASM).Meets
      (PackedReceiver.slotsOf BUF REASM) WIN (PackedReceiver.SlabClear WIN) cs) :
    let packed := (Backend.new (PackedReceiver.slotsOf BUF REASM) REASM).trace
      (PackedReceiver.slotsOf BUF REASM) WIN cs
    packed = (Backend.new (FastReceiver.slotsOf WIN MTU) REASM).trace
        (FastReceiver.slotsOf WIN MTU) WIN cs ∧
      packed = (Backend.new idealSlots REASM).trace idealSlots WIN cs := by
  obtain ⟨hf, hp⟩ := trace_eq_ideal hW (by omega) cs
    (matches_new (FastReceiver.slotsOf WIN MTU) WIN REASM)
    (matches_new (PackedReceiver.slotsOf BUF REASM) WIN REASM)
    (by simp [Backend.new, fastSlots, SlotMap.new]) hmtu
    (by simpa [Backend.new, packedSlots, BumpSlab.new] using hbuf) hclear
  exact ⟨hp.trans hf.symm, hp⟩

def handedOut (trace : List (Option (Observation × ReceiverBase))) : List Bytes :=
  trace.filterMap fun
    | some (.message (some m), _) => some m
    | _ => none

/-- Packet 3 is buffered while the delivery of packets 0 and 1 empties the slab, and
packet 5 is then stored over it. -/
def overwriteCalls : List Call :=
  [.handleData 1 .unsegmented [1, 1], .handleData 3 .unsegmented [3, 3],
    .handleData 0 .unsegmented [0, 0], .takeMessage, .handleData 5 .unsegmented [5, 5, 5],
    .handleData 2 .unsegmented [2, 2], .takeMessage]

theorem packed_trace_ne_fast :
    (∀ c ∈ overwriteCalls, c.bytes ≤ 4) ∧
      (overwriteCalls.map Call.bytes).sum ≤ 32 ∧
      (Backend.new (PackedReceiver.slotsOf 32 8) 8).trace (PackedReceiver.slotsOf 32 8) 4
          overwriteCalls ≠
        (Backend.new (FastReceiver.slotsOf 4 4) 8).trace (FastReceiver.slotsOf 4 4) 4
          overwriteCalls := by
  refine ⟨by decide, by decide, fun h => ?_⟩
  have hm := congrArg handedOut h
  revert hm
  decide

/-- Nothing is buffered when the slab is reused, so the bytes agree. -/
theorem packed_trace_eq_fast_in_order :
    let cs : List Call := [.handleData 1 .unsegmented [1, 1], .handleData 0 .unsegmented [0, 0],
      .takeMessage]
    (Backend.new (PackedReceiver.slotsOf 32 8) 8).trace (PackedReceiver.slotsOf 32 8) 4 cs =
      (Backend.new (FastReceiver.slotsOf 4 4) 8).trace (FastReceiver.slotsOf 4 4) 4 cs := by
  refine (packed_trace_eq_fast (by decide) (by decide) (by decide) (by decide) ?_).1
  refine ⟨fun _ => ⟨by decide, by decide, Or.inr fun i _ hset => ?_⟩, fun r₁ _ h₁ => ?_⟩
  · simp [Backend.new] at hset
  · have hd : r₁.base.distance 0 = 0 := by
      have hmap := congrArg (Option.map fun x => x.1.base.distance 0) h₁
      exact (Option.some.inj hmap).symm.trans (by decide)
    exact ⟨fun hb => absurd hd hb.1, fun _ _ _ => ⟨trivial, fun _ _ _ => trivial⟩⟩
end Srspp
end Leodos
