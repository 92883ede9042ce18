/-
Frame numbers and the two windows of COP-1.

Frame `j` of a session carries the eight-bit number `numbered first j`.  Numbers are
compared only inside a window shorter than half the number space, where they order as
the frames do.  `Queues` says which frames the sender keeps: those from `base` on.
-/
import Leodos.Cop1.SentQueue
import Leodos.Cop1.Farm

namespace Leodos
namespace Cop1

open Spp Memory

/-! ## Frame numbers -/

/-- The number that frame `j` of a session carries. -/
def numbered (first : UInt8) (j : Nat) : UInt8 := first + UInt8.ofNat j

variable {first : UInt8} {i j : Nat}

theorem numbered_zero (first : UInt8) : numbered first 0 = first :=
  UInt8.add_zero first

theorem toNat_numbered (first : UInt8) (j : Nat) :
    (numbered first j).toNat = (first.toNat + j) % 256 := by
  rw [numbered, UInt8.toNat_add, UInt8.toNat_ofNat']
  omega

theorem numbered_succ (first : UInt8) (j : Nat) :
    numbered first (j + 1) = numbered first j + 1 := by
  apply UInt8.toNat_inj.mp
  rw [UInt8.toNat_add, toNat_numbered, toNat_numbered]
  show _ = ((first.toNat + j) % 256 + 1) % 256
  omega

theorem numbered_sub_of_le (first : UInt8) (h : j ≤ i) (hw : i - j < 256) :
    (numbered first i - numbered first j).toNat = i - j := by
  rw [UInt8.toNat_sub, toNat_numbered, toNat_numbered]
  omega

theorem numbered_sub_of_lt (first : UInt8) (h : i < j) (hw : j - i < 256) :
    (numbered first i - numbered first j).toNat = 256 - (j - i) := by
  rw [UInt8.toNat_sub, toNat_numbered, toNat_numbered]
  omega

theorem numbered_inj (h : numbered first i = numbered first j) (hw : i - j < 256)
    (hw' : j - i < 256) : i = j := by
  have h' := congrArg UInt8.toNat h
  rw [toNat_numbered, toNat_numbered] at h'
  omega

/-! ## The receiver's window -/

namespace FarmMachine

variable {m : FarmMachine}

/-- The frame the receiver waits for is `r`, and its windows have the given width. -/
structure Expects (m : FarmMachine) (first : UInt8) (r width : Nat) : Prop where
  vr : m.vr = numbered first r
  unlocked : m.state ≠ .lockout
  positive : width ≤ m.pw.toNat ∧ m.pw.toNat ≤ 127
  negative : width ≤ m.nw.toNat ∧ m.nw.toNat ≤ 127

variable {r width : Nat}

theorem Expects.classifySeq (h : m.Expects first r width) (hahead : j < r + width)
    (hbehind : r ≤ j + width) :
    (m.classifySeq (numbered first j) = .expected ∧ j = r) ∨
      m.classifySeq (numbered first j) = .positiveWindow ∨
      m.classifySeq (numbered first j) = .negativeWindow := by
  obtain ⟨hvr, -, hpos, hneg⟩ := h
  unfold FarmMachine.classifySeq
  rw [hvr]
  rcases Nat.lt_trichotomy j r with hlt | rfl | hgt
  · have hne : numbered first j ≠ numbered first r := by
      intro heq
      have := numbered_inj heq (by omega) (by omega)
      omega
    have hdist := numbered_sub_of_le first (Nat.le_of_lt hlt) (by omega)
    have hback := numbered_sub_of_lt first hlt (by omega)
    have hfar : ¬ (0 < numbered first j - numbered first r ∧
        numbered first j - numbered first r < m.pw) := by
      rintro ⟨-, hlt'⟩
      rw [UInt8.lt_iff_toNat_lt, hback] at hlt'
      omega
    have hnear : 0 < numbered first r - numbered first j ∧
        numbered first r - numbered first j ≤ m.nw := by
      rw [UInt8.lt_iff_toNat_lt, UInt8.le_iff_toNat_le, hdist]
      show 0 < r - j ∧ _
      omega
    rw [if_neg hne, if_neg hfar, if_pos hnear]
    exact .inr (.inr rfl)
  · rw [if_pos rfl]
    exact .inl ⟨rfl, rfl⟩
  · have hne : numbered first j ≠ numbered first r := by
      intro heq
      have := numbered_inj heq (by omega) (by omega)
      omega
    have hdist := numbered_sub_of_le first (Nat.le_of_lt hgt) (by omega)
    have hnear : 0 < numbered first j - numbered first r ∧
        numbered first j - numbered first r < m.pw := by
      rw [UInt8.lt_iff_toNat_lt, UInt8.lt_iff_toNat_lt, hdist]
      show 0 < j - r ∧ _
      omega
    rw [if_neg hne, if_pos hnear]
    exact .inr (.inl rfl)

/-- A frame near the expected one is accepted exactly when it is that frame, or it
changes nothing that is expected. -/
theorem Expects.handleAdFrame (h : m.Expects first r width) (available : Bool) (fdu : Bytes)
    (hahead : j < r + width) (hbehind : r ≤ j + width) :
    (j = r ∧ (m.handleAdFrame (numbered first j) available fdu).2 = [.accept fdu] ∧
      (m.handleAdFrame (numbered first j) available fdu).1.Expects first (r + 1) width) ∨
    ((m.handleAdFrame (numbered first j) available fdu).2 = [.discard] ∧
      (m.handleAdFrame (numbered first j) available fdu).1.Expects first r width) := by
  have hzone := h.classifySeq hahead hbehind
  obtain ⟨hvr, hlock, hpos, hneg⟩ := h
  unfold FarmMachine.handleAdFrame
  cases hst : m.state with
  | lockout => exact absurd hst hlock
  | wait =>
    refine .inr ?_
    rcases hzone with ⟨hz, -⟩ | hz | hz <;> rw [hz] <;>
      exact ⟨rfl, hvr, hlock, hpos, hneg⟩
  | opened =>
    have hopened : FarmState.opened ≠ .lockout := nofun
    have hwait : FarmState.wait ≠ .lockout := nofun
    rcases hzone with ⟨hz, hj⟩ | hz | hz
    · rw [hz]
      cases available with
      | true =>
        refine .inl ⟨hj, rfl, ?_, hopened, hpos, hneg⟩
        show m.vr + 1 = _
        rw [hvr, numbered_succ]
      | false => exact .inr ⟨rfl, hvr, hwait, hpos, hneg⟩
    · rw [hz]
      exact .inr ⟨rfl, hvr, hopened, hpos, hneg⟩
    · rw [hz]
      exact .inr ⟨rfl, hvr, hlock, hpos, hneg⟩

theorem Expects.handleBufferRelease (h : m.Expects first r width) :
    m.handleBufferRelease.1.Expects first r width := by
  obtain ⟨hvr, hlock, hpos, hneg⟩ := h
  unfold FarmMachine.handleBufferRelease
  cases hst : m.state with
  | lockout => exact absurd hst hlock
  | wait => exact ⟨hvr, nofun, hpos, hneg⟩
  | opened => exact ⟨hvr, hlock, hpos, hneg⟩

end FarmMachine

/-! ## The sender's window -/

namespace FopMachine

variable {WIN BUF base n : Nat} {taken : List Bytes} {m m' : FopMachine WIN BUF}

def frames (m : FopMachine WIN BUF) : List (Bool × UInt8 × Nat × Nat) := m.sent.map FduSlot.frame

/-- The frame holds the data of frame `j`. -/
def Carries (m : FopMachine WIN BUF) (first : UInt8) (taken : List Bytes) (j : Nat)
    (f : Bool × UInt8 × Nat × Nat) : Prop :=
  f.2.1 = numbered first j ∧ f.2.2.1 + f.2.2.2 ≤ m.writePos ∧
    taken[j]? = some (slice m.data f.2.2.1 f.2.2.2)

/-- The machine has taken the FDUs `taken` and keeps those from `base` on. -/
structure Queues (m : FopMachine WIN BUF) (first : UInt8) (base : Nat) (taken : List Bytes) :
    Prop where
  vs : m.vs = numbered first taken.length
  room : m.writePos ≤ BUF
  window : taken.length ≤ base + WIN
  filed : ∀ f ∈ m.frames, ∃ j, base ≤ j ∧ j < taken.length ∧ m.Carries first taken j f
  complete : ∀ j, base ≤ j → j < taken.length → ∃ f ∈ m.frames, f.2.1 = numbered first j

theorem mem_frames {f : Bool × UInt8 × Nat × Nat} :
    f ∈ m.frames ↔ ∃ s ∈ m.sentQueue, s.occupied = true ∧ s.frame = f := by
  unfold frames
  rw [List.mem_map]
  constructor
  · rintro ⟨s, hs, rfl⟩
    exact ⟨s, (mem_sent.mp hs).1, (mem_sent.mp hs).2, rfl⟩
  · rintro ⟨s, hs, ho, rfl⟩
    exact ⟨s, mem_sent.mpr ⟨hs, ho⟩, rfl⟩

theorem Queues.congr (h : m.Queues first base taken) (hf : m'.frames = m.frames)
    (hd : m'.data = m.data) (hv : m'.vs = m.vs) (hp : m'.writePos = m.writePos) :
    m'.Queues first base taken := by
  refine ⟨hv.trans h.vs, hp ▸ h.room, h.window, ?_, ?_⟩
  · intro f hmem
    rw [hf] at hmem
    obtain ⟨j, hlo, hhi, hcarries⟩ := h.filed f hmem
    refine ⟨j, hlo, hhi, ?_⟩
    unfold Carries
    rw [hd, hp]
    exact hcarries
  · rw [hf]
    exact h.complete

theorem Queues.goneBack (h : m.Queues first base taken) : m.goneBack.Queues first base taken :=
  h.congr frames_initiateRetransmission rfl rfl rfl

theorem Queues.setState (h : m.Queues first base taken) (state : FopState) :
    (m.setState state).Queues first base taken :=
  h.congr rfl rfl rfl rfl

theorem Queues.getFdu (h : m.Queues first base taken) (hwin : WIN ≤ 127) (hlo : base ≤ j)
    (hhi : j < taken.length) : m.getFdu (numbered first j) = taken[j]? := by
  obtain ⟨f, hf, hseq⟩ := h.complete j hlo hhi
  obtain ⟨s₀, hs₀, ho₀, rfl⟩ := mem_frames.mp hf
  have hfind : (m.sentQueue.find? fun s => s.occupied ∧ s.seq = numbered first j).isSome := by
    rw [List.find?_isSome]
    exact ⟨s₀, hs₀, by simp [ho₀, show s₀.seq = _ from hseq]⟩
  obtain ⟨s, hs⟩ := Option.isSome_iff_exists.mp hfind
  have hprop := List.find?_some hs
  have hmem := List.mem_of_find?_eq_some hs
  simp only [decide_eq_true_eq] at hprop
  obtain ⟨k, hklo, hkhi, hkseq, -, hkdata⟩ :=
    h.filed s.frame (mem_frames.mpr ⟨s, hmem, hprop.1, rfl⟩)
  have hwindow := h.window
  have hkj : k = j :=
    numbered_inj (hkseq.symm.trans hprop.2) (by omega) (by omega)
  subst hkj
  rw [FopMachine.getFdu, hs, hkdata]
  rfl

theorem acked_iff {s : FduSlot} (ho : s.occupied = true) (hseq : s.seq = numbered first j)
    (hbehind : n ≤ j + 127) (hahead : j ≤ n + 127) :
    s.Acked (numbered first n) ↔ j < n := by
  unfold FduSlot.Acked
  rw [hseq, UInt8.lt_iff_toNat_lt, UInt8.lt_iff_toNat_lt]
  show _ ∧ 0 < _ ∧ _ < 128 ↔ _
  rcases Nat.lt_or_ge n j with hlt | hge
  · rw [numbered_sub_of_lt first hlt (by omega)]
    omega
  · rw [numbered_sub_of_le first hge (by omega)]
    simp only [ho, true_and]
    omega

theorem Queues.acknowledged (h : m.Queues first base taken) (hwin : WIN ≤ 127) (hlo : base ≤ n)
    (hhi : n ≤ taken.length) : (m.acknowledged (numbered first n)).Queues first n taken := by
  have hwindow := h.window
  have hmem : ∀ s, s ∈ (m.acknowledged (numbered first n)).sent ↔
      s ∈ m.sent ∧ ¬ s.Acked (numbered first n) := by
    intro s
    rw [sent_acknowledged, List.mem_filter]
    simp
  refine ⟨h.vs, h.room, by omega, ?_, ?_⟩
  · intro f hf
    obtain ⟨s, hs, rfl⟩ := List.mem_map.mp hf
    obtain ⟨hsent, hacked⟩ := (hmem s).mp hs
    obtain ⟨j, hjlo, hjhi, hcarries⟩ := h.filed s.frame (List.mem_map.mpr ⟨s, hsent, rfl⟩)
    have hiff := acked_iff (n := n) (mem_sent.mp hsent).2 hcarries.1 (by omega) (by omega)
    have hle : ¬ j < n := fun hlt => hacked (hiff.mpr hlt)
    exact ⟨j, by omega, hjhi, hcarries⟩
  · intro j hjlo hjhi
    obtain ⟨f, hf, hseq⟩ := h.complete j (by omega) hjhi
    obtain ⟨s, hs, rfl⟩ := List.mem_map.mp hf
    have hiff := acked_iff (n := n) (mem_sent.mp hs).2 hseq (by omega) (by omega)
    have hacked : ¬ s.Acked (numbered first n) := by
      intro hacked
      have := hiff.mp hacked
      omega
    exact ⟨s.frame, List.mem_map.mpr ⟨s, (hmem s).mpr ⟨hs, hacked⟩, rfl⟩, hseq⟩

theorem Queues.acks (h : m.Queues first base taken) (hwin : WIN ≤ 127) (hlo : base ≤ n)
    (hhi : n ≤ taken.length) {seq : UInt8}
    (hmem : .acknowledged seq ∈ (m.removeAcknowledged (numbered first n)).2) :
    ∃ j, base ≤ j ∧ j < n ∧ seq = numbered first j := by
  have hwindow := h.window
  rw [acks_removeAcknowledged] at hmem
  obtain ⟨s, hs, heq⟩ := List.mem_map.mp hmem
  obtain ⟨hsent, hacked⟩ := List.mem_filter.mp hs
  obtain ⟨j, hjlo, hjhi, hcarries⟩ := h.filed s.frame (List.mem_map.mpr ⟨s, hsent, rfl⟩)
  have hiff := acked_iff (n := n) (mem_sent.mp hsent).2 hcarries.1 (by omega) (by omega)
  have hseq : seq = s.seq := by
    injection heq with heq
    exact heq.symm
  exact ⟨j, hjlo, hiff.mp (of_decide_eq_true hacked), hseq.trans hcarries.1⟩

/-! ## Queueing one more frame -/

theorem mem_frames_queued {i : Nat} {fdu : Bytes} (hslot : m.findEmptySlot = some i)
    {f : Bool × UInt8 × Nat × Nat} :
    f ∈ (m.queued i fdu).frames ↔ f = (true, m.vs, m.writePos, fdu.length) ∨ f ∈ m.frames := by
  have hi := findEmptySlot_lt hslot
  rw [← m.slots] at hi
  obtain ⟨hi', hempty, -⟩ := List.findIdx?_eq_some_iff_getElem.mp hslot
  rw [mem_frames, mem_frames]
  show (∃ s ∈ m.sentQueue.set i _, _) ↔ _
  constructor
  · rintro ⟨s, hs, ho, rfl⟩
    rcases List.mem_or_eq_of_mem_set hs with hs | rfl
    · exact .inr ⟨s, hs, ho, rfl⟩
    · exact .inl rfl
  · rintro (rfl | ⟨s, hs, ho, rfl⟩)
    · exact ⟨_, List.mem_set hi _, rfl, rfl⟩
    · obtain ⟨k, hk, hget⟩ := List.mem_iff_getElem.mp hs
      have hne : i ≠ k := by
        rintro rfl
        rw [hget, ho] at hempty
        cases hempty
      refine ⟨s, ?_, ho, rfl⟩
      rw [List.mem_iff_getElem]
      exact ⟨k, by rw [List.length_set]; exact hk, by rw [List.getElem_set_ne hne]; exact hget⟩

theorem Queues.length_lt (h : m.Queues first base taken) (hwin : WIN ≤ 127) {i : Nat}
    (hslot : m.findEmptySlot = some i) : taken.length < base + WIN := by
  have hwindow := h.window
  have hsub : ((List.range (taken.length - base)).map fun k => numbered first (base + k)) ⊆
      m.frames.map fun f => f.2.1 := by
    intro seq hseq
    obtain ⟨k, hk, rfl⟩ := List.mem_map.mp hseq
    rw [List.mem_range] at hk
    obtain ⟨f, hf, hfseq⟩ := h.complete (base + k) (by omega) (by omega)
    exact List.mem_map.mpr ⟨f, hf, hfseq⟩
  have hnodup : ((List.range (taken.length - base)).map fun k =>
      numbered first (base + k)).Nodup := by
    refine List.Nodup.map_on ?_ List.nodup_range
    intro k hk k' hk' heq
    rw [List.mem_range] at hk hk'
    have := numbered_inj heq (by omega) (by omega)
    omega
  have hlen := hnodup.length_le_of_subset hsub
  rw [List.length_map, List.length_range, List.length_map] at hlen
  have hframes : m.frames.length < WIN := by
    obtain ⟨hi, hempty, -⟩ := List.findIdx?_eq_some_iff_getElem.mp hslot
    have hlt : (m.sentQueue.filter fun s => s.occupied).length < m.sentQueue.length :=
      List.length_filter_lt_length_iff_exists.mpr
        ⟨_, List.getElem_mem hi, by simpa using hempty⟩
    rw [m.slots] at hlt
    unfold frames
    rw [List.length_map]
    exact hlt
  omega

theorem Queues.queued (h : m.Queues first base taken) (hwin : WIN ≤ 127) {i : Nat} {fdu : Bytes}
    (hslot : m.findEmptySlot = some i) (hroom : m.writePos + fdu.length ≤ BUF)
    (hlo : base ≤ taken.length) :
    (m.queued i fdu).Queues first base (taken ++ [fdu]) := by
  have hlen : (taken ++ [fdu]).length = taken.length + 1 := by
    rw [List.length_append, List.length_singleton]
  have hspace := h.length_lt hwin hslot
  refine ⟨?_, hroom, by omega, ?_, ?_⟩
  · show m.vs + 1 = _
    rw [hlen, numbered_succ, h.vs]
  · intro f hf
    rcases (mem_frames_queued hslot).mp hf with rfl | hf
    · refine ⟨taken.length, hlo, by omega, h.vs, Nat.le_refl _, ?_⟩
      rw [List.getElem?_concat_length]
      congr 1
      exact (slice_write_self (by rw [m.sized]; exact hroom)).symm
    · obtain ⟨j, hjlo, hjhi, hseq, hend, hdata⟩ := h.filed f hf
      refine ⟨j, hjlo, by omega, hseq, Nat.le_trans hend (Nat.le_add_right _ _), ?_⟩
      rw [List.getElem?_append_left hjhi, hdata]
      congr 1
      exact (slice_write_of_disjoint (.inl hend)).symm
  · intro j hjlo hjhi
    by_cases hj : j < taken.length
    · obtain ⟨f, hf, hseq⟩ := h.complete j hjlo hj
      exact ⟨f, (mem_frames_queued hslot).mpr (.inr hf), hseq⟩
    · have heq : j = taken.length := by omega
      subst heq
      exact ⟨_, (mem_frames_queued hslot).mpr (.inl rfl), h.vs⟩

end FopMachine

end Cop1
end Leodos
