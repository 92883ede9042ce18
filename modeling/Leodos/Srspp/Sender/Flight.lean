/-
The packets in flight against the window.

Admission looks for a free slot only, so a packet may be queued while the oldest
unacknowledged one is `WIN` or more counts behind.  Runs in which no admission
reaches that far keep all packets in flight within one window of the oldest.
-/
import Leodos.Srspp.Sender.Integrity

namespace Leodos
namespace Srspp

open Isl Spp Transition

namespace SenderMachine

variable {WIN MTU : Nat}

/-- Any two packets in flight are less than `WIN` apart, and all of them are less
than `WIN` ahead of the oldest. -/
structure WithinWindow (m : SenderMachine WIN MTU) : Prop where
  pairwise : ∀ i j, (m.slots i).Occupied → (m.slots j).Occupied →
    ((m.slots j).seq - (m.slots i).seq).toNat < WIN ∨
      ((m.slots i).seq - (m.slots j).seq).toNat < WIN
  oldest : (∃ i, (m.slots i).Occupied) → ∃ o, (m.slots o).Occupied ∧
    ∀ j, (m.slots j).Occupied → ((m.slots j).seq - (m.slots o).seq).toNat < WIN

/-- The packets that a send event would admit all lie within `WIN` of every packet in
flight. -/
def AdmitsWithin (s : Logged WIN MTU) : SenderCall → Prop
  | .handle e =>
      0 < s.machine.roomFor (s.machine.intended e) → WIN < 16384 →
        ∀ i, (s.machine.slots i).Occupied →
          (s.machine.nextSeq - (s.machine.slots i).seq).toNat +
            s.machine.roomFor (s.machine.intended e) ≤ WIN
  | .markTransmitted _ => True

instance (s : Logged WIN MTU) (c : SenderCall) : Decidable (AdmitsWithin s c) := by
  cases c <;> unfold AdmitsWithin <;> infer_instance

theorem roomFor_le (m : SenderMachine WIN MTU) (ps : List QueuedPacket) :
    m.roomFor ps ≤ ps.length ∧ m.roomFor ps ≤ WIN := by
  refine ⟨roomFor_le_length m ps, ?_⟩
  have hfree := admitted_le_free m.availableWindow (m.data.length - m.liveBytes)
    (ps.map fun p => p.payload.length)
  unfold availableWindow at hfree
  unfold roomFor availableWindow
  omega

/-- The numbers of the packets in flight reach back at most one window. -/
structure Near (m : SenderMachine WIN MTU) (log : List QueuedPacket) (num : Fin WIN → Nat) :
    Prop extends Carries m log num where
  near : WIN < 16384 → ∀ i, (m.slots i).Occupied → log.length ≤ num i + WIN

theorem Near.queues {m m' : SenderMachine WIN MTU} {a a' : SenderActions}
    {ps : List QueuedPacket} {log : List QueuedPacket} {num : Fin WIN → Nat}
    (h : Near m log num) (hl : Layout m) (hq : Queues m a ps m' a') (hps : ps.length ≤ WIN)
    (hok : 0 < ps.length → WIN < 16384 → ∀ i, (m.slots i).Occupied →
      (m.nextSeq - (m.slots i).seq).toNat + ps.length ≤ WIN) :
    ∃ num', Near m' (log ++ ps) num' := by
  obtain ⟨num', hc, hold⟩ := hq.carries hl h.toCarries
  refine ⟨num', hc, fun hW i hi => ?_⟩
  rw [List.length_append]
  rcases hold i hi with ⟨hocc, he⟩ | hge
  · rw [he]
    have hnear := h.near hW i hocc
    by_cases hnone : ps.length = 0
    · omega
    · have hroom := hok (by omega) hW i hocc
      have hlt := h.lt_length hocc
      obtain ⟨p, -, hh⟩ := h.cargo i hocc
      rw [h.nextSeq, hh.seq, seqOf_sub_toNat (Nat.le_of_lt hlt)] at hroom
      omega
  · omega

theorem near_of_reaches {config : SenderConfig} {bufSize : Nat} {s : Logged WIN MTU}
    (h : (sender WIN MTU config bufSize).Reaches AdmitsWithin s) :
    ∃ num, Near s.machine s.log num := by
  refine (h.invariant
    (fun s => Layout s.machine ∧ ∃ num, Near s.machine s.log num) ?_ ?_).2
  · rintro _ rfl
    exact ⟨Layout.new config bufSize, fun _ => 0,
      ⟨rfl, fun i hi => absurd rfl hi, fun i _ hi => absurd rfl hi⟩, fun _ i hi => absurd rfl hi⟩
  · rintro s c s' ⟨hl, num, hn⟩ hok hs
    rcases sender_step_cases hl hs with ⟨e, a, ps, a', rfl, hps, hq, hlog, -⟩ | ⟨hcargo, hlog, -⟩
    · have hroom := roomFor_le s.machine (s.machine.intended e)
      have hlen : ps.length = s.machine.roomFor (s.machine.intended e) := by
        rw [hps, List.length_take]
        omega
      obtain ⟨num', hn'⟩ := hn.queues hl hq (by omega) (by rw [hlen]; exact hok)
      rw [hlog]
      exact ⟨hq.layout hl, num', hn'⟩
    · rw [hlog]
      refine ⟨hcargo.layout hl, num, hn.toCarries.sameCargo hcargo, fun hW i hi => ?_⟩
      exact hn.near hW i (hcargo.slot i hi).1

theorem exists_oldest {m : SenderMachine WIN MTU} (num : Fin WIN → Nat)
    (h : ∃ i, (m.slots i).Occupied) :
    ∃ o, (m.slots o).Occupied ∧ ∀ j, (m.slots j).Occupied → num o ≤ num j := by
  have hex : ∃ n, ∃ i, (m.slots i).Occupied ∧ num i = n := by
    obtain ⟨i, hi⟩ := h
    exact ⟨num i, i, hi, rfl⟩
  classical
  obtain ⟨o, ho, he⟩ := Nat.find_spec hex
  exact ⟨o, ho, fun j hj => he ▸ Nat.find_min' hex ⟨j, hj, rfl⟩⟩

def twoSlots : Logged 2 32 := ⟨.new smallConfig 8, [], fun _ => 0⟩

/-- Packets 0 and 1 are queued, a selective acknowledgement frees packet 1, and
packet 2 takes its slot while packet 0 is still outstanding. -/
def outrunCalls : List SenderCall :=
  [.handle (.sendRequest (.ground 1) [0]), .handle (.sendRequest (.ground 1) [1]),
    .handle (.ackReceived 16383 2), .handle (.sendRequest (.ground 1) [2])]

end SenderMachine

end Srspp
end Leodos
