/-
The mesh as a flood.

Each packet that is about carries a message: its number, which the epoch is cut from, its
origin and its payload.  A run whose writes keep clear of each other follows a flood of the
net of satellites step by step, so every node returns every message of the others once.
-/
import Leodos.Isl.Gossip.Mesh
import Mathlib.Data.List.Forall2
import Mathlib.Data.List.Nodup

namespace Leodos
namespace Isl

open Leodos.Ring Transition Function

/-! ## Lists that correspond -/

section Lists

variable {α β : Type} {R : α → β → Prop} {as : List α} {bs : List β}

theorem forall₂_eraseIdx (h : List.Forall₂ R as bs) (i : Nat) :
    List.Forall₂ R (as.eraseIdx i) (bs.eraseIdx i) := by
  induction h generalizing i with
  | nil => exact .nil
  | cons hab h ih =>
    cases i with
    | zero => exact h
    | succ i => exact .cons hab (ih i)

theorem forall₂_getElem? (h : List.Forall₂ R as bs) {i : Nat} {a : α} (ha : as[i]? = some a) :
    ∃ b, bs[i]? = some b ∧ R a b := by
  induction h generalizing i with
  | nil => cases ha
  | cons hab _ ih =>
    cases i with
    | zero =>
      cases ha
      exact ⟨_, rfl, hab⟩
    | succ i => exact ih ha

theorem forall₂_mem_right (h : List.Forall₂ R as bs) {b : β} (hb : b ∈ bs) :
    ∃ a, a ∈ as ∧ R a b := by
  induction h with
  | nil => cases hb
  | cons hab _ ih =>
    obtain rfl | hrest := List.mem_cons.1 hb
    · exact ⟨_, List.mem_cons_self, hab⟩
    · obtain ⟨a, ha, hr⟩ := ih hrest
      exact ⟨a, List.mem_cons_of_mem _ ha, hr⟩

theorem forall₂_mem_left (h : List.Forall₂ R as bs) {a : α} (ha : a ∈ as) :
    ∃ b, b ∈ bs ∧ R a b := by
  obtain ⟨i, hi⟩ := List.mem_iff_getElem?.1 ha
  obtain ⟨b, hb, hr⟩ := forall₂_getElem? h hi
  exact ⟨b, List.mem_of_getElem? hb, hr⟩

theorem forall₂_concat (h : List.Forall₂ R as bs) {a : α} {b : β} (hab : R a b) :
    List.Forall₂ R (as ++ [a]) (bs ++ [b]) :=
  List.rel_append h (.cons hab .nil)

end Lists

/-! ## Messages -/

variable {torus : Torus} {OUT mtu bufferLen : Nat}

structure Message (torus : Torus) where
  number : Nat
  origin : Satellite torus
  payload : Bytes
  deriving DecidableEq

/-- The octets are a packet of the message. -/
def Encodes (mtu : Nat) (raw : Bytes) (m : Message torus) : Prop :=
  raw.length ≤ mtu ∧ ∃ pkt, IslGossipTelecommand.refFromBytes raw = some pkt ∧
    pkt.gossipHeader =
      ⟨.ofAddress m.origin.address, .ofAddress m.origin.address, .ofNat 16 m.number⟩ ∧
    pkt.payload = m.payload

def Message.entry (m : Message torus) : Address × Bytes := (m.origin.address, m.payload)

def numbers (ms : List (Message torus)) : List Nat := ms.map Message.number

/-- The filter was shown the handled messages. -/
def Filters (f : DuplicateFilter) (handled : List (Message torus)) : Prop :=
  handled = [] ∧ f = .new ∨ ∃ top, f.Remembers (numbers handled) top

variable {f : DuplicateFilter} {handled : List (Message torus)}

theorem numbers_concat (ms : List (Message torus)) (m : Message torus) :
    numbers (ms ++ [m]) = numbers ms ++ [m.number] := by
  rw [numbers, List.map_append]
  rfl

theorem Filters.ahead (h : Filters f handled) {m : Message torus}
    (hahead : ∀ top, f.Remembers (numbers handled) top →
      top < m.number ∧ m.number < top + 32768) :
    ∃ f', f.isDuplicate (.ofNat 16 m.number) = (false, f') ∧
      f'.Remembers (numbers (handled ++ [m])) m.number := by
  obtain ⟨rfl, rfl⟩ | ⟨top, htop⟩ := h
  · exact DuplicateFilter.isDuplicate_new m.number
  · obtain ⟨hlt, hnear⟩ := hahead top htop
    rw [numbers_concat]
    exact htop.ahead hlt hnear

theorem Filters.verdict (h : Filters f handled) {m : Message torus}
    (hnear : ∀ top, f.Remembers (numbers handled) top →
      m.number < top + 32768 ∧ top ≤ m.number + 128) :
    m.number ∈ numbers handled ∧ f.isDuplicate (.ofNat 16 m.number) = (true, f) ∨
      m.number ∉ numbers handled ∧ ∃ f', f.isDuplicate (.ofNat 16 m.number) = (false, f') ∧
        Filters f' (handled ++ [m]) := by
  obtain ⟨rfl, rfl⟩ | ⟨top, htop⟩ := h
  · obtain ⟨f', hf, hr⟩ := DuplicateFilter.isDuplicate_new m.number
    exact Or.inr ⟨List.not_mem_nil, f', hf, Or.inr ⟨_, hr⟩⟩
  · obtain ⟨hahead, hbehind⟩ := hnear top htop
    obtain hlt | hle := Nat.lt_or_ge top m.number
    · obtain ⟨f', hf, hr⟩ := htop.ahead hlt hahead
      refine Or.inr ⟨fun hin => Nat.not_le.2 hlt (htop.le_top _ hin), f', hf,
        Or.inr ⟨m.number, ?_⟩⟩
      rw [numbers_concat]
      exact hr
    · refine (htop.behind hle hbehind).imp id fun h => ?_
      obtain ⟨hnot, f', hf, hr⟩ := h
      refine ⟨hnot, f', hf, Or.inr ⟨top, ?_⟩⟩
      rw [numbers_concat]
      exact hr

/-! ## Following a flood -/

/-- A node of the mesh whose messages are these. -/
structure Holds (mtu : Nat) (x : Satellite torus) (g : Gossip OUT)
    (handled : List (Message torus)) (waiting : Direction → List (Message torus)) : Prop where
  address : g.address = x.address
  torus_eq : g.torus = torus
  mtu_eq : g.mtu = mtu
  queues : ∀ d, ∃ q, Queues (g.out d) q ∧ List.Forall₂ (Encodes mtu) q (waiting d)
  filters : Filters g.dedup handled

abbrev FloodState (torus : Torus) : Type :=
  Flood.State (Satellite torus) (Arc torus) (Message torus)

/-- The world is in the state of a flood.  Numbers grow as messages are issued; copies are
at most 128 behind the newest message, and filters less than half a turn. -/
structure Follows (mtu : Nat) (w : Mesh torus OUT) (s : FloodState torus) : Prop where
  inv : Flood.Inv (mesh torus) Message.origin s
  node : ∀ x, ∃ g, w.node x = some g ∧ Holds mtu x g (s.handled x) fun d => s.waiting (x, d)
  link : ∀ a, List.Forall₂ (Encodes mtu) (w.link a) (s.flight a)
  written : w.written = s.issued.map Message.entry
  returned : ∀ x, w.returned x =
    ((s.handled x).filter fun m => decide (m.origin ≠ x)).map Message.entry
  ordered : s.issued.Pairwise fun m n => m.number < n.number
  carried_near : ∀ a m, s.Carries a m → ∀ n ∈ s.issued, n.number ≤ m.number + 128
  handled_near : ∀ x m, m ∈ s.handled x → (∀ k ∈ s.handled x, k.number ≤ m.number) →
    ∀ n ∈ s.issued, n.number < m.number + 32768

variable {w : Mesh torus OUT} {s : FloodState torus}

theorem Follows.eq_of_number (h : Follows mtu w s) {m n : Message torus} (hm : m ∈ s.issued)
    (hn : n ∈ s.issued) (heq : m.number = n.number) : m = n := by
  have hnodup : (s.issued.map Message.number).Nodup :=
    List.pairwise_map.2 (h.ordered.imp fun hlt => Nat.ne_of_lt hlt)
  exact List.inj_on_of_nodup_map hnodup hm hn heq

theorem Follows.copy (h : Follows mtu w s) {a : Arc torus} {m : Message torus}
    (hc : s.Carries a m) : ∃ raw, w.Copy raw ∧ Encodes mtu raw m := by
  obtain hwait | hfly := hc
  · obtain ⟨g, hg, hholds⟩ := h.node a.1
    obtain ⟨q, hq, hall⟩ := hholds.queues a.2
    obtain ⟨raw, hraw, henc⟩ := forall₂_mem_right hall hwait
    exact ⟨raw, Or.inr ⟨a.1, g, a.2, q, hg, hq.contents, hraw⟩, henc⟩
  · obtain ⟨raw, hraw, henc⟩ := forall₂_mem_right (h.link a) hfly
    exact ⟨raw, Or.inl ⟨a, hraw⟩, henc⟩

theorem Follows.carried_of_copy (h : Follows mtu w s) {raw : Bytes} (hc : w.Copy raw) :
    ∃ a m, s.Carries a m := by
  obtain ⟨a, hraw⟩ | ⟨x, g, d, q, hg, hq, hraw⟩ := hc
  · obtain ⟨m, hm, -⟩ := forall₂_mem_left (h.link a) hraw
    exact ⟨a, m, Or.inr hm⟩
  · obtain ⟨g', hg', hholds⟩ := h.node x
    cases hg.symm.trans hg'
    obtain ⟨q', hq', hall⟩ := hholds.queues d
    cases hq.symm.trans hq'.contents
    obtain ⟨m, hm, -⟩ := forall₂_mem_left hall hraw
    exact ⟨(x, d), m, Or.inl hm⟩

theorem Follows.inFlight (h : Follows mtu w s) {a : Arc torus} {m : Message torus}
    (hc : s.Carries a m) : w.InFlight m.origin.address (.ofNat 16 m.number) := by
  obtain ⟨raw, hraw, -, pkt, hpkt, hheader, -⟩ := h.copy hc
  refine ⟨raw, pkt, hraw, hpkt, ?_, ?_⟩
  · rw [hheader]
    exact m.origin.parse_address
  · rw [hheader]

theorem Follows.remembered (h : Follows mtu w s) {x : Satellite torus} {g : Gossip OUT}
    {top : Nat} (hr : g.dedup.Remembers (numbers (s.handled x)) top) :
    ∃ m ∈ s.handled x, m.number = top ∧ ∀ n ∈ s.issued, n.number < top + 32768 := by
  obtain ⟨m, hm, rfl⟩ := List.mem_map.1 hr.top_mem
  exact ⟨m, hm, rfl, h.handled_near x m hm fun k hk => hr.le_top _ (List.mem_map_of_mem hk)⟩

/-! ## Writing -/

theorem Follows.next_number (h : Follows mtu w s) {epoch : Epoch}
    (hahead : ∀ y g, w.node y = some g → g.dedup.initialized = true →
      ∃ distance, ShortestPath.compute g.dedup.head epoch = .forward distance)
    (hnear : ∀ origin e, w.InFlight origin e → (epoch - e).toNat ≤ 128) :
    ∃ n, BitVec.ofNat 16 n = epoch ∧ (∀ k ∈ s.issued, k.number < n) ∧
      (∀ y g top, w.node y = some g → g.dedup.Remembers (numbers (s.handled y)) top →
        top < n ∧ n < top + 32768) ∧
      ∀ a m, s.Carries a m → n ≤ m.number + 128 := by
  obtain hnone | ⟨before, last, hlast⟩ := List.eq_nil_or_concat s.issued
  · have hempty : ∀ m : Message torus, m ∉ s.issued := fun m hm => by
      rw [hnone] at hm
      exact List.not_mem_nil hm
    refine ⟨epoch.toNat, by rw [BitVec.ofNat_toNat, BitVec.setWidth_eq],
      fun k hk => (hempty k hk).elim, ?_,
      fun a m hc => (hempty m (h.inv.carried_issued hc)).elim⟩
    intro y g top _ hr
    obtain ⟨m, hm, -⟩ := List.mem_map.1 hr.top_mem
    exact (hempty m (h.inv.handled_issued hm)).elim
  · rw [List.concat_eq_append] at hlast
    have hmem : last ∈ s.issued := by
      rw [hlast]
      exact List.mem_append_right _ List.mem_cons_self
    have hnewest : ∀ k ∈ s.issued, k.number ≤ last.number := by
      intro k hk
      have hord := h.ordered
      rw [hlast] at hk hord
      obtain hold | hnew := List.mem_append.1 hk
      · exact Nat.le_of_lt ((List.pairwise_append.1 hord).2.2 k hold last List.mem_cons_self)
      · exact Nat.le_of_eq (congrArg Message.number (List.mem_singleton.1 hnew))
    have hforward : ∀ y g top, w.node y = some g →
        g.dedup.Remembers (numbers (s.handled y)) top → top ≤ last.number ∧
          last.number < top + 32768 ∧ 0 < (epoch - BitVec.ofNat 16 top).toNat ∧
          (epoch - BitVec.ofNat 16 top).toNat < 32768 := by
      intro y g top hg hr
      obtain ⟨m, hm, hnum, hlt⟩ := h.remembered hr
      obtain ⟨distance, hd⟩ := hahead y g hg hr.initialized
      rw [hr.head] at hd
      obtain ⟨rfl, hpos, hhalf⟩ := ShortestPath.compute_eq_forward hd
      have hle := hnewest m (h.inv.handled_issued hm)
      exact ⟨by omega, hlt last hmem, hpos, hhalf⟩
    -- the origin of the newest message remembers it as its newest
    have horigin : ∃ g, w.node last.origin = some g ∧
        g.dedup.Remembers (numbers (s.handled last.origin)) last.number := by
      obtain ⟨g, hg, hholds⟩ := h.node last.origin
      have hin := h.inv.origin_handled hmem
      obtain ⟨hnil, -⟩ | ⟨top, hr⟩ := hholds.filters
      · rw [hnil] at hin
        exact (List.not_mem_nil hin).elim
      · refine ⟨g, hg, ?_⟩
        have hle := hr.le_top last.number (List.mem_map_of_mem hin)
        have hge := (hforward _ g top hg hr).1
        rw [Nat.le_antisymm hle hge]
        exact hr
    obtain ⟨g₀, hg₀, hr₀⟩ := horigin
    obtain ⟨-, -, hpos, hhalf⟩ := hforward _ g₀ _ hg₀ hr₀
    obtain ⟨d, hd⟩ : ∃ d, (epoch - BitVec.ofNat 16 last.number).toNat = d := ⟨_, rfl⟩
    rw [hd] at hpos hhalf
    have hcut : BitVec.ofNat 16 (last.number + d) = epoch := by
      rw [← hd]
      bv_omega
    refine ⟨last.number + d, hcut, fun k hk => ?_, ?_, ?_⟩
    · have hle := hnewest k hk
      omega
    · intro y g top hg hr
      obtain ⟨hle, hlt, hpos', hhalf'⟩ := hforward y g top hg hr
      rw [← hcut] at hpos' hhalf'
      have hdist : (BitVec.ofNat 16 (last.number + d) - BitVec.ofNat 16 top).toNat =
          last.number + d - top := by bv_omega
      omega
    · intro a m hc
      have hle := hnewest m (h.inv.carried_issued hc)
      have hback := h.carried_near a m hc last hmem
      have hclose := hnear _ _ (h.inFlight hc)
      rw [← hcut] at hclose
      have hdist : (BitVec.ofNat 16 (last.number + d) - BitVec.ofNat 16 m.number).toNat =
          last.number + d - m.number := by bv_omega
      omega

theorem filter_own (x : Satellite torus) (ms : List (Message torus)) {m : Message torus}
    (hm : m.origin = x) :
    (ms ++ [m]).filter (fun m => decide (m.origin ≠ x)) =
      ms.filter fun m => decide (m.origin ≠ x) := by
  rw [List.filter_append, List.filter_cons_of_neg (by simp [hm]), List.filter_nil, List.append_nil]

theorem filter_other (x : Satellite torus) (ms : List (Message torus)) {m : Message torus}
    (hm : m.origin ≠ x) :
    (ms ++ [m]).filter (fun m => decide (m.origin ≠ x)) =
      ms.filter (fun m => decide (m.origin ≠ x)) ++ [m] := by
  rw [List.filter_append, List.filter_cons_of_pos (by simp [hm]), List.filter_nil]

theorem Follows.write (h : Follows mtu w s) {x : Satellite torus} {data : Bytes}
    (hclear : w.Undisturbed (.write x data)) :
    ∃ m, m ∉ s.issued ∧
      Follows mtu (w.next (.write x data)) (s.issue (mesh torus) Message.origin m) := by
  obtain ⟨g, hg, hholds⟩ := h.node x
  obtain ⟨hfield, hbuf, hahead, hnear⟩ := hclear g hg
  obtain ⟨n, hcut, hgreater, hfilters, hcopies⟩ := h.next_number hahead hnear
  obtain ⟨g', pkt, hwrite, hheader, hpayload, hout, hmtu, haddress, htorus, hdedup, -⟩ :=
    Gossip.write_ok hfield hbuf
  obtain ⟨m, hm⟩ : ∃ m : Message torus, m = ⟨n, x, data⟩ := ⟨_, rfl⟩
  have hnumber : m.number = n := by rw [hm]
  have horigin : m.origin = x := by rw [hm]
  have hfresh : m ∉ s.issued := by
    intro hin
    have hlt := hgreater m hin
    omega
  have hencodes : Encodes mtu pkt.asBytes m := by
    refine ⟨?_, pkt, pkt.refFromBytes_asBytes, ?_, ?_⟩
    · rw [IslGossipTelecommand.length_asBytes, hpayload, ← hholds.mtu_eq]
      exact hbuf
    · rw [hheader, horigin, hnumber, hcut, hholds.address]
    · rw [hpayload, hm]
  have hissued : ∀ k ∈ s.issued ++ [m], k.number ≤ n := by
    intro k hk
    obtain hold | hnew := List.mem_append.1 hk
    · exact Nat.le_of_lt (hgreater k hold)
    · rw [List.mem_singleton.1 hnew]
      exact Nat.le_of_eq hnumber
  have hnext : w.next (.write x data) =
      { w with
        node := update w.node x (some g')
        link := fun a => if a.1 = x then w.link a ++ [pkt.asBytes] else w.link a
        written := w.written ++ [(x.address, data)] } := by
    simp only [Mesh.next, hg, hwrite, Option.toList_some]
  refine ⟨m, hfresh, ?_⟩
  rw [hnext]
  have hstate : s.issue (mesh torus) Message.origin m =
      { issued := s.issued ++ [m]
        handled := update s.handled x (s.handled x ++ [m])
        waiting := s.waiting
        flight := fun a => if a.1 = x then s.flight a ++ [m] else s.flight a } := by
    rw [← horigin]
    rfl
  have hinv := h.inv.issue hfresh
  rw [hstate] at hinv ⊢
  refine ⟨hinv, fun y => ?_, fun a => ?_, ?_, fun y => ?_, ?_, ?_, ?_⟩
  · by_cases hy : y = x
    · refine ⟨g', ?_, ?_⟩
      · show update w.node x (some g') y = _
        rw [hy, update_self]
      · show Holds mtu y g' (update s.handled x (s.handled x ++ [m]) y) _
        rw [hy, update_self]
        refine ⟨haddress.trans hholds.address, htorus.trans hholds.torus_eq,
          hmtu.trans hholds.mtu_eq, fun d => ?_, ?_⟩
        · rw [hout]
          exact hholds.queues d
        · have hlead : ∀ top, g.dedup.Remembers (numbers (s.handled x)) top →
              top < m.number ∧ m.number < top + 32768 := by
            intro top hr
            rw [hnumber]
            exact hfilters x g top hg hr
          obtain ⟨f', hdup, hr⟩ := hholds.filters.ahead hlead
          rw [hnumber, hcut] at hdup
          rw [hdedup, hdup]
          exact Or.inr ⟨_, hr⟩
    · obtain ⟨gy, hgy, hy'⟩ := h.node y
      refine ⟨gy, ?_, ?_⟩
      · show update w.node x (some g') y = _
        rw [update_of_ne hy]
        exact hgy
      · show Holds mtu y gy (update s.handled x (s.handled x ++ [m]) y) _
        rw [update_of_ne hy]
        exact hy'
  · show List.Forall₂ _ (if a.1 = x then w.link a ++ [pkt.asBytes] else w.link a)
      (if a.1 = x then s.flight a ++ [m] else s.flight a)
    by_cases ha : a.1 = x
    · rw [if_pos ha, if_pos ha]
      exact forall₂_concat (h.link a) hencodes
    · rw [if_neg ha, if_neg ha]
      exact h.link a
  · show w.written ++ [(x.address, data)] = (s.issued ++ [m]).map Message.entry
    rw [List.map_append, ← h.written, hm]
    rfl
  · show w.returned y = ((update s.handled x (s.handled x ++ [m]) y).filter _).map _
    rw [h.returned y]
    by_cases hy : y = x
    · rw [hy, update_self, filter_own x _ horigin]
    · rw [update_of_ne hy]
  · refine List.pairwise_append.2 ⟨h.ordered, List.pairwise_singleton _ _, ?_⟩
    intro k hk k' hk'
    rw [List.mem_singleton.1 hk', hnumber]
    exact hgreater k hk
  · intro a k hk j hj
    have hle := hissued j hj
    obtain hwait | hfly := hk
    · have hback := hcopies a k (Or.inl hwait)
      omega
    · replace hfly : k ∈ if a.1 = x then s.flight a ++ [m] else s.flight a := hfly
      have hmem : k ∈ s.flight a ∨ k = m := by
        by_cases ha : a.1 = x
        · rw [if_pos ha, List.mem_append, List.mem_singleton] at hfly
          exact hfly
        · rw [if_neg ha] at hfly
          exact Or.inl hfly
      obtain hold | rfl := hmem
      · have hback := hcopies a k (Or.inr hold)
        omega
      · omega
  · intro y k hk hgreatest j hj
    have hle := hissued j hj
    replace hk : k ∈ update s.handled x (s.handled x ++ [m]) y := hk
    replace hgreatest : ∀ i ∈ update s.handled x (s.handled x ++ [m]) y,
      i.number ≤ k.number := hgreatest
    by_cases hy : y = x
    · rw [hy, update_self] at hgreatest
      have hnew := hgreatest m (List.mem_append_right _ List.mem_cons_self)
      omega
    · rw [update_of_ne hy] at hk hgreatest
      obtain ⟨gy, hgy, hy'⟩ := h.node y
      obtain ⟨hnil, -⟩ | ⟨top, hr⟩ := hy'.filters
      · rw [hnil] at hk
        exact (List.not_mem_nil hk).elim
      · have hlt := (hfilters y gy top hgy hr).2
        have htop := hr.le_top k.number (List.mem_map_of_mem hk)
        obtain ⟨i, hi, hieq⟩ := List.mem_map.1 hr.top_mem
        have hik := hgreatest i hi
        omega

/-! ## Sending and receiving -/

theorem Follows.stage (h : Follows mtu w s) {x : Satellite torus} {g : Gossip OUT}
    (hg : w.node x = some g) (d : Direction) :
    ∃ q, Queues (g.out d) q ∧ List.Forall₂ (Encodes mtu) q (s.waiting (x, d)) ∧
      g.stage d = some q.head? := by
  obtain ⟨g', hg', hholds⟩ := h.node x
  cases hg.symm.trans hg'
  obtain ⟨q, hq, hall⟩ := hholds.queues d
  refine ⟨q, hq, hall, hq.staged fun raw hraw => ?_⟩
  obtain ⟨m, -, henc⟩ := forall₂_mem_left hall hraw
  rw [hholds.mtu_eq]
  exact henc.1

theorem Follows.iteration_eq {ε : Type} (h : Follows mtu w s) {x : Satellite torus}
    {g : Gossip OUT} (hg : w.node x = some g) (bufferLen : Nat) (event : Gossip.Event ε) :
    g.iteration bufferLen event = g.handle bufferLen event := by
  refine Gossip.iteration_eq (fun d => ?_) bufferLen event
  obtain ⟨q, -, -, hstage⟩ := h.stage hg d
  rw [hstage]
  rfl

theorem Follows.transmit (h : Follows mtu w s) {x : Satellite torus} {d : Direction}
    (hpossible : w.Possible (.transmit x d bufferLen)) :
    s.waiting (x, d) ≠ [] ∧
      Follows mtu (w.next (.transmit x d bufferLen)) (s.send (x, d)) := by
  obtain ⟨g, data, hg, hdata⟩ := hpossible
  obtain ⟨q, hq, hall, hstage⟩ := h.stage hg d
  cases hqcases : q with
  | nil =>
    rw [hqcases] at hstage
    cases hstage.symm.trans hdata
  | cons first rest =>
    rw [hqcases] at hq hall hstage
    cases hw : s.waiting (x, d) with
    | nil =>
      rw [hw] at hall
      cases hall
    | cons m ms =>
      rw [hw] at hall
      obtain ⟨hfirst, hrest⟩ := List.forall₂_cons.1 hall
      obtain ⟨ring, hpop, hring⟩ := hq.pop
      have hnext : w.next (.transmit x d bufferLen) =
          { w with
            link := update w.link (x, d) (w.link (x, d) ++ [first])
            node := update w.node x (some { g with out := update g.out d ring }) } := by
        simp only [Mesh.next, hg, h.iteration_eq hg, Gossip.handle, hpop, Option.map_some,
          Mesh.close, hstage, List.head?_cons, Option.join_some, Option.toList_some]
      have hsend : s.send (x, d) =
          { s with
            waiting := update s.waiting (x, d) ms
            flight := update s.flight (x, d) (s.flight (x, d) ++ [m]) } := by
        rw [Flood.State.send, hw]
        rfl
      refine ⟨by simp, ?_⟩
      have hinv := h.inv.send (x, d)
      have hnear : ∀ a k, (s.send (x, d)).Carries a k → ∀ j ∈ s.issued,
          j.number ≤ k.number + 128 := fun a k hc => h.carried_near a k (Flood.carries_send.1 hc)
      rw [hsend] at hinv hnear ⊢
      rw [hnext]
      refine ⟨hinv, fun y => ?_, fun a => ?_, h.written, h.returned, h.ordered, hnear,
        h.handled_near⟩
      · obtain ⟨gy, hgy, hy'⟩ := h.node y
        by_cases hy : y = x
        · rw [hy] at hgy hy'
          cases hg.symm.trans hgy
          refine ⟨{ g with out := update g.out d ring }, ?_, ?_⟩
          · show update w.node x _ y = _
            rw [hy, update_self]
          · rw [hy]
            refine ⟨hy'.address, hy'.torus_eq, hy'.mtu_eq, fun d' => ?_, hy'.filters⟩
            show ∃ q, Queues (update g.out d ring d') q ∧
              List.Forall₂ _ q (update s.waiting (x, d) ms (x, d'))
            by_cases hd : d' = d
            · rw [hd, update_self, update_self]
              exact ⟨rest, hring, hrest⟩
            · have hne : (x, d') ≠ (x, d) := fun he => hd (Prod.mk.inj he).2
              rw [update_of_ne hd, update_of_ne hne]
              exact hy'.queues d'
        · refine ⟨gy, ?_, hy'.address, hy'.torus_eq, hy'.mtu_eq, fun d' => ?_, hy'.filters⟩
          · show update w.node x _ y = _
            rw [update_of_ne hy]
            exact hgy
          · have hne : (y, d') ≠ (x, d) := fun he => hy (Prod.mk.inj he).1
            show ∃ q, _ ∧ List.Forall₂ _ q (update s.waiting (x, d) ms (y, d'))
            rw [update_of_ne hne]
            exact hy'.queues d'
      · show List.Forall₂ _ (update w.link (x, d) (w.link (x, d) ++ [first]) a)
          (update s.flight (x, d) (s.flight (x, d) ++ [m]) a)
        by_cases ha : a = (x, d)
        · rw [ha, update_self, update_self]
          exact forall₂_concat (h.link _) hfirst
        · rw [update_of_ne ha, update_of_ne ha]
          exact h.link a

theorem Follows.link_remove (h : Follows mtu w s) (a : Arc torus) (place : Nat) (b : Arc torus) :
    List.Forall₂ (Encodes mtu) (update w.link a ((w.link a).eraseIdx place) b)
      ((s.remove a place).flight b) := by
  show List.Forall₂ _ _ (update s.flight a ((s.flight a).eraseIdx place) b)
  by_cases hb : b = a
  · rw [hb, update_self, update_self]
    exact forall₂_eraseIdx (h.link a) place
  · rw [update_of_ne hb, update_of_ne hb]
    exact h.link b

theorem Follows.receive_dropped (h : Follows mtu w s) {a : Arc torus} {place : Nat} {raw : Bytes}
    {g : Gossip OUT} (hg : w.node (a.1.neighbor a.2) = some g)
    (hraw : (w.link a)[place]? = some raw) {pkt : IslGossipTelecommand}
    (hpkt : IslGossipTelecommand.refFromBytes raw = some pkt)
    (hdup : g.dedup.isDuplicate pkt.gossipHeader.epoch = (true, g.dedup)) {m : Message torus}
    (hm : (s.flight a)[place]? = some m) (hdone : m ∈ s.handled (a.1.neighbor a.2)) :
    Follows mtu (w.next (.receive a place bufferLen)) (s.remove a place) := by
  have hnext : w.next (.receive a place bufferLen) =
      { w with
        link := update w.link a ((w.link a).eraseIdx place)
        node := update w.node (a.1.neighbor a.2) (some g) } := by
    simp only [Mesh.next, hg, hraw, h.iteration_eq hg, Gossip.handle, Gossip.receive, hpkt, hdup,
      Mesh.close]
  rw [hnext]
  refine ⟨h.inv.deliver_dropped hm hdone, fun y => ?_, h.link_remove a place, h.written,
    h.returned, h.ordered, fun b k hc => h.carried_near b k (Flood.carries_of_remove hc),
    h.handled_near⟩
  obtain ⟨gy, hgy, hy'⟩ := h.node y
  refine ⟨gy, ?_, hy'⟩
  show update w.node _ (some g) y = _
  by_cases hy : y = a.1.neighbor a.2
  · rw [hy] at hgy ⊢
    rw [update_self]
    exact hg.symm.trans hgy
  · rw [update_of_ne hy]
    exact hgy

theorem Follows.receive_new (h : Follows mtu w s) {a : Arc torus} {place : Nat} {raw : Bytes}
    {g : Gossip OUT} (hg : w.node (a.1.neighbor a.2) = some g)
    (hraw : (w.link a)[place]? = some raw) {pkt : IslGossipTelecommand}
    (hpkt : IslGossipTelecommand.refFromBytes raw = some pkt) {f' : DuplicateFilter}
    (hdup : g.dedup.isDuplicate pkt.gossipHeader.epoch = (false, f')) {m : Message torus}
    (hm : (s.flight a)[place]? = some m) (henc : Encodes mtu raw m)
    (hnew : m ∉ s.handled (a.1.neighbor a.2))
    (hfilter : Filters f' (s.handled (a.1.neighbor a.2) ++ [m]))
    (hpromised : w.Promised (.receive a place bufferLen))
    (hclear : w.Undisturbed (.receive a place bufferLen)) :
    Follows mtu (w.next (.receive a place bufferLen))
      ((s.remove a place).forward (mesh torus) Message.origin (a.1.neighbor a.2) m) := by
  obtain ⟨y, hy⟩ : ∃ y, y = a.1.neighbor a.2 := ⟨_, rfl⟩
  rw [← hy] at hg hnew hfilter ⊢
  obtain ⟨g', hg', hholds⟩ := h.node y
  cases hg.symm.trans hg'
  obtain ⟨-, pkt', hpkt', hheader, hpayload⟩ := id henc
  cases hpkt.symm.trans hpkt'
  obtain ⟨hroom, hfull⟩ := hpromised g raw (by rw [← hy]; exact hg) hraw
  have hclean := hclear g raw (by rw [← hy]; exact hg) hraw
  have hpred : pkt.gossipHeader.predecessor.parse = m.origin.address := by
    rw [hheader]
    exact m.origin.parse_address
  have hneighbor : ∀ d, g.torus.neighbor (.ofAddress g.address) d = some (y.neighbor d).1 := by
    intro d
    rw [hholds.torus_eq, hholds.address]
    exact y.neighbor_eq d
  obtain ⟨onward, honward, hon⟩ := Gossip.onward_eq hneighbor pkt.gossipHeader.predecessor.parse
  have hon' : ∀ d, onward d = true ↔ y.neighbor d ≠ m.origin := by
    intro d
    rw [hon d, hpred, decide_eq_true_iff]
    exact not_congr Satellite.address_inj
  have hqueued : ∀ d, onward d = true → Mesh.Queued g raw d := fun d hd =>
    ⟨pkt, onward, hpkt, by rw [hdup], honward, hd⟩
  have hpush : ∀ d, ∃ ring q, List.Forall₂ (Encodes mtu) q (s.waiting (y, d)) ∧
      (onward d = true → (g.out d).push raw = some (true, ring) ∧ Queues ring (q ++ [raw])) ∧
      Queues (g.out d) q := by
    intro d
    obtain ⟨q, hq, hall⟩ := hholds.queues d
    by_cases hd : onward d = true
    · obtain ⟨accepted, ring, hp, hring⟩ := hq.push (hclean d (hqueued d hd))
      cases accepted with
      | false => exact (hfull d (hqueued d hd) ring hp).elim
      | true => exact ⟨ring, q, hall, fun _ => ⟨hp, hring⟩, hq⟩
    · exact ⟨g.out d, q, hall, fun h' => (hd h').elim, hq⟩
  choose ring q hall haccepted hbefore using hpush
  have haccept : ∀ d, onward d = true → (g.out d).push raw = some (true, ring d) :=
    fun d hd => (haccepted d hd).1
  obtain ⟨out', hpushed, hout⟩ := Gossip.pushAll_eq haccept
  have horigin : m.origin ≠ y := by
    intro heq
    apply hnew
    rw [← heq]
    exact h.inv.origin_handled (h.inv.carried_issued (Or.inr (List.mem_of_getElem? hm)))
  have hentry : (Mesh.originOf raw).toList.map (fun origin => (origin, pkt.payload)) =
      [m.entry] := by
    rw [Mesh.originOf, hpkt, hpayload, Option.map_some, hheader]
    show [((RawAddress.ofAddress m.origin.address).parse, m.payload)] = _
    rw [m.origin.parse_address]
    rfl
  have hnext : w.next (.receive a place bufferLen) =
      { w with
        link := update w.link a ((w.link a).eraseIdx place)
        node := update w.node y (some { g with dedup := f', out := out' })
        returned := update w.returned y (w.returned y ++ [m.entry]) } := by
    have hshort : ¬ bufferLen < pkt.payload.length := Nat.not_lt.2 (hroom pkt hpkt)
    simp only [Mesh.next, ← hy, hg, hraw, h.iteration_eq hg, Gossip.handle, Gossip.receive, hpkt,
      hdup, honward, Option.bind_some, hpushed, Option.map_some, if_neg hshort, Mesh.close, hentry]
  rw [hnext]
  have htarget : m ∉ s.handled ((mesh torus).target a) := by
    show m ∉ s.handled (a.1.neighbor a.2)
    rw [← hy]
    exact hnew
  have hinv := h.inv.deliver_handled hm htarget
  have hstate : (s.remove a place).forward (mesh torus) Message.origin y m =
      { s with
        handled := update s.handled y (s.handled y ++ [m])
        waiting := fun b => if Flood.State.Onward (mesh torus) Message.origin y m b
          then s.waiting b ++ [m] else s.waiting b
        flight := (s.remove a place).flight } := rfl
  have hcarried : ∀ b k, ((s.remove a place).forward (mesh torus) Message.origin y m).Carries b k →
      (∃ b', s.Carries b' k) := by
    intro b k hc
    obtain hold | ⟨-, rfl⟩ := Flood.carries_forward.1 hc
    · exact ⟨b, Flood.carries_of_remove hold⟩
    · exact ⟨a, Or.inr (List.mem_of_getElem? hm)⟩
  have hmnear := h.carried_near a m (Or.inr (List.mem_of_getElem? hm))
  refine ⟨by rw [hy]; exact hinv, fun x => ?_, h.link_remove a place, h.written, fun x => ?_,
    h.ordered, ?_, ?_⟩
  · rw [hstate]
    by_cases hx : x = y
    · refine ⟨{ g with dedup := f', out := out' }, ?_, ?_⟩
      · show update w.node y _ x = _
        rw [hx, update_self]
      · rw [hx]
        refine ⟨hholds.address, hholds.torus_eq, hholds.mtu_eq, fun d => ?_, ?_⟩
        · show ∃ q, Queues (out' d) q ∧ List.Forall₂ _ q (if Flood.State.Onward (mesh torus)
            Message.origin y m (y, d) then s.waiting (y, d) ++ [m] else s.waiting (y, d))
          have hiff : Flood.State.Onward (mesh torus) Message.origin y m (y, d) ↔
              onward d = true := (and_iff_right rfl).trans (hon' d).symm
          by_cases hd : onward d = true
          · rw [hout d, if_pos hd, if_pos (hiff.2 hd)]
            exact ⟨q d ++ [raw], (haccepted d hd).2, forall₂_concat (hall d) henc⟩
          · rw [hout d, if_neg hd, if_neg (fun h' => hd (hiff.1 h'))]
            exact ⟨q d, hbefore d, hall d⟩
        · show Filters f' (update s.handled y (s.handled y ++ [m]) y)
          rw [update_self]
          exact hfilter
    · obtain ⟨gx, hgx, hx'⟩ := h.node x
      refine ⟨gx, ?_, hx'.address, hx'.torus_eq, hx'.mtu_eq, fun d => ?_, ?_⟩
      · show update w.node y _ x = _
        rw [update_of_ne hx]
        exact hgx
      · show ∃ q, _ ∧ List.Forall₂ _ q (if Flood.State.Onward (mesh torus) Message.origin y m (x, d)
          then s.waiting (x, d) ++ [m] else s.waiting (x, d))
        rw [if_neg (fun h' => hx h'.1)]
        exact hx'.queues d
      · show Filters gx.dedup (update s.handled y (s.handled y ++ [m]) x)
        rw [update_of_ne hx]
        exact hx'.filters
  · rw [hstate]
    show update w.returned y (w.returned y ++ [m.entry]) x =
      ((update s.handled y (s.handled y ++ [m]) x).filter _).map _
    by_cases hx : x = y
    · rw [hx, update_self, update_self, filter_other y _ horigin, List.map_append, ← h.returned y]
      rfl
    · rw [update_of_ne hx, update_of_ne hx]
      exact h.returned x
  · intro b k hc
    obtain ⟨b', hold⟩ := hcarried b k hc
    exact h.carried_near b' k hold
  · rw [hstate]
    intro x k hk hgreatest j hj
    replace hk : k ∈ update s.handled y (s.handled y ++ [m]) x := hk
    replace hgreatest : ∀ i ∈ update s.handled y (s.handled y ++ [m]) x,
      i.number ≤ k.number := hgreatest
    by_cases hx : x = y
    · rw [hx, update_self] at hgreatest
      have hle := hgreatest m (List.mem_append_right _ List.mem_cons_self)
      have hj' := hmnear j hj
      omega
    · rw [update_of_ne hx] at hk hgreatest
      exact h.handled_near x k hk hgreatest j hj

theorem Follows.receive (h : Follows mtu w s) {a : Arc torus} {place : Nat}
    (hpossible : w.Possible (.receive a place bufferLen))
    (hpromised : w.Promised (.receive a place bufferLen))
    (hclear : w.Undisturbed (.receive a place bufferLen)) :
    place < (s.flight a).length ∧ Follows mtu (w.next (.receive a place bufferLen))
      (s.deliver (mesh torus) Message.origin a place) := by
  obtain ⟨-, hplace⟩ := hpossible
  have hlen : place < (s.flight a).length := by
    rw [← (h.link a).length_eq]
    exact hplace
  refine ⟨hlen, ?_⟩
  have hraw : (w.link a)[place]? = some (w.link a)[place] := List.getElem?_eq_getElem hplace
  obtain ⟨m, hm, henc⟩ := forall₂_getElem? (h.link a) hraw
  obtain ⟨-, pkt, hpkt, hheader, -⟩ := id henc
  obtain ⟨g, hg, hholds⟩ := h.node (a.1.neighbor a.2)
  have hcarried : s.Carries a m := Or.inr (List.mem_of_getElem? hm)
  have hissued := h.inv.carried_issued hcarried
  have hmem : m.number ∈ numbers (s.handled (a.1.neighbor a.2)) ↔
      m ∈ s.handled (a.1.neighbor a.2) := by
    constructor
    · intro hin
      obtain ⟨k, hk, heq⟩ := List.mem_map.1 hin
      rw [← h.eq_of_number (h.inv.handled_issued hk) hissued heq]
      exact hk
    · exact fun hin => List.mem_map_of_mem hin
  have hverdict := hholds.filters.verdict (m := m) fun top hr => by
    obtain ⟨k, hk, rfl, hlt⟩ := h.remembered hr
    exact ⟨hlt m hissued, h.carried_near a m hcarried k (h.inv.handled_issued hk)⟩
  have hepoch : pkt.gossipHeader.epoch = .ofNat 16 m.number := by rw [hheader]
  rw [Flood.State.deliver, hm]
  show Follows mtu _ (if m ∈ s.handled (a.1.neighbor a.2) then s.remove a place
    else (s.remove a place).forward (mesh torus) Message.origin (a.1.neighbor a.2) m)
  obtain ⟨hin, hdup⟩ | ⟨hout, f', hdup, hfilter⟩ := hverdict
  · rw [← hepoch] at hdup
    have hdone := hmem.1 hin
    rw [if_pos hdone]
    exact h.receive_dropped hg hraw hpkt hdup hm hdone
  · rw [← hepoch] at hdup
    have hnew := fun hin => hout (hmem.2 hin)
    rw [if_neg hnew]
    exact h.receive_new hg hraw hpkt hdup hm henc hnew hfilter hpromised hclear

/-! ## Runs -/

/-- The steps that the claim promises and that keep clear of each other. -/
def Mesh.Clear (w : Mesh torus OUT) (act : Mesh.Act torus) : Prop :=
  w.Promised act ∧ w.Undisturbed act

theorem follows_start (apid : Satellite torus → Spp.Apid)
    (functionCode : Satellite torus → UInt8) :
    Follows mtu (Mesh.start mtu apid functionCode : Mesh torus OUT) .start where
  inv := Flood.inv_start
  node := fun _ => ⟨_, rfl, rfl, rfl, rfl, fun _ => ⟨[], queues_new, .nil⟩, Or.inl ⟨rfl, rfl⟩⟩
  link := fun _ => .nil
  written := rfl
  returned := fun _ => rfl
  ordered := List.Pairwise.nil
  carried_near := fun _ _ _ _ hn => (List.not_mem_nil hn).elim
  handled_near := fun _ _ hm => (List.not_mem_nil hm).elim

theorem Follows.step (h : Follows mtu w s) {act : Mesh.Act torus} (hpossible : w.Possible act)
    (hclear : w.Clear act) : ∃ flood s',
      (Flood.system (mesh torus) Message.origin).step s flood s' ∧ Follows mtu (w.next act) s' ∧
      (act.Moves → ∀ m, flood ≠ .issue m) := by
  cases act with
  | write x data =>
    obtain ⟨m, hm, hnext⟩ := h.write hclear.2
    exact ⟨.issue m, _, ⟨hm, rfl⟩, hnext, fun hmoves => hmoves.elim⟩
  | transmit x d bufferLen =>
    obtain ⟨hwait, hnext⟩ := h.transmit hpossible
    exact ⟨.send (x, d), _, ⟨hwait, rfl⟩, hnext, fun _ m heq => by cases heq⟩
  | receive a place bufferLen =>
    obtain ⟨hplace, hnext⟩ := h.receive hpossible hclear.1 hclear.2
    exact ⟨.deliver a place, _, ⟨hplace, rfl⟩, hnext, fun _ m heq => by cases heq⟩

theorem follows_of_reaches (h : (Mesh.system torus OUT mtu).Reaches Mesh.Clear w) :
    ∃ s, Follows mtu w s :=
  h.invariant (fun w => ∃ s, Follows mtu w s)
    (fun w hinit => by
      obtain ⟨apid, functionCode, rfl⟩ := hinit
      exact ⟨_, follows_start apid functionCode⟩)
    (fun w act w' hinv hok hstep => by
      obtain ⟨s, hs⟩ := hinv
      obtain ⟨hpossible, rfl⟩ := hstep
      obtain ⟨-, s', -, hs', -⟩ := hs.step hpossible hok
      exact ⟨s', hs'⟩)

theorem Follows.foreign (h : Follows mtu w s) (x : Satellite torus) :
    w.foreign x = (s.issued.filter fun m => decide (m.origin ≠ x)).map Message.entry := by
  rw [Mesh.foreign, h.written, List.filter_map]
  congr 1
  refine List.filter_congr fun m _ => ?_
  show decide (m.origin.address ≠ x.address) = _
  exact decide_eq_decide.2 (not_congr Satellite.address_inj)

theorem Follows.returned_subperm (h : Follows mtu w s) (x : Satellite torus) :
    (w.returned x).Subperm (w.foreign x) := by
  rw [h.returned x, h.foreign x]
  have hsub : ((s.handled x).filter fun m => decide (m.origin ≠ x)).Subperm
      (s.issued.filter fun m => decide (m.origin ≠ x)) := by
    refine List.Nodup.subperm ((h.inv.handled_nodup x).filter _) fun m hm => ?_
    obtain ⟨hin, hother⟩ := List.mem_filter.1 hm
    exact List.mem_filter.2 ⟨h.inv.handled_issued hin, hother⟩
  obtain ⟨l, hperm, hl⟩ := hsub
  exact ⟨l.map Message.entry, hperm.map _, hl.map _⟩

theorem Follows.returned_perm (h : Follows mtu w s) (hquiet : w.Quiet) (x : Satellite torus) :
    (w.returned x).Perm (w.foreign x) := by
  rw [h.returned x, h.foreign x]
  refine List.Perm.map _ ?_
  rw [List.perm_ext_iff_of_nodup ((h.inv.handled_nodup x).filter _) (h.inv.issued_nodup.filter _)]
  intro m
  rw [List.mem_filter, List.mem_filter]
  refine and_congr_left fun _ => ⟨h.inv.handled_issued, fun hm => ?_⟩
  refine h.inv.reached hm (fun a hc => ?_) (mesh_reaches m.origin x)
  obtain ⟨raw, hraw, -⟩ := h.copy hc
  exact hquiet raw hraw

theorem Follows.can_move (h : Follows mtu w s) (hbusy : ¬ w.Quiet) :
    ∃ act : Mesh.Act torus, act.Moves ∧ w.Possible act := by
  obtain ⟨raw, hcopy⟩ := Classical.not_forall_not.1 hbusy
  obtain ⟨a, m, hwait | hfly⟩ := h.carried_of_copy hcopy
  · obtain ⟨g, hg, -⟩ := h.node a.1
    obtain ⟨q, -, hall, hstage⟩ := h.stage hg a.2
    obtain ⟨data, hdata, -⟩ := forall₂_mem_right hall hwait
    obtain ⟨first, rest, rfl⟩ := List.exists_cons_of_ne_nil (List.ne_nil_of_mem hdata)
    exact ⟨.transmit a.1 a.2 0, trivial, g, first, hg, hstage⟩
  · obtain ⟨g, hg, -⟩ := h.node (a.1.neighbor a.2)
    refine ⟨.receive a 0 0, trivial, by rw [hg]; rfl, ?_⟩
    rw [(h.link a).length_eq]
    exact List.length_pos_of_mem hfly

theorem Follows.run_bounded (h : Follows mtu w s) : ∃ bound, ∀ acts w',
    (Mesh.system torus OUT mtu).Run (fun w act => act.Moves ∧ w.Clear act) w acts w' →
      acts.length ≤ bound := by
  have := Fintype.ofFinite (Satellite torus)
  have := Fintype.ofFinite (Arc torus)
  refine ⟨Flood.energy s, fun acts w' hrun => ?_⟩
  refine hrun.length_le (Follows mtu) Flood.energy (fun w act w' s hs hok hstep => ?_) h
  obtain ⟨hpossible, rfl⟩ := hstep
  obtain ⟨flood, s', hflood, hs', hmoves⟩ := hs.step hpossible hok.2
  refine ⟨s', hs', ?_⟩
  cases flood with
  | issue m => exact (hmoves hok.1 m rfl).elim
  | send a =>
    obtain ⟨hwait, rfl⟩ := hflood
    exact Flood.energy_send hwait
  | deliver a place =>
    obtain ⟨hplace, rfl⟩ := hflood
    exact hs.inv.energy_deliver hplace

/-- In every run whose writes keep clear of each other the flood delivers every message to
every other node exactly once. -/
theorem flood_delivers (h : (Mesh.system torus OUT mtu).Reaches Mesh.Clear w) :
    w.Delivering mtu Mesh.Clear := by
  obtain ⟨s, hs⟩ := follows_of_reaches h
  refine ⟨fun x => ?_, hs.returned_subperm, hs.returned_perm, hs.can_move, hs.run_bounded⟩
  obtain ⟨g, hg, -⟩ := hs.node x
  rw [hg]
  rfl

/-! ## Two satellites -/

def westSat : Satellite ⟨1, 2⟩ := ⟨⟨0, 0⟩, by decide⟩

def eastSat : Satellite ⟨1, 2⟩ := ⟨⟨0, 1⟩, by decide⟩

def twoSats : Mesh ⟨1, 2⟩ 64 := .start 32 (fun _ => 1) (fun _ => 0)

theorem twoSats_cases (x : Satellite ⟨1, 2⟩) : x = westSat ∨ x = eastSat := by
  obtain ⟨⟨orb, sat⟩, horb, hsat⟩ := x
  have horb' : orb = 0 := UInt8.toNat_inj.1 (Nat.lt_one_iff.1 horb)
  have hsat' : sat = 0 ∨ sat = 1 := by
    have hlt : sat.toNat < 2 := hsat
    have hzero : (0 : UInt8).toNat = 0 := rfl
    have hone : (1 : UInt8).toNat = 1 := rfl
    obtain h | h : sat.toNat = 0 ∨ sat.toNat = 1 := by omega
    · exact Or.inl (UInt8.toNat_inj.1 (h.trans hzero.symm))
    · exact Or.inr (UInt8.toNat_inj.1 (h.trans hone.symm))
  subst horb'
  obtain rfl | rfl := hsat'
  · exact Or.inl rfl
  · exact Or.inr rfl

theorem twoSats_quiet : twoSats.Quiet := by
  intro raw hc
  have hstart : Follows 32 twoSats .start := follows_start (fun _ => 1) (fun _ => 0)
  obtain ⟨a, m, h | h⟩ := hstart.carried_of_copy hc
  · cases h
  · cases h

theorem twoSats_write (x : Satellite ⟨1, 2⟩) {data : Bytes} (hdata : data.length ≤ 16) :
    twoSats.Clear (.write x data) := by
  have hnone : ∀ origin e, ¬ twoSats.InFlight origin e := by
    intro origin e h
    obtain ⟨raw, pkt, hcopy, -⟩ := h
    exact twoSats_quiet raw hcopy
  refine ⟨fun g hg => ⟨fun epochs _ hall => ?_, fun e he => (hnone _ e he).elim⟩, fun g hg => ?_⟩
  · cases epochs with
    | nil => decide
    | cons e es => exact (hnone _ e (hall e List.mem_cons_self)).elim
  · cases hg
    have hheader : IslGossipTelecommand.HEADER_SIZE = 14 := rfl
    refine ⟨by omega, ?_, fun y g' hg' hinit => ?_, fun origin e he => (hnone _ e he).elim⟩
    · show IslGossipTelecommand.HEADER_SIZE + data.length ≤ 32
      omega
    · cases hg'
      cases hinit

/-- One message reaches the other satellite. -/
theorem flood_delivers_one : ∃ w : Mesh ⟨1, 2⟩ 64,
    w.returned eastSat = [(westSat.address, [7])] ∧ w.Delivering 32 Mesh.Clear := by
  obtain ⟨w, hw⟩ : ∃ w, w = twoSats.next (.write westSat [7]) := ⟨_, rfl⟩
  have hreach : (Mesh.system ⟨1, 2⟩ 64 32).Reaches Mesh.Clear w :=
    .step (.write westSat [7]) (.init ⟨_, _, rfl⟩) (twoSats_write _ (by decide)) ⟨rfl, hw⟩
  have hclear : w.Clear (.receive (westSat, .north) 0 16) := by
    rw [hw]
    refine ⟨fun g raw hg hraw => ⟨fun pkt hpkt => ?_, fun d _ ring hpush => ?_⟩,
      fun g raw hg hraw d _ => ?_⟩
    · cases hg
      cases hraw
      cases hpkt
      decide
    · cases hg
      cases hraw
      have hfirst := congrArg (Option.map Prod.fst) hpush
      change Option.map Prod.fst _ = some false at hfirst
      revert hfirst
      cases d <;> decide
    · cases hg
      cases hraw
      cases d <;> decide
  refine ⟨w.next (.receive (westSat, .north) 0 16), ?_,
    flood_delivers (.step _ hreach hclear ⟨?_, rfl⟩)⟩
  · rw [hw]
    decide
  · rw [hw]
    exact ⟨rfl, by decide⟩

/-- The packet at a place is a duplicate to the node that it comes to. -/
def repeats (w : Mesh torus OUT) : Mesh.Act torus → Bool
  | .receive a place bufferLen =>
    match w.node (a.1.neighbor a.2), (w.link a)[place]? with
    | some g, some raw =>
      match IslGossipTelecommand.refFromBytes raw with
      | some pkt => decide (pkt.payload.length ≤ bufferLen) &&
          (g.dedup.isDuplicate pkt.gossipHeader.epoch).1
      | none => false
    | _, _ => false
  | _ => false

theorem step_of_repeats {act : Mesh.Act torus} (h : repeats w act = true) :
    w.Promised act ∧ (Mesh.system torus OUT mtu).step w act (w.next act) := by
  cases act with
  | write x data => cases h
  | transmit x d bufferLen => cases h
  | receive a place bufferLen =>
    rw [repeats] at h
    cases hg : w.node (a.1.neighbor a.2) with
    | none =>
      rw [hg] at h
      cases h
    | some g =>
      cases hraw : (w.link a)[place]? with
      | none =>
        rw [hg, hraw] at h
        cases h
      | some raw =>
        rw [hg, hraw] at h
        dsimp only at h
        cases hpkt : IslGossipTelecommand.refFromBytes raw with
        | none =>
          rw [hpkt] at h
          cases h
        | some pkt =>
          rw [hpkt] at h
          dsimp only at h
          rw [Bool.and_eq_true, decide_eq_true_iff] at h
          obtain ⟨hroom, hdup⟩ := h
          refine ⟨fun g' raw' hg' hraw' => ⟨fun pkt' hpkt' => ?_, fun d hq => ?_⟩, ?_, rfl⟩
          · cases hraw.symm.trans hraw'
            cases hpkt.symm.trans hpkt'
            exact hroom
          · cases hg.symm.trans hg'
            cases hraw.symm.trans hraw'
            obtain ⟨pkt', onward, hpkt', hfresh, -⟩ := hq
            cases hpkt.symm.trans hpkt'
            cases hdup.symm.trans hfresh
          · refine ⟨by rw [hg]; rfl, ?_⟩
            exact (List.getElem?_eq_some_iff.1 hraw).1

def bothWrote : Mesh ⟨1, 2⟩ 64 :=
  (twoSats.next (.write westSat [7])).next (.write eastSat [9])

/-- Every packet arrives at a node that has written one with its epoch. -/
def arrivals : List (Mesh.Act ⟨1, 2⟩) :=
  [.receive (westSat, .north) 0 16, .receive (westSat, .south) 0 16,
    .receive (westSat, .east) 0 16, .receive (westSat, .west) 0 16,
    .receive (eastSat, .north) 0 16, .receive (eastSat, .south) 0 16,
    .receive (eastSat, .east) 0 16, .receive (eastSat, .west) 0 16]

theorem bothWrote_reaches : (Mesh.system ⟨1, 2⟩ 64 32).Reaches Mesh.Promised bothWrote := by
  obtain ⟨w, hw⟩ : ∃ w, w = twoSats.next (.write westSat [7]) := ⟨_, rfl⟩
  have hreach : (Mesh.system ⟨1, 2⟩ 64 32).Reaches Mesh.Promised w :=
    .step (.write westSat [7]) (.init ⟨_, _, rfl⟩) (twoSats_write _ (by decide)).1 ⟨rfl, hw⟩
  have hnone : ∀ e, ¬ w.InFlight eastSat.address e := by
    intro e h
    obtain ⟨raw, pkt, hcopy, hpkt, horigin, -⟩ := h
    obtain ⟨⟨x, d⟩, hraw⟩ | ⟨x, g, d, q, hg, hq, hraw⟩ := hcopy
    · rw [hw] at hraw
      obtain rfl | rfl := twoSats_cases x
      · replace hraw : raw ∈ [_] := hraw
        rw [List.mem_singleton.1 hraw] at hpkt
        cases hpkt
        revert horigin
        decide
      · cases hraw
    · rw [hw] at hg
      have hempty : (g.out d).contents = some [] := by
        obtain rfl | rfl := twoSats_cases x
        · cases hg
          rfl
        · cases hg
          rfl
      cases hq.symm.trans hempty
      cases hraw
  refine .step (.write eastSat [9]) hreach (fun g hg => ⟨fun epochs _ hall => ?_, fun e he =>
    (hnone e he).elim⟩) ⟨?_, ?_⟩
  · cases epochs with
    | nil => decide
    | cons e es => exact (hnone e (hall e List.mem_cons_self)).elim
  · rw [hw]
    rfl
  · rw [hw]
    rfl

/-- Two satellites that write at the same time suppress each other. -/
theorem two_origins_suppress : ∃ w : Mesh ⟨1, 2⟩ 64,
    (Mesh.system ⟨1, 2⟩ 64 32).Reaches Mesh.Promised w ∧ w.Quiet ∧
      w.foreign eastSat = [(westSat.address, [7])] ∧ w.returned eastSat = [] ∧
      ¬ w.Delivering 32 Mesh.Promised := by
  obtain ⟨w, hw⟩ : ∃ w, w = arrivals.foldl Mesh.next bothWrote := ⟨_, rfl⟩
  have hreach : (Mesh.system ⟨1, 2⟩ 64 32).Reaches Mesh.Promised w := by
    rw [hw]
    refine bothWrote_reaches.foldl (r := fun w act => repeats w act = true)
      (fun w act h => step_of_repeats h) ?_
    decide
  have hquiet : w.Quiet := by
    intro raw hcopy
    obtain ⟨⟨x, d⟩, hraw⟩ | ⟨x, g, d, q, hg, hq, hraw⟩ := hcopy
    · have hempty : w.link (x, d) = [] := by
        rw [hw]
        obtain rfl | rfl := twoSats_cases x
        · cases d <;> rfl
        · cases d <;> rfl
      rw [hempty] at hraw
      cases hraw
    · have hempty : (g.out d).contents = some [] := by
        rw [hw] at hg
        obtain rfl | rfl := twoSats_cases x
        · cases hg
          rfl
        · cases hg
          rfl
      cases hq.symm.trans hempty
      cases hraw
  have hforeign : w.foreign eastSat = [(westSat.address, [7])] := by
    rw [hw]
    decide
  have hreturned : w.returned eastSat = [] := by
    rw [hw]
    decide
  refine ⟨w, hreach, hquiet, hforeign, hreturned, fun h => ?_⟩
  have hperm := (h.everywhere hquiet eastSat).length_eq
  rw [hforeign, hreturned] at hperm
  cases hperm

end Isl
end Leodos
