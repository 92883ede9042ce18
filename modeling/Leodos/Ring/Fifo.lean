/-
The ring as a queue of packets.

Every push that finds the cursors in a clean position keeps the ring a first-in
first-out queue, evictions included, so the queue is read back exactly from any
state a run of such pushes and of pops reaches.  The runs at the end leave a clean
position in each of the ways there are.
-/
import Leodos.Ring.Layout
import Leodos.Transition.System

namespace Leodos
namespace Ring
namespace RingBuffer

variable {N : Nat} {r : RingBuffer N} {q : List Bytes} {data : Bytes}

/-! ## Reading the queue back -/

/-- The next `k` packets, each read by `front` and removed by `pop`. -/
def drain : Nat → RingBuffer N → Option (List Bytes)
  | 0, _ => some []
  | k + 1, r =>
      match r.front, r.pop with
      | some (some data), some r' => (drain k r').map (data :: ·)
      | _, _ => none

def contents (r : RingBuffer N) : Option (List Bytes) := r.drain r.len

theorem Holds.pop (h : r.Holds q) :
    ∃ r', r.pop = some r' ∧ r'.Holds q.tail ∧ r'.frontDrop = r.frontDrop := by
  cases q with
  | nil => exact ⟨r, h.pop_nil, h, rfl⟩
  | cons d q =>
    refine ⟨_, h.pop_cons, h.advance, ?_⟩
    unfold RingBuffer.advance
    by_cases h1 : r.count = 1
    · rw [if_pos h1]
    · rw [if_neg h1]

theorem Holds.contents (h : r.Holds q) : r.contents = some q := by
  unfold RingBuffer.contents len
  rw [h.count]
  induction q generalizing r with
  | nil => rfl
  | cons d q ih =>
    obtain ⟨r', hpop, hr', -⟩ := h.pop
    have hfront := h.front
    rw [List.length_cons, drain, hfront, hpop]
    show (drain q.length r').map (d :: ·) = _
    rw [ih hr']
    rfl

/-! ## Eviction -/

/-- The ring of the next try after a rejected one. -/
def retry (r : RingBuffer N) (data : Bytes) : Option (RingBuffer N) :=
  match r.tryPush data (LEN_SIZE + data.length) with
  | some (false, r') => r'.pop
  | _ => none

/-- Every try of the eviction loop finds a clean position. -/
def CleanEvict (data : Bytes) : Nat → RingBuffer N → Prop
  | 0, _ => True
  | fuel + 1, r => r.Clean data ∧ ∀ r' ∈ r.retry data, CleanEvict data fuel r'

instance decidableCleanEvict (data : Bytes) :
    (fuel : Nat) → (r : RingBuffer N) → Decidable (CleanEvict data fuel r)
  | 0, _ => .isTrue trivial
  | fuel + 1, r =>
      have := fun r' : RingBuffer N => decidableCleanEvict data fuel r'
      inferInstanceAs (Decidable (r.Clean data ∧ ∀ r' ∈ r.retry data, _))

/-- The position condition of a whole push: of its only try, or of every try of the
eviction loop. -/
def CleanPush (r : RingBuffer N) (data : Bytes) : Prop :=
  LEN_SIZE + data.length ≤ N →
    if r.frontDrop then CleanEvict data (r.count + 1) r else r.Clean data

instance (r : RingBuffer N) (data : Bytes) : Decidable (r.CleanPush data) := by
  unfold CleanPush
  infer_instance

theorem Holds.evict {fuel : Nat} (h : r.Holds q) (hfuel : q.length < fuel)
    (hN : LEN_SIZE + data.length ≤ N) (hd : data.length ≤ 65535)
    (hclean : CleanEvict data fuel r) :
    ∃ r' k, evict data (LEN_SIZE + data.length) fuel r = some (true, r') ∧ k ≤ q.length ∧
      r'.Holds (q.drop k ++ [data]) ∧ r'.frontDrop = r.frontDrop := by
  induction fuel generalizing r q with
  | zero => omega
  | succ fuel ih =>
    obtain ⟨hc, hnext⟩ := hclean
    obtain ⟨accepted, r', htry, hr', hflag, hnil⟩ := h.tryPush hN hd hc
    rw [RingBuffer.evict, htry]
    cases accepted with
    | true => exact ⟨r', 0, rfl, Nat.zero_le _, hr', hflag⟩
    | false =>
      have hr'' : r'.Holds q := hr'
      obtain ⟨r'', hpop, hrest, hflag'⟩ := hr''.pop
      have hlen : q.length ≠ 0 := by
        intro hlen
        have := hnil (List.length_eq_zero_iff.mp hlen)
        cases this
      have hretry : r'' ∈ r.retry data := by
        rw [Option.mem_def, retry, htry]
        exact hpop
      simp only [hpop]
      obtain ⟨r₃, k, hev, hk, hr₃, hflag₃⟩ :=
        ih hrest (by rw [List.length_tail]; omega) (hnext r'' hretry)
      rw [List.length_tail] at hk
      refine ⟨r₃, k + 1, hev, by omega, ?_, by rw [hflag₃, hflag', hflag]⟩
      rw [List.drop_tail] at hr₃
      exact hr₃

theorem Holds.push_tailDrop (h : r.Holds q) (hf : r.frontDrop = false)
    (hd : data.length ≤ 65535) (hclean : r.CleanPush data) :
    ∃ accepted r', r.push data = some (accepted, r') ∧
      r'.Holds (if accepted then q ++ [data] else q) ∧ r'.frontDrop = false := by
  unfold RingBuffer.push
  by_cases hN : N < LEN_SIZE + data.length
  · rw [if_pos hN]
    exact ⟨false, r, rfl, h, hf⟩
  · have hc := hclean (by omega)
    rw [hf, if_neg Bool.false_ne_true] at hc
    obtain ⟨accepted, r', htry, hr', hflag, -⟩ := h.tryPush (by omega) hd hc
    rw [if_neg hN, hf, if_neg Bool.false_ne_true, htry]
    exact ⟨accepted, r', rfl, hr', hflag.trans hf⟩

theorem Holds.push_frontDrop (h : r.Holds q) (hf : r.frontDrop = true)
    (hN : LEN_SIZE + data.length ≤ N) (hd : data.length ≤ 65535) (hclean : r.CleanPush data) :
    ∃ r' k, r.push data = some (true, r') ∧ k ≤ q.length ∧
      r'.Holds (q.drop k ++ [data]) ∧ r'.frontDrop = true := by
  have hc := hclean hN
  rw [hf, if_pos rfl] at hc
  obtain ⟨r', k, hev, hk, hr', hflag⟩ :=
    h.evict (by rw [h.count]; exact Nat.lt_succ_self _) hN hd hc
  refine ⟨r', k, ?_, hk, hr', hflag.trans hf⟩
  unfold RingBuffer.push
  rw [if_neg (by omega), hf, if_pos rfl]
  exact hev

theorem push_tooLong (hN : N < LEN_SIZE + data.length) : r.push data = some (false, r) := by
  unfold RingBuffer.push
  rw [if_pos hN]

end RingBuffer

/-! ## Runs -/

open RingBuffer Transition

inductive Call where
  | push (data : Bytes)
  | pop
  deriving DecidableEq

/-- The ring, and the packets pushed and neither popped nor evicted.  The ring is
`none` after a call that panicked or never returned. -/
structure State (N : Nat) where
  ring : Option (RingBuffer N)
  queue : List Bytes
  deriving DecidableEq

variable {N : Nat}

def next (s : State N) (call : Call) : State N :=
  match s.ring with
  | none => s
  | some r =>
      match call with
      | .push data =>
          match r.push data with
          | none => { s with ring := none }
          | some (false, r') => { s with ring := some r' }
          | some (true, r') =>
              let kept := if r.frontDrop then s.queue.drop (s.queue.length + 1 - r'.len)
                else s.queue
              ⟨some r', kept ++ [data]⟩
      | .pop => ⟨r.pop, s.queue.tail⟩

/-- The calls `calls` on a new ring. -/
def run (N : Nat) (calls : List Call) : State N := calls.foldl next ⟨some (new N), []⟩

def fifo (N : Nat) : System (State N) Call where
  init s := s = ⟨some (new N), []⟩ ∨ s = ⟨some (withFrontDrop N), []⟩
  step s call s' := s' = next s call

/-- The calls of a run: packets of a length that fits the prefix, each push finding
the ring in a clean position. -/
def CleanCall (s : State N) : Call → Prop
  | .push data => data.length ≤ 65535 ∧ ∀ r ∈ s.ring, r.CleanPush data
  | .pop => True

instance (s : State N) (call : Call) : Decidable (CleanCall s call) := by
  cases call <;> unfold CleanCall <;> infer_instance

theorem holds_of_reaches (hN : 2 ≤ N) {s : State N} (h : (fifo N).Reaches CleanCall s) :
    ∃ r, s.ring = some r ∧ r.Holds s.queue := by
  refine h.invariant (fun s => ∃ r, s.ring = some r ∧ r.Holds s.queue) ?_ ?_
  · rintro s (rfl | rfl)
    · exact ⟨_, rfl, holds_new (by omega)⟩
    · exact ⟨_, rfl, holds_withFrontDrop (by omega)⟩
  · rintro s call _ ⟨r, hr, hq⟩ hok rfl
    cases call with
    | pop =>
      obtain ⟨r', hpop, hr', -⟩ := hq.pop
      refine ⟨r', ?_, ?_⟩ <;> simp only [next, hr]
      · exact hpop
      · exact hr'
    | push data =>
      obtain ⟨hd, hclean⟩ := hok
      have hclean := hclean r hr
      cases hf : r.frontDrop with
      | false =>
        obtain ⟨accepted, r', hpush, hr', -⟩ := hq.push_tailDrop hf hd hclean
        cases accepted <;> refine ⟨r', ?_, ?_⟩ <;> simp only [next, hr, hpush, hf]
        · exact hr'
        · exact hr'
      | true =>
        by_cases hlong : N < LEN_SIZE + data.length
        · refine ⟨r, ?_, ?_⟩ <;> simp only [next, hr, push_tooLong hlong]
          exact hq
        · obtain ⟨r', k, hpush, hk, hr', -⟩ := hq.push_frontDrop hf (by omega) hd hclean
          have hdrop : s.queue.length + 1 - r'.len = k := by
            have := hr'.count
            rw [List.length_append, List.length_drop, List.length_singleton] at this
            unfold len
            omega
          refine ⟨r', ?_, ?_⟩ <;> simp only [next, hr, hpush, hf, hdrop, if_true]
          exact hr'

/-- After any run of clean pushes and of pops the ring is a queue of packets: no call
panics, the front is the oldest packet, a rejected push leaves the contents as they
were, and a push with eviction keeps a suffix of them. -/
theorem fifo_of_clean_calls (hN : 2 ≤ N) {s : State N} (h : (fifo N).Reaches CleanCall s) :
    ∃ r, s.ring = some r ∧ r.len = s.queue.length ∧ r.front = some s.queue.head? ∧
      r.contents = some s.queue ∧
      (∃ r', r.pop = some r' ∧ r'.contents = some s.queue.tail) ∧
      ∀ data : Bytes, data.length ≤ 65535 → r.CleanPush data →
        (r.frontDrop = false → ∃ accepted r', r.push data = some (accepted, r') ∧
          r'.contents = some (if accepted then s.queue ++ [data] else s.queue)) ∧
        (r.frontDrop = true → LEN_SIZE + data.length ≤ N →
          ∃ r' k, r.push data = some (true, r') ∧
            r'.contents = some (s.queue.drop k ++ [data])) := by
  obtain ⟨r, hr, hq⟩ := holds_of_reaches hN h
  refine ⟨r, hr, hq.count, hq.front, hq.contents, ?_, fun data hd hclean => ⟨fun hf => ?_,
    fun hf hfit => ?_⟩⟩
  · obtain ⟨r', hpop, hr', -⟩ := hq.pop
    exact ⟨r', hpop, hr'.contents⟩
  · obtain ⟨accepted, r', hpush, hr', -⟩ := hq.push_tailDrop hf hd hclean
    exact ⟨accepted, r', hpush, hr'.contents⟩
  · obtain ⟨r', k, hpush, -, hr', -⟩ := hq.push_frontDrop hf hfit hd hclean
    exact ⟨r', k, hpush, hr'.contents⟩

theorem fifo_of_clean_calls_wrapping :
    ∃ s : State 16, s.queue = [[5, 6, 7, 8], [9, 10, 11]] ∧
      ∃ r, s.ring = some r ∧ r.front = some (some [5, 6, 7, 8]) ∧
        r.contents = some [[5, 6, 7, 8], [9, 10, 11]] := by
  obtain ⟨calls, hcalls⟩ : ∃ calls : List Call, calls =
      [.push [1, 2, 3, 4], .push [5, 6, 7, 8], .pop, .push [9, 10, 11]] := ⟨_, rfl⟩
  have hclean : System.Meets next CleanCall (⟨some (new 16), []⟩ : State 16) calls := by
    rw [hcalls]
    decide
  have hstart : (fifo 16).Reaches CleanCall ⟨some (new 16), []⟩ := .init (Or.inl rfl)
  have hrun : (fifo 16).Reaches CleanCall (run 16 calls) :=
    hstart.foldl (fun _ _ h => ⟨h, rfl⟩) hclean
  have hqueue : (run 16 calls).queue = [[5, 6, 7, 8], [9, 10, 11]] := by
    rw [hcalls]
    decide
  obtain ⟨r, hr, -, hfront, hcontents, -⟩ := fifo_of_clean_calls (by decide) hrun
  rw [hqueue] at hfront hcontents
  exact ⟨_, hqueue, r, hr, hfront, hcontents⟩

/-- Four ways out of the clean positions: a gap of one cell has no room for the marker;
a push into a ring filled to the last byte overwrites the oldest packet, and a second
wrap a younger one; an empty packet away from position 0 is skipped. -/
theorem ring_breaks_queue :
    (run 16 [.push [1, 2, 3], .push [1, 2, 3, 4, 5, 6, 7, 8], .pop, .push [9]]).ring = none ∧
    (run 8 [.push [1, 2], .push [3, 4], .push [5, 6]]).queue.head? = some [1, 2] ∧
    (run 8 [.push [1, 2], .push [3, 4], .push [5, 6]]).ring.bind front = some (some [5, 6]) ∧
    (run 16 [.push [1, 2, 3, 4, 5, 6, 7, 8, 9, 10], .push [1, 2], .pop, .push [3, 3, 3, 3, 3, 3],
      .push [7, 7, 7, 7, 7, 7, 7, 7], .pop]).queue.head? = some [3, 3, 3, 3, 3, 3] ∧
    (run 16 [.push [1, 2, 3, 4, 5, 6, 7, 8, 9, 10], .push [1, 2], .pop, .push [3, 3, 3, 3, 3, 3],
      .push [7, 7, 7, 7, 7, 7, 7, 7], .pop]).ring.bind front =
        some (some [7, 7, 7, 7, 7, 7, 7, 7]) ∧
    (run 16 [.push [1], .push [], .pop]).queue.head? = some [] ∧
    (run 16 [.push [1], .push [], .pop]).ring.bind front = some (some [1]) := by
  decide

end Ring
end Leodos
