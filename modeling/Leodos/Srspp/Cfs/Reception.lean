/-
A connection at the endpoint.

The packets of a connection arrive in any order and any number of times, among packets
of other sources and the consumer's receive calls.  The endpoint takes DATA that
arrives after the EOS was passed for a new connection; a run without such an arrival
hands out no message twice and the end of the stream once.
-/
import Leodos.Srspp.Cfs.Connection
import Leodos.Srspp.Receiver.Equivalence
import Leodos.Transition.System

namespace Leodos
namespace Srspp
namespace Cfs

open Container Isl Spp Reorder Transition

/-- The endpoint with what the consumer was handed.  `window` and `offered` depend on
the arrivals that found a stream: the packets a reorder window would hold, and the
packets that arrived while inside the window. -/
structure Reception (σ : Type) (REASM MAX_STREAMS : Nat) where
  state : MultiReceiverState σ REASM MAX_STREAMS
  window : Window Packet
  offered : Nat → Prop
  log : List (Address × RecvEvent)

/-- Packet `a` of the connection arrives, a packet of another source arrives, or the
consumer asks for an event. -/
inductive Event where
  | segment (a now : Nat) (written : Bool)
  | stray (p : Incoming) (now : Nat) (written : Bool)
  | recv (view : Option Address) (room : Nat)

namespace Reception

variable {σ : Type} {REASM MAX_STREAMS : Nat}

def start (σ : Type) (REASM MAX_STREAMS : Nat) (config : ReceiverConfig) :
    Reception σ REASM MAX_STREAMS :=
  ⟨.new σ REASM MAX_STREAMS config, .empty, fun _ => False, []⟩

/-- The state after packet `a` left `state` behind. -/
def taking (WIN : Nat) (c : Connection) (d : Reception σ REASM MAX_STREAMS) (a : Nat) (p : Packet)
    (state : MultiReceiverState σ REASM MAX_STREAMS) : Reception σ REASM MAX_STREAMS where
  state := state
  window := if state.streams.containsKey c.source then (d.window.accept WIN a p).2 else d.window
  offered n := d.offered n ∨ state.streams.containsKey c.source = true ∧ n = a ∧
    d.window.next ≤ n ∧ n < d.window.next + WIN
  log := d.log

def receiving (d : Reception σ REASM MAX_STREAMS)
    (r : Option (Except TransportError (Address × RecvEvent)) ×
      MultiReceiverState σ REASM MAX_STREAMS) : Reception σ REASM MAX_STREAMS :=
  { d with
    state := r.2
    log := match r.1 with
      | some (.ok x) => d.log ++ [x]
      | _ => d.log }

def step (S : Slots σ) (WIN : Nat) (c : Connection) (d : Reception σ REASM MAX_STREAMS) :
    Event → Reception σ REASM MAX_STREAMS → Prop
  | .segment a now written, d' => d.state.error = none ∧ ∃ inc p state ack,
      c.incoming a = some inc ∧ c.stream[a]? = some p ∧
      d.state.runPacket S WIN now written inc = some (state, ack) ∧ d' = d.taking WIN c a p state
  | .stray inc now written, d' => d.state.error = none ∧ inc.source ≠ some c.source ∧
      ∃ state ack, d.state.runPacket S WIN now written inc = some (state, ack) ∧
        d' = { d with state }
  | .recv view room, d' => d' = d.receiving (d.state.recv view room)

def dataOf (source : Address) (log : List (Address × RecvEvent)) : List Bytes :=
  log.filterMap fun
    | (a, .data copied) => if a = source then some copied else none
    | (_, .eos) => none

def eosCount (source : Address) (log : List (Address × RecvEvent)) : Nat :=
  log.count (source, .eos)

/-- The arrival of packet `a` of the connection is not DATA behind the passed EOS, its
count is not mistaken for another packet of the window, its slot is its own and the
storage keeps what it holds. -/
structure Admits (S : Slots σ) (WIN : Nat) (c : Connection) (d : Reception σ REASM MAX_STREAMS)
    (a : Nat) : Prop where
  live : a < c.eosIndex → (d.state.streamOf S c.source).eosReached = false
  denotes : Denotes WIN d.window a
  apart : SlotApart WIN d.window a
  keeps : ∀ p, c.stream[a]? = some p →
    KeepsStored S WIN (d.state.streamOf S c.source).machine (.handleData (seqOf a) p.1 p.2)

def AdmitsEvent (S : Slots σ) (WIN : Nat) (c : Connection) (d : Reception σ REASM MAX_STREAMS) :
    Event → Prop
  | .segment a _ _ => d.Admits S WIN c a
  | _ => True

end Reception

def reception {σ : Type} (S : Slots σ) (WIN REASM MAX_STREAMS : Nat) (config : ReceiverConfig)
    (c : Connection) : System (Reception σ REASM MAX_STREAMS) Event where
  init d := d = .start σ REASM MAX_STREAMS config
  step d e d' := d.step S WIN c e d'

section Run

variable {σ : Type} {S : Slots σ} {WIN REASM MAX_STREAMS : Nat} {c : Connection}
variable {config : ReceiverConfig}

/-- What a run keeps of the connection's stream. -/
structure Reception.Inv (S : Slots σ) (WIN : Nat) (c : Connection)
    (d : Reception σ REASM MAX_STREAMS) (stream : StreamState σ REASM) : Prop where
  follows : Follows S WIN c.stream stream.machine d.window
  inside : d.window.next ≤ c.stream.length
  handed : ∃ whole, List.Forall₂ (· <+: ·) (dataOf c.source d.log) whole ∧
    (whole ++ stream.machine.reasm.message.toList).Sublist (c.completed d.window.next)
  observed : eosCount c.source d.log = if stream.eosObserved then 1 else 0
  eosSeq : stream.eosSeq = none ∨ stream.eosSeq = some (seqOf c.eosIndex)
  marked : d.window.received c.eosIndex = true → stream.eosSeq ≠ none
  offered : ∀ n, d.offered n → d.window.received n = true

theorem Reception.inv_start : (Reception.start σ REASM MAX_STREAMS config).Inv S WIN c
    ((Reception.start σ REASM MAX_STREAMS config).state.streamOf S c.source) where
  follows := follows_new S WIN REASM c.stream
  inside := Nat.zero_le _
  handed := ⟨[], .nil, List.nil_sublist _⟩
  observed := rfl
  eosSeq := Or.inl rfl
  marked := by simp [start, Window.empty, Window.received]
  offered := by simp [start]

namespace Reception

variable {d : Reception σ REASM MAX_STREAMS} {stream stream' : StreamState σ REASM}

theorem Inv.congr {d' : Reception σ REASM MAX_STREAMS} (h : d.Inv S WIN c stream)
    (hwin : d'.window = d.window) (hlog : d'.log = d.log)
    (hoff : ∀ n, d'.offered n → d.offered n) : d'.Inv S WIN c stream where
  follows := by rw [hwin]; exact h.follows
  inside := by rw [hwin]; exact h.inside
  handed := by rw [hwin, hlog]; exact h.handed
  observed := by rw [hlog]; exact h.observed
  eosSeq := h.eosSeq
  marked := by rw [hwin]; exact h.marked
  offered := by rw [hwin]; exact fun n hn => h.offered n (hoff n hn)

theorem Inv.passing (h : d.Inv S WIN c stream) {a : Nat} {p : Packet}
    (hlive : a < c.eosIndex → stream.eosReached = false) (hp : c.stream[a]? = some p)
    (hbefore : d.window.next ≤ c.eosIndex)
    (hafter : c.eosIndex < (d.window.accept WIN a p).2.next) :
    (c.recorded a stream).eosSeq = some (seqOf c.eosIndex) ∧
      seqStrictlyPast (seqOf d.window.next) (seqOf c.eosIndex) = false := by
  rw [Connection.recorded_eosSeq h.eosSeq]
  have hnext : a = d.window.next := by
    by_cases hne : a = d.window.next
    · exact hne
    · rw [Window.accept_next_of_ne p hne] at hafter
      omega
  by_cases ha : a = c.eosIndex
  · rw [if_pos ha, ← hnext, ha]
    exact ⟨rfl, seqStrictlyPast_self _⟩
  · rw [if_neg ha]
    have hlt : a < c.eosIndex := by
      have := (List.getElem?_eq_some_iff.1 hp).1
      rw [c.stream_length] at this
      omega
    have hmark : d.window.received c.eosIndex = true :=
      (Window.received_of_accept ((Window.received_iff _ _).2 (Or.inl hafter))).resolve_right
        fun he => ha he.symm
    have heos := h.eosSeq.resolve_left (h.marked hmark)
    have hnot := hlive hlt
    rw [StreamState.eosReached, heos, h.follows.expected] at hnot
    exact ⟨heos, hnot⟩

variable (hW : 0 < WIN) (hW16 : WIN ≤ 16) (hfit : FitsAll REASM none c.stream)

include hW hW16 hfit in
/-- Step lemma for the packets of the connection.  The backend takes the packet, and
the stream it leaves keeps the invariant. -/
theorem Inv.arrive (h : d.Inv S WIN c (d.state.streamOf S c.source)) {a : Nat} {p : Packet}
    (hp : c.stream[a]? = some p) (hok : d.Admits S WIN c a) :
    ∃ machine outcome, (d.state.streamOf S c.source).machine.handleData S WIN (seqOf a) p.1 p.2 =
        some (machine, .ok outcome) ∧
      ∀ state stream', state.streams.get c.source = some stream' →
        MultiReceiverState.Driven (c.recorded a (d.state.streamOf S c.source)) machine outcome
          stream' →
        (d.taking WIN c a p state).Inv S WIN c stream' := by
  have hpass := h.passing hok.live hp
  have hkeeps := hok.keeps p hp
  generalize d.state.streamOf S c.source = stream at h hpass hkeeps ⊢
  obtain ⟨hrecm, -, hreco⟩ := c.recorded_fields a stream
  obtain ⟨reasm, hpush, hpart, hsub⟩ := Reassembly.pushAll_sublist (h.follows.fits hfit hp)
  obtain ⟨machine, outcome, hcall, hfollows, hreasm⟩ :=
    h.follows.accept hW hW16 hp hok.denotes hok.apart hkeeps hpush hpart
  subst hreasm
  refine ⟨machine, outcome, hcall, fun state stream' hget hdriven => ?_⟩
  have hkey : state.streams.containsKey c.source = true := by
    rw [LinearMap.containsKey, hget]
    rfl
  have hwin : (d.taking WIN c a p state).window = (d.window.accept WIN a p).2 := if_pos hkey
  obtain ⟨new, hnew, hmsg⟩ := arrival_messages (c.recorded a stream) hfit
    (by rw [hrecm]; exact h.follows) h.inside hp hfollows (by rw [hrecm]; exact hpush)
    (by rw [hrecm]; exact hsub) hpass
  rw [← hdriven.machine, hrecm] at hmsg
  constructor
  · rw [hwin, hdriven.machine]
    rcases drainEos_cases (c.recorded a stream).eosSeq
      (c.recorded a stream).machine.base.expectedSeq machine with he | he
    · rw [he]
      exact hfollows
    · rw [he]
      exact hfollows.takeMessage
  · rw [hwin]
    exact h.follows.source.accept_next_le hp h.inside
  · obtain ⟨whole, hpre, hwhole⟩ := h.handed
    refine ⟨whole, hpre, ?_⟩
    rw [hwin, hnew]
    refine (hmsg.append_left whole).trans ?_
    rw [← List.append_assoc]
    exact hwhole.append_right new
  · rw [hdriven.eosObserved, hreco]
    exact h.observed
  · rw [hdriven.eosSeq, Connection.recorded_eosSeq h.eosSeq]
    by_cases ha : a = c.eosIndex
    · exact Or.inr (if_pos ha)
    · rw [if_neg ha]
      exact h.eosSeq
  · intro hmark
    rw [hwin] at hmark
    rw [hdriven.eosSeq, Connection.recorded_eosSeq h.eosSeq]
    by_cases ha : a = c.eosIndex
    · rw [if_pos ha]
      exact Option.some_ne_none _
    · rw [if_neg ha]
      exact h.marked ((Window.received_of_accept hmark).resolve_right fun he => ha he.symm)
  · rw [hwin]
    rintro n (hn | ⟨-, rfl, -, hhi⟩)
    · exact Window.received_accept_of (Or.inl (h.offered n hn))
    · exact Window.received_accept_of (Or.inr ⟨rfl, hhi⟩)

include hW hW16 hfit in
theorem Inv.segment (h : d.Inv S WIN c (d.state.streamOf S c.source)) {a : Nat} {p : Packet}
    {inc : Incoming} (hinc : c.incoming a = some inc) (hp : c.stream[a]? = some p)
    (hok : d.Admits S WIN c a) (now : Nat) (written : Bool) :
    ∃ state ack, d.state.runPacket S WIN now written inc = some (state, ack) ∧
      (d.taking WIN c a p state).Inv S WIN c (state.streamOf S c.source) := by
  by_cases hroom : d.state.HasRoom c.source
  · obtain ⟨machine, outcome, hcall, hstep⟩ := h.arrive hW hW16 hfit hp hok
    obtain ⟨s₁, stream', ack, res, hproc, hget, hdriven⟩ :=
      Connection.processData_ok now written hinc hp hroom hok.live hcall
    obtain ⟨state, hrun, hstreams, -, -⟩ := MultiReceiverState.runPacket_of_processData hproc
    rw [← hstreams] at hget
    refine ⟨state, ack, hrun, ?_⟩
    rw [MultiReceiverState.streamOf_of_get hget]
    exact hstep state stream' hget hdriven
  · obtain ⟨s₁, ack, res, hproc, hget⟩ :=
      Connection.processData_full S WIN now written hinc hp hroom hok.live
    obtain ⟨state, hrun, hstreams, hconfig, -⟩ :=
      MultiReceiverState.runPacket_of_processData hproc
    rw [← hstreams] at hget
    refine ⟨state, ack, hrun, ?_⟩
    have hkey : ¬ state.streams.containsKey c.source = true := by
      rw [LinearMap.containsKey, hget]
      exact Bool.false_ne_true
    have hwin : (d.taking WIN c a p state).window = d.window := if_neg hkey
    have hsame : state.streamOf S c.source = d.state.streamOf S c.source := by
      rw [MultiReceiverState.streamOf, MultiReceiverState.streamOf, hget, hconfig,
        (MultiReceiverState.frame_processData hproc).1, MultiReceiverState.get_of_full hroom]
    rw [hsame]
    exact h.congr hwin rfl fun n hn => hn.resolve_right fun hin => hkey hin.1

omit hW hW16 hfit in
theorem Inv.stray (h : d.Inv S WIN c (d.state.streamOf S c.source)) {inc : Incoming} {now : Nat}
    {written : Bool} {state : MultiReceiverState σ REASM MAX_STREAMS} {ack : Option AckPacket}
    (hsrc : inc.source ≠ some c.source)
    (hrun : d.state.runPacket S WIN now written inc = some (state, ack)) :
    ({ d with state } : Reception σ REASM MAX_STREAMS).Inv S WIN c
      (state.streamOf S c.source) := by
  obtain ⟨s₁, res, hproc, hstreams, hconfig⟩ := MultiReceiverState.processData_of_runPacket hrun
  obtain ⟨hconfig₁, -, hget⟩ := MultiReceiverState.frame_processData hproc
  have hsame : state.streamOf S c.source = d.state.streamOf S c.source := by
    rw [MultiReceiverState.streamOf, MultiReceiverState.streamOf, hstreams, hconfig, hconfig₁,
      hget c.source hsrc]
  rw [hsame]
  exact h.congr rfl rfl fun n hn => hn

theorem dataOf_append (source : Address) (log log' : List (Address × RecvEvent)) :
    dataOf source (log ++ log') = dataOf source log ++ dataOf source log' :=
  List.filterMap_append

theorem eosCount_append (source : Address) (log log' : List (Address × RecvEvent)) :
    eosCount source (log ++ log') = eosCount source log + eosCount source log' :=
  List.count_append

omit hW hW16 hfit in
theorem Inv.takeData (h : d.Inv S WIN c stream) {d' : Reception σ REASM MAX_STREAMS} {msg : Bytes}
    {room : Nat} (hmsg : stream.machine.reasm.message = some msg) (hwin : d'.window = d.window)
    (hoff : d'.offered = d.offered) (hlog : d'.log = d.log ++ [(c.source, .data (msg.take room))]) :
    d'.Inv S WIN c { stream with machine := stream.machine.takeMessage.2 } where
  follows := by rw [hwin]; exact h.follows.takeMessage
  inside := by rw [hwin]; exact h.inside
  handed := by
    obtain ⟨whole, hpre, hsub⟩ := h.handed
    refine ⟨whole ++ [msg], ?_, ?_⟩
    · have hone : dataOf c.source [(c.source, .data (msg.take room))] = [msg.take room] := by
        simp [dataOf]
      rw [hlog, dataOf_append, hone]
      exact List.rel_append hpre (.cons (List.take_prefix _ _) .nil)
    · rw [hwin]
      rw [hmsg] at hsub
      have hnil : stream.machine.takeMessage.2.reasm.message.toList = [] := rfl
      rw [hnil, List.append_nil]
      exact hsub
  observed := by
    have hzero : eosCount c.source [(c.source, RecvEvent.data (msg.take room))] = 0 := by
      simp [eosCount]
    rw [hlog, eosCount_append, hzero]
    exact h.observed
  eosSeq := h.eosSeq
  marked := by rw [hwin]; exact h.marked
  offered := by rw [hwin, hoff]; exact h.offered

omit hW hW16 hfit in
theorem Inv.takeEos (h : d.Inv S WIN c stream) {d' : Reception σ REASM MAX_STREAMS}
    (hobs : stream.eosObserved = false) (hwin : d'.window = d.window)
    (hoff : d'.offered = d.offered) (hlog : d'.log = d.log ++ [(c.source, .eos)]) :
    d'.Inv S WIN c { stream with eosObserved := true } where
  follows := by rw [hwin]; exact h.follows
  inside := by rw [hwin]; exact h.inside
  handed := by
    rw [hwin, hlog, dataOf_append, show dataOf c.source [(c.source, .eos)] = [] from rfl,
      List.append_nil]
    exact h.handed
  observed := by
    have hone : eosCount c.source [(c.source, RecvEvent.eos)] = 1 := by simp [eosCount]
    rw [hlog, eosCount_append, hone, h.observed, hobs]
    rfl
  eosSeq := h.eosSeq
  marked := by rw [hwin]; exact h.marked
  offered := by rw [hwin, hoff]; exact h.offered

omit hW hW16 hfit in
theorem Inv.recv (h : d.Inv S WIN c (d.state.streamOf S c.source)) (view : Option Address)
    (room : Nat) : (d.receiving (d.state.recv view room)).Inv S WIN c
      ((d.receiving (d.state.recv view room)).state.streamOf S c.source) := by
  rcases hr : d.state.recv view room with ⟨res, state⟩
  rcases MultiReceiverState.recv_cases hr with
    ⟨rfl, hnone⟩ | ⟨source, ev, stream, stream', rfl, hget, htake, rfl⟩
  · have hlog : (d.receiving (res, d.state)).log = d.log := by
      rcases res with _ | _ | x
      · rfl
      · rfl
      · exact absurd rfl (hnone x)
    exact h.congr rfl hlog fun n hn => hn
  · have hframe : MultiReceiverState.Frame source d.state
        (d.state.modifyStream source fun _ => stream') := MultiReceiverState.frame_modifyStream _
    show Inv S WIN c _ ((d.state.modifyStream source fun _ => stream').streamOf S c.source)
    by_cases hsrc : source = c.source
    · subst hsrc
      have hget' : (d.state.modifyStream c.source fun _ => stream').streams.get c.source =
          some stream' :=
        (LinearMap.get_modify_self _ _ _).trans (congrArg (Option.map _) hget)
      rw [MultiReceiverState.streamOf_of_get hget']
      rw [MultiReceiverState.streamOf_of_get hget] at h
      rcases takeRecvEvent_cases htake with ⟨msg, hmsg, rfl, rfl⟩ | ⟨hmsg, rfl, hobs, -, rfl⟩
      · exact h.takeData hmsg rfl rfl rfl
      · exact h.takeEos hobs rfl rfl rfl
    · rw [hframe.streamOf fun he => hsrc he.symm]
      have hdata : dataOf c.source [(source, ev)] = [] := by
        cases ev with
        | data copied => simp [dataOf, hsrc]
        | eos => rfl
      have heos : eosCount c.source [(source, ev)] = 0 := by
        rw [eosCount, List.count_eq_zero, List.mem_singleton]
        exact fun he => hsrc (congrArg Prod.fst he).symm
      refine ⟨h.follows, h.inside, ?_, ?_, h.eosSeq, h.marked, h.offered⟩
      · show ∃ whole, List.Forall₂ _ (dataOf c.source (d.log ++ [(source, ev)])) whole ∧ _
        rw [dataOf_append, hdata, List.append_nil]
        exact h.handed
      · show eosCount c.source (d.log ++ [(source, ev)]) = _
        rw [eosCount_append, heos]
        exact h.observed

include hW hW16 hfit in
theorem inv_of_reaches {d : Reception σ REASM MAX_STREAMS}
    (h : (reception S WIN REASM MAX_STREAMS config c).Reaches (Reception.AdmitsEvent S WIN c) d) :
    d.Inv S WIN c (d.state.streamOf S c.source) := by
  refine h.invariant (fun d => d.Inv S WIN c (d.state.streamOf S c.source)) ?_ ?_
  · rintro _ rfl
    exact Reception.inv_start
  · intro d e d' hinv hok hstep
    cases e with
    | segment a now written =>
      obtain ⟨-, inc, p, state, ack, hinc, hp, hrun, rfl⟩ := hstep
      obtain ⟨state', ack', hrun', hinv'⟩ := hinv.segment hW hW16 hfit hinc hp hok now written
      rw [hrun, Option.some.injEq, Prod.mk.injEq] at hrun'
      obtain ⟨rfl, -⟩ := hrun'
      exact hinv'
    | stray inc now written =>
      obtain ⟨-, hsrc, state, ack, hrun, rfl⟩ := hstep
      exact hinv.stray hsrc hrun
    | recv view room =>
      obtain rfl := hstep
      exact hinv.recv view room

end Reception

end Run

theorem Connection.completed_sublist {c : Connection}
    (hmp : ∀ msg ∈ c.messages, msg.length ≤ c.mp ∨ 0 < c.mp) (n : Nat) :
    (c.completed n).Sublist c.messages := by
  have hsplit := feedAll_append none (c.dataPackets.take n) (c.dataPackets.drop n)
  rw [List.take_append_drop, Connection.dataPackets, feedAll_packets hmp] at hsplit
  have hmsgs := congrArg Prod.snd hsplit
  simp only at hmsgs
  rw [hmsgs]
  exact List.sublist_append_left _ _

/-- No message of a connection is handed out twice, and its end once, by either backend
and among any other traffic.  In a run without DATA of the connection behind its passed
EOS, what was handed out comes from different messages in order; the EOS was reported at
most once, and once when every packet was offered inside the window and no event is
left; and the next admitted packet is processed. -/
theorem no_duplicate_across_eos {σ : Type} {S : Slots σ} {WIN REASM MAX_STREAMS : Nat}
    {config : ReceiverConfig} {c : Connection} (hW : 0 < WIN) (hW16 : WIN ≤ 16)
    (hmp : ∀ msg ∈ c.messages, msg.length ≤ c.mp ∨ 0 < c.mp)
    (hroom : ∀ msg ∈ c.messages, msg.length ≤ REASM) {d : Reception σ REASM MAX_STREAMS}
    (h : (reception S WIN REASM MAX_STREAMS config c).Reaches (Reception.AdmitsEvent S WIN c) d) :
    (∃ whole, List.Forall₂ (· <+: ·) (Reception.dataOf c.source d.log) whole ∧
        whole.Sublist c.messages) ∧
      Reception.eosCount c.source d.log ≤ 1 ∧
      ((∀ n ≤ c.eosIndex, d.offered n) → (d.state.streamOf S c.source).peekRecvEvent = none →
        Reception.eosCount c.source d.log = 1) ∧
      ∀ a ≤ c.eosIndex, d.state.error = none → d.Admits S WIN c a → ∀ now written,
        ∃ d', d.step S WIN c (.segment a now written) d' := by
  have hfit := Connection.fits hmp hroom
  have hinv := Reception.inv_of_reaches hW hW16 hfit h
  refine ⟨?_, ?_, fun hoff hpeek => ?_, fun a ha herr hok now written => ?_⟩
  · obtain ⟨whole, hpre, hsub⟩ := hinv.handed
    exact ⟨whole, hpre, ((List.sublist_append_left _ _).trans hsub).trans
      (Connection.completed_sublist hmp _)⟩
  · rw [hinv.observed]
    split <;> omega
  · have hrecv := fun n hn => hinv.offered n (hoff n hn)
    have hend : d.window.next = c.eosIndex + 1 := by
      have hle := hinv.follows.source.complete fun n hn => by
        rw [c.stream_length] at hn
        exact (Window.received_iff _ n).1 (hrecv n (by omega))
      have hin := hinv.inside
      rw [c.stream_length] at hle hin
      omega
    have heos := hinv.eosSeq.resolve_left (hinv.marked (hrecv _ (Nat.le_refl _)))
    have hreached : (d.state.streamOf S c.source).eosReached = true := by
      rw [StreamState.eosReached, heos, hinv.follows.expected, hend]
      exact seqStrictlyPast_succ _
    have hobs : (d.state.streamOf S c.source).eosObserved = true := by
      cases hob : (d.state.streamOf S c.source).eosObserved with
      | true => rfl
      | false =>
        unfold StreamState.peekRecvEvent at hpeek
        rw [if_pos (⟨hob, hreached⟩ : _ ∧ _)] at hpeek
        split at hpeek <;> cases hpeek
    rw [hinv.observed, if_pos hobs]
  · have hlt : a < c.stream.length := by
      rw [c.stream_length]
      omega
    have hp : c.stream[a]? = some c.stream[a] := List.getElem?_eq_getElem hlt
    obtain ⟨inc, hinc⟩ := Connection.exists_incoming hp
    obtain ⟨state, ack, hrun, -⟩ := hinv.segment hW hW16 hfit hinc hp hok now written
    exact ⟨_, herr, inc, _, state, ack, hinc, hp, hrun, rfl⟩

/-! ## Runs of a small endpoint -/

namespace Reception

/-- An endpoint with two streams of eight slots of four bytes after an event of the
connection. -/
def advance (c : Connection) (d : Reception FastSlots 8 2) : Event → Reception FastSlots 8 2
  | .segment a now written =>
      match (c.incoming a).bind (d.state.runPacket (FastReceiver.slotsOf 8 4) 8 now written ·) with
      | none => d
      | some (state, _) => d.taking 8 c a ((c.stream[a]?).getD (.unsegmented, [])) state
  | .stray .. => d
  | .recv view room => d.receiving (d.state.recv view room)

def enabled (c : Connection) (d : Reception FastSlots 8 2) : Event → Bool
  | .segment a now written => d.state.error.isNone && (c.stream[a]?).isSome &&
      ((c.incoming a).bind
        (d.state.runPacket (FastReceiver.slotsOf 8 4) 8 now written ·)).isSome
  | .stray .. => false
  | .recv .. => true

theorem advance_step {c : Connection} {d : Reception FastSlots 8 2} {e : Event}
    (h : d.enabled c e = true) : d.step (FastReceiver.slotsOf 8 4) 8 c e (d.advance c e) := by
  cases e with
  | segment a now written =>
    simp only [enabled, Bool.and_eq_true, Option.isNone_iff_eq_none] at h
    obtain ⟨⟨herr, hp⟩, hrun⟩ := h
    obtain ⟨p, hp⟩ := Option.isSome_iff_exists.1 hp
    obtain ⟨⟨state, ack⟩, hrun⟩ := Option.isSome_iff_exists.1 hrun
    obtain ⟨inc, hinc, hrun'⟩ := Option.bind_eq_some_iff.1 hrun
    refine ⟨herr, inc, p, state, ack, hinc, hp, hrun', ?_⟩
    simp only [advance, hrun, hp, Option.getD_some]
  | stray inc now written => simp [enabled] at h
  | recv view room => rfl

theorem advance_recv_offered (c : Connection) (d : Reception FastSlots 8 2) (view : Option Address)
    (room : Nat) : (d.advance c (.recv view room)).offered = d.offered := rfl

theorem advance_offered (c : Connection) (d : Reception FastSlots 8 2) (a now : Nat)
    (written : Bool) (h : d.enabled c (.segment a now written) = true)
    (hopen : (d.advance c (.segment a now written)).state.streams.containsKey c.source = true)
    (n : Nat) (hn : d.offered n ∨ n = a ∧ d.window.next ≤ n ∧ n < d.window.next + 8) :
    (d.advance c (.segment a now written)).offered n := by
  obtain ⟨-, inc, p, state, ack, -, -, -, he⟩ := advance_step h
  rw [he] at hopen ⊢
  exact hn.imp_right fun hin => ⟨hopen, hin⟩

end Reception

def ground : ReceiverConfig := ⟨.ground 1, true, 0, none⟩

def hello : Connection := ⟨.satellite ⟨1, 5⟩, 4, [[1]]⟩

/-- The message and the EOS arrive and are handed out; then the DATA packet arrives once
more and the same message is handed out again. -/
theorem late_data_handed_twice :
    hello.messages = [[1]] ∧
    ∃ d, (reception (FastReceiver.slotsOf 8 4) 8 8 2 ground hello).Reachable d ∧
      Reception.dataOf hello.source d.log = [[1], [1]] := by
  let events : List Event := [.segment 0 0 true, .recv none 8, .segment 1 0 true, .recv none 8,
    .segment 0 0 true, .recv none 8]
  refine ⟨rfl, events.foldl (Reception.advance hello) (.start FastSlots 8 2 ground), ?_, by decide⟩
  refine System.Reaches.foldl (r := fun d e => d.enabled hello e = true)
    (fun d e he => ⟨trivial, Reception.advance_step he⟩) (.init rfl) (by decide)

theorem Reception.admits_expected {d : Reception FastSlots 8 2} {a : Nat}
    (hnext : d.window.next = a)
    (hdist : (d.state.streamOf (FastReceiver.slotsOf 8 4) hello.source).machine.base.distance
      (seqOf a) = 0)
    (hlive : a < hello.eosIndex →
      (d.state.streamOf (FastReceiver.slotsOf 8 4) hello.source).eosReached = false) :
    d.Admits (FastReceiver.slotsOf 8 4) 8 hello a := by
  refine ⟨hlive, ?_, fun hlt => absurd hlt (by omega), ?_⟩
  · intro _
    subst hnext
    simp
  · intro p hp seq flags payload hcall hbuf
    cases hcall
    exact absurd hdist hbuf.1

/-- The same connection without the late packet. -/
theorem no_duplicate_across_eos_in_order :
    ∃ d, (reception (FastReceiver.slotsOf 8 4) 8 8 2 ground hello).Reachable d ∧
      Reception.dataOf hello.source d.log = [[1]] ∧
      Reception.eosCount hello.source d.log = 1 := by
  let S := FastReceiver.slotsOf 8 4
  obtain ⟨d₀, hd₀⟩ : ∃ d, d = Reception.start FastSlots 8 2 ground := ⟨_, rfl⟩
  obtain ⟨d₁, hd₁⟩ : ∃ d, d = d₀.advance hello (.segment 0 0 true) := ⟨_, rfl⟩
  obtain ⟨d₂, hd₂⟩ : ∃ d, d = d₁.advance hello (.recv none 8) := ⟨_, rfl⟩
  obtain ⟨d₃, hd₃⟩ : ∃ d, d = d₂.advance hello (.segment 1 0 true) := ⟨_, rfl⟩
  obtain ⟨d₄, hd₄⟩ : ∃ d, d = d₃.advance hello (.recv none 8) := ⟨_, rfl⟩
  have hnext₀ : d₀.window.next = 0 := by rw [hd₀]; decide
  have hnext₂ : d₂.window.next = 1 := by rw [hd₂, hd₁, hd₀]; decide
  have he₀ : d₀.enabled hello (.segment 0 0 true) = true := by rw [hd₀]; decide
  have he₂ : d₂.enabled hello (.segment 1 0 true) = true := by rw [hd₂, hd₁, hd₀]; decide
  have hs₀ : d₀.step S 8 hello (.segment 0 0 true) d₁ := hd₁ ▸ Reception.advance_step he₀
  have hs₁ : d₁.step S 8 hello (.recv none 8) d₂ := hd₂ ▸ Reception.advance_step rfl
  have hs₂ : d₂.step S 8 hello (.segment 1 0 true) d₃ := hd₃ ▸ Reception.advance_step he₂
  have hs₃ : d₃.step S 8 hello (.recv none 8) d₄ := hd₄ ▸ Reception.advance_step rfl
  have h₀ : d₀.Admits S 8 hello 0 :=
    Reception.admits_expected hnext₀ (by rw [hd₀]; decide) (by rw [hd₀]; decide)
  have h₂ : d₂.Admits S 8 hello 1 :=
    Reception.admits_expected hnext₂ (by rw [hd₂, hd₁, hd₀]; decide) fun h => absurd h (by decide)
  have hrun : (reception S 8 8 2 ground hello).Reaches (Reception.AdmitsEvent S 8 hello) d₄ :=
    .step (.recv none 8) (.step (.segment 1 0 true) (.step (.recv none 8)
      (.step (.segment 0 0 true) (.init hd₀) h₀ hs₀) trivial hs₁) h₂ hs₂) trivial hs₃
  have hoff : ∀ n ≤ hello.eosIndex, d₄.offered n := by
    have hoff₁ := Reception.advance_offered hello d₀ 0 0 true he₀ (by rw [hd₀]; decide)
    have hoff₃ := Reception.advance_offered hello d₂ 1 0 true he₂ (by rw [hd₂, hd₁, hd₀]; decide)
    rw [← hd₁] at hoff₁
    rw [← hd₃] at hoff₃
    have hoff₂ : d₂.offered = d₁.offered := by rw [hd₂, Reception.advance_recv_offered]
    have hoff₄ : d₄.offered = d₃.offered := by rw [hd₄, Reception.advance_recv_offered]
    intro n hn
    have h2 : n ≤ 1 := hn
    rw [hoff₄]
    refine hoff₃ n ?_
    by_cases h : n = 1
    · exact Or.inr ⟨h, by omega⟩
    · rw [hoff₂]
      exact Or.inl (hoff₁ n (Or.inr ⟨by omega, by omega⟩))
  refine ⟨d₄, hrun.reachable, by rw [hd₄, hd₃, hd₂, hd₁, hd₀]; decide, ?_⟩
  exact (no_duplicate_across_eos (by decide) (by decide) (by decide) (by decide) hrun).2.2.1 hoff
    (by rw [hd₄, hd₃, hd₂, hd₁, hd₀]; decide)

end Cfs
end Srspp
end Leodos
