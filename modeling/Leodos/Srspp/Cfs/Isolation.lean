/-
Peers do not reach each other through the endpoint.

As long as the stream of its source takes each packet and the gaps that are given up can
be skipped, nothing fails, and each stream is what the record of its own source makes of
it.
-/
import Mathlib.Data.List.Basic
import Mathlib.Data.List.Perm.Subperm
import Leodos.Srspp.Cfs.Run

namespace Leodos
namespace Srspp
namespace Cfs

open Container Isl Spp Transition

variable {σ : Type} {REASM MAX_STREAMS WIN MTU RX_WIN : Nat} {S : Slots σ} {ids : PacketIds}

/-! ## A source on its own -/

/-- What one entry of the record does to the stream of a source and to the events taken
from it. -/
def StreamState.replay (S : Slots σ) (RX_WIN : Nat) (config : ReceiverConfig) (source : Address) :
    Option (StreamState σ REASM) × List RecvEvent → Input →
      Option (StreamState σ REASM) × List RecvEvent
  | (stream, events), .packet now p =>
      (succeeded ((stream.getD (.new S REASM config source)).hear S RX_WIN now true config
        config.ackDelayTicks p), events)
  | (stream, events), .timeouts now =>
      (stream.bind (timeouts S RX_WIN now config config.ackDelayTicks), events)
  | (stream, events), .taken room =>
      match stream.bind (takeRecvEvent room) with
      | none => (stream, events)
      | some (ev, stream) => (some stream, events ++ [ev])

namespace MultiReceiverState

variable {s s' : MultiReceiverState σ REASM MAX_STREAMS} {source : Address}

theorem processData_full {p : Incoming} (hp : p.source = some source) (hroom : ¬ s.HasRoom source)
    (S : Slots σ) (WIN now : Nat) (written : Bool) :
    ∃ s', s.processData S WIN now written p = some (s', none, .ok ()) ∧ Frame source s s' ∧
      s'.streams.get source = none := by
  cases p with
  | data _ seq flags payload =>
    cases hp
    have hreap : s.reap source = s := by
      rw [reap, get_of_full hroom]
      exact if_neg Bool.false_ne_true
    obtain ⟨s', hdrive, hget⟩ := drive_full S WIN now written seq flags payload hroom
    refine ⟨s', ?_, frame_drive hdrive, hget⟩
    rw [processData, hreap]
    exact hdrive
  | eos _ seq flags =>
    cases hp
    obtain ⟨s', hdrive, hget⟩ := drive_full S WIN now written seq flags []
      (not_hasRoom_recordEos S seq hroom)
    exact ⟨s', hdrive, (frame_openStream.trans (frame_modifyStream _)).trans (frame_drive hdrive),
      hget⟩
  | other => cases hp

theorem processData_ok {p : Incoming} (hp : p.source = some source)
    (hhears : s.HasRoom source → (s.streamOf S source).Hears S RX_WIN s.config p) (now : Nat) :
    ∃ s' ack, s.processData S RX_WIN now true p = some (s', ack, .ok ()) ∧ Frame source s s' ∧
      (s.HasRoom source → s'.streams.get source = StreamState.succeeded
        ((s.streamOf S source).hear S RX_WIN now true s.config s.ackDelay p)) := by
  by_cases hroom : s.HasRoom source
  · obtain ⟨stream', ack, hhear⟩ := (StreamState.hear_ok_iff S RX_WIN now s.config s.ackDelay
      (s.streamOf S source) p).2 (hhears hroom)
    have hact := actsAs_processData S RX_WIN hp hroom now true
    rw [hhear] at hact
    obtain ⟨s', hrun, hframe, hget⟩ := hact
    refine ⟨s', ack, hrun, hframe, fun _ => ?_⟩
    rw [hget, hhear]
    rfl
  · obtain ⟨s', hrun, hframe, -⟩ := processData_full hp hroom S RX_WIN now true
    exact ⟨s', none, hrun, hframe, fun h => absurd h hroom⟩

theorem hears_of_processData {now : Nat} {p : Incoming} (hp : p.source = some source)
    {ack : Option AckPacket} (h : s.processData S RX_WIN now true p = some (s', ack, .ok ()))
    (hroom : s.HasRoom source) : (s.streamOf S source).Hears S RX_WIN s.config p := by
  have hact := actsAs_processData S RX_WIN hp hroom now true
  rw [h] at hact
  rw [← StreamState.hear_ok_iff S RX_WIN now s.config s.ackDelay]
  generalize (s.streamOf S source).hear S RX_WIN now true s.config s.ackDelay p = y at hact
  obtain _ | ⟨stream', ack', res⟩ := y
  · cases hact
  · obtain ⟨s₁, heq, -, -⟩ := hact
    cases heq
    exact ⟨stream', ack, rfl⟩

end MultiReceiverState

/-! ## The invariant -/

namespace Run

variable {d d' : Run σ REASM MAX_STREAMS WIN MTU} {config : ReceiverConfig}

/-- No error has been recorded, and the streams are those of the sources that were heard;
while these are few, each stream is what the record of its source makes of it. -/
structure Isolated (S : Slots σ) (RX_WIN : Nat) (config : ReceiverConfig)
    (d : Run σ REASM MAX_STREAMS WIN MTU) : Prop where
  quiet : d.Quiet
  settings : d.endpoint.rxState.config = config
  delay : d.endpoint.rxState.ackDelay = config.ackDelayTicks
  buffer : d.wire.txBuffer.length = MTU
  known : ∀ k, d.streamOf k ≠ none → ∃ x ∈ d.inputs, x.1 = k
  replay : d.Few → ∀ source, (d.streamOf source, d.eventsOf source) =
    (d.inputsOf source).foldl (StreamState.replay S RX_WIN config source) (none, [])

theorem isolated_new (S : Slots σ) (RX_WIN MAX_TX bufSize : Nat) (senderConfig : SenderConfig)
    (receiverConfig : ReceiverConfig) :
    (Run.new σ REASM MAX_STREAMS WIN MTU MAX_TX bufSize senderConfig receiverConfig).Isolated S
      RX_WIN receiverConfig where
  quiet := ⟨rfl, fun slot h => by rw [List.eq_of_mem_replicate h]; rfl⟩
  settings := rfl
  delay := rfl
  buffer := List.length_replicate
  known k h := absurd rfl h
  replay _ source := rfl

theorem Isolated.keep (h : d.Isolated S RX_WIN config)
    (hrx : d'.endpoint.rxState = d.endpoint.rxState) (hin : d'.inputs = d.inputs)
    (hev : d'.events = d.events) (hbuf : d'.wire.txBuffer.length = MTU)
    (hslots : ∀ slot ∈ d'.endpoint.txSlots, slot.state.error = none) :
    d'.Isolated S RX_WIN config where
  quiet := ⟨hrx ▸ h.quiet.1, hslots⟩
  settings := hrx ▸ h.settings
  delay := hrx ▸ h.delay
  buffer := hbuf
  known k hk := by
    rw [streamOf, hrx] at hk
    rw [hin]
    exact h.known k hk
  replay hfew source := by
    rw [Few, hin] at hfew
    rw [streamOf, hrx, eventsOf, hev, inputsOf, hin]
    exact h.replay hfew source

theorem filter_append_single {β : Type} (l : List (Address × β)) (source k : Address) (b : β) :
    ((l ++ [(k, b)]).filter fun x => x.1 = source).map Prod.snd =
      (l.filter fun x => x.1 = source).map Prod.snd ++ if k = source then [b] else [] := by
  rw [List.filter_append, List.map_append]
  by_cases hk : k = source
  · rw [if_pos hk, List.filter_cons_of_pos (by simpa using hk)]
    rfl
  · rw [if_neg hk, List.filter_cons_of_neg (by simpa using hk)]
    rfl

theorem hasRoom_of_few (h : d.Isolated S RX_WIN config) {source : Address} {i : Input}
    (hfew : Few { d with inputs := d.inputs ++ [(source, i)] }) :
    d.endpoint.rxState.HasRoom source := by
  obtain ⟨sources, hlen, hin⟩ := hfew
  by_cases hc : d.endpoint.rxState.streams.containsKey source = true
  · exact Or.inl hc
  · refine Or.inr ?_
    have hkeys : ∀ k ∈ source :: d.endpoint.rxState.streams.entries.map Prod.fst, k ∈ sources := by
      intro k hk
      rcases List.mem_cons.1 hk with rfl | hk
      · exact hin _ (List.mem_append_right _ (List.mem_singleton.2 rfl))
      · obtain ⟨e, he, rfl⟩ := List.mem_map.1 hk
        have hsome : d.streamOf e.1 ≠ none := by
          rw [streamOf, LinearMap.get_of_mem he]
          exact Option.some_ne_none _
        obtain ⟨x, hx, hx1⟩ := h.known e.1 hsome
        rw [← hx1]
        exact hin x (List.mem_append_left _ hx)
    have hnodup : (source :: d.endpoint.rxState.streams.entries.map Prod.fst).Nodup :=
      List.nodup_cons.2 ⟨fun hmem => hc (LinearMap.containsKey_iff.2 hmem),
        d.endpoint.rxState.streams.nodup⟩
    have hle := (List.subperm_of_subset hnodup hkeys).length_le
    rw [List.length_cons, List.length_map] at hle
    omega

theorem Few.of_append {l : List (Address × Input)}
    (h : Few { d with inputs := d.inputs ++ l }) : d.Few := by
  obtain ⟨sources, hlen, hin⟩ := h
  exact ⟨sources, hlen, fun x hx => hin x (List.mem_append_left _ hx)⟩

/-! ## The steps -/

theorem next_loop (h : d.Quiet) (S : Slots σ) (RX_WIN : Nat) (ids : PacketIds) (step : LoopStep) :
    d.next S RX_WIN ids (.loop step) = d.loop S RX_WIN ids step := by
  rw [next, h.1]

theorem heard_of_admits {packet : Bytes} {source : Address}
    (hsource : source ∈ (Incoming.ofBytes packet).source) (hadmits : d.endpoint.Admits source)
    (now : Nat) :
    d.endpoint.heard now packet = [(source, .packet now (.ofBytes packet))] := by
  have hsome : (Incoming.ofBytes packet).source = some source := hsource
  rw [SrsppEndpoint.heard, hsome]
  exact if_pos hadmits

theorem heard_nil {packet : Bytes}
    (h : ∀ source ∈ (Incoming.ofBytes packet).source, ¬ d.endpoint.Admits source) (now : Nat) :
    d.endpoint.heard now packet = [] := by
  rw [SrsppEndpoint.heard]
  cases hsource : (Incoming.ofBytes packet).source with
  | none => rfl
  | some source => exact if_neg (h source hsource)

theorem Isolated.input (h : d.Isolated S RX_WIN config) {source : Address} {i : Input}
    {s' : MultiReceiverState σ REASM MAX_STREAMS}
    (hframe : MultiReceiverState.Frame source d.endpoint.rxState s')
    {evs : List (Address × RecvEvent)} (hevs : ∀ x ∈ evs, x.1 = source)
    (hreplay : d.endpoint.rxState.HasRoom source →
      (s'.streams.get source, d.eventsOf source ++ evs.map Prod.snd) =
        StreamState.replay S RX_WIN config source (d.streamOf source, d.eventsOf source) i) :
    Isolated S RX_WIN config
      { d with
        endpoint := { d.endpoint with rxState := s' }
        inputs := d.inputs ++ [(source, i)]
        events := d.events ++ evs } where
  quiet := ⟨hframe.error.trans h.quiet.1, h.quiet.2⟩
  settings := hframe.config.trans h.settings
  delay := hframe.ackDelay.trans h.delay
  buffer := h.buffer
  known k hk := by
    by_cases hks : k = source
    · exact ⟨_, List.mem_append_right _ (List.mem_singleton.2 rfl), hks.symm⟩
    · have hget : s'.streams.get k = d.streamOf k := hframe.others k hks
      obtain ⟨x, hx, hxk⟩ := h.known k (hget ▸ hk)
      exact ⟨x, List.mem_append_left _ hx, hxk⟩
  replay hfew k := by
    have hold := h.replay (Few.of_append hfew) k
    show (s'.streams.get k, ((d.events ++ evs).filter fun x => x.1 = k).map Prod.snd) =
      (((d.inputs ++ [(source, i)]).filter fun x => x.1 = k).map Prod.snd).foldl _ _
    rw [filter_append_single, List.filter_append, List.map_append, List.foldl_append]
    show _ = List.foldl _ ((d.inputsOf k).foldl _ _) _
    rw [← hold]
    by_cases hk : source = k
    · subst hk
      have hall : evs.filter (fun x => x.1 = source) = evs :=
        List.filter_eq_self.2 fun x hx => by simpa using hevs x hx
      rw [if_pos rfl, hall]
      exact hreplay (hasRoom_of_few h hfew)
    · have hnone : evs.filter (fun x => x.1 = k) = [] := by
        refine List.filter_eq_nil_iff.2 fun x hx hxk => hk ?_
        rw [← hevs x hx]
        simpa using hxk
      rw [if_neg hk, hnone, hframe.others k (Ne.symm hk)]
      show (d.streamOf k, d.eventsOf k ++ []) = (d.streamOf k, d.eventsOf k)
      rw [List.append_nil]

theorem packet_step (ids : PacketIds) (h : d.Isolated S RX_WIN config) {now : Nat} {bytes : Bytes}
    (hok : d.Harmless S RX_WIN (.loop (.packet now bytes))) :
    ∃ d', d.next S RX_WIN ids (.loop (.packet now bytes)) = some (d', .ok ()) ∧
      d'.Isolated S RX_WIN config := by
  rw [next_loop h.quiet, loop]
  rcases SrsppEndpoint.handleIncoming_cases S RX_WIN now true d.endpoint bytes with
    ⟨source, hsource, hadmits, hcall⟩ | ⟨hunheard, txSlots, hcall, herr⟩
  · obtain ⟨s', ack, hrun, hframe, hget⟩ := MultiReceiverState.processData_ok (S := S) hsource
      (hok source hsource hadmits) now
    rw [hcall, hrun, heard_of_admits hsource hadmits]
    refine ⟨_, rfl, ?_⟩
    have hnone : ∀ x ∈ ([] : List (Address × RecvEvent)), x.1 = source :=
      fun x hx => absurd hx List.not_mem_nil
    have hstep := h.input (i := .packet now (.ofBytes bytes)) hframe hnone fun hroom => by
        rw [hget hroom, h.settings, h.delay, MultiReceiverState.streamOf, h.settings]
        show (_, d.eventsOf source ++ []) = (_, d.eventsOf source)
        rw [List.append_nil]
        rfl
    rw [List.append_nil] at hstep
    exact hstep
  · rw [hcall, heard_nil hunheard]
    exact ⟨_, rfl, h.keep rfl (List.append_nil _) rfl h.buffer (herr h.quiet.2)⟩

theorem packet_ok_iff (h : d.Isolated S RX_WIN config) (now : Nat) (bytes : Bytes) :
    (∃ d', d.next S RX_WIN ids (.loop (.packet now bytes)) = some (d', .ok ())) ↔
      d.Harmless S RX_WIN (.loop (.packet now bytes)) := by
  constructor
  · rintro ⟨d', hd'⟩ source hsource hadmits hroom
    rw [next_loop h.quiet, loop] at hd'
    rcases SrsppEndpoint.handleIncoming_cases S RX_WIN now true d.endpoint bytes with
      ⟨source', hsource', -, hcall⟩ | ⟨hunheard, -⟩
    · rw [hcall] at hd'
      obtain ⟨⟨endpoint, ack, res⟩, hrun, hclose⟩ := Option.map_eq_some_iff.1 hd'
      obtain ⟨⟨s', ack', res'⟩, hrun', heq⟩ := Option.map_eq_some_iff.1 hrun
      cases heq
      have hres : res = .ok () := by
        cases res with
        | ok u => rfl
        | error e => cases hclose
      rw [hres] at hrun'
      exact MultiReceiverState.hears_of_processData hsource hrun' hroom
    · exact absurd hadmits (hunheard source hsource)
  · intro hok
    obtain ⟨d', hd', -⟩ := packet_step ids h hok
    exact ⟨d', hd'⟩

theorem woken_filter (d : Run σ REASM MAX_STREAMS WIN MTU) (now : Nat) (k : Address) :
    ((d.endpoint.woken now).filter fun x => x.1 = k).map Prod.snd =
      match d.streamOf k with
      | none => []
      | some stream =>
          if StreamState.isPast now stream.ackDeadline ||
              StreamState.isPast now stream.progressDeadline then [.timeouts now]
          else [] := by
  have hentries := LinearMap.filter_key d.endpoint.rxState.streams k
  rw [SrsppEndpoint.woken, List.filter_map]
  show (((d.endpoint.rxState.streams.entries.filter _).filter fun e => e.1 = k).map _).map _ = _
  rw [List.filter_comm, hentries, streamOf]
  cases d.endpoint.rxState.streams.get k with
  | none => rfl
  | some stream =>
    show ((([(k, stream)].filter _).map _).map _ : List Input) = _
    dsimp only
    by_cases hpast : (StreamState.isPast now stream.ackDeadline ||
        StreamState.isPast now stream.progressDeadline) = true
    · rw [if_pos hpast, List.filter_cons, if_pos hpast]
      rfl
    · rw [if_neg hpast, List.filter_cons, if_neg hpast]
      rfl

theorem timeouts_of_not_past {now ackDelay : Nat} {stream : StreamState σ REASM}
    (h : (StreamState.isPast now stream.ackDeadline ||
      StreamState.isPast now stream.progressDeadline) = false) :
    stream.timeouts S RX_WIN now config ackDelay = some stream := by
  obtain ⟨hack, hprogress⟩ := Bool.or_eq_false_iff.1 h
  rw [StreamState.timeouts, StreamState.ackTimeout, hack]
  show stream.progressTimeout S RX_WIN now config ackDelay = some stream
  rw [StreamState.progressTimeout, hprogress]
  rfl

theorem timeouts_step (ids : PacketIds) (h : d.Isolated S RX_WIN config) {now rto : Nat}
    (hok : d.Harmless S RX_WIN (.loop (.timeouts now rto))) :
    ∃ d', d.next S RX_WIN ids (.loop (.timeouts now rto)) = some (d', .ok ()) ∧
      d'.Isolated S RX_WIN config := by
  obtain ⟨hskips, hfit⟩ := hok
  obtain ⟨s', acks, hrun, hset, hget⟩ := MultiReceiverState.handleTimeouts_ok S
    RX_WIN now d.endpoint.rxState
    fun source stream hstream hpast => hskips (source, stream) (LinearMap.mem_of_get hstream) hpast
  have hsound : TxSlot.AllSound d.endpoint.txSlots := fun slot hslot =>
    ⟨h.quiet.2 slot hslot, hfit slot hslot⟩
  obtain ⟨slots', w', hslots, herr, hbuf⟩ := TxSlot.forBound_ok
    (f := fun s w writes => s.handleTimeouts ids now rto w writes)
    (fun s w hs hw => SenderState.handleTimeouts_ok ids now rto hs hw) hsound h.buffer
  rw [next_loop h.quiet, loop, SrsppEndpoint.handleTimeouts, hrun]
  dsimp only
  rw [hslots]
  refine ⟨_, rfl, ⟨hset.error.trans h.quiet.1, herr⟩, hset.config.trans h.settings,
    hset.ackDelay.trans h.delay, hbuf, fun k hk => ?_, fun hfew k => ?_⟩
  · have hsome : d.streamOf k ≠ none := fun hnone => hk (by
      show s'.streams.get k = none
      have hnone' : d.endpoint.rxState.streams.get k = none := hnone
      rw [hget, hnone']
      rfl)
    obtain ⟨x, hx, hxk⟩ := h.known k hsome
    exact ⟨x, List.mem_append_left _ hx, hxk⟩
  · have hold := h.replay (Few.of_append hfew) k
    show (s'.streams.get k, d.eventsOf k) =
      (((d.inputs ++ d.endpoint.woken now).filter fun x => x.1 = k).map Prod.snd).foldl _ _
    rw [List.filter_append, List.map_append, List.foldl_append, woken_filter]
    show _ = List.foldl _ ((d.inputsOf k).foldl _ _) _
    rw [← hold, hget, h.settings, h.delay]
    show ((d.streamOf k).bind _, _) = _
    cases hstream : d.streamOf k with
    | none => rfl
    | some stream =>
      dsimp only
      by_cases hpast : (StreamState.isPast now stream.ackDeadline ||
          StreamState.isPast now stream.progressDeadline) = true
      · rw [if_pos hpast]
        rfl
      · rw [if_neg hpast]
        show (stream.timeouts S RX_WIN now config config.ackDelayTicks, _) = _
        rw [timeouts_of_not_past (Bool.eq_false_iff.2 hpast)]
        rfl

theorem transmit_step (ids : PacketIds) (h : d.Isolated S RX_WIN config) {now rto : Nat}
    (hok : d.Harmless S RX_WIN (.loop (.transmit now rto))) :
    ∃ d', d.next S RX_WIN ids (.loop (.transmit now rto)) = some (d', .ok ()) ∧
      d'.Isolated S RX_WIN config := by
  have hsound : TxSlot.AllSound d.endpoint.txSlots := fun slot hslot =>
    ⟨h.quiet.2 slot hslot, hok slot hslot⟩
  obtain ⟨slots', w', hslots, herr, hbuf⟩ := TxSlot.forBound_ok
    (f := fun s w writes => s.transmit ids now rto w writes)
    (fun s w hs hw => SenderState.transmit_ok ids now rto hs hw) hsound h.buffer
  rw [next_loop h.quiet, loop, SrsppEndpoint.transmit, hslots]
  exact ⟨_, rfl, h.keep rfl rfl rfl hbuf herr⟩

/-! ## The views -/

theorem errorFree_withFirst {α : Type} {p : TxSlot WIN MTU → Bool}
    {f : TxSlot WIN MTU → TxSlot WIN MTU × α}
    (hf : ∀ slot, slot.state.error = none → (f slot).1.state.error = none)
    {slots slots' : List (TxSlot WIN MTU)} {a : α}
    (h : TxSlot.withFirst p f slots = some (slots', a))
    (herr : ∀ slot ∈ slots, slot.state.error = none) : ∀ slot ∈ slots', slot.state.error = none :=
  (TxSlot.withFirst_some (P := fun slot => slot.state.error = none) hf h herr).1

theorem errorFree_withSender {α : Type} {e : SrsppEndpoint σ REASM MAX_STREAMS WIN MTU}
    {target : Address} {f : TxSlot WIN MTU → TxSlot WIN MTU × α}
    (hf : ∀ slot, slot.state.error = none → (f slot).1.state.error = none)
    (herr : ∀ slot ∈ e.txSlots, slot.state.error = none) :
    (((e.withSender target f).map Prod.fst).getD e).rxState = e.rxState ∧
      ∀ slot ∈ (((e.withSender target f).map Prod.fst).getD e).txSlots,
        slot.state.error = none := by
  rw [SrsppEndpoint.withSender]
  generalize hfirst : TxSlot.withFirst _ f e.txSlots = x
  obtain _ | ⟨txSlots, a⟩ := x
  · exact ⟨rfl, herr⟩
  · exact ⟨rfl, errorFree_withFirst hf hfirst herr⟩

theorem send_error (s : SenderState WIN MTU) (target : Address) (data : Bytes)
    (h : s.error = none) : (s.send target data).1.error = none := by
  rw [SenderState.send, h]
  dsimp only
  by_cases hroom : s.machine.availableBytes ≥ data.length ∧ s.machine.availableWindow > 0
  · rw [if_pos hroom]
    exact h
  · rw [if_neg hroom]
    exact h

theorem sendEos_error (s : SenderState WIN MTU) (target : Address) (h : s.error = none) :
    (s.sendEos target).1.error = none := by
  rw [SenderState.sendEos, h]
  dsimp only
  by_cases hroom : s.machine.availableWindow > 0
  · rw [if_pos hroom]
    exact h
  · rw [if_neg hroom]
    exact h

theorem call_quiet (e : SrsppEndpoint σ REASM MAX_STREAMS WIN MTU) (c : ViewCall)
    (herr : ∀ slot ∈ e.txSlots, slot.state.error = none) :
    (e.call c).rxState = e.rxState ∧ ∀ slot ∈ (e.call c).txSlots, slot.state.error = none := by
  cases c with
  | sender target =>
    rw [SrsppEndpoint.call, SrsppEndpoint.sender]
    by_cases hbound : (e.txSlots.any fun slot => slot.target = some target) = true
    · rw [if_pos hbound]
      exact ⟨rfl, herr⟩
    · rw [if_neg hbound]
      generalize hfirst : TxSlot.withFirst _ _ e.txSlots = x
      obtain _ | ⟨txSlots, u⟩ := x
      · exact ⟨rfl, herr⟩
      · exact ⟨rfl, errorFree_withFirst (fun _ _ => rfl) hfirst herr⟩
  | send target data =>
    exact errorFree_withSender (fun slot h => send_error slot.state target data h) herr
  | sendEos target =>
    exact errorFree_withSender (fun slot h => sendEos_error slot.state target h) herr
  | dropSender target => exact errorFree_withSender (fun _ _ => rfl) herr
  | receiver source =>
    rw [SrsppEndpoint.call, SrsppEndpoint.receiver]
    by_cases hmode : e.mode = .listener
    · rw [if_pos hmode]
      exact ⟨rfl, herr⟩
    rw [if_neg hmode]
    by_cases hmem : source ∈ e.boundSources
    · rw [if_pos hmem]
      exact ⟨rfl, herr⟩
    rw [if_neg hmem]
    by_cases hroom : e.boundSources.length < MAX_STREAMS
    · rw [if_pos hroom]
      exact ⟨rfl, herr⟩
    · rw [if_neg hroom]
      exact ⟨rfl, herr⟩
  | dropReceiver source => exact ⟨rfl, herr⟩
  | listener =>
    rw [SrsppEndpoint.call, SrsppEndpoint.listener]
    cases e.mode with
    | none => exact ⟨rfl, herr⟩
    | listener => exact ⟨rfl, herr⟩
    | receivers => exact ⟨rfl, herr⟩
  | dropListener => exact ⟨rfl, herr⟩
  | recv view room => exact ⟨rfl, herr⟩

theorem recv_step (h : d.Isolated S RX_WIN config) (view : Option Address) (room : Nat) :
    (d.view (.recv view room)).Isolated S RX_WIN config := by
  rw [Run.view]
  generalize hrecv : d.endpoint.rxState.recv view room = x
  obtain ⟨res, s'⟩ := x
  dsimp only
  rcases MultiReceiverState.recv_cases hrecv with
    ⟨rfl, hnone⟩ | ⟨source, ev, stream, stream', rfl, hget, htake, rfl⟩
  · obtain _ | e | ⟨source, ev⟩ := res
    · exact h.keep rfl rfl rfl h.buffer h.quiet.2
    · exact h.keep rfl rfl rfl h.buffer h.quiet.2
    · exact absurd rfl (hnone _)
  · refine h.input (MultiReceiverState.frame_modifyStream fun _ => stream')
      (fun x hx => (List.mem_singleton.1 hx) ▸ rfl) fun _ => ?_
    rw [MultiReceiverState.get_modifyStream hget, StreamState.replay]
    have hstream : d.streamOf source = some stream := hget
    rw [hstream, Option.bind_some, htake]
    rfl

theorem view_step (h : d.Isolated S RX_WIN config) (c : ViewCall) :
    (d.view c).Isolated S RX_WIN config := by
  have hcall := call_quiet d.endpoint c h.quiet.2
  cases c with
  | recv view room => exact recv_step h view room
  | _ => exact h.keep hcall.1 rfl rfl h.buffer hcall.2

theorem step_isolated (ids : PacketIds) (h : d.Isolated S RX_WIN config) {m : Move}
    (hok : d.Harmless S RX_WIN m) :
    ∃ d', d.next S RX_WIN ids m = some (d', .ok ()) ∧ d'.Isolated S RX_WIN config := by
  cases m with
  | loop step =>
    cases step with
    | packet now bytes => exact packet_step ids h hok
    | timeouts now rto => exact timeouts_step ids h hok
    | transmit now rto => exact transmit_step ids h hok
  | view c => exact ⟨_, rfl, view_step h c⟩

end Run

theorem isolated_of_runs {MAX_TX bufSize : Nat} {senderConfig : SenderConfig}
    {receiverConfig : ReceiverConfig} {d : Run σ REASM MAX_STREAMS WIN MTU}
    (h : (endpointRuns S RX_WIN ids REASM MAX_STREAMS WIN MTU MAX_TX bufSize senderConfig
      receiverConfig).Reaches (Run.Harmless S RX_WIN) d) :
    d.Isolated S RX_WIN receiverConfig := by
  refine h.invariant (fun d => d.Isolated S RX_WIN receiverConfig) ?_ ?_
  · rintro d rfl
    exact Run.isolated_new S RX_WIN MAX_TX bufSize senderConfig receiverConfig
  · rintro d m d' hd hok ⟨res, hstep⟩
    obtain ⟨d₁, hd₁, hiso⟩ := Run.step_isolated ids hd hok
    rw [hstep] at hd₁
    cases hd₁
    exact hiso

end Cfs
end Srspp
end Leodos
