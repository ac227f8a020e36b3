import MarketFeed.Server.TickGenerator
import MarketFeed.Server.ClientManager
import MarketFeed.Protocol.Subscription

/-!
# The exchange simulator

`ExchangeSimulator` owns a `TickGenerator` and a `ClientManager`. Its event loop
accepts connections, reads subscriptions, and calls
`generate_and_broadcast_tick` and `send_heartbeat`; with fault injection on,
every hundredth tick call first generates one tick and throws it away, so that
clients see a gap. The loop's timing only decides which call comes next, so a
run here is any list of calls, each carrying what the random engine, the clock
and the kernel answer during it.

The numbering the design asks for is `Numbering`: one more than the last frame,
two more for the `n`-th tick call since `enable_fault_injection` when `n` is a
multiple of 100. `sequence_numbering` shows the frames follow it, modulo
`2^32`, when every draw is in range, there is at least one symbol, and fewer
than `2^32` tick calls leave `fault_skip_counter_` unwrapped;
with no symbols every tick it hands to `broadcast` is empty
(`ExchangeSimulator.run_noSymbols`, at one run `tick_without_symbols`).
`process_subscription_round_trip` follows a subscription from
`send_subscription` to the client's entry.
-/

namespace MarketFeed.Server

open MarketFeed.Protocol

/-- What one `recv` on a client socket gives: the first
`min(available.length, 1024)` of the bytes waiting (none when the peer has
closed), or `-1` with `EAGAIN` or `EWOULDBLOCK`, or `-1` with another error. -/
inductive RecvResult
  | received (available : List UInt8)
  | wouldBlock
  | failed

/-- The simulator's state that the calls below read or write; sockets, the
port, the tick rate and the running flag are left out. -/
structure ExchangeSimulator where
  tickGen : TickGenerator
  clientMgr : ClientManager
  faultInjection : Bool := false
  faultSkipCounter : UInt32 := 0
  messagesSent : UInt64 := 0
  bytesSent : UInt64 := 0

/-- The constructor, for `num_symbols` symbols. -/
def ExchangeSimulator.new (numSymbols : Nat) : ExchangeSimulator :=
  { tickGen := .new numSymbols, clientMgr := .empty }

/-- A frame the simulator hands on: a tick to `broadcast`, or a heartbeat to
`send_to_client` for every client; its bytes and the size passed with them. -/
structure Emission where
  heartbeat : Bool
  bytes : List UInt8
  size : Nat
  deriving DecidableEq, Repr

/-- How a frame is handed on when it is sent whole. -/
def Emission.ofFrame (f : Frame) : Emission :=
  ⟨f.payload.kind = .heartbeat, f.encode, f.encode.length⟩

/-- The `if (fault_injection_)` block of `generate_and_broadcast_tick`: the
counter after it, and the generator after the skipped tick, if there was one. -/
def ExchangeSimulator.faultSkip (s : ExchangeSimulator) (skipDraw : TickDraw) :
    UInt32 × TickGenerator :=
  if s.faultInjection then
    let counter := s.faultSkipCounter + 1
    (counter, if counter % 100 = 0 then (s.tickGen.generateTick skipDraw).1 else s.tickGen)
  else (s.faultSkipCounter, s.tickGen)

/-- `generate_and_broadcast_tick`: `skipDraw` is what the skipped tick draws. -/
def ExchangeSimulator.generateAndBroadcastTick (s : ExchangeSimulator) (skipDraw draw : TickDraw)
    (kernel : Int → KernelReply) : ExchangeSimulator × Emission :=
  let skip := s.faultSkip skipDraw
  let t := skip.2.generateTick draw
  let b := s.clientMgr.broadcast kernel t.2.2 draw.symbolId
  ({ s with
      tickGen := t.1
      faultSkipCounter := skip.1
      clientMgr := b.1
      messagesSent := s.messagesSent + .ofNat b.2.2
      bytesSent := s.bytesSent + .ofNat (b.2.2 * t.2.2) },
    ⟨false, t.2.1, t.2.2⟩)

/-- `send_heartbeat`. -/
def ExchangeSimulator.sendHeartbeat (s : ExchangeSimulator) (timestampNs : UInt64)
    (kernel : Int → KernelReply) : ExchangeSimulator × Emission :=
  let h := s.tickGen.generateHeartbeat timestampNs
  let fds := s.clientMgr.clients.map Prod.fst
  ({ s with
      tickGen := h.1
      clientMgr := (ClientManager.sendToAll kernel h.2.2 fds (s.clientMgr, [])).1 },
    ⟨true, h.2.1, h.2.2⟩)

/-- `enable_fault_injection(enable)`. -/
def ExchangeSimulator.enableFaultInjection (s : ExchangeSimulator) (enable : Bool) :
    ExchangeSimulator :=
  { s with faultInjection := enable, faultSkipCounter := 0 }

/-- One accepted connection of `handle_new_connection`. -/
def ExchangeSimulator.handleNewConnection (s : ExchangeSimulator) (fd : Int) : ExchangeSimulator :=
  { s with clientMgr := (s.clientMgr.addClient fd).1 }

/-- `handle_client_disconnect`. -/
def ExchangeSimulator.handleClientDisconnect (s : ExchangeSimulator) (fd : Int) :
    ExchangeSimulator :=
  { s with clientMgr := s.clientMgr.removeClient fd }

/-- `process_subscription(client_fd)`, given what its `recv` returns. -/
def ExchangeSimulator.processSubscription (s : ExchangeSimulator) (fd : Int) :
    RecvResult → ExchangeSimulator × Bool
  | .received available =>
    let buffer := available.take subscriptionBufferSize
    if buffer.length = 0 then (s.handleClientDisconnect fd, false)
    else
      match readSubscription buffer with
      | some ids => ({ s with clientMgr := (s.clientMgr.handleSubscription fd ids).1 }, true)
      | none => (s, false)
  | .wouldBlock => (s, false)
  | .failed => (s.handleClientDisconnect fd, false)

/-- `handle_client_event`. -/
def ExchangeSimulator.handleClientEvent (s : ExchangeSimulator) (fd : Int) (isRead isError : Bool)
    (recv : RecvResult) : ExchangeSimulator :=
  if isError then s.handleClientDisconnect fd
  else if isRead then (s.processSubscription fd recv).1
  else s

/-- A call of the event loop, with what the random engine, the clock and the
kernel answer during it. -/
inductive SimCall
  | tick (skipDraw draw : TickDraw) (kernel : Int → KernelReply)
  | heartbeat (timestampNs : UInt64) (kernel : Int → KernelReply)
  | enableFaultInjection (enable : Bool)
  | newConnection (fd : Int)
  | clientEvent (fd : Int) (isRead isError : Bool) (recv : RecvResult)

/-- The ticks a call draws from `symbol_dist_`. -/
def SimCall.draws : SimCall → List TickDraw
  | .tick skipDraw draw _ => [skipDraw, draw]
  | _ => []

def SimCall.isTick : SimCall → Bool
  | .tick .. => true
  | _ => false

/-- One call: the simulator after it and the frames it hands on. -/
def ExchangeSimulator.apply (s : ExchangeSimulator) : SimCall → ExchangeSimulator × List Emission
  | .tick skipDraw draw kernel =>
    let r := s.generateAndBroadcastTick skipDraw draw kernel
    (r.1, [r.2])
  | .heartbeat ts kernel =>
    let r := s.sendHeartbeat ts kernel
    (r.1, [r.2])
  | .enableFaultInjection enable => (s.enableFaultInjection enable, [])
  | .newConnection fd => (s.handleNewConnection fd, [])
  | .clientEvent fd isRead isError recv => (s.handleClientEvent fd isRead isError recv, [])

/-- A run of calls: the simulator after them and every frame handed on. -/
def ExchangeSimulator.run (s : ExchangeSimulator) : List SimCall → ExchangeSimulator × List Emission
  | [] => (s, [])
  | c :: cs =>
    let r := s.apply c
    let rest := run r.1 cs
    (rest.1, r.2 ++ rest.2)

/-! ### The numbering the design describes -/

/-- Whether faults are on, the tick calls since `enable_fault_injection`, and
the last number given, as an unbounded count. -/
structure Numbering where
  enabled : Bool
  ticks : Nat
  last : Nat

/-- Each frame is numbered one past the last; the `n`-th tick call since faults
were enabled is numbered two past it when `n` is a multiple of 100. -/
def Numbering.step (a : Numbering) : SimCall → Numbering × List Nat
  | .tick .. =>
    let ticks := if a.enabled then a.ticks + 1 else a.ticks
    let gap := if a.enabled ∧ ticks % 100 = 0 then 2 else 1
    ({ a with ticks := ticks, last := a.last + gap }, [a.last + gap])
  | .heartbeat .. => ({ a with last := a.last + 1 }, [a.last + 1])
  | .enableFaultInjection enable => ({ a with enabled := enable, ticks := 0 }, [])
  | _ => (a, [])

/-- The numbers of the frames of a run. -/
def Numbering.run (a : Numbering) : List SimCall → List Nat
  | [] => []
  | c :: cs => (a.step c).2 ++ run (a.step c).1 cs

theorem Numbering.step_ticks (a : Numbering) (c : SimCall) :
    (a.step c).1.ticks ≤ a.ticks + if c.isTick then 1 else 0 := by
  cases c <;> simp only [step, SimCall.isTick] <;> split_ifs <;> simp

/-! ### Thirty-two-bit counters -/

theorem uint32_ofNat_add_one (m : Nat) : UInt32.ofNat m + 1 = UInt32.ofNat (m + 1) := by
  rw [UInt32.ext_iff]
  show (m % 2 ^ 32 + 1) % 2 ^ 32 = (m + 1) % 2 ^ 32
  omega

/-- The skip test on the counter after `m` tick calls: it looks at `m` modulo `2^32`. -/
theorem uint32_ofNat_mod_hundred (m : Nat) :
    UInt32.ofNat m % 100 = 0 ↔ m % 2 ^ 32 % 100 = 0 := UInt32.ext_iff

/-! ### Every frame is numbered as described -/

/-- The simulator agrees with the numbering: same symbol count `n`, same fault
switch, and the counters are the unbounded ones modulo `2^32`. -/
structure Numbered (n : Nat) (s : ExchangeSimulator) (a : Numbering) : Prop where
  numSymbols : s.tickGen.numSymbols = n
  enabled : s.faultInjection = a.enabled
  counter : s.faultSkipCounter = UInt32.ofNat a.ticks
  sequence : s.tickGen.sequence = UInt32.ofNat a.last

/-- Connections and subscriptions touch only the client manager. -/
theorem ExchangeSimulator.processSubscription_clients (s : ExchangeSimulator) (fd : Int)
    (recv : RecvResult) : ∃ m, (s.processSubscription fd recv).1 = { s with clientMgr := m } := by
  cases recv with
  | received available =>
    simp only [processSubscription]
    split_ifs
    · exact ⟨_, rfl⟩
    · split
      · exact ⟨_, rfl⟩
      · exact ⟨s.clientMgr, rfl⟩
  | wouldBlock => exact ⟨s.clientMgr, rfl⟩
  | failed => exact ⟨_, rfl⟩

theorem ExchangeSimulator.handleClientEvent_clients (s : ExchangeSimulator) (fd : Int)
    (isRead isError : Bool) (recv : RecvResult) :
    ∃ m, s.handleClientEvent fd isRead isError recv = { s with clientMgr := m } := by
  unfold handleClientEvent
  split_ifs
  · exact ⟨_, rfl⟩
  · exact s.processSubscription_clients fd recv
  · exact ⟨s.clientMgr, rfl⟩

theorem Numbered.withClients {n : Nat} {s : ExchangeSimulator} {a : Numbering}
    (h : Numbered n s a) (m : ClientManager) : Numbered n { s with clientMgr := m } a :=
  ⟨h.1, h.2, h.3, h.4⟩

theorem numbered_new (n : Nat) : Numbered n (ExchangeSimulator.new n) ⟨false, 0, 0⟩ :=
  ⟨rfl, rfl, rfl, rfl⟩

section Numbered

variable {n : Nat} {s : ExchangeSimulator} {a : Numbering}

/-- The fault block leaves the counter at the numbering's count and a
generator one short of the number the tick gets. -/
theorem Numbered.faultSkip (hn : 0 < n) (h : Numbered n s a) {sd d : TickDraw}
    (hsd : sd.InRange (.new n)) (ht : a.ticks + 1 < 2 ^ 32) (k : Int → KernelReply) :
    let a' := (a.step (.tick sd d k)).1
    (s.faultSkip sd).1 = UInt32.ofNat a'.ticks ∧ (s.faultSkip sd).2.numSymbols = n ∧
      (s.faultSkip sd).2.sequence + 1 = UInt32.ofNat a'.last := by
  obtain ⟨hN, hE, hC, hS⟩ := h
  simp only [ExchangeSimulator.faultSkip, Numbering.step, hE]
  cases a.enabled with
  | false => simp [hC, hN, hS, uint32_ofNat_add_one]
  | true =>
    have hk : UInt32.ofNat (a.ticks + 1) % 100 = 0 ↔ (a.ticks + 1) % 100 = 0 := by
      rw [uint32_ofNat_mod_hundred, Nat.mod_eq_of_lt ht]
    simp only [if_true, true_and, hC, uint32_ofNat_add_one, hk]
    split_ifs with h100
    · obtain ⟨-, -, -, -, -, -, hseq⟩ := s.tickGen.generateTick_frame sd
        (hN ▸ TickDraw.lt_of_inRange hn hsd)
      simp [hN, hseq, hS, uint32_ofNat_add_one]
    · simp [hN, hS, uint32_ofNat_add_one]

theorem Numbered.tick (hn : 0 < n) (h : Numbered n s a) {sd d : TickDraw}
    (hsd : sd.InRange (.new n)) (hd : d.InRange (.new n)) (ht : a.ticks + 1 < 2 ^ 32)
    (k : Int → KernelReply) :
    ∃ f : Frame, (s.generateAndBroadcastTick sd d k).2 = Emission.ofFrame f ∧
      f.sequenceNumber = UInt32.ofNat (a.step (.tick sd d k)).1.last ∧
      (a.step (.tick sd d k)).2 = [(a.step (.tick sd d k)).1.last] ∧
      Numbered n (s.generateAndBroadcastTick sd d k).1 (a.step (.tick sd d k)).1 := by
  obtain ⟨hc, hN, hS⟩ := h.faultSkip hn hsd ht k
  obtain ⟨f, hb, hl, hseq, -, hkind, hseq'⟩ := (s.faultSkip sd).2.generateTick_frame d
    (hN ▸ TickDraw.lt_of_inRange hn hd)
  refine ⟨f, ?_, hseq.trans hS, rfl, ⟨by simp [ExchangeSimulator.generateAndBroadcastTick, hN],
    ?_, hc, by simp only [ExchangeSimulator.generateAndBroadcastTick, hseq', hS]⟩⟩
  · have : decide (f.payload.kind = .heartbeat) = false := by rcases hkind with h | h <;> simp [h]
    simp only [ExchangeSimulator.generateAndBroadcastTick, Emission.ofFrame, hb, hl, this]
  · simp only [ExchangeSimulator.generateAndBroadcastTick, Numbering.step, h.enabled]

theorem Numbered.heartbeat (h : Numbered n s a) (ts : UInt64) (k : Int → KernelReply) :
    ∃ f : Frame, (s.sendHeartbeat ts k).2 = Emission.ofFrame f ∧
      f.sequenceNumber = UInt32.ofNat (a.last + 1) ∧
      Numbered n (s.sendHeartbeat ts k).1 (a.step (.heartbeat ts k)).1 := by
  obtain ⟨hb, hl, hseq⟩ := s.tickGen.generateHeartbeat_frame ts
  refine ⟨⟨s.tickGen.sequence + 1, ts, 0, .heartbeat⟩, ?_, by simp only [h.sequence, uint32_ofNat_add_one],
    ⟨h.numSymbols, h.enabled, h.counter, by
      simp only [ExchangeSimulator.sendHeartbeat, hseq, h.sequence, uint32_ofNat_add_one]; rfl⟩⟩
  simp only [ExchangeSimulator.sendHeartbeat, Emission.ofFrame, hb, hl, Frame.encode_length]
  rfl

/-- **One call.** The frames a call hands on are whole frames numbered as the
numbering says, and the simulator still agrees with it. -/
theorem Numbered.apply (hn : 0 < n) (h : Numbered n s a) (c : SimCall)
    (hc : ∀ d ∈ c.draws, d.InRange (.new n)) (ht : a.ticks + (if c.isTick then 1 else 0) < 2 ^ 32) :
    ∃ frames : List Frame, (s.apply c).2 = frames.map Emission.ofFrame ∧
      frames.map (·.sequenceNumber) = (a.step c).2.map UInt32.ofNat ∧
      Numbered n (s.apply c).1 (a.step c).1 := by
  cases c with
  | tick sd d k =>
    obtain ⟨f, he, hs, hl, h'⟩ := h.tick hn (hc sd (by simp [SimCall.draws]))
      (hc d (by simp [SimCall.draws])) (by simpa [SimCall.isTick] using ht) k
    exact ⟨[f], by simp [ExchangeSimulator.apply, he], by rw [hl]; simp [hs], h'⟩
  | heartbeat ts k =>
    obtain ⟨f, he, hs, h'⟩ := h.heartbeat ts k
    exact ⟨[f], by simp [ExchangeSimulator.apply, he], by simp [Numbering.step, hs], h'⟩
  | enableFaultInjection b =>
    exact ⟨[], rfl, rfl, ⟨h.numSymbols, rfl, rfl, h.sequence⟩⟩
  | newConnection fd =>
    exact ⟨[], rfl, rfl, h.withClients _⟩
  | clientEvent fd isRead isError recv =>
    obtain ⟨m, hm⟩ := s.handleClientEvent_clients fd isRead isError recv
    refine ⟨[], rfl, rfl, ?_⟩
    show Numbered n (s.handleClientEvent fd isRead isError recv) a
    rw [hm]; exact h.withClients m

/-- **Every run.** -/
theorem Numbered.run (hn : 0 < n) (calls : List SimCall) :
    ∀ s a, Numbered n s a → (∀ c ∈ calls, ∀ d ∈ c.draws, d.InRange (.new n)) →
      a.ticks + (calls.filter SimCall.isTick).length < 2 ^ 32 →
      ∃ frames : List Frame, (s.run calls).2 = frames.map Emission.ofFrame ∧
        frames.map (·.sequenceNumber) = (a.run calls).map UInt32.ofNat := by
  induction calls with
  | nil => intro s a _ _ _; exact ⟨[], rfl, rfl⟩
  | cons c cs ih =>
    intro s a h hd ht
    have hlen : (c :: cs).filter SimCall.isTick = (if c.isTick then [c] else []) ++
        cs.filter SimCall.isTick := by
      rw [List.filter_cons]; split_ifs <;> rfl
    rw [hlen, List.length_append] at ht
    have ht₁ : a.ticks + (if c.isTick then 1 else 0) < 2 ^ 32 := by split_ifs at ht ⊢ <;> simp at ht <;> omega
    obtain ⟨fs₁, he₁, hs₁, h₁⟩ := h.apply hn c (hd c (List.mem_cons_self _ _)) ht₁
    have ht₂ := (a.step_ticks c)
    obtain ⟨fs₂, he₂, hs₂⟩ := ih _ _ h₁ (fun c' hc' => hd c' (List.mem_cons_of_mem _ hc'))
      (by split_ifs at ht ht₂ <;> simp at ht <;> omega)
    refine ⟨fs₁ ++ fs₂, ?_, ?_⟩
    · simp only [ExchangeSimulator.run, he₁, he₂, List.map_append]
    · simp only [Numbering.run, List.map_append, hs₁, hs₂]

end Numbered

theorem Emission.ofFrame_size (f : Frame) (h : (Emission.ofFrame f).heartbeat = false) :
    (Emission.ofFrame f).size = tradeMsgSize ∨ (Emission.ofFrame f).size = quoteMsgSize := by
  simp only [Emission.ofFrame, Frame.encode_length] at h ⊢
  cases hp : f.payload <;> simp_all [Payload.kind, MessageType.msgSize]

/-- **Sequence numbering.** From construction, with at least one symbol, every
draw in the range of `symbol_dist_` and fewer than `2^32` tick calls, every
frame the simulator hands on is a whole frame, every tick has the size of a
trade or a quote, and the frames carry the numbers of `Numbering`, modulo
`2^32`. -/
theorem sequence_numbering (n : Nat) (hn : 0 < n) (calls : List SimCall)
    (hdraws : ∀ c ∈ calls, ∀ d ∈ c.draws, d.InRange (.new n))
    (hticks : (calls.filter SimCall.isTick).length < 2 ^ 32) :
    ∃ frames : List Frame,
      ((ExchangeSimulator.new n).run calls).2 = frames.map Emission.ofFrame ∧
      (∀ e ∈ ((ExchangeSimulator.new n).run calls).2, e.heartbeat = false →
        e.size = tradeMsgSize ∨ e.size = quoteMsgSize) ∧
      frames.map (·.sequenceNumber) = (Numbering.run ⟨false, 0, 0⟩ calls).map UInt32.ofNat := by
  obtain ⟨frames, he, hs⟩ := Numbered.run hn calls _ _ (numbered_new n) hdraws (by simpa using hticks)
  refine ⟨frames, he, ?_, hs⟩
  rw [he]
  intro e he' hh
  obtain ⟨f, -, rfl⟩ := List.mem_map.mp he'
  exact Emission.ofFrame_size f hh

/-- Faults on, then a quote for symbol 1 and a heartbeat, with two symbols. -/
theorem sequence_numbering_quote_heartbeat :
    let d : TickDraw := ⟨1, false, ⟨0, 0⟩, ⟨0x4058FF5C28F5C28F, 100, 0x4059000000000000, 200⟩, 1000⟩
    let calls := [SimCall.enableFaultInjection true, .tick d d fun _ => ⟨0, .accepted 44⟩,
      .heartbeat 2000 fun _ => ⟨0, .accepted 20⟩]
    0 < 2 ∧ (∀ c ∈ calls, ∀ d ∈ c.draws, d.InRange (.new 2)) ∧
      (calls.filter SimCall.isTick).length < 2 ^ 32 ∧
      ∃ frames : List Frame,
        ((ExchangeSimulator.new 2).run calls).2 = frames.map Emission.ofFrame ∧
        (∀ e ∈ ((ExchangeSimulator.new 2).run calls).2, e.heartbeat = false →
          e.size = tradeMsgSize ∨ e.size = quoteMsgSize) ∧
        frames.map (·.sequenceNumber) = (Numbering.run ⟨false, 0, 0⟩ calls).map UInt32.ofNat :=
  ⟨by decide, by decide, by decide, sequence_numbering 2 (by decide) _ (by decide) (by decide)⟩

section NoSymbols

variable {s : ExchangeSimulator} (h : s.tickGen.numSymbols = 0)
include h

/-- With no symbols the fault block's throw-away tick changes nothing. -/
theorem ExchangeSimulator.faultSkip_noSymbols (skipDraw : TickDraw) :
    (s.faultSkip skipDraw).2 = s.tickGen := by
  unfold ExchangeSimulator.faultSkip
  split_ifs <;> simp [s.tickGen.generateTick_noSymbols skipDraw h]

/-- One call of a simulator with no symbols keeps none, and a tick it hands to
`broadcast` is empty. -/
theorem ExchangeSimulator.apply_noSymbols (c : SimCall) :
    (s.apply c).1.tickGen.numSymbols = 0 ∧
      ∀ e ∈ (s.apply c).2, e.heartbeat = false → e = ⟨false, [], 0⟩ := by
  cases c with
  | tick skipDraw draw kernel =>
    have ht := s.tickGen.generateTick_noSymbols draw h
    simp only [ExchangeSimulator.apply, ExchangeSimulator.generateAndBroadcastTick,
      s.faultSkip_noSymbols h, ht, List.mem_singleton]
    exact ⟨h, fun e he _ => he⟩
  | heartbeat ts kernel =>
    simp only [ExchangeSimulator.apply, ExchangeSimulator.sendHeartbeat, List.mem_singleton]
    exact ⟨h, fun e he hb => by simp [he] at hb⟩
  | enableFaultInjection _ | newConnection _ => exact ⟨h, fun _ he => absurd he (List.not_mem_nil _)⟩
  | clientEvent fd isRead isError recv =>
    obtain ⟨m, hm⟩ := s.handleClientEvent_clients fd isRead isError recv
    simp only [ExchangeSimulator.apply, hm]
    exact ⟨h, fun _ he => absurd he (List.not_mem_nil _)⟩

end NoSymbols

/-- **A simulator with no symbols broadcasts empty ticks.** Over every run from
the constructor with `num_symbols = 0`, every tick handed to `broadcast` has no
bytes and size 0. -/
theorem ExchangeSimulator.run_noSymbols (calls : List SimCall) :
    ∀ s : ExchangeSimulator, s.tickGen.numSymbols = 0 →
      ∀ e ∈ (s.run calls).2, e.heartbeat = false → e = ⟨false, [], 0⟩ := by
  induction calls with
  | nil => intro s _ e he; exact absurd he (List.not_mem_nil _)
  | cons c cs ih =>
    intro s h e he hb
    obtain ⟨h', hc⟩ := s.apply_noSymbols h c
    rcases List.mem_append.mp he with he | he
    · exact hc e he hb
    · exact ih _ h' e he hb

/-- With no symbols, `symbol_dist_` ranges over `[0, 65535]` and every id is out
of range: the tick handed to `broadcast` has size zero, and a client that
accepts it counts as one message sent. -/
theorem tick_without_symbols :
    let d : TickDraw := ⟨0, true, ⟨0x4059000000000000, 100⟩, ⟨0, 0, 0, 0⟩, 1000⟩
    let calls := [SimCall.newConnection 5, .tick d d fun _ => ⟨0, .accepted 0⟩]
    (∀ c ∈ calls, ∀ d ∈ c.draws, d.InRange (.new 0)) ∧
      ((ExchangeSimulator.new 0).run calls).2 = [⟨false, [], 0⟩] ∧
      ((ExchangeSimulator.new 0).run calls).1.messagesSent = 1 := by
  decide

/-! ### Subscriptions -/

theorem sendSubscription_take_ne_nil (ids : List UInt16) :
    ((sendSubscription ids).take subscriptionBufferSize).length ≠ 0 := by
  simp [subscriptionBufferSize]

/-- **A subscription, end to end.** The frame `send_subscription(L)` writes, all
waiting when the server reads, gives the client exactly the ids of `L`, with
`subscribe_all` set when `L` is empty, and no other client changes; when `L`
has 511 to 65535 ids, nothing changes at all. -/
theorem process_subscription_round_trip (s : ExchangeSimulator) (fd : Int) (c : ClientConnection)
    (hc : s.clientMgr.find fd = some c) (ids : List UInt16) :
    (ids.length ≤ 510 →
      ∃ syms, (s.processSubscription fd (.received (sendSubscription ids))).1.clientMgr.find fd =
          some { c with subscribedSymbols := syms, subscribeAll := decide (ids = []) } ∧
        (∀ x, x ∈ syms ↔ x ∈ ids) ∧
        ∀ fd', fd' ≠ fd →
          (s.processSubscription fd (.received (sendSubscription ids))).1.clientMgr.find fd' =
            s.clientMgr.find fd') ∧
    (510 < ids.length → ids.length < 65536 →
      (s.processSubscription fd (.received (sendSubscription ids))).1 = s) := by
  have hne := sendSubscription_take_ne_nil ids
  refine ⟨fun hL => ?_, fun h₁ h₂ => ?_⟩
  · simp only [ExchangeSimulator.processSubscription, if_neg hne,
      readSubscription_sendSubscription ids hL]
    refine ⟨ids.foldl (fun s x => s.insert x) [], ?_, fun x => by simp [mem_foldl_insert],
      fun fd' h => ?_⟩
    · rw [ClientManager.find_handleSubscription hc, if_pos rfl]
      simp [List.length_eq_zero]
    · rw [ClientManager.find_handleSubscription hc, if_neg h]
  · simp only [ExchangeSimulator.processSubscription, if_neg hne,
      readSubscription_sendSubscription_long ids h₁ h₂]

/-- Client 5 subscribes to symbols 3 and 9. -/
theorem process_subscription_three_nine :
    let s := ((ExchangeSimulator.new 100).run [.newConnection 5]).1
    let ids : List UInt16 := [3, 9]
    s.clientMgr.find 5 = some {} ∧
      (ids.length ≤ 510 →
        ∃ syms, (s.processSubscription 5 (.received (sendSubscription ids))).1.clientMgr.find 5 =
            some { ({} : ClientConnection) with
              subscribedSymbols := syms, subscribeAll := decide (ids = []) } ∧
          (∀ x, x ∈ syms ↔ x ∈ ids) ∧
          ∀ fd', fd' ≠ 5 →
            (s.processSubscription 5 (.received (sendSubscription ids))).1.clientMgr.find fd' =
              s.clientMgr.find fd') ∧
      (510 < ids.length → ids.length < 65536 →
        (s.processSubscription 5 (.received (sendSubscription ids))).1 = s) :=
  ⟨by decide, process_subscription_round_trip _ 5 {} (by decide) [3, 9]⟩

/-- Client 5 sends 511 ids, all symbol 7: the frame does not fit one read, and
the client stays subscribed to every symbol. -/
theorem subscription_of_511_ignored :
    let s := ((ExchangeSimulator.new 100).run [.newConnection 5]).1
    (s.processSubscription 5 (.received (sendSubscription (List.replicate 511 7)))).1.clientMgr.find 5 =
      some {} ∧ ({} : ClientConnection).subscribeAll = true := by
  intro s
  have h := readSubscription_sendSubscription_long (List.replicate 511 (7 : UInt16))
    (by rw [List.length_replicate]; decide) (by rw [List.length_replicate]; decide)
  simp only [ExchangeSimulator.processSubscription, if_neg (sendSubscription_take_ne_nil _), h]
  decide

end MarketFeed.Server
