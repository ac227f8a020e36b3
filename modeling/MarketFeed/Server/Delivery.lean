import MarketFeed.Server.ExchangeSimulator
import MarketFeed.Server.Broadcast

/-!
# What a subscriber receives

TCP hands a client, in order, the bytes each `send` on its socket accepted;
`send_to_client` makes no `send` at all when the depth it reads is above
`slow_threshold_`. `streamTo` is that byte stream over a run of the simulator.

A client whose socket the kernel keeps draining (every send to it reads a depth
within the threshold and is accepted whole) is never marked slow. So every
heartbeat reaches it, and so does every tick's `broadcast` of a symbol it takes:
all of them as `add_client` leaves it, those of its list once it has subscribed.
The stream it receives is exactly those frames the simulator hands on, in order
(`streamTo_run`).
-/

namespace MarketFeed.Server

open MarketFeed.Protocol

/-- The bytes one `send_to_client` of `data` puts on the wire: none when the
depth read is above the threshold `T` (no `send` is made) or `send` fails, else
the prefix `send` accepted. -/
def SendRecord.wire (T : Nat) (s : SendRecord) (data : List UInt8) : List UInt8 :=
  if T < s.reply.pending then []
  else
    match s.reply.outcome with
    | .accepted n => data.take n
    | _ => []

/-- The `send_to_client` calls one call of the event loop makes, each with the
bytes it passes: `broadcast`'s for a tick, the loop of `send_heartbeat` for a
heartbeat. -/
def ExchangeSimulator.sendsOf (s : ExchangeSimulator) : SimCall → List (SendRecord × List UInt8)
  | .tick skipDraw draw kernel =>
    let t := ((s.faultSkip skipDraw).2.generateTick draw).2
    (s.clientMgr.broadcast kernel t.2 draw.symbolId).2.1.map fun r => (r, t.1)
  | .heartbeat ts kernel =>
    let h := (s.tickGen.generateHeartbeat ts).2
    (ClientManager.sendToAll kernel h.2 (s.clientMgr.clients.map Prod.fst) (s.clientMgr, [])).2.map
      fun r => (r, h.1)
  | _ => []

/-- What the kernel took for `fd` during one call, in order. -/
def ExchangeSimulator.wireTo (s : ExchangeSimulator) (fd : Int) (c : SimCall) : List UInt8 :=
  ((s.sendsOf c).filter (·.1.fd = fd)).flatMap fun e => e.1.wire s.clientMgr.slowThreshold e.2

/-- The bytes `fd` receives over a run of calls. -/
def ExchangeSimulator.streamTo (fd : Int) (s : ExchangeSimulator) : List SimCall → List UInt8
  | [] => []
  | c :: cs => s.wireTo fd c ++ streamTo fd (s.apply c).1 cs

/-- Whether a client that takes the symbols `wanted` is sent the frame `e`: a
heartbeat goes to every client, a tick to those that take the symbol its header
names. -/
def Emission.reaches (wanted : UInt16 → Bool) (e : Emission) : Bool :=
  e.heartbeat || wanted (MessageHeader.decode e.bytes).symbolId

/-- The symbols a subscription to `ids` takes: all of them when `ids` is empty. -/
def subscriptionWants (ids : List UInt16) (sid : UInt16) : Bool :=
  ids.isEmpty || decide (sid ∈ ids)

/-- The kernel keeps up with `fd`: the depth it reports is within the threshold
and `send` takes at least a quote frame's bytes, the most a frame has. -/
def KeepsUp (fd : Int) (kernel : Int → KernelReply) : Prop :=
  (kernel fd).pending ≤ slowConsumerThreshold ∧
    ∃ n, (kernel fd).outcome = .accepted n ∧ quoteMsgSize ≤ n

/-- A call that leaves `fd`'s connection alone, and that the kernel keeps up
with on `fd` if it sends. -/
def SimCall.Spares (fd : Int) : SimCall → Prop
  | .tick _ _ kernel => KeepsUp fd kernel
  | .heartbeat _ kernel => KeepsUp fd kernel
  | .clientEvent fd' _ _ _ => fd' ≠ fd
  | _ => True

/-! ### Frames are never longer than a quote -/

theorem TickGenerator.generateTick_length (g : TickGenerator) (d : TickDraw) :
    (g.generateTick d).2.1.length = (g.generateTick d).2.2 ∧
      (g.generateTick d).2.2 ≤ quoteMsgSize := by
  unfold TickGenerator.generateTick TickGenerator.generateTickForSymbol
  split_ifs
  · exact ⟨rfl, Nat.zero_le _⟩
  · exact ⟨Frame.encode_length _, show tradeMsgSize ≤ quoteMsgSize by decide⟩
  · exact ⟨Frame.encode_length _, Nat.le_refl _⟩

/-- A tick's header names the drawn symbol, unless nothing was written. -/
theorem TickGenerator.generateTick_symbol (g : TickGenerator) (d : TickDraw) :
    (g.generateTick d).2.1 = [] ∨ (MessageHeader.decode (g.generateTick d).2.1).symbolId = d.symbolId := by
  by_cases hin : d.symbolId.toNat < g.numSymbols
  · obtain ⟨f, hb, -, -, hf, -⟩ := g.generateTick_frame d hin
    right
    rw [hb, ← List.append_nil f.encode, Frame.decode_encode]
    exact hf
  · left
    rw [g.generateTick_outOfRange d (Nat.not_lt.mp hin)]

theorem TickGenerator.generateHeartbeat_length (g : TickGenerator) (ts : UInt64) :
    (g.generateHeartbeat ts).2.1.length = (g.generateHeartbeat ts).2.2 ∧
      (g.generateHeartbeat ts).2.2 ≤ quoteMsgSize :=
  ⟨Frame.encode_length _, show heartbeatMsgSize ≤ quoteMsgSize by decide⟩

/-- A send the kernel keeps up with puts every byte of a frame on the wire. -/
theorem SendRecord.wire_keepsUp {fd : Int} {kernel : Int → KernelReply} (hk : KeepsUp fd kernel)
    (len : Nat) {data : List UInt8} (hd : data.length ≤ quoteMsgSize) :
    (⟨fd, kernel fd, len⟩ : SendRecord).wire slowConsumerThreshold data = data := by
  obtain ⟨hp, n, ho, hn⟩ := hk
  simp only [SendRecord.wire, if_neg (Nat.not_lt.mpr hp), ho]
  exact List.take_of_length_le (by omega)

/-! ### The sends to one client -/

/-- Among sends made to distinct descriptors, those to `fd` are the ones made
while visiting `fd`. -/
theorem filter_fd_flatMap {fds : List Int} (hnd : fds.Nodup) {fd : Int} (hfd : fd ∈ fds)
    (g : Int → List SendRecord) (hg : ∀ fd', ∀ r ∈ g fd', r.fd = fd') :
    (fds.flatMap g).filter (fun r => r.fd = fd) = g fd := by
  induction fds with
  | nil => cases hfd
  | cons fd₀ fds ih =>
    obtain ⟨hout, hnd⟩ := List.nodup_cons.mp hnd
    rw [List.flatMap_cons, List.filter_append]
    rcases List.mem_cons.mp hfd with rfl | hfd
    · have hrest : (fds.flatMap g).filter (fun r => r.fd = fd) = [] :=
        List.filter_eq_nil_iff.mpr fun r hr => by
          obtain ⟨fd', hfd', hr⟩ := List.mem_flatMap.mp hr
          simpa [hg fd' r hr] using ne_of_mem_of_not_mem hfd' hout
      rw [hrest, List.append_nil, List.filter_eq_self.mpr fun r hr => by simp [hg fd r hr]]
    · have hne : fd₀ ≠ fd := fun h => hout (h ▸ hfd)
      rw [ih hnd hfd, List.filter_eq_nil_iff.mpr fun r hr => by simpa [hg fd₀ r hr] using hne,
        List.nil_append]

theorem ClientManager.sendToAll_sends (kernel : Int → KernelReply) (len : Nat) (fds : List Int)
    (m : ClientManager) (sends : List SendRecord) :
    (ClientManager.sendToAll kernel len fds (m, sends)).2 =
      sends ++ fds.flatMap fun fd => [⟨fd, kernel fd, len⟩] := by
  induction fds generalizing m sends with
  | nil => simp [ClientManager.sendToAll]
  | cons fd fds ih => simp [ClientManager.sendToAll, ih]

theorem ClientManager.broadcast_sends (m : ClientManager) (kernel : Int → KernelReply) (len : Nat)
    (sid : UInt16) :
    (m.broadcast kernel len sid).2.1 = (m.clients.map Prod.fst).flatMap (m.sendOf kernel len sid) := by
  obtain ⟨m', e, -⟩ := broadcastTo_run kernel len sid (m.clients.map Prod.fst) m.keys_nodup m [] 0
  simp [ClientManager.broadcast, e]

theorem ClientManager.sendOf_fd (m : ClientManager) (kernel : Int → KernelReply) (len : Nat)
    (sid : UInt16) (fd : Int) : ∀ r ∈ m.sendOf kernel len sid fd, r.fd = fd := by
  unfold ClientManager.sendOf
  split
  · split_ifs <;> simp
  · simp

theorem mem_keys_of_lookup {l : List (Int × ClientConnection)} {fd : Int} {c : ClientConnection}
    (h : l.lookup fd = some c) : fd ∈ l.map Prod.fst := by
  induction l with
  | nil => cases h
  | cons e l ih =>
    obtain ⟨k, v⟩ := e
    simp only [List.lookup] at h
    split at h
    · simp_all
    · exact List.mem_cons_of_mem _ (ih h)

theorem lookup_append_of_not_mem {l : List (Int × ClientConnection)} {fd : Int}
    (h : fd ∉ l.map Prod.fst) (c : ClientConnection) : (l ++ [(fd, c)]).lookup fd = some c := by
  induction l with
  | nil => simp [List.lookup]
  | cons e l ih =>
    obtain ⟨k, v⟩ := e
    rw [List.map_cons, List.mem_cons, not_or] at h
    rw [List.cons_append, List.lookup, beq_false_of_ne h.1]
    exact ih h.2

/-! ### A client the kernel keeps up with -/

/-- `fd` is a client that is not slow and takes exactly the symbols `wanted`,
under the constructor's threshold. -/
structure Serves (m : ClientManager) (fd : Int) (wanted : UInt16 → Bool) : Prop where
  threshold : m.slowThreshold = slowConsumerThreshold
  client : ∃ c, m.find fd = some c ∧ c.isSlow = false ∧
    ∀ sid, (c.subscribeAll || decide (sid ∈ c.subscribedSymbols)) = wanted sid

/-- What an event on a client's socket does to the manager: nothing, drops the
client, or takes a subscription from it. -/
theorem ExchangeSimulator.handleClientEvent_clientMgr (s : ExchangeSimulator) (fd : Int)
    (isRead isError : Bool) (recv : RecvResult) :
    (s.handleClientEvent fd isRead isError recv).clientMgr = s.clientMgr ∨
      (s.handleClientEvent fd isRead isError recv).clientMgr = s.clientMgr.removeClient fd ∨
      ∃ ids, (s.handleClientEvent fd isRead isError recv).clientMgr =
        (s.clientMgr.handleSubscription fd ids).1 := by
  unfold ExchangeSimulator.handleClientEvent ExchangeSimulator.processSubscription
  split_ifs
  · exact .inr (.inl rfl)
  · cases recv with
    | received available =>
      dsimp only
      split_ifs
      · exact .inr (.inl rfl)
      · split
        · exact .inr (.inr ⟨_, rfl⟩)
        · exact .inl rfl
    | wouldBlock => exact .inl rfl
    | failed => exact .inr (.inl rfl)
  · exact .inl rfl

namespace Serves

variable {m : ClientManager} {fd : Int} {wanted : UInt16 → Bool}

/-- A send that the kernel keeps up with if it goes to `fd` leaves `fd` served. -/
theorem send (h : Serves m fd wanted) (fd' : Int) (r : KernelReply) (len : Nat)
    (hr : fd' = fd → r.pending ≤ slowConsumerThreshold ∧ ∃ n, r.outcome = .accepted n ∧ len ≤ n) :
    Serves (m.sendToClient fd' r len).1 fd wanted := by
  obtain ⟨hT, c, hc, hs, ha⟩ := h
  refine ⟨by simp [hT], ?_⟩
  rw [m.sendToClient_find]
  by_cases hfd : fd = fd'
  · subst hfd
    obtain ⟨hp, n, ho, hn⟩ := hr rfl
    refine ⟨_, by rw [if_pos rfl, hc]; rfl, ?_, ?_⟩
    · simp [slowAfterSend, hT, hs, ho, Nat.not_lt.mpr hp, Nat.not_lt.mpr hn]
    · exact ha
  · exact ⟨c, by rw [if_neg hfd, hc], hs, ha⟩

theorem modify (h : Serves m fd wanted) (fd' : Int) (f : ClientConnection → ClientConnection)
    (hf : ∀ c, (f c).isSlow = c.isSlow ∧ (f c).subscribeAll = c.subscribeAll ∧
      (f c).subscribedSymbols = c.subscribedSymbols) :
    Serves (m.modify fd' f) fd wanted := by
  obtain ⟨hT, c, hc, hs, ha⟩ := h
  refine ⟨hT, ?_⟩
  by_cases hfd : fd = fd'
  · subst hfd
    obtain ⟨h₁, h₂, h₃⟩ := hf c
    exact ⟨f c, by simp [hc], h₁.trans hs, fun sid => by rw [h₂, h₃]; exact ha sid⟩
  · exact ⟨c, by simp [hfd, hc], hs, ha⟩

section Sends

variable (kernel : Int → KernelReply) (len : Nat)
  (hk : (kernel fd).pending ≤ slowConsumerThreshold ∧ ∃ n, (kernel fd).outcome = .accepted n ∧ len ≤ n)
include hk

theorem broadcastTo (sid : UInt16) (fds : List Int) :
    ∀ (m : ClientManager) (sends : List SendRecord) (count : Nat), Serves m fd wanted →
      Serves (ClientManager.broadcastTo kernel len sid fds (m, sends, count)).1 fd wanted := by
  induction fds with
  | nil => intro m sends count h; exact h
  | cons fd' fds ih =>
    intro m sends count h
    have hs := h.send fd' (kernel fd') len fun he => he ▸ hk
    unfold ClientManager.broadcastTo
    split
    · exact ih _ _ _ h
    · dsimp only
      split_ifs
      · exact ih _ _ _ h
      · exact ih _ _ _ h
      · exact ih _ _ _ (hs.modify fd' _ fun _ => ⟨rfl, rfl, rfl⟩)
      · exact ih _ _ _ hs

theorem sendToAll (fds : List Int) :
    ∀ (m : ClientManager) (sends : List SendRecord), Serves m fd wanted →
      Serves (ClientManager.sendToAll kernel len fds (m, sends)).1 fd wanted := by
  induction fds with
  | nil => intro m sends h; exact h
  | cons fd' fds ih =>
    intro m sends h
    exact ih _ _ (h.send fd' (kernel fd') len fun he => he ▸ hk)

end Sends

theorem addClient (h : Serves m fd wanted) (fd' : Int) : Serves (m.addClient fd').1 fd wanted := by
  obtain ⟨hT, c, hc, hs, ha⟩ := h
  unfold ClientManager.addClient
  split_ifs
  · exact ⟨hT, c, hc, hs, ha⟩
  · exact ⟨hT, c, lookup_append_of_isSome hc _, hs, ha⟩

theorem removeClient (h : Serves m fd wanted) {fd' : Int} (hne : fd' ≠ fd) :
    Serves (m.removeClient fd') fd wanted := by
  obtain ⟨hT, c, hc, hs, ha⟩ := h
  exact ⟨hT, c, (lookup_filter_ne (Ne.symm hne)).trans hc, hs, ha⟩

theorem handleSubscription (h : Serves m fd wanted) {fd' : Int} (hne : fd' ≠ fd)
    (ids : List UInt16) : Serves (m.handleSubscription fd' ids).1 fd wanted := by
  unfold ClientManager.handleSubscription
  split
  · exact h
  · obtain ⟨hT, c, hc, hs, ha⟩ := h
    exact ⟨hT, c, by rw [ClientManager.find_modify, if_neg (Ne.symm hne), hc], hs, ha⟩

/-- An event on another client's socket leaves `fd` served. -/
theorem handleClientEvent {s : ExchangeSimulator} (h : Serves s.clientMgr fd wanted) {fd' : Int}
    (hne : fd' ≠ fd) (isRead isError : Bool) (recv : RecvResult) :
    Serves (s.handleClientEvent fd' isRead isError recv).clientMgr fd wanted := by
  rcases s.handleClientEvent_clientMgr fd' isRead isError recv with e | e | ⟨ids, e⟩ <;> rw [e]
  · exact h
  · exact h.removeClient hne
  · exact h.handleSubscription hne ids

end Serves

/-! ### Every call, every run -/

theorem ClientManager.sendToAll_slowThreshold (kernel : Int → KernelReply) (len : Nat)
    (fds : List Int) (m : ClientManager) (sends : List SendRecord) :
    (ClientManager.sendToAll kernel len fds (m, sends)).1.slowThreshold = m.slowThreshold := by
  induction fds generalizing m sends with
  | nil => rfl
  | cons fd fds ih => rw [ClientManager.sendToAll, ih, ClientManager.sendToClient_slowThreshold]

/-- No call moves `slow_threshold_`. -/
theorem ExchangeSimulator.apply_slowThreshold (s : ExchangeSimulator) (c : SimCall) :
    (s.apply c).1.clientMgr.slowThreshold = s.clientMgr.slowThreshold := by
  cases c with
  | tick sd d kernel =>
    obtain ⟨m', e, -, -, -, -, ht, -, -⟩ := broadcastTo_run kernel
      ((s.faultSkip sd).2.generateTick d).2.2 d.symbolId _ s.clientMgr.keys_nodup s.clientMgr [] 0
    simp only [ExchangeSimulator.apply, ExchangeSimulator.generateAndBroadcastTick,
      ClientManager.broadcast, e, ht]
  | heartbeat ts kernel => exact ClientManager.sendToAll_slowThreshold ..
  | enableFaultInjection b => rfl
  | newConnection fd =>
    simp only [ExchangeSimulator.apply, ExchangeSimulator.handleNewConnection,
      ClientManager.addClient]
    split_ifs <;> rfl
  | clientEvent fd isRead isError recv =>
    rcases s.handleClientEvent_clientMgr fd isRead isError recv with e | e | ⟨ids, e⟩ <;>
      simp only [ExchangeSimulator.apply, e]
    · rfl
    · unfold ClientManager.handleSubscription; split <;> rfl

theorem ExchangeSimulator.run_slowThreshold (calls : List SimCall) :
    ∀ s : ExchangeSimulator, (s.run calls).1.clientMgr.slowThreshold = s.clientMgr.slowThreshold := by
  induction calls with
  | nil => intro s; rfl
  | cons c cs ih => intro s; exact (ih _).trans (s.apply_slowThreshold c)

/-- A new connection on a free descriptor is served every symbol. -/
theorem Serves.handleNewConnection {s : ExchangeSimulator} {fd : Int}
    (hfd : fd ∉ s.clientMgr.clients.map Prod.fst)
    (hT : s.clientMgr.slowThreshold = slowConsumerThreshold) :
    Serves (s.handleNewConnection fd).clientMgr fd fun _ => true := by
  simp only [ExchangeSimulator.handleNewConnection, ClientManager.addClient, dif_neg hfd]
  exact ⟨hT, {}, lookup_append_of_not_mem hfd _, rfl, fun _ => rfl⟩

/-- A subscription frame from `send_subscription` of at most 510 ids, read
whole, makes the client take the symbols of the list, or all when it is empty. -/
theorem Serves.subscribe {s : ExchangeSimulator} {fd : Int} {wanted : UInt16 → Bool}
    (h : Serves s.clientMgr fd wanted) (ids : List UInt16) (hids : ids.length ≤ 510) :
    Serves (s.handleClientEvent fd true false (.received (sendSubscription ids))).clientMgr fd
      (subscriptionWants ids) := by
  obtain ⟨hT, c, hc, hs, -⟩ := h
  simp only [ExchangeSimulator.handleClientEvent, ExchangeSimulator.processSubscription,
    if_neg (sendSubscription_take_ne_nil ids), readSubscription_sendSubscription ids hids,
    Bool.false_eq_true, ↓reduceIte]
  have hsub := ClientManager.find_handleSubscription hc ids fd
  rw [if_pos rfl] at hsub
  refine ⟨?_, _, hsub, hs, fun sid => ?_⟩
  · unfold ClientManager.handleSubscription; rw [hc]; exact hT
  · cases ids <;> simp [subscriptionWants, mem_foldl_insert]

theorem ExchangeSimulator.wireTo_sends {s : ExchangeSimulator} {fd : Int}
    {kernel : Int → KernelReply} (hk : KeepsUp fd kernel)
    (hT : s.clientMgr.slowThreshold = slowConsumerThreshold) (len : Nat) (b : Bool)
    {sends : List SendRecord}
    (hs : sends.filter (fun r => r.fd = fd) = if b then [⟨fd, kernel fd, len⟩] else [])
    {data : List UInt8} (hd : data.length ≤ quoteMsgSize) :
    ((sends.map fun r => (r, data)).filter (·.1.fd = fd)).flatMap
        (fun e => e.1.wire s.clientMgr.slowThreshold e.2) = if b then data else [] := by
  rw [List.filter_map]
  change ((sends.filter fun r => r.fd = fd).map _).flatMap _ = _
  rw [hs, hT]
  cases b <;> simp [SendRecord.wire_keepsUp hk len hd]

/-- **One call.** A call that spares `fd` leaves it served, and what the kernel
took for `fd` during the call is every frame the call hands on that reaches it. -/
theorem Serves.apply {s : ExchangeSimulator} {fd : Int} {wanted : UInt16 → Bool}
    (h : Serves s.clientMgr fd wanted) (c : SimCall) (hc : c.Spares fd) :
    Serves (s.apply c).1.clientMgr fd wanted ∧
      s.wireTo fd c = ((s.apply c).2.filter (Emission.reaches wanted)).flatMap Emission.bytes := by
  obtain ⟨hT, cl, hcl, hs, ha⟩ := h
  have hkeys := mem_keys_of_lookup hcl
  cases c with
  | tick sd d kernel =>
    obtain ⟨hp, n, ho, hn⟩ := hc
    have hlen := (s.faultSkip sd).2.generateTick_length d
    have hk : (kernel fd).pending ≤ slowConsumerThreshold ∧
        ∃ n, (kernel fd).outcome = .accepted n ∧ ((s.faultSkip sd).2.generateTick d).2.2 ≤ n :=
      ⟨hp, n, ho, hlen.2.trans hn⟩
    have hm' := Serves.broadcastTo kernel _ hk d.symbolId (s.clientMgr.clients.map Prod.fst)
      s.clientMgr [] 0 ⟨hT, cl, hcl, hs, ha⟩
    have hb : ((s.apply (.tick sd d kernel)).2.filter (Emission.reaches wanted)).flatMap
        Emission.bytes = if wanted d.symbolId then ((s.faultSkip sd).2.generateTick d).2.1 else [] := by
      simp only [ExchangeSimulator.apply, ExchangeSimulator.generateAndBroadcastTick, List.filter_cons,
        List.filter_nil, Emission.reaches, Bool.false_or]
      rcases (s.faultSkip sd).2.generateTick_symbol d with h0 | h1
      · rw [h0]; split_ifs <;> rfl
      · rw [h1]; split_ifs <;> simp
    refine ⟨⟨hm'.1, hm'.2⟩, hb ▸ ExchangeSimulator.wireTo_sends ⟨hp, n, ho, hn⟩ hT
      ((s.faultSkip sd).2.generateTick d).2.2 (wanted d.symbolId) ?_ (hlen.1 ▸ hlen.2)⟩
    rw [ClientManager.broadcast_sends, filter_fd_flatMap s.clientMgr.keys_nodup hkeys _
      (ClientManager.sendOf_fd _ _ _ _)]
    simp [ClientManager.sendOf, hcl, ClientConnection.wants, hs, ha]
  | heartbeat ts kernel =>
    obtain ⟨hp, n, ho, hn⟩ := hc
    have hlen := s.tickGen.generateHeartbeat_length ts
    have hb : ((s.apply (.heartbeat ts kernel)).2.filter (Emission.reaches wanted)).flatMap
        Emission.bytes = if true then (s.tickGen.generateHeartbeat ts).2.1 else [] := by
      simp [ExchangeSimulator.apply, ExchangeSimulator.sendHeartbeat, Emission.reaches]
    refine ⟨Serves.sendToAll kernel _ ⟨hp, n, ho, hlen.2.trans hn⟩ _ _ _ ⟨hT, cl, hcl, hs, ha⟩,
      hb ▸ ExchangeSimulator.wireTo_sends ⟨hp, n, ho, hn⟩ hT
        (s.tickGen.generateHeartbeat ts).2.2 true ?_ (hlen.1 ▸ hlen.2)⟩
    rw [ClientManager.sendToAll_sends, List.nil_append,
      filter_fd_flatMap s.clientMgr.keys_nodup hkeys _ fun fd' r hr => by simp_all, if_pos rfl]
  | enableFaultInjection b => exact ⟨⟨hT, cl, hcl, hs, ha⟩, rfl⟩
  | newConnection fd' => exact ⟨Serves.addClient ⟨hT, cl, hcl, hs, ha⟩ fd', rfl⟩
  | clientEvent fd' isRead isError recv =>
    exact ⟨Serves.handleClientEvent ⟨hT, cl, hcl, hs, ha⟩ hc isRead isError recv, rfl⟩

/-- **A subscriber the kernel keeps up with receives its frames.** From any
state in which `fd` is a client that is not slow and takes the symbols `wanted`,
over any run of calls that leave its connection alone and whose sends to it the
kernel keeps up with, the bytes `fd` receives are the frames the simulator hands
on that reach it, whole and in order. -/
theorem streamTo_run (fd : Int) (wanted : UInt16 → Bool) (calls : List SimCall) :
    ∀ s : ExchangeSimulator, Serves s.clientMgr fd wanted → (∀ c ∈ calls, c.Spares fd) →
      s.streamTo fd calls =
        ((s.run calls).2.filter (Emission.reaches wanted)).flatMap Emission.bytes := by
  induction calls with
  | nil => intro s _ _; rfl
  | cons c cs ih =>
    intro s h hcs
    obtain ⟨h₁, hw⟩ := h.apply c (hcs c (List.mem_cons_self _ _))
    simp only [ExchangeSimulator.streamTo, ExchangeSimulator.run, List.filter_append,
      List.flatMap_append, hw,
      ih _ h₁ fun c' hc' => hcs c' (List.mem_cons_of_mem _ hc')]

end MarketFeed.Server
