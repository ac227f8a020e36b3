import MarketFeed.Server.Delivery
import MarketFeed.Client.FrameStream

/-!
# From the publisher to a subscriber

The exchange simulator numbers every frame one past the last, except that with
fault injection on it throws away every hundredth tick, so that the next frame
is numbered two past the last (`Numbering`). A client connected at any point of
a run, that takes every symbol and whose socket the kernel keeps draining,
receives every frame the simulator hands on from then on, whole and in order
(`streamTo_run`). Its feed handler, whatever chunks its receives cut the stream
into, applies every frame to its cache in order, and its parser reports one gap
for each number thrown away after the client's first frame, with that number as
the expected one and the next as the received one
(`subscriber_receives_every_frame`).

A client that sends a subscription is sent only the heartbeats and the ticks of
its symbols, but the frames keep the publisher's numbers, so its parser counts
a gap before every frame that follows one it was not sent
(`subscriber_receives_its_symbols`).
-/

namespace MarketFeed.Server

/-! ### The publisher's numbers -/

/-- The numbering after a run of calls. -/
def Numbering.after (a : Numbering) : List SimCall → Numbering
  | [] => a
  | c :: cs => after (a.step c).1 cs

/-- What one call does to the numbering: no frame, or one frame one or two past
the last. -/
theorem Numbering.step_cases (a : Numbering) (c : SimCall) :
    ((a.step c).2 = [] ∧ (a.step c).1.last = a.last) ∨
      ((a.step c).2 = [(a.step c).1.last] ∧
        ((a.step c).1.last = a.last + 1 ∨ (a.step c).1.last = a.last + 2)) := by
  cases c with
  | tick => right; refine ⟨rfl, ?_⟩; simp only [Numbering.step]; split_ifs <;> simp
  | heartbeat => exact .inr ⟨rfl, .inl rfl⟩
  | _ => exact .inl ⟨rfl, rfl⟩

/-- Each frame of a run is numbered one or two past the one before, the first
one or two past the numbering's last. -/
theorem Numbering.run_chain (calls : List SimCall) :
    ∀ a : Numbering, (a.last :: a.run calls).Chain' fun x y => y = x + 1 ∨ y = x + 2 := by
  induction calls with
  | nil => intro a; exact List.chain'_singleton _
  | cons c cs ih =>
    intro a
    rcases a.step_cases c with ⟨h₂, h₁⟩ | ⟨h₂, h₁⟩
    · simpa only [Numbering.run, h₂, List.nil_append, h₁] using ih (a.step c).1
    · simp only [Numbering.run, h₂, List.singleton_append]
      exact List.Chain'.cons h₁ (ih (a.step c).1)

theorem Numbering.after_append (a : Numbering) (xs ys : List SimCall) :
    Numbering.after a (xs ++ ys) = Numbering.after (Numbering.after a xs) ys := by
  induction xs generalizing a with
  | nil => rfl
  | cons c cs ih => exact ih (a.step c).1

theorem ExchangeSimulator.run_append (s : ExchangeSimulator) (xs ys : List SimCall) :
    (s.run (xs ++ ys)).1 = ((s.run xs).1.run ys).1 := by
  induction xs generalizing s with
  | nil => rfl
  | cons c cs ih => exact ih (s.apply c).1

theorem ticks_filter_cons (c : SimCall) (cs : List SimCall) :
    ((c :: cs).filter SimCall.isTick).length =
      (if c.isTick then 1 else 0) + (cs.filter SimCall.isTick).length := by
  rw [List.filter_cons]; split_ifs <;> simp [Nat.add_comm]

/-- The simulator agrees with the numbering after any run. -/
theorem Numbered.after {n : Nat} (hn : 0 < n) (calls : List SimCall) :
    ∀ s a, Numbered n s a → (∀ c ∈ calls, ∀ d ∈ c.draws, d.InRange (.new n)) →
      a.ticks + (calls.filter SimCall.isTick).length < 2 ^ 32 →
      Numbered n (s.run calls).1 (Numbering.after a calls) ∧
        (Numbering.after a calls).ticks ≤ a.ticks + (calls.filter SimCall.isTick).length := by
  induction calls with
  | nil => intro s a h _ _; exact ⟨h, Nat.le_add_right _ _⟩
  | cons c cs ih =>
    intro s a h hd ht
    rw [ticks_filter_cons] at ht ⊢
    have hs := a.step_ticks c
    obtain ⟨-, -, -, h₁⟩ := h.apply hn c (hd c (List.mem_cons_self _ _)) (by omega)
    obtain ⟨h', hle⟩ := ih _ _ h₁ (fun c' hc' => hd c' (List.mem_cons_of_mem _ hc')) (by omega)
    exact ⟨h', by simp only [Numbering.after]; omega⟩

end MarketFeed.Server

namespace MarketFeed.System

open MarketFeed.Protocol MarketFeed.Server MarketFeed.Client MarketFeed.Cache

/-- The numbers missing between frames numbered `ns`: one between each two
that are two apart. -/
def skippedBetween : List Nat → List Nat
  | x :: y :: rest => (if y = x + 2 then [x + 1] else []) ++ skippedBetween (y :: rest)
  | _ => []

/-! ### What the subscriber's parser makes of them -/

theorem uint32_ofNat_add_two_ne (x : Nat) : UInt32.ofNat (x + 2) ≠ UInt32.ofNat (x + 1) := by
  rw [Ne, UInt32.ext_iff]
  show ¬ (x + 2) % 2 ^ 32 = (x + 1) % 2 ^ 32
  omega

/-- Between frames numbered one or two apart, the gap callbacks name the
numbers in between, after a frame numbered `x`. -/
theorem withGaps_filter_isGap_skipped (fs : List Frame) :
    ∀ (x : Nat) (xs : List Nat), fs.map (·.sequenceNumber) = xs.map UInt32.ofNat →
      (x :: xs).Chain' (fun x y => y = x + 1 ∨ y = x + 2) →
      (withGaps (some (UInt32.ofNat x)) (fs.map Callback.ofFrame)).filter Callback.isGap =
        (skippedBetween (x :: xs)).map fun q => .gap (UInt32.ofNat q) (UInt32.ofNat (q + 1)) := by
  induction fs with
  | nil =>
    intro x xs hxs _
    cases xs with
    | nil => rfl
    | cons y ys => cases hxs
  | cons g gs ih =>
    intro x xs hxs hchain
    cases xs with
    | nil => cases hxs
    | cons y ys =>
      simp only [List.map_cons, List.cons.injEq] at hxs
      obtain ⟨hg, hgs⟩ := hxs
      obtain ⟨hxy, hrest⟩ := List.chain'_cons.mp hchain
      rw [withGaps_ofFrame_cons, List.filter_append, List.filter_cons, ofFrame_isGap,
        if_neg Bool.false_ne_true, gapBefore_filter_isGap, hg, ih y ys hgs hrest, skippedBetween,
        List.map_append]
      congr 1
      rcases hxy with rfl | rfl
      · simp [gapBefore, uint32_ofNat_add_one]
      · simp [gapBefore, uint32_ofNat_add_two_ne, uint32_ofNat_add_one]

/-- From a fresh tracker, over frames numbered as a run of the publisher, the
gap callbacks name the numbers missing between the frames. -/
theorem withGaps_filter_isGap_run (a : Numbering) (calls : List SimCall) (frames : List Frame)
    (hnums : frames.map (·.sequenceNumber) = (a.run calls).map UInt32.ofNat) :
    (withGaps none (frames.map Callback.ofFrame)).filter Callback.isGap =
      (skippedBetween (a.run calls)).map fun q => .gap (UInt32.ofNat q) (UInt32.ofNat (q + 1)) := by
  have hchain := (List.chain'_cons'.mp (Numbering.run_chain calls a)).2
  cases frames with
  | nil =>
    cases h : a.run calls with
    | nil => rfl
    | cons y ys => rw [h] at hnums; cases hnums
  | cons f fs =>
    cases h : a.run calls with
    | nil => rw [h] at hnums; cases hnums
    | cons y ys =>
      rw [h] at hnums hchain
      simp only [List.map_cons, List.cons.injEq] at hnums
      obtain ⟨hf, hfs⟩ := hnums
      rw [withGaps_ofFrame_cons, List.filter_append, List.filter_cons, ofFrame_isGap,
        if_neg Bool.false_ne_true, hf, withGaps_filter_isGap_skipped fs y ys hfs hchain]
      rfl

/-- The frames a client subscribed to `ids` is sent: every heartbeat, and the
ticks of the symbols `ids` names, or of every symbol when it is empty. -/
def sentToSubscriber (ids : List UInt16) (f : Frame) : Bool :=
  decide (f.payload.kind = .heartbeat) || subscriptionWants ids f.symbolId

/-- A whole frame reaches the clients that take the symbol it carries, and all
of them when it is a heartbeat. -/
theorem reaches_ofFrame (wanted : UInt16 → Bool) (f : Frame) :
    Emission.reaches wanted (Emission.ofFrame f) =
      (decide (f.payload.kind = .heartbeat) || wanted f.symbolId) := by
  have hd : MessageHeader.decode f.encode = f.header := by simpa using Frame.decode_encode f []
  simp only [Emission.reaches, Emission.ofFrame, hd]
  rfl

theorem filter_reaches_ofFrame (ids : List UInt16) (frames : List Frame) :
    (frames.map Emission.ofFrame).filter (Emission.reaches (subscriptionWants ids)) =
      (frames.filter (sentToSubscriber ids)).map Emission.ofFrame := by
  rw [List.filter_map]
  congr 2
  funext f
  exact reaches_ofFrame _ f

/-! ### End to end -/

section EndToEnd

variable (clock : Nat → UInt64) (midpoint : UInt64 → UInt64 → UInt64)

/-- **From the publisher to a subscriber.** Run the simulator for `n ≥ 1`
symbols from construction, with every draw in the range of `symbol_dist_` and
fewer than `2^32` tick calls; after any calls `pre`, a client connects on a
free descriptor `fd`. It keeps the subscription to every symbol and the kernel
keeps up with its socket during the calls `post`. Whatever chunks of at most
`RECV_BUFFER_SIZE` bytes its receives cut its byte stream into, a feed handler
with a fresh parser applies every frame the simulator handed on during `post`
to its cache, in order, and counts each one; its parser delivers them all, and
its gap callbacks, which `sequence_gaps_` counts, are one for each number the
publisher left out between two of them, naming that number as expected and the
next as received. -/
theorem subscriber_receives_every_frame (n : Nat) (hn : 0 < n) (pre post : List SimCall)
    (fd : Int) (hdraws : ∀ c ∈ pre ++ post, ∀ d ∈ c.draws, d.InRange (.new n))
    (hticks : ((pre ++ post).filter SimCall.isTick).length < 2 ^ 32)
    (hfd : fd ∉ ((ExchangeSimulator.new n).run pre).1.clientMgr.clients.map Prod.fst)
    (hspare : ∀ c ∈ post, c.Spares fd) (chunks : List (List UInt8))
    (hsplit : chunks.flatten =
      (((ExchangeSimulator.new n).run pre).1.handleNewConnection fd).streamTo fd post)
    (hc : ∀ c ∈ chunks, c.length ≤ recvBufferSize) (h : FeedHandler) (hp : h.parser = .init) :
    ∃ frames : List Frame,
      ((((ExchangeSimulator.new n).run pre).1.handleNewConnection fd).run post).2 =
          frames.map Emission.ofFrame ∧
        (h.processData clock midpoint chunks).cache = frames.foldl (applyFrame midpoint) h.cache ∧
        (h.processData clock midpoint chunks).messagesReceived =
          h.messagesReceived + .ofNat frames.length ∧
        (feedChunks .init chunks).2.2.2 = withGaps none (frames.map Callback.ofFrame) ∧
        (feedChunks .init chunks).2.2.2.filter Callback.isGap =
          (skippedBetween ((Numbering.after ⟨false, 0, 0⟩ pre).run post)).map
            (fun q => .gap (UInt32.ofNat q) (UInt32.ofNat (q + 1))) ∧
        (h.processData clock midpoint chunks).parser.stats.sequenceGaps =
          (skippedBetween ((Numbering.after ⟨false, 0, 0⟩ pre).run post)).length := by
  rw [List.filter_append, List.length_append] at hticks
  obtain ⟨hpre, hle⟩ := Numbered.after hn pre _ _ (numbered_new n)
    (fun c hc' => hdraws c (List.mem_append_left _ hc')) (by simp only [Nat.zero_add]; omega)
  have hs₁ : Numbered n (((ExchangeSimulator.new n).run pre).1.handleNewConnection fd)
      (Numbering.after ⟨false, 0, 0⟩ pre) := hpre.withClients _
  obtain ⟨frames, hem, hnums⟩ := Numbered.run hn post _ _ hs₁
    (fun c hc' => hdraws c (List.mem_append_right _ hc')) (by simp only [Nat.zero_add] at hle; omega)
  have hserve := Serves.handleNewConnection hfd
    ((ExchangeSimulator.run_slowThreshold pre (.new n)).trans rfl)
  have hsplit' : chunks.flatten = frames.flatMap Frame.encode := by
    rw [hsplit, streamTo_run fd _ post _ hserve hspare, hem,
      List.filter_eq_self.mpr fun e _ => by simp [Emission.reaches], List.flatMap_map]
    rfl
  obtain ⟨hcb, hgaps, -, -, hcount, -⟩ := feedChunks_any_numbering frames chunks hsplit' hc
  obtain ⟨hparser, hcache, hmsg⟩ := processData_feedChunks clock midpoint h chunks
  have hrun := withGaps_filter_isGap_run _ post frames hnums
  rw [hp] at hparser hcache hmsg
  refine ⟨frames, hem, ?_, by rw [hmsg, hcount], hcb, by rw [hcb, hrun], ?_⟩
  · rw [hcache, hcb, foldl_applyCallback_withGaps]
  · rw [hparser, hgaps, hrun, List.length_map]

/-- **A subscriber to some symbols.** As above, but the client, once connected
on the free descriptor `fd`, has its frame from `send_subscription(ids)`, with at
most 510 ids, read whole before the calls `post`. The simulator still hands on
frames numbered as the whole run goes; the bytes sent to `fd` are exactly the
encodings of every heartbeat and of the ticks of the symbols in `ids` (all
symbols if `ids` is empty), in order. Its parser reports those frames, with a
gap callback before each whose number is not one past the previous one's, so
ticks of the symbols it did not ask for count as gaps; its feed handler applies
exactly those frames to its cache, in order. -/
theorem subscriber_receives_its_symbols (n : Nat) (hn : 0 < n) (pre post : List SimCall)
    (fd : Int) (ids : List UInt16) (hids : ids.length ≤ 510)
    (hdraws : ∀ c ∈ pre ++ post, ∀ d ∈ c.draws, d.InRange (.new n))
    (hticks : ((pre ++ post).filter SimCall.isTick).length < 2 ^ 32)
    (hfd : fd ∉ ((ExchangeSimulator.new n).run pre).1.clientMgr.clients.map Prod.fst)
    (hspare : ∀ c ∈ post, c.Spares fd) (chunks : List (List UInt8))
    (hsplit : chunks.flatten = ((ExchangeSimulator.new n).run (pre ++
      [.newConnection fd, .clientEvent fd true false (.received (sendSubscription ids))])).1.streamTo
        fd post)
    (hc : ∀ c ∈ chunks, c.length ≤ recvBufferSize) (h : FeedHandler) (hp : h.parser = .init) :
    ∃ frames : List Frame,
      (((ExchangeSimulator.new n).run (pre ++ [.newConnection fd,
          .clientEvent fd true false (.received (sendSubscription ids))])).1.run post).2 =
          frames.map Emission.ofFrame ∧
        frames.map (·.sequenceNumber) =
          ((Numbering.after ⟨false, 0, 0⟩ pre).run post).map UInt32.ofNat ∧
        ((ExchangeSimulator.new n).run (pre ++ [.newConnection fd,
          .clientEvent fd true false (.received (sendSubscription ids))])).1.streamTo fd post =
          (frames.filter (sentToSubscriber ids)).flatMap Frame.encode ∧
        (feedChunks .init chunks).2.2.2 =
          withGaps none ((frames.filter (sentToSubscriber ids)).map Callback.ofFrame) ∧
        (h.processData clock midpoint chunks).cache =
          (frames.filter (sentToSubscriber ids)).foldl (applyFrame midpoint) h.cache ∧
        (h.processData clock midpoint chunks).messagesReceived =
          h.messagesReceived + .ofNat (frames.filter (sentToSubscriber ids)).length ∧
        (h.processData clock midpoint chunks).parser.stats.sequenceGaps =
          ((frames.filter (sentToSubscriber ids)).zip (frames.filter (sentToSubscriber ids)).tail).countP
            fun p => p.2.sequenceNumber ≠ p.1.sequenceNumber + 1 := by
  rw [List.filter_append, List.length_append] at hticks
  obtain ⟨hpre, hle⟩ := Numbered.after hn pre _ _ (numbered_new n)
    (fun c hc' => hdraws c (List.mem_append_left _ hc')) (by simp only [Nat.zero_add]; omega)
  simp only [Nat.zero_add] at hle
  have hconn : (Numbering.after ⟨false, 0, 0⟩ pre).after [.newConnection fd,
      .clientEvent fd true false (.received (sendSubscription ids))] =
      Numbering.after ⟨false, 0, 0⟩ pre := rfl
  have hsub := (Numbered.after hn [.newConnection fd, .clientEvent fd true false
    (.received (sendSubscription ids))] _ _ hpre (by simp [SimCall.draws])
    (by simp [SimCall.isTick]; omega)).1
  rw [hconn, ← ExchangeSimulator.run_append] at hsub
  obtain ⟨frames, hem, hnums⟩ := Numbered.run hn post _ _ hsub
    (fun c hc' => hdraws c (List.mem_append_right _ hc')) (by omega)
  have hserve : Serves ((ExchangeSimulator.new n).run (pre ++ [.newConnection fd,
      .clientEvent fd true false (.received (sendSubscription ids))])).1.clientMgr fd
      (subscriptionWants ids) := by
    rw [ExchangeSimulator.run_append]
    exact (Serves.handleNewConnection hfd
      ((ExchangeSimulator.run_slowThreshold pre (.new n)).trans rfl)).subscribe ids hids
  have hsent : ((ExchangeSimulator.new n).run (pre ++ [.newConnection fd,
      .clientEvent fd true false (.received (sendSubscription ids))])).1.streamTo fd post =
      (frames.filter (sentToSubscriber ids)).flatMap Frame.encode := by
    rw [streamTo_run fd _ post _ hserve hspare, hem, filter_reaches_ofFrame, List.flatMap_map]
    rfl
  obtain ⟨hcb, hgaps, -, -, hcount, -⟩ := feedChunks_any_numbering _ chunks (hsplit.trans hsent) hc
  obtain ⟨hparser, hcache, hmsg⟩ := processData_feedChunks clock midpoint h chunks
  rw [hp] at hparser hcache hmsg
  refine ⟨frames, hem, hnums, hsent, hcb, ?_, by rw [hmsg, hcount], ?_⟩
  · rw [hcache, hcb, foldl_applyCallback_withGaps]
  · rw [hparser, hgaps, withGaps_filter_isGap]

end EndToEnd

/-- Faults on; client 5 connects, then gets a quote for symbol 1 and a
heartbeat, in one receive. -/
theorem subscriber_receives_every_frame_quote_heartbeat :
    let d : TickDraw := ⟨1, false, ⟨0, 0⟩, ⟨0x4058FF5C28F5C28F, 100, 0x4059000000000000, 200⟩, 1000⟩
    let k : Int → KernelReply := fun _ => ⟨0, .accepted 1000⟩
    let pre := [SimCall.enableFaultInjection true]
    let post := [SimCall.tick d d k, .heartbeat 2000 k]
    let s := ((ExchangeSimulator.new 2).run pre).1.handleNewConnection 5
    let h : FeedHandler := ⟨.init, SymbolCache.new maxSymbols, .init, 0, 0, 0⟩
    let chunks := [s.streamTo 5 post]
    (∀ c ∈ post, c.Spares 5) ∧ (5 : Int) ∉ ((ExchangeSimulator.new 2).run pre).1.clientMgr.clients.map Prod.fst ∧
      ∃ frames : List Frame, (s.run post).2 = frames.map Emission.ofFrame ∧
        (h.processData (fun _ => 2000000000) (fun b _ => b) chunks).cache =
          frames.foldl (applyFrame fun b _ => b) h.cache ∧
        (h.processData (fun _ => 2000000000) (fun b _ => b) chunks).messagesReceived =
          h.messagesReceived + .ofNat frames.length ∧
        (feedChunks .init chunks).2.2.2 = withGaps none (frames.map Callback.ofFrame) ∧
        (feedChunks .init chunks).2.2.2.filter Callback.isGap =
          (skippedBetween ((Numbering.after ⟨false, 0, 0⟩ pre).run post)).map
            (fun q => .gap (UInt32.ofNat q) (UInt32.ofNat (q + 1))) ∧
        (h.processData (fun _ => 2000000000) (fun b _ => b) chunks).parser.stats.sequenceGaps =
          (skippedBetween ((Numbering.after ⟨false, 0, 0⟩ pre).run post)).length := by
  intro d k pre post s h chunks
  have hspare : ∀ c ∈ post, c.Spares 5 := by
    intro c hc
    simp only [post, List.mem_cons, List.mem_singleton, List.not_mem_nil, or_false] at hc
    rcases hc with rfl | rfl <;> exact ⟨by decide, 1000, rfl, by decide⟩
  exact ⟨hspare, by decide, subscriber_receives_every_frame (fun _ => 2000000000) (fun b _ => b) 2
    (by decide) pre post 5 (by decide) (by decide) (by decide) hspare chunks (List.flatten_singleton _)
    (by decide) h rfl⟩

/-- Client 5 subscribes to symbol 1 of 2, then gets a quote for symbol 1, no
frame for the trade on symbol 0, and a quote for symbol 1 again, in one
receive. -/
theorem subscriber_receives_its_symbols_one_of_two :
    let d1 : TickDraw := ⟨1, false, ⟨0, 0⟩, ⟨0x4058FF5C28F5C28F, 100, 0x4059000000000000, 200⟩, 1000⟩
    let d0 : TickDraw := ⟨0, true, ⟨0x4059100000000000, 5⟩, ⟨0, 0, 0, 0⟩, 1500⟩
    let k : Int → KernelReply := fun _ => ⟨0, .accepted 1000⟩
    let pre : List SimCall := []
    let post := [SimCall.tick d1 d1 k, .tick d0 d0 k, .tick d1 d1 k]
    let calls := pre ++ [.newConnection 5, .clientEvent 5 true false (.received (sendSubscription [1]))]
    let h : FeedHandler := ⟨.init, SymbolCache.new maxSymbols, .init, 0, 0, 0⟩
    let chunks := [((ExchangeSimulator.new 2).run calls).1.streamTo 5 post]
    (∀ c ∈ post, c.Spares 5) ∧
      (5 : Int) ∉ ((ExchangeSimulator.new 2).run pre).1.clientMgr.clients.map Prod.fst ∧
      ∃ frames : List Frame,
        (((ExchangeSimulator.new 2).run calls).1.run post).2 = frames.map Emission.ofFrame ∧
        frames.map (·.sequenceNumber) =
          ((Numbering.after ⟨false, 0, 0⟩ pre).run post).map UInt32.ofNat ∧
        ((ExchangeSimulator.new 2).run calls).1.streamTo 5 post =
          (frames.filter (sentToSubscriber [1])).flatMap Frame.encode ∧
        (feedChunks .init chunks).2.2.2 =
          withGaps none ((frames.filter (sentToSubscriber [1])).map Callback.ofFrame) ∧
        (h.processData (fun _ => 2000000000) (fun b _ => b) chunks).cache =
          (frames.filter (sentToSubscriber [1])).foldl (applyFrame fun b _ => b) h.cache ∧
        (h.processData (fun _ => 2000000000) (fun b _ => b) chunks).messagesReceived =
          h.messagesReceived + .ofNat (frames.filter (sentToSubscriber [1])).length ∧
        (h.processData (fun _ => 2000000000) (fun b _ => b) chunks).parser.stats.sequenceGaps =
          ((frames.filter (sentToSubscriber [1])).zip (frames.filter (sentToSubscriber [1])).tail).countP
            fun p => p.2.sequenceNumber ≠ p.1.sequenceNumber + 1 := by
  intro d1 d0 k pre post calls h chunks
  have hspare : ∀ c ∈ post, c.Spares 5 := by
    intro c hc
    simp only [post, List.mem_cons, List.mem_singleton, List.not_mem_nil, or_false] at hc
    rcases hc with rfl | rfl | rfl <;> exact ⟨by decide, 1000, rfl, by decide⟩
  exact ⟨hspare, by decide, subscriber_receives_its_symbols (fun _ => 2000000000) (fun b _ => b) 2
    (by decide) pre post 5 [1] (by decide) (by decide) (by decide) (by decide) hspare chunks
    (List.flatten_singleton _) (by decide) h rfl⟩

end MarketFeed.System
