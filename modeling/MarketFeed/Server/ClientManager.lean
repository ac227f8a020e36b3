import Mathlib

/-!
# The client manager and its slow-consumer flag

`ClientManager` keeps one `ClientConnection` per socket. `send_to_client` reads
the socket's send-queue depth, refuses the send when it exceeds
`slow_threshold_`, and otherwise sends; a refused, blocked or partial send marks
the client slow, and a full send clears the flag when the depth read before it
is below half the threshold. `broadcast` skips slow clients, so a slow client
gets data again only through `send_heartbeat`, which sends to every client.

What the kernel answers each send, the depth `TIOCOUTQ` reports and the result
of `send`, is a `KernelReply`; the results hold for every reply. A fully
accepted send puts its bytes on the queue, so the depth after it is the depth
read before it plus its length (`SendRecord.depthAfter`).

`flag_transitions` says when the flag can change over any call;
`slow_flag_cleared_above_half` is a run in which it is cleared although the
queue holds more than half the threshold after the send.
-/

namespace MarketFeed.Server

/-- What `send` returns: a count of accepted bytes, or `-1` with `EAGAIN` or
`EWOULDBLOCK`, or `-1` with another error. -/
inductive SendOutcome
  | accepted (n : Nat)
  | wouldBlock
  | failed
  deriving DecidableEq, Repr

/-- The kernel's answers to one `send_to_client`: the depth `get_pending_bytes`
returns (zero when the ioctl fails), then the outcome of `send`. -/
structure KernelReply where
  pending : Nat
  outcome : SendOutcome
  deriving DecidableEq, Repr

/-- `ClientConnection`, without the address, port and time points no modelled
code reads. The subscription set is a list read up to membership. -/
structure ClientConnection where
  subscribedSymbols : List UInt16 := []
  subscribeAll : Bool := true
  pendingBytes : Nat := 0
  slowConsumerCount : Nat := 0
  isSlow : Bool := false
  messagesSent : UInt64 := 0
  bytesSent : UInt64 := 0
  deriving DecidableEq, Repr

/-- `SLOW_CONSUMER_THRESHOLD`, 1 MiB. -/
def slowConsumerThreshold : Nat := 1024 * 1024

/-- The manager: `clients_` as a list of entries with distinct descriptors. -/
structure ClientManager where
  clients : List (Int × ClientConnection)
  keys_nodup : (clients.map Prod.fst).Nodup
  slowThreshold : Nat := slowConsumerThreshold
  totalMessagesSent : UInt64 := 0
  totalBytesSent : UInt64 := 0

/-- A manager with no client, as constructed. -/
def ClientManager.empty : ClientManager := ⟨[], List.nodup_nil, slowConsumerThreshold, 0, 0⟩

/-- `clients_.find(fd)`. -/
def ClientManager.find (m : ClientManager) (fd : Int) : Option ClientConnection :=
  m.clients.lookup fd

/-- Rewrite the entry of `fd`, if there is one. -/
def ClientManager.modify (m : ClientManager) (fd : Int)
    (f : ClientConnection → ClientConnection) : ClientManager :=
  { m with
    clients := m.clients.map fun e => (e.1, if e.1 = fd then f e.2 else e.2)
    keys_nodup := by rw [List.map_map]; exact m.keys_nodup }

/-- `add_client`: a fresh connection, unless the descriptor is already there. -/
def ClientManager.addClient (m : ClientManager) (fd : Int) : ClientManager × Bool :=
  if h : fd ∈ m.clients.map Prod.fst then (m, false)
  else
    ({ m with
      clients := m.clients ++ [(fd, {})]
      keys_nodup := by
        rw [List.map_append, List.nodup_append]
        exact ⟨m.keys_nodup, List.nodup_singleton _, by simpa using h⟩ }, true)

/-- `remove_client`. -/
def ClientManager.removeClient (m : ClientManager) (fd : Int) : ClientManager :=
  { m with
    clients := m.clients.filter fun e => e.1 ≠ fd
    keys_nodup := (List.filter_sublist _).map Prod.fst |>.nodup m.keys_nodup }

/-- `handle_subscription(fd, symbol_ids, count)`: clear the set, set
`subscribe_all` to `count == 0`, insert each id. -/
def ClientManager.handleSubscription (m : ClientManager) (fd : Int) (ids : List UInt16) :
    ClientManager × Bool :=
  match m.find fd with
  | none => (m, false)
  | some _ =>
    (m.modify fd fun c =>
      { c with subscribedSymbols := ids.foldl (fun s x => s.insert x) [],
               subscribeAll := ids.length = 0 }, true)

/-- `mark_slow_consumer`. -/
def ClientManager.markSlowConsumer (m : ClientManager) (fd : Int) : ClientManager :=
  m.modify fd fun c => { c with isSlow := true, slowConsumerCount := c.slowConsumerCount + 1 }

/-- `clear_slow_status`. -/
def ClientManager.clearSlowStatus (m : ClientManager) (fd : Int) : ClientManager :=
  m.modify fd fun c => { c with isSlow := false }

/-- `send_to_client(fd, data, len)`: the manager after it and whether all bytes went. -/
def ClientManager.sendToClient (m : ClientManager) (fd : Int) (r : KernelReply) (len : Nat) :
    ClientManager × Bool :=
  match m.find fd with
  | none => (m, false)
  | some c =>
    let m := m.modify fd fun c => { c with pendingBytes := r.pending }
    if m.slowThreshold < r.pending then (m.markSlowConsumer fd, false)
    else
      match r.outcome with
      | .wouldBlock => (m.markSlowConsumer fd, false)
      | .failed => (m, false)
      | .accepted n =>
        if n < len then (m.markSlowConsumer fd, false)
        else if c.isSlow && r.pending < m.slowThreshold / 2 then (m.clearSlowStatus fd, true)
        else (m, true)

/-- What one `send_to_client` did: to whom, what the kernel answered, how many
bytes were asked for. -/
structure SendRecord where
  fd : Int
  reply : KernelReply
  len : Nat
  deriving DecidableEq, Repr

/-- All `len` bytes were accepted. -/
def SendRecord.full (s : SendRecord) : Bool :=
  match s.reply.outcome with
  | .accepted n => s.len ≤ n
  | _ => false

/-- The queue depth after a full send: the bytes already queued and the send's own. -/
def SendRecord.depthAfter (s : SendRecord) : Nat := s.reply.pending + s.len

/-- The loop of `broadcast` over the descriptors, with the sends it made and the count. -/
def ClientManager.broadcastTo (kernel : Int → KernelReply) (len : Nat) (sid : UInt16) :
    List Int → ClientManager × List SendRecord × Nat → ClientManager × List SendRecord × Nat
  | [], acc => acc
  | fd :: fds, (m, sends, count) =>
    match m.find fd with
    | none => broadcastTo kernel len sid fds (m, sends, count)
    | some c =>
      if c.isSlow then broadcastTo kernel len sid fds (m, sends, count)
      else if !c.subscribeAll && sid ∉ c.subscribedSymbols then
        broadcastTo kernel len sid fds (m, sends, count)
      else
        let r := m.sendToClient fd (kernel fd) len
        let sends := sends ++ [⟨fd, kernel fd, len⟩]
        if r.2 then
          broadcastTo kernel len sid fds
            (r.1.modify fd (fun c => { c with messagesSent := c.messagesSent + 1,
                                              bytesSent := c.bytesSent + .ofNat len }),
              sends, count + 1)
        else broadcastTo kernel len sid fds (r.1, sends, count)

/-- `broadcast(data, len, symbol_id)`: the manager, the sends made, and the count returned. -/
def ClientManager.broadcast (m : ClientManager) (kernel : Int → KernelReply) (len : Nat)
    (sid : UInt16) : ClientManager × List SendRecord × Nat :=
  let r := broadcastTo kernel len sid (m.clients.map Prod.fst) (m, [], 0)
  ({ r.1 with totalMessagesSent := r.1.totalMessagesSent + .ofNat r.2.2,
              totalBytesSent := r.1.totalBytesSent + .ofNat (r.2.2 * len) }, r.2.1, r.2.2)

/-- The loop of `send_heartbeat` over `get_all_client_fds()`, with the sends made. -/
def ClientManager.sendToAll (kernel : Int → KernelReply) (len : Nat) :
    List Int → ClientManager × List SendRecord → ClientManager × List SendRecord
  | [], acc => acc
  | fd :: fds, (m, sends) =>
    sendToAll kernel len fds ((m.sendToClient fd (kernel fd) len).1, sends ++ [⟨fd, kernel fd, len⟩])

/-- A call on the manager, with the kernel's answer to each send it makes. -/
inductive ManagerOp
  | addClient (fd : Int)
  | removeClient (fd : Int)
  | handleSubscription (fd : Int) (ids : List UInt16)
  | broadcast (kernel : Int → KernelReply) (len : Nat) (sid : UInt16)
  | sendHeartbeat (kernel : Int → KernelReply) (len : Nat)

/-- One call: the manager after it and the sends it made. -/
def ManagerOp.apply (m : ClientManager) : ManagerOp → ClientManager × List SendRecord
  | .addClient fd => ((m.addClient fd).1, [])
  | .removeClient fd => (m.removeClient fd, [])
  | .handleSubscription fd ids => ((m.handleSubscription fd ids).1, [])
  | .broadcast kernel len sid => ((m.broadcast kernel len sid).1, (m.broadcast kernel len sid).2.1)
  | .sendHeartbeat kernel len => ClientManager.sendToAll kernel len (m.clients.map Prod.fst) (m, [])

/-- A run of calls: the manager after each, and every send. -/
def ManagerOp.run (m : ClientManager) : List ManagerOp → ClientManager × List SendRecord
  | [] => (m, [])
  | op :: ops =>
    let r := op.apply m
    let rest := run r.1 ops
    (rest.1, r.2 ++ rest.2)

/-! ### Lookups -/

theorem lookup_map_modify (l : List (Int × ClientConnection)) (fd fd' : Int)
    (f : ClientConnection → ClientConnection) :
    (l.map fun e => (e.1, if e.1 = fd then f e.2 else e.2)).lookup fd' =
      if fd' = fd then (l.lookup fd).map f else l.lookup fd' := by
  induction l with
  | nil => split_ifs <;> rfl
  | cons e l ih =>
    obtain ⟨k, c⟩ := e
    by_cases hk : fd' = k
    · subst hk
      by_cases hf : fd' = fd
      · subst hf; simp [List.lookup]
      · simp [List.lookup, hf]
    · have hk' : (fd' == k) = false := beq_false_of_ne hk
      simp only [List.map_cons, List.lookup, hk', ih]
      split_ifs with hf
      · subst hf
        have : (fd' == k) = false := hk'
        simp [this]
      · rfl

@[simp] theorem ClientManager.find_modify (m : ClientManager) (fd fd' : Int)
    (f : ClientConnection → ClientConnection) :
    (m.modify fd f).find fd' = if fd' = fd then (m.find fd).map f else m.find fd' :=
  lookup_map_modify _ _ _ _

/-- What `handle_subscription` leaves on each client. -/
theorem ClientManager.find_handleSubscription {m : ClientManager} {fd : Int} {c : ClientConnection}
    (hc : m.find fd = some c) (ids : List UInt16) (fd' : Int) :
    (m.handleSubscription fd ids).1.find fd' =
      if fd' = fd then
        some { c with subscribedSymbols := ids.foldl (fun s x => s.insert x) [],
                      subscribeAll := ids.length = 0 }
      else m.find fd' := by
  simp only [handleSubscription, hc, find_modify]
  split_ifs with h
  · subst h; simp [hc]
  · rfl

theorem mem_foldl_insert (ids l : List UInt16) (x : UInt16) :
    x ∈ ids.foldl (fun s y => s.insert y) l ↔ x ∈ l ∨ x ∈ ids := by
  induction ids generalizing l with
  | nil => simp
  | cons y ids ih => simp only [List.foldl_cons, ih, List.mem_insert_iff, List.mem_cons]; tauto

@[simp] theorem ClientManager.modify_slowThreshold (m : ClientManager) (fd : Int) (f) :
    (m.modify fd f).slowThreshold = m.slowThreshold := rfl

/-! ### When a send changes the flag -/

/-- The sends `sends` account for the flag of `fd` going from `before` to
`after`: it was set by a refused, blocked or partial send, and cleared by a
full send that read a depth below half the threshold. -/
def Explains (T : Nat) (fd : Int) (sends : List SendRecord) (before after : Bool) : Prop :=
  (before = false → after = true → ∃ s ∈ sends, s.fd = fd ∧
    (T < s.reply.pending ∨ s.reply.outcome = .wouldBlock ∨
      ∃ n, s.reply.outcome = .accepted n ∧ n < s.len)) ∧
  (before = true → after = false → ∃ s ∈ sends, s.fd = fd ∧ s.full = true ∧ s.reply.pending < T / 2)

theorem Explains.refl (T : Nat) (fd : Int) (sends : List SendRecord) (b : Bool) :
    Explains T fd sends b b := ⟨fun h1 h2 => by simp_all, fun h1 h2 => by simp_all⟩

theorem Explains.trans {T : Nat} {fd : Int} {s₁ s₂ : List SendRecord} {a b c : Bool}
    (h₁ : Explains T fd s₁ a b) (h₂ : Explains T fd s₂ b c) : Explains T fd (s₁ ++ s₂) a c := by
  constructor <;> intro ha hc <;> cases b
  · obtain ⟨s, hs, h⟩ := h₂.1 rfl hc; exact ⟨s, List.mem_append_right _ hs, h⟩
  · obtain ⟨s, hs, h⟩ := h₁.1 ha rfl; exact ⟨s, List.mem_append_left _ hs, h⟩
  · obtain ⟨s, hs, h⟩ := h₁.2 ha rfl; exact ⟨s, List.mem_append_left _ hs, h⟩
  · obtain ⟨s, hs, h⟩ := h₂.2 rfl hc; exact ⟨s, List.mem_append_right _ hs, h⟩

/-- The flag of `fd`, if it is a client. -/
def ClientManager.flag (m : ClientManager) (fd : Int) : Option Bool := (m.find fd).map (·.isSlow)

/-- The flag `send_to_client` leaves on a client whose flag was `slow`. -/
def slowAfterSend (T : Nat) (slow : Bool) (r : KernelReply) (len : Nat) : Bool :=
  if T < r.pending then true
  else
    match r.outcome with
    | .wouldBlock => true
    | .failed => slow
    | .accepted n => if n < len then true else if slow && r.pending < T / 2 then false else slow

/-- `send_to_client` calls `mark_slow_consumer`: the depth read is above the
threshold, or `send` would block, or it accepted fewer bytes than asked. -/
def markedBySend (T : Nat) (r : KernelReply) (len : Nat) : Bool :=
  if T < r.pending then true
  else
    match r.outcome with
    | .wouldBlock => true
    | .failed => false
    | .accepted n => decide (n < len)

/-- **What one send does to the clients**: client `fd` records the depth read,
takes the flag `slowAfterSend` and counts one more slow event when the send
marks it; every other client stays. -/
theorem ClientManager.sendToClient_find (m : ClientManager) (fd : Int) (r : KernelReply)
    (len : Nat) (fd' : Int) :
    (m.sendToClient fd r len).1.find fd' =
      if fd' = fd then
        (m.find fd).map fun c =>
          { c with pendingBytes := r.pending, isSlow := slowAfterSend m.slowThreshold c.isSlow r len,
                   slowConsumerCount :=
                     c.slowConsumerCount + if markedBySend m.slowThreshold r len then 1 else 0 }
      else m.find fd' := by
  unfold sendToClient
  cases hf : m.find fd with
  | none => split_ifs with h <;> simp [h, hf]
  | some c =>
    obtain ⟨p, o⟩ := r
    simp only [slowAfterSend, markedBySend, modify_slowThreshold]
    by_cases hT : m.slowThreshold < p
    · simp [hT, markSlowConsumer, hf]; split_ifs <;> rfl
    cases o with
    | wouldBlock => simp [hT, markSlowConsumer, hf]; split_ifs <;> rfl
    | failed => simp [hT, hf]
    | accepted n =>
      by_cases hn : n < len
      · simp [hT, hn, markSlowConsumer, hf]; split_ifs <;> rfl
      cases hs : c.isSlow
      · simp [hT, hn, hs, hf]
      by_cases hp : p < m.slowThreshold / 2
      · simp [hT, hn, hs, hp, clearSlowStatus, hf]; split_ifs <;> rfl
      · simp [hT, hn, hs, hp, hf]

/-- A rewrite that keeps the flag keeps every flag. -/
theorem ClientManager.flag_modify (m : ClientManager) (fd fd' : Int)
    (f : ClientConnection → ClientConnection) (hf : ∀ c, (f c).isSlow = c.isSlow) :
    (m.modify fd f).flag fd' = m.flag fd' := by
  simp only [flag, find_modify]
  split_ifs with h
  · subst h; cases m.find fd' <;> simp [hf]
  · rfl

theorem ClientManager.flag_markSlowConsumer (m : ClientManager) (fd fd' : Int) :
    (m.markSlowConsumer fd).flag fd' = if fd' = fd then (m.flag fd).map fun _ => true else m.flag fd' := by
  simp only [flag, markSlowConsumer, find_modify]; split_ifs <;> simp [Function.comp_def]

theorem ClientManager.flag_clearSlowStatus (m : ClientManager) (fd fd' : Int) :
    (m.clearSlowStatus fd).flag fd' = if fd' = fd then (m.flag fd).map fun _ => false else m.flag fd' := by
  simp only [flag, clearSlowStatus, find_modify]; split_ifs <;> simp [Function.comp_def]

/-- **What one send does to the flags**: the flag of `fd` becomes
`slowAfterSend`, every other flag stays, and so does the threshold. -/
theorem ClientManager.sendToClient_flag (m : ClientManager) (fd : Int) (r : KernelReply)
    (len : Nat) (fd' : Int) :
    (m.sendToClient fd r len).1.flag fd' =
      if fd' = fd then (m.flag fd).map (slowAfterSend m.slowThreshold · r len) else m.flag fd' := by
  unfold flag
  rw [sendToClient_find]
  by_cases h : fd' = fd
  · simp only [if_pos h, Option.map_map]; rfl
  · simp only [if_neg h]

@[simp] theorem ClientManager.sendToClient_slowThreshold (m : ClientManager) (fd : Int)
    (r : KernelReply) (len : Nat) : (m.sendToClient fd r len).1.slowThreshold = m.slowThreshold := by
  unfold sendToClient; split
  · rfl
  · dsimp only; split_ifs <;> (try split) <;> (try split_ifs) <;> rfl

/-- The flag `send_to_client` leaves is accounted for by that send. -/
theorem slowAfterSend_explains (T : Nat) (fd : Int) (slow : Bool) (r : KernelReply) (len : Nat) :
    Explains T fd [⟨fd, r, len⟩] slow (slowAfterSend T slow r len) := by
  have hmem := List.mem_singleton_self (⟨fd, r, len⟩ : SendRecord)
  unfold slowAfterSend
  by_cases hT : T < r.pending
  · rw [if_pos hT]
    exact ⟨fun _ _ => ⟨_, hmem, rfl, .inl hT⟩, fun _ h => by simp at h⟩
  rw [if_neg hT]
  rcases hr : r.outcome with n | _ | _
  · by_cases hl : n < len
    · simp only [if_pos hl]
      exact ⟨fun _ _ => ⟨_, hmem, rfl, .inr (.inr ⟨n, hr, hl⟩)⟩, fun _ h => by simp at h⟩
    · simp only [if_neg hl]
      split_ifs with hs
      · refine ⟨fun h _ => by simp_all, fun _ _ => ⟨_, hmem, rfl, ?_, by simp_all⟩⟩
        simp only [SendRecord.full, hr, decide_eq_true_eq]; omega
      · exact Explains.refl ..
  · exact ⟨fun _ _ => ⟨_, hmem, rfl, .inr (.inl hr)⟩, fun _ h => by simp at h⟩
  · exact Explains.refl ..

/-- A send accounts for every flag after it. -/
theorem ClientManager.sendToClient_explains (m : ClientManager) (fd : Int) (r : KernelReply)
    (len : Nat) (fd' : Int) (b : Bool) (hb : m.flag fd' = some b) :
    ∃ b', (m.sendToClient fd r len).1.flag fd' = some b' ∧
      Explains m.slowThreshold fd' [⟨fd, r, len⟩] b b' := by
  rw [sendToClient_flag]
  split_ifs with h
  · subst h
    exact ⟨_, by rw [hb]; rfl, slowAfterSend_explains ..⟩
  · refine ⟨b, hb, Explains.refl ..⟩

/-! ### Every call accounts for the flags it changes -/

/-- Since `m₀`, every client of `m₀` is still there and the sends `sends`
account for its flag; the threshold has not moved. -/
def FlagsExplained (m₀ m : ClientManager) (sends : List SendRecord) : Prop :=
  m.slowThreshold = m₀.slowThreshold ∧
    ∀ fd b, m₀.flag fd = some b → ∃ b', m.flag fd = some b' ∧ Explains m₀.slowThreshold fd sends b b'

theorem FlagsExplained.rfl (m : ClientManager) : FlagsExplained m m [] :=
  ⟨Eq.refl _, fun _ b hb => ⟨b, hb, Explains.refl ..⟩⟩

theorem FlagsExplained.send {m₀ m : ClientManager} {sends : List SendRecord}
    (h : FlagsExplained m₀ m sends) (fd : Int) (r : KernelReply) (len : Nat) :
    FlagsExplained m₀ (m.sendToClient fd r len).1 (sends ++ [⟨fd, r, len⟩]) := by
  refine ⟨by simp [h.1], fun fd' b hb => ?_⟩
  obtain ⟨b₁, h₁, e₁⟩ := h.2 fd' b hb
  obtain ⟨b₂, h₂, e₂⟩ := m.sendToClient_explains fd r len fd' b₁ h₁
  exact ⟨b₂, h₂, e₁.trans (h.1 ▸ e₂)⟩

theorem FlagsExplained.modify {m₀ m : ClientManager} {sends : List SendRecord}
    (h : FlagsExplained m₀ m sends) (fd : Int) (f : ClientConnection → ClientConnection)
    (hf : ∀ c, (f c).isSlow = c.isSlow) : FlagsExplained m₀ (m.modify fd f) sends :=
  ⟨h.1, fun fd' b hb => by rw [m.flag_modify fd fd' f hf]; exact h.2 fd' b hb⟩

theorem FlagsExplained.broadcastTo {m₀ : ClientManager} (kernel : Int → KernelReply) (len : Nat)
    (sid : UInt16) (fds : List Int) :
    ∀ (m : ClientManager) (sends : List SendRecord) (count : Nat), FlagsExplained m₀ m sends →
      FlagsExplained m₀ (ClientManager.broadcastTo kernel len sid fds (m, sends, count)).1
        (ClientManager.broadcastTo kernel len sid fds (m, sends, count)).2.1 := by
  induction fds with
  | nil => intro m sends count h; exact h
  | cons fd fds ih =>
    intro m sends count h
    unfold ClientManager.broadcastTo
    split
    · exact ih _ _ _ h
    · dsimp only
      split_ifs
      · exact ih _ _ _ h
      · exact ih _ _ _ h
      · exact ih _ _ _ ((h.send fd _ len).modify fd _ fun _ => Eq.refl _)
      · exact ih _ _ _ (h.send fd _ len)

theorem FlagsExplained.sendToAll {m₀ : ClientManager} (kernel : Int → KernelReply) (len : Nat)
    (fds : List Int) :
    ∀ (m : ClientManager) (sends : List SendRecord), FlagsExplained m₀ m sends →
      FlagsExplained m₀ (ClientManager.sendToAll kernel len fds (m, sends)).1
        (ClientManager.sendToAll kernel len fds (m, sends)).2 := by
  induction fds with
  | nil => intro m sends h; exact h
  | cons fd fds ih => intro m sends h; exact ih _ _ (h.send fd _ len)

theorem lookup_append_of_isSome {l : List (Int × ClientConnection)} {fd : Int}
    {c : ClientConnection} (h : l.lookup fd = some c) (e : Int × ClientConnection) :
    (l ++ [e]).lookup fd = some c := by
  induction l with
  | nil => cases h
  | cons x l ih =>
    obtain ⟨k, v⟩ := x
    simp only [List.cons_append, List.lookup] at h ⊢
    split at h
    · exact h
    · exact ih h

theorem lookup_filter_ne {l : List (Int × ClientConnection)} {fd fd' : Int} (h : fd' ≠ fd) :
    (l.filter fun e => e.1 ≠ fd).lookup fd' = l.lookup fd' := by
  induction l with
  | nil => rfl
  | cons x l ih =>
    obtain ⟨k, v⟩ := x
    by_cases hk : k = fd
    · subst hk
      rw [List.filter_cons_of_neg (by simp), ih, List.lookup, beq_false_of_ne h]
    · rw [List.filter_cons_of_pos (by simpa using hk), List.lookup, List.lookup, ih]

theorem lookup_filter_self (l : List (Int × ClientConnection)) (fd : Int) :
    (l.filter fun e => e.1 ≠ fd).lookup fd = none := by
  induction l with
  | nil => rfl
  | cons x l ih =>
    obtain ⟨k, v⟩ := x
    by_cases hk : k = fd
    · rwa [List.filter_cons_of_neg (by simpa using hk)]
    · rw [List.filter_cons_of_pos (by simpa using hk), List.lookup, beq_false_of_ne (Ne.symm hk)]
      exact ih

/-- **Flags over any call.** A client present before and after a call had its
`is_slow` flag set only by a `send_to_client` of that call that found a depth
above `slow_threshold_`, would have blocked, or was partial, and cleared only by
a full `send_to_client` of that call that read a depth below
`slow_threshold_ / 2` before sending. -/
theorem flag_transitions (m : ClientManager) (op : ManagerOp) (fd : Int) (c c' : ClientConnection)
    (hc : m.find fd = some c) (hc' : (op.apply m).1.find fd = some c') :
    (c.isSlow = false → c'.isSlow = true → ∃ s ∈ (op.apply m).2, s.fd = fd ∧
      (m.slowThreshold < s.reply.pending ∨ s.reply.outcome = .wouldBlock ∨
        ∃ n, s.reply.outcome = .accepted n ∧ n < s.len)) ∧
    (c.isSlow = true → c'.isSlow = false → ∃ s ∈ (op.apply m).2, s.fd = fd ∧
      s.full = true ∧ s.reply.pending < m.slowThreshold / 2) := by
  have hl : m.clients.lookup fd = some c := hc
  have hb : m.flag fd = some c.isSlow := by simp [ClientManager.flag, hc]
  have hb' : (op.apply m).1.flag fd = some c'.isSlow := by simp [ClientManager.flag, hc']
  suffices h : FlagsExplained m (op.apply m).1 (op.apply m).2 ∨
      (op.apply m).1.flag fd = m.flag fd ∧ (op.apply m).2 = [] by
    rcases h with h | ⟨h, -⟩
    · obtain ⟨b', h', e⟩ := h.2 fd _ hb
      rw [hb', Option.some_inj] at h'
      exact h' ▸ e
    · rw [hb, hb', Option.some_inj] at h
      exact h ▸ Explains.refl ..
  cases op with
  | addClient fd₀ =>
    right
    refine ⟨?_, rfl⟩
    simp only [ManagerOp.apply, ClientManager.addClient]
    split_ifs
    · rfl
    · simp [ClientManager.flag, ClientManager.find, lookup_append_of_isSome hl, hl]
  | removeClient fd₀ =>
    right
    refine ⟨?_, rfl⟩
    by_cases h : fd = fd₀
    · subst h
      change (m.clients.filter fun e => e.1 ≠ fd).lookup fd = some c' at hc'
      rw [lookup_filter_self] at hc'
      cases hc'
    · change Option.map _ ((m.clients.filter fun e => e.1 ≠ fd₀).lookup fd) =
        Option.map _ (m.clients.lookup fd)
      rw [lookup_filter_ne h]
  | handleSubscription fd₀ ids =>
    right
    refine ⟨?_, rfl⟩
    simp only [ManagerOp.apply, ClientManager.handleSubscription]
    split
    · rfl
    · exact ClientManager.flag_modify _ _ _ _ fun _ => rfl
  | broadcast kernel len sid =>
    left
    exact FlagsExplained.broadcastTo kernel len sid _ m [] 0 (.rfl m)
  | sendHeartbeat kernel len =>
    left
    exact FlagsExplained.sendToAll kernel len _ m [] (.rfl m)

/-- Client 7 is marked slow by a broadcast that finds two million bytes queued. -/
def slowSeven : ClientManager :=
  (ManagerOp.run .empty [.addClient 7, .broadcast (fun _ => ⟨2000000, .accepted 0⟩) 40 1]).1

/-- A heartbeat to the slow client 7, fully accepted after a depth of 524287
bytes was read, clears its flag. -/
theorem flag_transitions_heartbeat_clears :
    let op := ManagerOp.sendHeartbeat (fun _ => ⟨524287, .accepted 20⟩) 20
    slowSeven.find 7 = some { pendingBytes := 2000000, slowConsumerCount := 1, isSlow := true } ∧
      (op.apply slowSeven).1.find 7 = some { pendingBytes := 524287, slowConsumerCount := 1 } ∧
      (true = false → false = true → ∃ s ∈ (op.apply slowSeven).2, s.fd = 7 ∧
        (slowSeven.slowThreshold < s.reply.pending ∨ s.reply.outcome = .wouldBlock ∨
          ∃ n, s.reply.outcome = .accepted n ∧ n < s.len)) ∧
      (true = true → false = false → ∃ s ∈ (op.apply slowSeven).2, s.fd = 7 ∧
        s.full = true ∧ s.reply.pending < slowSeven.slowThreshold / 2) :=
  ⟨by decide, by decide, flag_transitions slowSeven
    (.sendHeartbeat (fun _ => ⟨524287, .accepted 20⟩) 20) 7
    { pendingBytes := 2000000, slowConsumerCount := 1, isSlow := true }
    { pendingBytes := 524287, slowConsumerCount := 1 } (by decide) (by decide)⟩

/-- The same heartbeat: the flag is cleared although the queue holds 524307
bytes after the send, not below half the threshold. -/
theorem slow_flag_cleared_above_half :
    let op := ManagerOp.sendHeartbeat (fun _ => ⟨524287, .accepted 20⟩) 20
    slowSeven.flag 7 = some true ∧ (op.apply slowSeven).1.flag 7 = some false ∧
      (op.apply slowSeven).2 = [⟨7, ⟨524287, .accepted 20⟩, 20⟩] ∧
      SendRecord.full ⟨7, ⟨524287, .accepted 20⟩, 20⟩ = true ∧
      slowSeven.slowThreshold / 2 ≤ SendRecord.depthAfter ⟨7, ⟨524287, .accepted 20⟩, 20⟩ := by
  decide

end MarketFeed.Server
