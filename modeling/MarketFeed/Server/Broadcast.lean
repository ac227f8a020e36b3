import MarketFeed.Server.ClientManager

/-!
# What `broadcast` sends and counts

`broadcast` walks `clients_` once. It skips a slow client and one subscribed
neither to everything nor to the symbol, calls `send_to_client` for every other,
and credits a message and `len` bytes to each client whose send was full. One
iteration changes only the entry it visits (`broadcastTo_cons`); the
descriptors are distinct, so over the whole walk each client is visited once,
with the entry it had before the call (`broadcastTo_run`).
-/

namespace MarketFeed.Server

/-- The clients `broadcast` sends to: not slow, and subscribed to everything or
to `sid`. -/
def ClientConnection.wants (c : ClientConnection) (sid : UInt16) : Bool :=
  !c.isSlow && (c.subscribeAll || decide (sid ∈ c.subscribedSymbols))

/-- `send_to_client` returns `true`: the depth it read is within
`slow_threshold_` and `send` took every byte. -/
def SendRecord.reported (T : Nat) (s : SendRecord) : Bool :=
  decide (s.reply.pending ≤ T) && s.full

/-- The part of a client `broadcast` accounts for: its subscription and its
counters. -/
def ClientConnection.account (c : ClientConnection) : List UInt16 × Bool × UInt64 × UInt64 :=
  (c.subscribedSymbols, c.subscribeAll, c.messagesSent, c.bytesSent)

/-- That part after a send that was full (`ok`) or was not. -/
def ClientConnection.credited (c : ClientConnection) (ok : Bool) (len : Nat) :
    List UInt16 × Bool × UInt64 × UInt64 :=
  (c.subscribedSymbols, c.subscribeAll, c.messagesSent + (if ok then 1 else 0),
    c.bytesSent + (if ok then UInt64.ofNat len else 0))

@[simp] theorem ClientConnection.credited_false (c : ClientConnection) (len : Nat) :
    c.credited false len = c.account := by
  simp [credited, account]

/-- From `m` to `m₁`, only the entry of `fd` changed, and of what `broadcast`
accounts for, only its counters, by one full send when `ok`. -/
def Credits (len : Nat) (m m₁ : ClientManager) (fd : Int) (ok : Bool) : Prop :=
  (∀ fd', fd' ≠ fd → m₁.find fd' = m.find fd') ∧
    m₁.clients.map Prod.fst = m.clients.map Prod.fst ∧ m₁.slowThreshold = m.slowThreshold ∧
    m₁.totalMessagesSent = m.totalMessagesSent ∧ m₁.totalBytesSent = m.totalBytesSent ∧
    (m₁.find fd).map ClientConnection.account = (m.find fd).map (·.credited ok len)

theorem Credits.refl (len : Nat) (m : ClientManager) (fd : Int) : Credits len m m fd false :=
  ⟨fun _ _ => rfl, rfl, rfl, rfl, rfl, by simp⟩

theorem Credits.trans {len : Nat} {m m₁ m₂ : ClientManager} {fd : Int} {ok : Bool}
    (h₁ : Credits len m m₁ fd false) (h₂ : Credits len m₁ m₂ fd ok) : Credits len m m₂ fd ok := by
  obtain ⟨o₁, k₁, t₁, a₁, b₁, e₁⟩ := h₁
  obtain ⟨o₂, k₂, t₂, a₂, b₂, e₂⟩ := h₂
  refine ⟨fun fd' h => (o₂ fd' h).trans (o₁ fd' h), k₂.trans k₁, t₂.trans t₁, a₂.trans a₁,
    b₂.trans b₁, ?_⟩
  rw [e₂]
  simp only [ClientConnection.credited_false] at e₁
  cases h : m₁.find fd <;> cases h' : m.find fd <;> rw [h, h'] at e₁ <;> simp at e₁ ⊢
  simp only [ClientConnection.credited, ClientConnection.account, Prod.ext_iff] at e₁ ⊢
  exact ⟨e₁.1, e₁.2.1, by rw [e₁.2.2.1], by rw [e₁.2.2.2]⟩

theorem ClientManager.modify_keys (m : ClientManager) (fd : Int) (f) :
    (m.modify fd f).clients.map Prod.fst = m.clients.map Prod.fst := by
  simp [modify, List.map_map, Function.comp_def]

/-- A rewrite of one entry that keeps what `broadcast` accounts for, as the
rewrites of `send_to_client` do. -/
theorem Credits.modify (len : Nat) (m : ClientManager) (fd : Int) (f : ClientConnection → ClientConnection)
    (hf : ∀ c, (f c).account = c.account) : Credits len m (m.modify fd f) fd false := by
  refine ⟨fun fd' h => by rw [ClientManager.find_modify, if_neg h], m.modify_keys fd f, rfl, rfl, rfl,
    ?_⟩
  rw [ClientManager.find_modify, if_pos rfl, Option.map_map]
  cases m.find fd <;> simp [hf]

/-- `send_to_client` changes only its client's depth and slow-consumer fields. -/
theorem ClientManager.sendToClient_credits (len : Nat) (m : ClientManager) (fd : Int)
    (r : KernelReply) (n : Nat) : Credits len m (m.sendToClient fd r n).1 fd false := by
  have hp := Credits.modify len m fd (fun c => { c with pendingBytes := r.pending }) fun _ => rfl
  have hs : ∀ m' : ClientManager, Credits len m' (m'.markSlowConsumer fd) fd false :=
    fun m' => Credits.modify len m' fd _ fun _ => rfl
  have hc : ∀ m' : ClientManager, Credits len m' (m'.clearSlowStatus fd) fd false :=
    fun m' => Credits.modify len m' fd _ fun _ => rfl
  unfold sendToClient
  split
  · exact Credits.refl len m fd
  · dsimp only
    split_ifs <;> (try split) <;> (try split_ifs) <;>
      first | exact hp | exact hp.trans (hs _) | exact hp.trans (hc _)

/-- `send_to_client` on a client returns whether the send was full. -/
theorem ClientManager.sendToClient_reported (m : ClientManager) {fd : Int} {c : ClientConnection}
    (hf : m.find fd = some c) (r : KernelReply) (len : Nat) :
    (m.sendToClient fd r len).2 = SendRecord.reported m.slowThreshold ⟨fd, r, len⟩ := by
  unfold sendToClient
  rw [hf]
  dsimp only
  simp only [SendRecord.reported, SendRecord.full, modify_slowThreshold]
  by_cases hT : m.slowThreshold < r.pending
  · simp [hT]
  · rw [if_neg hT, decide_eq_true (Nat.not_lt.mp hT), Bool.true_and]
    rcases r.outcome with k | _ | _
    · by_cases hk : k < len
      · simp [hk]
      · simp only [if_neg hk, decide_eq_true (Nat.not_lt.mp hk)]
        split_ifs <;> rfl
    · rfl
    · rfl

section Broadcast

variable (kernel : Int → KernelReply) (len : Nat) (sid : UInt16)

/-- The send `broadcast` makes to `fd`: one when `fd` is a client it wants. -/
def ClientManager.sendOf (m : ClientManager) (fd : Int) : List SendRecord :=
  match m.find fd with
  | some c => if c.wants sid then [⟨fd, kernel fd, len⟩] else []
  | none => []

/-- Whether `broadcast` credits `fd`: it sent, and the send was full. -/
def ClientManager.creditOf (m : ClientManager) (fd : Int) : Bool :=
  (m.sendOf kernel len sid fd).any (SendRecord.reported m.slowThreshold)

theorem ClientManager.sendOf_congr {m m₁ : ClientManager} {fd : Int}
    (h : m₁.find fd = m.find fd) : m₁.sendOf kernel len sid fd = m.sendOf kernel len sid fd := by
  simp only [sendOf, h]

theorem ClientManager.creditOf_congr {m m₁ : ClientManager} {fd : Int}
    (h : m₁.find fd = m.find fd) (hT : m₁.slowThreshold = m.slowThreshold) :
    m₁.creditOf kernel len sid fd = m.creditOf kernel len sid fd := by
  simp only [creditOf, sendOf_congr kernel len sid h, hT]

/-- A visit that sends nothing leaves the walk's state as it is. -/
theorem ClientManager.broadcastTo_skip {m : ClientManager} {fd : Int}
    (h : m.sendOf kernel len sid fd = []) (fds : List Int) (sends : List SendRecord) (count : Nat) :
    broadcastTo kernel len sid (fd :: fds) (m, sends, count) =
      broadcastTo kernel len sid fds (m, sends, count) := by
  rw [broadcastTo.eq_2]
  cases hf : m.find fd with
  | none => rfl
  | some c =>
    have hw : c.wants sid = false := by simpa [sendOf, hf] using h
    simp only [ClientConnection.wants, Bool.and_eq_false_iff, Bool.not_eq_false',
      Bool.or_eq_false_iff, decide_eq_false_iff_not] at hw
    dsimp only
    split_ifs <;> simp_all

/-- A visit to a client `broadcast` wants calls `send_to_client`, records the
send, and credits the client when the send was full. -/
theorem ClientManager.broadcastTo_send {m : ClientManager} {fd : Int} {c : ClientConnection}
    (hf : m.find fd = some c) (hw : c.wants sid = true) (fds : List Int)
    (sends : List SendRecord) (count : Nat) :
    broadcastTo kernel len sid (fd :: fds) (m, sends, count) =
      if (m.sendToClient fd (kernel fd) len).2 then
        broadcastTo kernel len sid fds
          ((m.sendToClient fd (kernel fd) len).1.modify fd (fun c => { c with
              messagesSent := c.messagesSent + 1, bytesSent := c.bytesSent + .ofNat len }),
            sends ++ [⟨fd, kernel fd, len⟩], count + 1)
      else broadcastTo kernel len sid fds
        ((m.sendToClient fd (kernel fd) len).1, sends ++ [⟨fd, kernel fd, len⟩], count) := by
  simp only [ClientConnection.wants, Bool.and_eq_true, Bool.not_eq_true', Bool.or_eq_true,
    decide_eq_true_eq] at hw
  rw [broadcastTo.eq_2, hf]
  dsimp only
  rw [if_neg (by simp [hw.1]), if_neg (by rcases hw.2 with h | h <;> simp [h])]

/-- **One iteration.** Visiting `fd` sends to it if `broadcast` wants it,
counts the send if it was full, and changes only the entry of `fd`; a client it
does not want is left exactly as it was. -/
theorem broadcastTo_cons (m : ClientManager) (sends : List SendRecord) (count : Nat) (fd : Int)
    (fds : List Int) :
    ∃ m₁, ClientManager.broadcastTo kernel len sid (fd :: fds) (m, sends, count) =
        ClientManager.broadcastTo kernel len sid fds
          (m₁, sends ++ m.sendOf kernel len sid fd,
            count + if m.creditOf kernel len sid fd then 1 else 0) ∧
      Credits len m m₁ fd (m.creditOf kernel len sid fd) ∧
      (m.sendOf kernel len sid fd = [] → m₁ = m) := by
  by_cases hs : m.sendOf kernel len sid fd = []
  · have hc : m.creditOf kernel len sid fd = false := by simp [ClientManager.creditOf, hs]
    exact ⟨m, by rw [m.broadcastTo_skip kernel len sid hs, hs, hc]; simp,
      hc ▸ Credits.refl len m fd, fun _ => rfl⟩
  obtain ⟨c, hf, hw⟩ : ∃ c, m.find fd = some c ∧ c.wants sid = true := by
    cases hf : m.find fd with
    | none => simp [ClientManager.sendOf, hf] at hs
    | some c => exact ⟨c, rfl, by by_contra hw; simp [ClientManager.sendOf, hf, hw] at hs⟩
  have hsend : m.sendOf kernel len sid fd = [⟨fd, kernel fd, len⟩] := by
    simp [ClientManager.sendOf, hf, hw]
  have hcr : m.creditOf kernel len sid fd = (m.sendToClient fd (kernel fd) len).2 := by
    simp [ClientManager.creditOf, hsend, m.sendToClient_reported hf]
  rw [m.broadcastTo_send kernel len sid hf hw, hsend, hcr]
  have hsent := ClientManager.sendToClient_credits len m fd (kernel fd) len
  cases hr : (m.sendToClient fd (kernel fd) len).2
  · exact ⟨_, by simp, hsent, by simp⟩
  · refine ⟨(m.sendToClient fd (kernel fd) len).1.modify fd fun c =>
        { c with messagesSent := c.messagesSent + 1, bytesSent := c.bytesSent + .ofNat len },
      by simp, hsent.trans ⟨fun fd' h => by rw [ClientManager.find_modify, if_neg h],
      ClientManager.modify_keys _ _ _, rfl, rfl, rfl, ?_⟩, by simp⟩
    rw [ClientManager.find_modify, if_pos rfl, Option.map_map]
    cases (m.sendToClient fd (kernel fd) len).1.find fd <;> rfl

/-- **The whole walk.** Over distinct descriptors, `broadcast`'s loop makes the
sends of `sendOf`, counts the credited clients, credits each visited client
from the entry it had before the walk, and leaves everything else alone. -/
theorem broadcastTo_run (fds : List Int) (hnd : fds.Nodup) (m : ClientManager)
    (sends : List SendRecord) (count : Nat) :
    ∃ m', ClientManager.broadcastTo kernel len sid fds (m, sends, count) =
        (m', sends ++ fds.flatMap (m.sendOf kernel len sid),
          count + (fds.filter (m.creditOf kernel len sid)).length) ∧
      (∀ fd, fd ∉ fds → m'.find fd = m.find fd) ∧
      (∀ fd ∈ fds, (m'.find fd).map ClientConnection.account =
        (m.find fd).map (·.credited (m.creditOf kernel len sid fd) len)) ∧
      (∀ fd ∈ fds, m.sendOf kernel len sid fd = [] → m'.find fd = m.find fd) ∧
      m'.clients.map Prod.fst = m.clients.map Prod.fst ∧ m'.slowThreshold = m.slowThreshold ∧
      m'.totalMessagesSent = m.totalMessagesSent ∧ m'.totalBytesSent = m.totalBytesSent := by
  induction fds generalizing m sends count with
  | nil => exact ⟨m, by simp [ClientManager.broadcastTo], fun _ _ => rfl, by simp, by simp,
      rfl, rfl, rfl, rfl⟩
  | cons fd fds ih =>
    obtain ⟨hfd, hnd⟩ := List.nodup_cons.mp hnd
    obtain ⟨m₁, e, ⟨o₁, k₁, t₁, a₁, b₁, c₁⟩, s₁⟩ := broadcastTo_cons kernel len sid m sends count fd fds
    obtain ⟨m', e', o', c', s', k', t', a', b'⟩ := ih hnd m₁ (sends ++ m.sendOf kernel len sid fd)
      (count + if m.creditOf kernel len sid fd then 1 else 0)
    have same : ∀ fd' ∈ fds, m₁.find fd' = m.find fd' := fun fd' h => o₁ fd' (by rintro rfl; exact hfd h)
    have hsends : fds.flatMap (m₁.sendOf kernel len sid) = fds.flatMap (m.sendOf kernel len sid) :=
      List.flatMap_congr fun fd' h => ClientManager.sendOf_congr kernel len sid (same fd' h)
    have hcredit : fds.filter (m₁.creditOf kernel len sid) = fds.filter (m.creditOf kernel len sid) :=
      List.filter_congr fun fd' h => ClientManager.creditOf_congr kernel len sid (same fd' h) t₁
    refine ⟨m', ?_, fun fd' h => ?_, fun fd' h => ?_, fun fd' h hs => ?_, k'.trans k₁, t'.trans t₁,
      a'.trans a₁, b'.trans b₁⟩
    · rw [e, e', hsends, hcredit, List.flatMap_cons, List.filter_cons, List.append_assoc]
      congr 2
      by_cases hc : m.creditOf kernel len sid fd = true
      · simp [hc]; omega
      · simp [hc]
    · rw [List.mem_cons, not_or] at h
      rw [o' fd' h.2, o₁ fd' h.1]
    · rcases List.mem_cons.mp h with rfl | h
      · rw [o' fd' hfd, c₁]
      · rw [c' fd' h, same fd' h, ClientManager.creditOf_congr kernel len sid (same fd' h) t₁]
    · rcases List.mem_cons.mp h with rfl | h
      · rw [o' fd' hfd, s₁ hs]
      · rw [s' fd' h (by rwa [ClientManager.sendOf_congr kernel len sid (same fd' h)]), same fd' h]

theorem ClientManager.find_of_mem (m : ClientManager) {e : Int × ClientConnection}
    (h : e ∈ m.clients) : m.find e.1 = some e.2 := by
  obtain ⟨clients, hnd, _, _, _⟩ := m
  simp only [find]
  induction clients with
  | nil => cases h
  | cons x xs ih =>
    rw [List.map_cons, List.nodup_cons] at hnd
    rcases List.mem_cons.mp h with rfl | h
    · simp [List.lookup]
    · have hne : e.1 ≠ x.1 := fun he => hnd.1 (he ▸ List.mem_map_of_mem Prod.fst h)
      rw [List.lookup, beq_false_of_ne hne]
      exact ih hnd.2 h

theorem ClientManager.reported_sendOf (m : ClientManager) (fd : Int) :
    ((m.sendOf kernel len sid fd).filter (SendRecord.reported m.slowThreshold)).length =
      if m.creditOf kernel len sid fd then 1 else 0 := by
  unfold creditOf sendOf
  split
  · split
    · cases h : SendRecord.reported m.slowThreshold ⟨fd, kernel fd, len⟩ <;> simp [h]
    · rfl
  · rfl

/-- The credited clients are as many as the full sends. -/
theorem filter_reported_flatMap (m : ClientManager) (fds : List Int) :
    ((fds.flatMap (m.sendOf kernel len sid)).filter (SendRecord.reported m.slowThreshold)).length =
      (fds.filter (m.creditOf kernel len sid)).length := by
  induction fds with
  | nil => rfl
  | cons fd fds ih =>
    rw [List.flatMap_cons, List.filter_append, List.length_append, ih, List.filter_cons,
      m.reported_sendOf]
    by_cases hc : m.creditOf kernel len sid fd = true <;> simp [hc, Nat.add_comm]

/-- **Broadcast selection and accounting.** For every manager and every answer
of the kernel to each send, `broadcast` calls `send_to_client` once for each
client, in table order, that is not slow and is subscribed to everything or to
`symbol_id`, and for no other. It returns the number of those sends that were
full, credits exactly those clients with one message and `len` bytes, adds the
count and `count * len` to the totals, and keeps the set of clients, every
subscription, and every client it skipped as it was. -/
theorem broadcast_selects_accounts (m : ClientManager) :
    (m.broadcast kernel len sid).2.1 =
        m.clients.flatMap (fun e => if e.2.wants sid then [⟨e.1, kernel e.1, len⟩] else []) ∧
      (m.broadcast kernel len sid).2.2 =
        ((m.broadcast kernel len sid).2.1.filter (SendRecord.reported m.slowThreshold)).length ∧
      (m.broadcast kernel len sid).1.clients.map Prod.fst = m.clients.map Prod.fst ∧
      (∀ e ∈ m.clients, ((m.broadcast kernel len sid).1.find e.1).map ClientConnection.account =
        some (e.2.credited
          (e.2.wants sid && SendRecord.reported m.slowThreshold ⟨e.1, kernel e.1, len⟩) len)) ∧
      (∀ e ∈ m.clients, e.2.wants sid = false → (m.broadcast kernel len sid).1.find e.1 = some e.2) ∧
      (m.broadcast kernel len sid).1.totalMessagesSent =
        m.totalMessagesSent + UInt64.ofNat (m.broadcast kernel len sid).2.2 ∧
      (m.broadcast kernel len sid).1.totalBytesSent =
        m.totalBytesSent + UInt64.ofNat ((m.broadcast kernel len sid).2.2 * len) := by
  obtain ⟨m', e, -, hc, hs, hk, -, ha, hb⟩ :=
    broadcastTo_run kernel len sid (m.clients.map Prod.fst) m.keys_nodup m [] 0
  have hsend : ∀ x ∈ m.clients, m.sendOf kernel len sid x.1 =
      if x.2.wants sid then [⟨x.1, kernel x.1, len⟩] else [] := fun x h => by
    simp only [ClientManager.sendOf, m.find_of_mem h]
  have hcred : ∀ x ∈ m.clients, m.creditOf kernel len sid x.1 =
      (x.2.wants sid && SendRecord.reported m.slowThreshold ⟨x.1, kernel x.1, len⟩) := fun x h => by
    rw [ClientManager.creditOf, hsend x h]
    cases x.2.wants sid <;> simp
  have hsends : (m.clients.map Prod.fst).flatMap (m.sendOf kernel len sid) =
      m.clients.flatMap (fun e => if e.2.wants sid then [⟨e.1, kernel e.1, len⟩] else []) := by
    rw [List.flatMap_map]
    exact List.flatMap_congr hsend
  simp only [ClientManager.broadcast, e, List.nil_append, Nat.zero_add]
  refine ⟨hsends, (filter_reported_flatMap kernel len sid m _).symm, hk, fun x h => ?_,
    fun x h hw => ?_, by rw [ha], by rw [hb]⟩
  · change (m'.find x.1).map _ = _
    rw [hc x.1 (List.mem_map_of_mem _ h), m.find_of_mem h, hcred x h]
    rfl
  · change m'.find x.1 = _
    rw [hs x.1 (List.mem_map_of_mem _ h) (by rw [hsend x h, hw]; rfl), m.find_of_mem h]

end Broadcast

end MarketFeed.Server
