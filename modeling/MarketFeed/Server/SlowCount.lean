import MarketFeed.Server.ClientManager

/-!
# What the slow-consumer count counts

`mark_slow_consumer` sets `is_slow` and adds one to `slow_consumer_count`
whatever the flag was, and `send_to_client` calls it on every refused, blocked
or partial send, also to a client already marked slow. `broadcast` skips a slow
client but `send_heartbeat` does not, so the count goes on rising while the
client's queue stays above the threshold.

Over any run in which a client is not removed, its count grows by the number
of sends to it that mark it (`markCount`), and its flag is the one those sends
leave one after another (`slowTrace`). The changes of the flag from false to
true along the same sends (`risings`) are never more than the marking sends
(`risings_le_markCount`); `slow_count_exceeds_risings` is a run with fewer.
-/

namespace MarketFeed.Server

/-- The send `s` made `send_to_client` call `mark_slow_consumer` on `fd`. -/
def SendRecord.marks (T : Nat) (fd : Int) (s : SendRecord) : Bool :=
  decide (s.fd = fd) && markedBySend T s.reply s.len

/-- The `mark_slow_consumer` calls on `fd` among the sends `sends`. -/
def markCount (T : Nat) (fd : Int) (sends : List SendRecord) : Nat :=
  (sends.filter (SendRecord.marks T fd)).length

/-- The flag of `fd` after the send `s`, from `slow`. -/
def flagAfter (T : Nat) (fd : Int) (slow : Bool) (s : SendRecord) : Bool :=
  if s.fd = fd then slowAfterSend T slow s.reply s.len else slow

/-- The flag of `fd` after the sends `sends`, from `slow`. -/
def slowTrace (T : Nat) (fd : Int) (slow : Bool) (sends : List SendRecord) : Bool :=
  sends.foldl (flagAfter T fd) slow

/-- The changes of the flag of `fd` from false to true along the sends `sends`. -/
def risings (T : Nat) (fd : Int) : Bool → List SendRecord → Nat
  | _, [] => 0
  | slow, s :: sends =>
    (if !slow && flagAfter T fd slow s then 1 else 0) + risings T fd (flagAfter T fd slow s) sends

/-- The call removes client `fd`. -/
def ManagerOp.removes (fd : Int) : ManagerOp → Bool
  | .removeClient fd' => decide (fd' = fd)
  | _ => false

section Traces

variable (T : Nat) (fd : Int)

@[simp] theorem markCount_append (l₁ l₂ : List SendRecord) :
    markCount T fd (l₁ ++ l₂) = markCount T fd l₁ + markCount T fd l₂ := by
  simp [markCount, List.filter_append]

@[simp] theorem markCount_nil : markCount T fd [] = 0 := rfl

@[simp] theorem markCount_cons (s : SendRecord) (sends : List SendRecord) :
    markCount T fd (s :: sends) = (if s.marks T fd then 1 else 0) + markCount T fd sends := by
  simp only [markCount, List.filter_cons]
  split <;> simp [Nat.add_comm]

@[simp] theorem slowTrace_append (slow : Bool) (l₁ l₂ : List SendRecord) :
    slowTrace T fd slow (l₁ ++ l₂) = slowTrace T fd (slowTrace T fd slow l₁) l₂ :=
  List.foldl_append ..

/-- The flag can only rise on a send that marks the client. -/
theorem SendRecord.marks_of_rising {s : SendRecord} (h : flagAfter T fd false s = true) :
    s.marks T fd = true := by
  unfold flagAfter at h
  split_ifs at h with hfd
  simp only [SendRecord.marks, hfd, decide_True, Bool.true_and, markedBySend]
  revert h
  unfold slowAfterSend
  split_ifs <;> (try split) <;> simp_all

theorem risings_le_markCount (slow : Bool) (sends : List SendRecord) :
    risings T fd slow sends ≤ markCount T fd sends := by
  induction sends generalizing slow with
  | nil => exact Nat.le_refl 0
  | cons s sends ih =>
    have hs : (!slow && flagAfter T fd slow s) = true → s.marks T fd = true := by
      cases slow
      · exact SendRecord.marks_of_rising T fd
      · simp
    rw [risings, markCount_cons]
    have := ih (flagAfter T fd slow s)
    by_cases hr : (!slow && flagAfter T fd slow s) = true
    · rw [if_pos hr, if_pos (hs hr)]; omega
    · rw [if_neg hr]; split <;> omega

end Traces

/-! ### The count and the flag over a run -/

/-- Client `fd` of `m` holds the flag and the count that the sends `sends` give
it from the flag `slow` and the count `n`, under the threshold `T`. -/
structure CountExplained (T : Nat) (fd : Int) (slow : Bool) (n : Nat) (m : ClientManager)
    (sends : List SendRecord) : Prop where
  threshold : m.slowThreshold = T
  client : ∃ c, m.find fd = some c ∧ c.isSlow = slowTrace T fd slow sends ∧
    c.slowConsumerCount = n + markCount T fd sends

namespace CountExplained

variable {T : Nat} {fd : Int} {slow : Bool} {n : Nat} {m : ClientManager}
  {sends : List SendRecord}

theorem init {c : ClientConnection} (hc : m.find fd = some c) :
    CountExplained m.slowThreshold fd c.isSlow c.slowConsumerCount m [] :=
  ⟨rfl, c, hc, rfl, rfl⟩

/-- A prefix of the sends can be folded into the starting flag and count. -/
theorem append_iff (l₁ l₂ : List SendRecord) :
    CountExplained T fd slow n m (l₁ ++ l₂) ↔
      CountExplained T fd (slowTrace T fd slow l₁) (n + markCount T fd l₁) m l₂ := by
  constructor <;> rintro ⟨hT, c, hc, hs, hn⟩ <;>
    exact ⟨hT, c, hc, by simpa using hs, by simp only [markCount_append] at *; omega⟩

theorem send (h : CountExplained T fd slow n m sends) (fd' : Int) (r : KernelReply)
    (len : Nat) : CountExplained T fd slow n (m.sendToClient fd' r len).1 (sends ++ [⟨fd', r, len⟩]) := by
  obtain ⟨hT, c, hc, hs, hn⟩ := h
  refine (append_iff _ _).2 ⟨by simp [hT], ?_⟩
  rw [m.sendToClient_find, hT]
  by_cases hfd : fd = fd'
  · subst hfd
    refine ⟨_, by rw [if_pos rfl, hc]; rfl, ?_, ?_⟩ <;>
      simp [slowTrace, flagAfter, SendRecord.marks, hs, hn, Nat.add_assoc]
  · refine ⟨c, by rw [if_neg hfd, hc], ?_, ?_⟩ <;>
      simp [slowTrace, flagAfter, SendRecord.marks, Ne.symm hfd, hs, hn]

theorem modify (h : CountExplained T fd slow n m sends) (fd' : Int)
    (f : ClientConnection → ClientConnection)
    (hf : ∀ c, (f c).isSlow = c.isSlow ∧ (f c).slowConsumerCount = c.slowConsumerCount) :
    CountExplained T fd slow n (m.modify fd' f) sends := by
  obtain ⟨hT, c, hc, hs, hn⟩ := h
  refine ⟨hT, ?_⟩
  by_cases hfd : fd = fd'
  · subst hfd
    exact ⟨f c, by simp [hc], (hf c).1.trans hs, (hf c).2.trans hn⟩
  · exact ⟨c, by simp [hfd, hc], hs, hn⟩

theorem broadcastTo (kernel : Int → KernelReply) (len : Nat) (sid : UInt16) (fds : List Int) :
    ∀ (m : ClientManager) (sends : List SendRecord) (count : Nat),
      CountExplained T fd slow n m sends →
      CountExplained T fd slow n (ClientManager.broadcastTo kernel len sid fds (m, sends, count)).1
        (ClientManager.broadcastTo kernel len sid fds (m, sends, count)).2.1 := by
  induction fds with
  | nil => intro m sends count h; exact h
  | cons fd' fds ih =>
    intro m sends count h
    unfold ClientManager.broadcastTo
    split
    · exact ih _ _ _ h
    · dsimp only
      split_ifs
      · exact ih _ _ _ h
      · exact ih _ _ _ h
      · exact ih _ _ _ ((h.send fd' _ len).modify fd' _ fun _ => ⟨rfl, rfl⟩)
      · exact ih _ _ _ (h.send fd' _ len)

theorem sendToAll (kernel : Int → KernelReply) (len : Nat) (fds : List Int) :
    ∀ (m : ClientManager) (sends : List SendRecord), CountExplained T fd slow n m sends →
      CountExplained T fd slow n (ClientManager.sendToAll kernel len fds (m, sends)).1
        (ClientManager.sendToAll kernel len fds (m, sends)).2 := by
  induction fds with
  | nil => intro m sends h; exact h
  | cons fd' fds ih => intro m sends h; exact ih _ _ (h.send fd' _ len)

/-- **One call.** A call that does not remove `fd` keeps it, and the sends it
makes account for its flag and count. -/
theorem apply (h : CountExplained T fd slow n m []) (op : ManagerOp)
    (hop : op.removes fd = false) : CountExplained T fd slow n (op.apply m).1 (op.apply m).2 := by
  obtain ⟨hT, c, hc, hs, hn⟩ := h
  cases op with
  | addClient fd₀ =>
    refine ⟨?_, c, ?_, hs, hn⟩ <;> simp only [ManagerOp.apply, ClientManager.addClient] <;>
      split_ifs
    · exact hT
    · exact hT
    · exact hc
    · exact lookup_append_of_isSome hc _
  | removeClient fd₀ =>
    have hne : fd ≠ fd₀ := fun he => by simp [ManagerOp.removes, he] at hop
    exact ⟨hT, c, (lookup_filter_ne hne).trans hc, hs, hn⟩
  | handleSubscription fd₀ ids =>
    simp only [ManagerOp.apply, ClientManager.handleSubscription]
    split <;> dsimp only
    · exact ⟨hT, c, hc, hs, hn⟩
    · exact .modify ⟨hT, c, hc, hs, hn⟩ fd₀ _ fun _ => ⟨rfl, rfl⟩
  | broadcast kernel len sid =>
    have h := broadcastTo kernel len sid (m.clients.map Prod.fst) m [] 0 ⟨hT, c, hc, hs, hn⟩
    exact ⟨h.1, h.2⟩
  | sendHeartbeat kernel len =>
    exact sendToAll kernel len _ m [] ⟨hT, c, hc, hs, hn⟩

/-- **Every run.** A run of calls none of which removes `fd` keeps it, and its
sends account for its flag and count. -/
theorem run (ops : List ManagerOp) (hops : ∀ op ∈ ops, op.removes fd = false) :
    ∀ (m : ClientManager) (slow : Bool) (n : Nat), CountExplained T fd slow n m [] →
      CountExplained T fd slow n (ManagerOp.run m ops).1 (ManagerOp.run m ops).2 := by
  induction ops with
  | nil => intro m slow n h; exact h
  | cons op ops ih =>
    intro m slow n h
    have h₁ := h.apply op (hops op (List.mem_cons_self ..))
    rw [← List.append_nil (op.apply m).2, append_iff] at h₁
    exact (append_iff _ _).2 (ih (fun o ho => hops o (List.mem_cons_of_mem _ ho)) _ _ _ h₁)

end CountExplained

/-- **The slow-consumer count counts marks.** Over any run in which client `fd`
is not removed, its `slow_consumer_count` grows by the number of sends to it
that called `mark_slow_consumer`, its `is_slow` flag is the one those sends
leave one after another, and that flag went from false to true at most as
many times. -/
theorem slow_count_counts_marks (m : ClientManager) (ops : List ManagerOp) (fd : Int)
    (c : ClientConnection) (hc : m.find fd = some c) (hops : ∀ op ∈ ops, op.removes fd = false) :
    ∃ c', (ManagerOp.run m ops).1.find fd = some c' ∧
      c'.isSlow = slowTrace m.slowThreshold fd c.isSlow (ManagerOp.run m ops).2 ∧
      c'.slowConsumerCount =
        c.slowConsumerCount + markCount m.slowThreshold fd (ManagerOp.run m ops).2 ∧
      risings m.slowThreshold fd c.isSlow (ManagerOp.run m ops).2 ≤
        markCount m.slowThreshold fd (ManagerOp.run m ops).2 := by
  obtain ⟨-, c', hc', hs, hn⟩ := CountExplained.run ops hops m _ _ (.init hc)
  exact ⟨c', hc', hs, hn, risings_le_markCount ..⟩

/-- A heartbeat of 10 bytes to every client while two million bytes are queued. -/
def slowHeartbeat : ManagerOp := .sendHeartbeat (fun _ => ⟨2000000, .accepted 10⟩) 10

/-- Client 3, just added, gets two such heartbeats. -/
theorem slow_count_counts_marks_heartbeats :
    let m := (ClientManager.empty.addClient 3).1
    let ops := [slowHeartbeat, slowHeartbeat]
    (m.find 3 = some {} ∧ ∀ op ∈ ops, op.removes 3 = false) ∧
      ∃ c', (ManagerOp.run m ops).1.find 3 = some c' ∧
        c'.isSlow = slowTrace m.slowThreshold 3 false (ManagerOp.run m ops).2 ∧
        c'.slowConsumerCount = 0 + markCount m.slowThreshold 3 (ManagerOp.run m ops).2 ∧
        risings m.slowThreshold 3 false (ManagerOp.run m ops).2 ≤
          markCount m.slowThreshold 3 (ManagerOp.run m ops).2 :=
  ⟨⟨by decide, by decide⟩, slow_count_counts_marks _ _ 3 {} (by decide) (by decide)⟩

/-- Client 3 is added, then gets two heartbeats while its queue is above the threshold. -/
def twoSlowHeartbeats : List ManagerOp := [.addClient 3, slowHeartbeat, slowHeartbeat]

/-- Its flag is false after it is added and true after each heartbeat, so it
went from false to true once; its count is 2. -/
theorem slow_count_exceeds_risings :
    (ManagerOp.run .empty (twoSlowHeartbeats.take 1)).1.flag 3 = some false ∧
      (ManagerOp.run .empty (twoSlowHeartbeats.take 2)).1.flag 3 = some true ∧
      (ManagerOp.run .empty twoSlowHeartbeats).1.find 3 =
        some { pendingBytes := 2000000, slowConsumerCount := 2, isSlow := true } ∧
      risings slowConsumerThreshold 3 false (ManagerOp.run .empty twoSlowHeartbeats).2 = 1 := by
  decide

end MarketFeed.Server
