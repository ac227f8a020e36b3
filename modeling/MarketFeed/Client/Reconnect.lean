import MarketFeed.Client.FeedHandler

/-!
# Reconnection

`MarketDataSocket::reconnect` gives up when `reconnect_count_` has reached
`MAX_RETRY_COUNT`; otherwise it sleeps for the current backoff, doubles the
backoff up to 30 s, counts the attempt and connects again, resetting the backoff
to 100 ms on success. `connect()` resets both fields; a successful reconnect
resets only the backoff. `FeedHandler::run` calls `reconnect` on every
connection loss and stops when it fails with the count at the maximum.

Over every run from `connect()` (`SocketTracks.run`) the count is the number of
attempts made, successful or not, and the backoff before an attempt is
`min(100 * 2^f, 30000)` for the `f` failed attempts since the last success
(`delays_of_run`). The run therefore stops after five attempts in all
(`run_stops_after_five_attempts`), however many of them succeeded.
-/

namespace MarketFeed.Client

/-- `MarketDataSocket`, reduced to the two fields reconnection reads. -/
structure MarketDataSocket where
  reconnectCount : UInt32 := 0
  currentBackoffMs : UInt32 := 100
  deriving DecidableEq, Repr

/-- `MAX_RETRY_COUNT`; the comparison with the `uint32_t` count is unsigned. -/
def maxRetryCount : Nat := 5

/-- `connect()`: both fields back to their start, then `do_connect()`. -/
def MarketDataSocket.connect (_ : MarketDataSocket) : MarketDataSocket :=
  { reconnectCount := 0, currentBackoffMs := 100 }

/-- `reconnect()`, with `ok` the outcome of its `do_connect()`: the socket, the
result, and the sleep before the attempt when there is one. -/
def MarketDataSocket.reconnect (s : MarketDataSocket) (ok : Bool) :
    MarketDataSocket × Bool × Option UInt32 :=
  if maxRetryCount ≤ s.reconnectCount.toNat then (s, false, none)
  else
    let delay := s.currentBackoffMs
    let doubled := s.currentBackoffMs * 2
    let s := { s with currentBackoffMs := if (30000 : UInt32) < doubled then 30000 else doubled }
    let s := { s with reconnectCount := s.reconnectCount + 1 }
    if ok then ({ s with currentBackoffMs := 100 }, true, some delay) else (s, false, some delay)

/-- One reconnection attempt: the sleep before it and whether it connected. -/
structure Attempt where
  delayMs : UInt32
  ok : Bool
  deriving DecidableEq, Repr

/-- What one pass of the `while (running_)` loop finds: `wait_for_data` reports
data or a timeout, or an error, after which `do_connect()` would succeed or not
as `ok` says. -/
inductive Wait
  | ready
  | error (ok : Bool)
  deriving DecidableEq, Repr

/-- The loop of `FeedHandler::run` as far as connection losses go: the socket,
the attempts made, and whether it stopped. -/
def FeedHandler.run (autoReconnect : Bool) :
    List Wait → MarketDataSocket × List Attempt → MarketDataSocket × List Attempt × Bool
  | [], (s, log) => (s, log, false)
  | .ready :: ws, acc => run autoReconnect ws acc
  | .error ok :: ws, (s, log) =>
    if autoReconnect then
      let r := s.reconnect ok
      let log := log ++ (r.2.2.map fun d => [⟨d, ok⟩]).getD []
      if r.2.1 then run autoReconnect ws (r.1, log)
      else if maxRetryCount ≤ r.1.reconnectCount.toNat then (r.1, log, true)
      else run autoReconnect ws (r.1, log)
    else (s, log, true)

/-- The failed attempts since the last successful one. -/
def trailingFailures (log : List Attempt) : Nat :=
  (log.reverse.takeWhile fun a => !a.ok).length

/-- The backoff before the `f`-th consecutive failure's successor: `min(100 * 2^f, 30000)`. -/
def backoffAfter (f : Nat) : Nat := min (100 * 2 ^ f) 30000

/-! ### One call of `reconnect` -/

theorem trailingFailures_snoc (log : List Attempt) (a : Attempt) :
    trailingFailures (log ++ [a]) = if a.ok then 0 else trailingFailures log + 1 := by
  cases h : a.ok <;> simp [trailingFailures, List.takeWhile_cons, h]

theorem backoffAfter_succ (f : Nat) :
    backoffAfter (f + 1) = min (2 * backoffAfter f) 30000 := by
  simp only [backoffAfter, Nat.pow_succ]
  omega

/-- What the socket knows of its attempts since `connect()`: it has counted
every one, at most `MAX_RETRY_COUNT`, and its backoff is the one the failures
since the last success call for. -/
structure SocketTracks (s : MarketDataSocket) (log : List Attempt) : Prop where
  count : s.reconnectCount.toNat = log.length
  count_le : log.length ≤ maxRetryCount
  backoff : s.currentBackoffMs.toNat = backoffAfter (trailingFailures log)

/-- Every attempt in the log slept for the backoff its predecessors call for. -/
def DelaysOk (log : List Attempt) : Prop :=
  ∀ i (h : i < log.length), (log.get ⟨i, h⟩).delayMs.toNat = backoffAfter (trailingFailures (log.take i))

theorem socketTracks_connect (s : MarketDataSocket) : SocketTracks s.connect [] :=
  ⟨rfl, by decide, rfl⟩

theorem delaysOk_nil : DelaysOk [] := fun _ h => absurd h (Nat.not_lt_zero _)

theorem DelaysOk.snoc {log : List Attempt} (h : DelaysOk log) (a : Attempt)
    (ha : a.delayMs.toNat = backoffAfter (trailingFailures log)) : DelaysOk (log ++ [a]) := by
  intro i hi
  rw [List.length_append, List.length_singleton] at hi
  rcases Nat.lt_succ_iff_lt_or_eq.mp hi with hi | rfl
  · rw [List.take_append_of_le_length hi.le, ← h i hi]
    simp [List.getElem_append_left hi]
  · simp [ha]

theorem backoff_le {s : MarketDataSocket} {log : List Attempt} (h : SocketTracks s log) :
    s.currentBackoffMs.toNat ≤ 30000 := by
  rw [h.backoff, backoffAfter]
  exact Nat.min_le_right _ _

/-- **One call.** At the maximum `reconnect` returns `false` without an attempt;
below it, it sleeps for the current backoff, counts one attempt, and keeps the
record of attempts in step. -/
theorem SocketTracks.reconnect {s : MarketDataSocket} {log : List Attempt} (h : SocketTracks s log)
    (ok : Bool) :
    (maxRetryCount ≤ log.length → s.reconnect ok = (s, false, none)) ∧
    (log.length < maxRetryCount →
      (s.reconnect ok).2.1 = ok ∧ (s.reconnect ok).2.2 = some s.currentBackoffMs ∧
      SocketTracks (s.reconnect ok).1 (log ++ [⟨s.currentBackoffMs, ok⟩])) := by
  have hb := backoff_le h
  refine ⟨fun hl => by rw [MarketDataSocket.reconnect, if_pos (h.count ▸ hl)], fun hl => ?_⟩
  have hc : s.reconnectCount.toNat < maxRetryCount := h.count ▸ hl
  have hcount : (s.reconnectCount + 1).toNat = log.length + 1 := by
    rw [UInt32.toNat_add, ← h.count]
    change (s.reconnectCount.toNat + 1) % 4294967296 = _
    change _ < 5 at hc
    omega
  have hdbl : (s.currentBackoffMs * 2).toNat = 2 * s.currentBackoffMs.toNat := by
    rw [UInt32.toNat_mul]
    change s.currentBackoffMs.toNat * 2 % 4294967296 = _
    omega
  have hlen : (log ++ [(⟨s.currentBackoffMs, ok⟩ : Attempt)]).length ≤ maxRetryCount := by
    rw [List.length_append, List.length_singleton]; exact hl
  rw [MarketDataSocket.reconnect, if_neg (Nat.not_le.mpr hc)]
  cases ok
  · refine ⟨rfl, rfl, ⟨by simpa using hcount, hlen, ?_⟩⟩
    simp only [trailingFailures_snoc, Bool.false_eq_true, if_false]
    rw [backoffAfter_succ, ← h.backoff]
    split_ifs with hcap
    · change 30000 < (s.currentBackoffMs * 2).toNat at hcap
      change 30000 = _
      omega
    · change ¬30000 < (s.currentBackoffMs * 2).toNat at hcap
      omega
  · exact ⟨rfl, rfl, ⟨by simpa using hcount, hlen, by rw [trailingFailures_snoc, if_pos rfl]; rfl⟩⟩

/-! ### A whole run -/

theorem FeedHandler.run_error (ws : List Wait) (s : MarketDataSocket) (log : List Attempt)
    (ok : Bool) :
    FeedHandler.run true (.error ok :: ws) (s, log) =
      if (s.reconnect ok).2.1 then
        run true ws ((s.reconnect ok).1, log ++ ((s.reconnect ok).2.2.map fun d => [⟨d, ok⟩]).getD [])
      else if maxRetryCount ≤ (s.reconnect ok).1.reconnectCount.toNat then
        ((s.reconnect ok).1, log ++ ((s.reconnect ok).2.2.map fun d => [⟨d, ok⟩]).getD [], true)
      else run true ws ((s.reconnect ok).1, log ++ ((s.reconnect ok).2.2.map fun d => [⟨d, ok⟩]).getD []) :=
  rfl

/-- **Every run from `connect()`.** The socket counts every attempt of the
run, successful or not, and every attempt slept for `min(100 * 2^f, 30000)` ms
after `f` consecutive failures; a run that stops with reconnection on has made
`MAX_RETRY_COUNT` attempts. -/
theorem SocketTracks.run (autoReconnect : Bool) (ws : List Wait) :
    ∀ (s : MarketDataSocket) (log : List Attempt), SocketTracks s log → DelaysOk log →
      SocketTracks (FeedHandler.run autoReconnect ws (s, log)).1
        (FeedHandler.run autoReconnect ws (s, log)).2.1 ∧
      DelaysOk (FeedHandler.run autoReconnect ws (s, log)).2.1 ∧
      (autoReconnect = true → (FeedHandler.run autoReconnect ws (s, log)).2.2 = true →
        (FeedHandler.run autoReconnect ws (s, log)).2.1.length = maxRetryCount) := by
  induction ws with
  | nil => exact fun s log h hd => ⟨h, hd, fun _ h => by cases h⟩
  | cons w ws ih =>
    intro s log h hd
    cases w with
    | ready => exact ih s log h hd
    | error ok =>
      cases autoReconnect
      · exact ⟨h, hd, fun h => by cases h⟩
      rw [FeedHandler.run_error]
      by_cases hl : maxRetryCount ≤ log.length
      · rw [(h.reconnect ok).1 hl, if_neg Bool.false_ne_true, if_pos (h.count ▸ hl)]
        simp only [Option.map_none', Option.getD_none, List.append_nil]
        exact ⟨h, hd, fun _ _ => le_antisymm h.count_le hl⟩
      · obtain ⟨hr, hd', ht⟩ := (h.reconnect ok).2 (Nat.not_le.mp hl)
        have hdl := hd.snoc ⟨s.currentBackoffMs, ok⟩ h.backoff
        rw [hr, hd', Option.map_some', Option.getD_some]
        split_ifs with hok hmax
        · exact ih _ _ ht hdl
        · exact ⟨ht, hdl, fun _ _ => le_antisymm ht.count_le (ht.count ▸ hmax)⟩
        · exact ih _ _ ht hdl

/-- The backoff before each attempt of a run from `connect()`. -/
theorem delays_of_run (autoReconnect : Bool) (s : MarketDataSocket) (ws : List Wait) :
    DelaysOk (FeedHandler.run autoReconnect ws (s.connect, [])).2.1 :=
  (SocketTracks.run autoReconnect ws s.connect [] (socketTracks_connect s) delaysOk_nil).2.1

/-- A run that stops for reconnect exhaustion has made five attempts since
`connect()`, counting the successful ones. -/
theorem run_stops_after_five_attempts (s : MarketDataSocket) (ws : List Wait)
    (hstop : (FeedHandler.run true ws (s.connect, [])).2.2 = true) :
    (FeedHandler.run true ws (s.connect, [])).2.1.length = maxRetryCount :=
  (SocketTracks.run true ws s.connect [] (socketTracks_connect s) delaysOk_nil).2.2 rfl hstop

/-- Five losses, each recovered at the first attempt, then a sixth loss. -/
def fiveRecoveries : List Wait := List.replicate 6 (.error true)

/-- After five successful reconnections the sixth loss stops the run with no
attempt: every attempt made succeeded. -/
theorem run_stops_without_failed_attempt :
    (FeedHandler.run true fiveRecoveries (({} : MarketDataSocket).connect, [])).2.2 = true ∧
      (FeedHandler.run true fiveRecoveries (({} : MarketDataSocket).connect, [])).2.1 =
        [⟨100, true⟩, ⟨100, true⟩, ⟨100, true⟩, ⟨100, true⟩, ⟨100, true⟩] := by
  decide

end MarketFeed.Client
