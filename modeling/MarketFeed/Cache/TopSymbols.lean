import MarketFeed.Cache.History

/-!
# `get_top_symbols`

`get_top_symbols` collects the pairs `(update_count, id)` of the symbols that
have been updated and puts the `min(count, size)` greatest of them, under
`std::greater<std::pair<uint64_t, uint16_t>>`, in front with `std::partial_sort`.
That comparator orders pairs lexicographically: by count, and between equal
counts by id, the higher id first. The ids are distinct, so the front that
`partial_sort` leaves is the prefix of the fully sorted list, which is how it is
modelled here (`topPairs`).

The selection is right (`topPairs_selects`: sorted, drawn from the updated
symbols, and above every symbol it leaves out), and ties go to the higher id
(`topPairs_tie_higher_id`), against the lower id the design asks for.
-/

namespace MarketFeed.Cache

open MarketFeed.Protocol

/-- `std::greater` on `std::pair<uint64_t, uint16_t>`: `b < a`, comparing the
counts and then the ids. -/
def pairGreater (a b : UInt64 × UInt16) : Bool :=
  b.1 < a.1 || (b.1 == a.1 && b.2 < a.2)

/-- `a` may stand before `b` in the order `partial_sort` establishes: `b` is
not greater than `a`. -/
def pairNotBelow (a b : UInt64 × UInt16) : Prop := pairGreater b a = false

instance : DecidableRel pairNotBelow := fun _ _ => inferInstanceAs (Decidable (_ = false))

/-- The pair as one number, count first: `std::greater` compares these. -/
def pairKey (p : UInt64 × UInt16) : Nat := p.1.toNat * 65536 + p.2.toNat

theorem pairGreater_iff (a b : UInt64 × UInt16) : pairGreater a b = true ↔ pairKey b < pairKey a := by
  have ha := a.2.toNat_lt_size
  have hb := b.2.toNat_lt_size
  change a.2.toNat < 65536 at ha
  change b.2.toNat < 65536 at hb
  have e1 : b.1 == a.1 ↔ b.1.toNat = a.1.toNat := beq_iff_eq.trans UInt64.ext_iff
  simp only [pairGreater, pairKey, Bool.or_eq_true, Bool.and_eq_true, decide_eq_true_eq, e1]
  change b.1.toNat < a.1.toNat ∨ b.1.toNat = a.1.toNat ∧ b.2.toNat < a.2.toNat ↔ _
  omega

theorem pairNotBelow_iff (a b : UInt64 × UInt16) : pairNotBelow a b ↔ pairKey b ≤ pairKey a := by
  rw [pairNotBelow, ← Bool.not_eq_true, pairGreater_iff]
  omega

theorem pairNotBelow_total (a b : UInt64 × UInt16) : pairNotBelow a b ∨ pairNotBelow b a := by
  rw [pairNotBelow_iff, pairNotBelow_iff]
  omega

theorem pairNotBelow_trans {a b c : UInt64 × UInt16} (hab : pairNotBelow a b)
    (hbc : pairNotBelow b c) : pairNotBelow a c := by
  rw [pairNotBelow_iff] at *
  omega

instance : IsTotal (UInt64 × UInt16) pairNotBelow := ⟨pairNotBelow_total⟩

instance : IsTrans (UInt64 × UInt16) pairNotBelow := ⟨fun _ _ _ => pairNotBelow_trans⟩

/-- The pairs `(update_count, id)` of the symbols in range with a positive
count, in id order. -/
def SymbolCache.activeSymbols (c : SymbolCache) : List (UInt64 × UInt16) :=
  (List.range c.numSymbols).filterMap fun i =>
    if 0 < (c.getSnapshot (UInt16.ofNat i)).updateCount then
      some ((c.getSnapshot (UInt16.ofNat i)).updateCount, UInt16.ofNat i)
    else none

/-- The front of `symbols` after `partial_sort`: the `min(count, size)` greatest pairs. -/
def SymbolCache.topPairs (c : SymbolCache) (count : Nat) : List (UInt64 × UInt16) :=
  (c.activeSymbols.insertionSort pairNotBelow).take (min count c.activeSymbols.length)

/-- `get_top_symbols(out_ids, out_states, count)`: the `count` slots of
`out_ids` and of `out_states`, the selected symbols with a second snapshot each,
then ids `0` and zero states. -/
def SymbolCache.getTopSymbols (c : SymbolCache) (count : Nat) : List UInt16 × List MarketState :=
  ((c.topPairs count).map Prod.snd ++ List.replicate (count - (c.topPairs count).length) 0,
    (c.topPairs count).map (fun p => c.getSnapshot p.2) ++
      List.replicate (count - (c.topPairs count).length) ({} : MarketState))

theorem SymbolCache.mem_activeSymbols (c : SymbolCache) (p : UInt64 × UInt16) :
    p ∈ c.activeSymbols ↔
      p.2.toNat < c.numSymbols ∧ 0 < (c.getSnapshot p.2).updateCount ∧
        p.1 = (c.getSnapshot p.2).updateCount := by
  have hsz : c.numSymbols < UInt16.size := lt_of_le_of_lt c.numSymbols_le (by decide)
  simp only [activeSymbols, List.mem_filterMap, List.mem_range, Option.ite_none_right_eq_some,
    Option.some.injEq]
  constructor
  · rintro ⟨i, hi, hpos, rfl⟩
    rw [UInt16.toNat_ofNat_of_lt (by omega)]
    exact ⟨hi, hpos, rfl⟩
  · rintro ⟨hi, hpos, he⟩
    refine ⟨p.2.toNat, hi, ?_⟩
    rw [UInt16.toNat.inj (UInt16.toNat_ofNat_of_lt p.2.toNat_lt_size)]
    exact ⟨hpos, Prod.ext he.symm rfl⟩

theorem SymbolCache.activeSymbols_nodup (c : SymbolCache) : c.activeSymbols.Nodup := by
  have hsz : c.numSymbols < UInt16.size := lt_of_le_of_lt c.numSymbols_le (by decide)
  refine (List.Pairwise.and_mem.mp (List.pairwise_lt_range c.numSymbols)).filterMap _ ?_
  rintro i j ⟨hi, hj, hij⟩ p hp q hq rfl
  simp only [Option.mem_def, Option.ite_none_right_eq_some, Option.some.injEq] at hp hq
  have e := congrArg (fun p => p.2.toNat) (hp.2.trans hq.2.symm)
  simp only [List.mem_range] at hi hj
  simp only [UInt16.toNat_ofNat_of_lt (by omega : i < UInt16.size),
    UInt16.toNat_ofNat_of_lt (by omega : j < UInt16.size)] at e
  omega

/-- **`get_top_symbols` selects by activity.** The pairs it returns are drawn
from the updated symbols, there are `min(count, number updated)` of them, they
stand in non-increasing order of `(update_count, id)`, and every updated symbol
left out stands below every one returned. -/
theorem SymbolCache.topPairs_selects (c : SymbolCache) (count : Nat) :
    (c.topPairs count).Sorted pairNotBelow ∧
      (c.topPairs count).length = min count c.activeSymbols.length ∧
      (∀ p ∈ c.topPairs count, p ∈ c.activeSymbols) ∧
      (∀ p ∈ c.activeSymbols, p ∉ c.topPairs count → ∀ q ∈ c.topPairs count, pairNotBelow q p) := by
  have hperm := List.perm_insertionSort pairNotBelow c.activeSymbols
  have hsort := List.sorted_insertionSort pairNotBelow c.activeSymbols
  rw [← List.take_append_drop (min count c.activeSymbols.length)
    (c.activeSymbols.insertionSort pairNotBelow)] at hsort
  obtain ⟨htake, -, hcross⟩ := List.pairwise_append.mp hsort
  refine ⟨htake, ?_, fun p hp => hperm.mem_iff.mp (List.mem_of_mem_take hp), fun p hp hout q hq => ?_⟩
  · rw [topPairs, List.length_take, hperm.length_eq]
    exact Nat.min_eq_left (Nat.min_le_right _ _)
  · have hmem := hperm.mem_iff.mpr hp
    rw [← List.take_append_drop (min count c.activeSymbols.length)
      (c.activeSymbols.insertionSort pairNotBelow), List.mem_append] at hmem
    exact hcross q hq p (hmem.resolve_left hout)

/-- Between two returned symbols with equal counts, the higher id comes first. -/
theorem SymbolCache.topPairs_tie_higher_id (c : SymbolCache) (count : Nat) {p q : UInt64 × UInt16}
    (hpq : [p, q].Sublist (c.topPairs count)) (hc : p.1 = q.1) : q.2 < p.2 := by
  have hnd : (c.topPairs count).Nodup :=
    ((List.perm_insertionSort _ _).nodup_iff.mpr c.activeSymbols_nodup).sublist (List.take_sublist _ _)
  have hne : p ≠ q := List.rel_of_pairwise_cons (hnd.sublist hpq) (List.mem_singleton_self q)
  have hle := (pairNotBelow_iff p q).mp
    (List.pairwise_pair.mp (((c.topPairs_selects count).1).sublist hpq))
  have hid : q.2.toNat ≠ p.2.toNat := fun e => hne (Prod.ext hc (UInt16.toNat.inj e.symm))
  simp only [pairKey, hc] at hle
  exact (show q.2.toNat < p.2.toNat by omega)

/-- Two symbols of a two-symbol cache, one update each. -/
def tiedUpdates : List CacheCall :=
  [.write 0 (.bid 0x4059000000000000 10 1), .write 1 (.bid 0x4059000000000000 10 2)]

/-- With one slot and the tie, `get_top_symbols` returns symbol 1. -/
theorem top_symbols_tie_returns_higher_id :
    ((SymbolCache.new 2).runCalls (fun _ _ => 0) tiedUpdates).getTopSymbols 1 =
      ([1], [((SymbolCache.new 2).runCalls (fun _ _ => 0) tiedUpdates).getSnapshot 1]) := by
  decide

end MarketFeed.Cache
