/-
The keys of an extensional map as a finite set, for counting them.

Results: `keySet_insert`, `keySet_erase`, `size_eq_card` and `length_filter_keys` (the sizes the map computes are cardinalities).
-/
import Mathlib.Tactic
import Mathlib.Data.Finset.Card

namespace KeySet

open Std (ExtTreeMap)

variable {K V : Type} [Ord K] [Std.TransOrd K] [Std.LawfulEqOrd K] [DecidableEq K]

def keySet (m : ExtTreeMap K V) : Finset K := m.keys.toFinset

theorem mem_keySet {m : ExtTreeMap K V} {k : K} : k ∈ keySet m ↔ k ∈ m := by
  rw [keySet, List.mem_toFinset, ExtTreeMap.mem_keys]

theorem mem_keySet_iff {m : ExtTreeMap K V} {k : K} : k ∈ keySet m ↔ ∃ v, m[k]? = some v := by
  rw [mem_keySet, ExtTreeMap.mem_iff_isSome_getElem?, Option.isSome_iff_exists]

omit [Std.LawfulEqOrd K] [DecidableEq K] in
theorem nodup_keys (m : ExtTreeMap K V) : m.keys.Nodup := ExtTreeMap.nodup_keys

omit [Std.LawfulEqOrd K] in
theorem size_eq_card (m : ExtTreeMap K V) : m.size = (keySet m).card := by
  rw [keySet, List.toFinset_card_of_nodup (nodup_keys m), ExtTreeMap.length_keys]

omit [Std.LawfulEqOrd K] in
theorem length_filter_keys (m : ExtTreeMap K V) (p : K → Bool) :
    (m.keys.filter p).length = ((keySet m).filter fun k => p k = true).card := by
  rw [keySet, ← List.toFinset_filter, List.toFinset_card_of_nodup ((nodup_keys m).filter p)]

theorem keySet_insert (m : ExtTreeMap K V) (k : K) (v : V) : keySet (m.insert k v) = insert k (keySet m) := by
  ext k'
  rw [Finset.mem_insert, mem_keySet, mem_keySet, ExtTreeMap.mem_insert, Std.compare_eq_iff_eq, eq_comm]

theorem keySet_erase (m : ExtTreeMap K V) (k : K) : keySet (m.erase k) = (keySet m).erase k := by
  ext k'
  rw [Finset.mem_erase, mem_keySet, mem_keySet, ExtTreeMap.mem_erase, ne_eq, Std.compare_eq_iff_eq, ne_comm]

end KeySet
