import Mathlib.Data.List.Basic

/-!
# Ordered key-value stores

A store is a finite map kept in key order.  Batches of puts are applied in
order, so that a later put of a key wins, and a scan lists the keys that
satisfy a predicate in ascending order.
-/

/-- A finite map from keys to values, kept in key order. -/
abbrev OrderedStore (κ ν : Type) [Ord κ] := Std.TreeMap κ ν compare

namespace OrderedStore

variable {κ ν : Type} [Ord κ]

/-- Apply every put of a batch, in order. -/
def write (store : OrderedStore κ ν) (batch : List (κ × ν)) : OrderedStore κ ν :=
  batch.foldl (fun store put => store.insert put.1 put.2) store

/-- The keys satisfying a predicate, in ascending order. -/
def scan (store : OrderedStore κ ν) (select : κ → Bool) : List κ :=
  store.keys.filter select

@[simp] theorem write_nil (store : OrderedStore κ ν) : store.write [] = store :=
  rfl

theorem write_append
    (store : OrderedStore κ ν)
    (first second : List (κ × ν)) :
    store.write (first ++ second) = (store.write first).write second :=
  List.foldl_append

variable [Std.TransOrd κ] [Std.LawfulEqOrd κ]

theorem mem_write
    (store : OrderedStore κ ν)
    (batch : List (κ × ν))
    (key : κ) :
    key ∈ store.write batch ↔ key ∈ store ∨ key ∈ batch.map Prod.fst := by
  induction batch generalizing store with
  | nil => simp
  | cons put batch inductionHypothesis =>
      change key ∈ OrderedStore.write (store.insert put.1 put.2) batch ↔ _
      rw [inductionHypothesis, Std.TreeMap.mem_insert,
        Std.LawfulEqOrd.compare_eq_iff_eq, List.map_cons, List.mem_cons,
        eq_comm]
      tauto

/-- A batch leaves the keys it does not put unchanged. -/
theorem getElem?_write_of_notMem
    (store : OrderedStore κ ν)
    (batch : List (κ × ν))
    (key : κ)
    (absent : key ∉ batch.map Prod.fst) :
    (store.write batch)[key]? = store[key]? := by
  induction batch generalizing store with
  | nil => rfl
  | cons put batch inductionHypothesis =>
      rw [List.map_cons, List.mem_cons, not_or] at absent
      change (OrderedStore.write (store.insert put.1 put.2) batch)[key]? = _
      rw [inductionHypothesis _ absent.2, Std.TreeMap.getElem?_insert,
        if_neg (by
          rw [Std.LawfulEqOrd.compare_eq_iff_eq]
          exact fun equal => absent.1 equal.symm)]

/-- A key put with a single value holds that value afterwards. -/
theorem getElem?_write_of_mem
    (store : OrderedStore κ ν)
    (batch : List (κ × ν))
    (key : κ)
    (value : ν)
    (present : key ∈ batch.map Prod.fst)
    (single : ∀ other, (key, other) ∈ batch → other = value) :
    (store.write batch)[key]? = some value := by
  induction batch generalizing store with
  | nil => simp at present
  | cons put batch inductionHypothesis =>
      change (OrderedStore.write (store.insert put.1 put.2) batch)[key]? = _
      by_cases later : key ∈ batch.map Prod.fst
      · exact inductionHypothesis _ later fun other member =>
          single other (List.mem_cons_of_mem _ member)
      · have here : key = put.1 := by
          rw [List.map_cons, List.mem_cons] at present
          exact present.resolve_right later
        subst here
        rw [getElem?_write_of_notMem _ _ _ later,
          Std.TreeMap.getElem?_insert_self, single put.2 (by simp)]

/-- A value found after a batch was there before or was put by the batch. -/
theorem getElem?_of_write
    {store : OrderedStore κ ν}
    {batch : List (κ × ν)}
    {key : κ}
    {value : ν}
    (found : (store.write batch)[key]? = some value) :
    store[key]? = some value ∨ (key, value) ∈ batch := by
  induction batch generalizing store with
  | nil => exact Or.inl found
  | cons put batch inductionHypothesis =>
      change (OrderedStore.write (store.insert put.1 put.2) batch)[key]? = _ at found
      rcases inductionHypothesis found with before | member
      · rw [Std.TreeMap.getElem?_insert] at before
        split at before
        next same =>
          right
          obtain rfl : put.2 = value := Option.some.inj before
          rw [← Std.LawfulEqOrd.compare_eq_iff_eq.mp same]
          exact List.mem_cons_self
        next => exact Or.inl before
      · exact Or.inr (List.mem_cons_of_mem _ member)

omit [Std.LawfulEqOrd κ] in
theorem mem_iff_getElem? (store : OrderedStore κ ν) (key : κ) :
    key ∈ store ↔ ∃ value, store[key]? = some value := by
  rw [← Option.isSome_iff_exists, Std.TreeMap.isSome_getElem?_eq_contains,
    Std.TreeMap.contains_iff_mem]

theorem mem_scan
    (store : OrderedStore κ ν)
    (select : κ → Bool)
    (key : κ) :
    key ∈ store.scan select ↔ key ∈ store ∧ select key = true := by
  rw [scan, List.mem_filter, Std.TreeMap.mem_keys]

omit [Std.LawfulEqOrd κ] in
/-- A scan lists its keys in strictly ascending order. -/
theorem scan_sorted (store : OrderedStore κ ν) (select : κ → Bool) :
    (store.scan select).Pairwise fun left right => compare left right = .lt :=
  Std.TreeMap.ordered_keys.filter _

theorem scan_nodup (store : OrderedStore κ ν) (select : κ → Bool) :
    (store.scan select).Nodup :=
  (store.scan_sorted select).imp fun {_ _} less equal => by
    rw [Std.LawfulEqOrd.compare_eq_iff_eq.mpr equal] at less
    exact Ordering.noConfusion less

end OrderedStore
