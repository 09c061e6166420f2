/-
# `opal_hash_table_t`: the open-addressing hash table

The model of `opal/class/opal_hash_table.c`.  The table is one array of elements; a key's home
slot is its hash modulo the capacity, and a collision is resolved by walking forward with
wrap-around (`Probe.scan`).  The three key types of the source (`uint32`, `uint64`, `ptr`) share
their bodies up to the hash method and the key comparison, so the functions here are stated once
for any key type with a hash; `hashKeyPtr` is the method of pointer keys, which the source
compares by length and bytes.

Every probe loop of the source is `for (ii = home; ; ii += 1)` with no bound.  Here each takes
`capacity` rounds at most and the functions return `none` when a loop would still be running, so
that "the loop ends" is a statement one can prove.

Two idealisations: `calloc` and `malloc` do not fail, and the growth of a table computes its new
capacity without wrap-around (a table whose doubled capacity does not fit a `size_t` does not fit
memory).  The capacity computed from a CALLER's size does wrap, as in the source.
-/
import Sensys.Constants
import Sensys.Lib.Probe
import Mathlib.Data.List.Basic

namespace Sensys.Opal

/-! ## 1. The table -/

/-- `opal_hash_table_t`.  A free element (`valid == 0`) is `none`; `ht_capacity` is the length of
the array; `ht_type_methods` is the `hash` the operations below take. -/
structure HashTable (K V : Type) where
  table : List (Option (K × V))
  size : ℕ
  growthTrigger : ℕ
  densityNumer : ℕ
  densityDenom : ℕ
  growthNumer : ℕ
  growthDenom : ℕ

/-- The array as the probing library reads it. -/
def slots {K V : Type} (t : List (Option (K × V))) : Probe.Slots K V := fun i => t.getD i none

namespace HashTable

variable {K V : Type}

/-- `ht_capacity`. -/
def capacity (ht : HashTable K V) : ℕ := ht.table.length

/-- The elements by index, `none` when free. -/
def elt (ht : HashTable K V) : Probe.Slots K V := slots ht.table

/-- Arithmetic on `size_t`. -/
def sizeT (n : ℕ) : ℕ := n % 2 ^ 64

/-- `opal_hash_round_capacity_up`: round up to (1 mod 30).  `arith` is `sizeT` on a caller's
size and the identity on the capacity of a table that exists. -/
def roundCapacityUp (arith : ℕ → ℕ) (capacity : ℕ) : ℕ := arith (capacity + 29) / 30 * 30 + 1

/-- `opal_hash_table_init2` on a constructed table. -/
def init2 (estimatedMaxSize densityNumer densityDenom growthNumer growthDenom : ℕ) :
    HashTable K V :=
  let estCapacity := sizeT (estimatedMaxSize * densityDenom) / densityNumer
  let capacity := roundCapacityUp sizeT estCapacity
  { table := List.replicate capacity none
    size := 0
    growthTrigger := capacity * densityNumer / densityDenom
    densityNumer := densityNumer
    densityDenom := densityDenom
    growthNumer := growthNumer
    growthDenom := growthDenom }

/-- `opal_hash_table_init`: density of 1/2 and growth of 2/1. -/
def init (tableSize : ℕ) : HashTable K V := init2 tableSize 1 2 2 1

/-- `opal_hash_table_remove_all`. -/
def removeAll (ht : HashTable K V) : Rc × HashTable K V :=
  (.success, { ht with table := List.replicate ht.capacity none, size := 0 })

/-- `opal_hash_table_get_size`. -/
def getSize (ht : HashTable K V) : ℕ := ht.size

section Ops

variable (hash : K → ℕ)

/-! ## 2. Growth -/

/-- Put one element of the old table into the new one, at the first free slot from its home. -/
def reinsert (newTable : List (Option (K × V))) (e : K × V) :
    Option (List (Option (K × V))) :=
  (Probe.scan newTable.length (fun ii => (slots newTable ii).isNone) newTable.length
    (hash e.1 % newTable.length)).map fun ii => newTable.set ii (some e)

/-- The loop of `opal_hash_grow` over the old table. -/
def reinsertAll : List (Option (K × V)) → List (Option (K × V)) →
    Option (List (Option (K × V)))
  | [], newTable => some newTable
  | none :: old, newTable => reinsertAll old newTable
  | some e :: old, newTable => (reinsert hash newTable e).bind (reinsertAll old)

/-- `opal_hash_grow`. -/
def grow (ht : HashTable K V) : Option (Rc × HashTable K V) :=
  let newCapacity := roundCapacityUp id (ht.capacity * ht.growthNumer / ht.growthDenom)
  (reinsertAll hash ht.table (List.replicate newCapacity none)).map fun newTable =>
    (.success,
      { ht with
        table := newTable
        growthTrigger := newCapacity * ht.densityNumer / ht.densityDenom })

/-! ## 3. Lookup, insertion, removal -/

variable [DecidableEq K]

/-- The probe loop of `get_value`, `set_value` and `remove_value`: the index of the key's element
or of the first free one. -/
def probe (ht : HashTable K V) (key : K) : Option ℕ :=
  Probe.scan ht.capacity (Probe.stopsAt ht.elt key) ht.capacity (hash key % ht.capacity)

/-- `opal_hash_table_get_value_*`. -/
def getValue (ht : HashTable K V) (key : K) : Option (Except Rc V) :=
  (ht.probe hash key).map fun ii =>
    match ht.elt ii with
    | none => .error .errNotFound
    | some e => .ok e.2

/-- `opal_hash_table_set_value_*`: a new entry may trigger growth, an existing one only has its
value replaced. -/
def setValue (ht : HashTable K V) (key : K) (value : V) : Option (Rc × HashTable K V) :=
  (ht.probe hash key).bind fun ii =>
    match ht.elt ii with
    | none =>
      let ht := { ht with table := ht.table.set ii (some (key, value)), size := ht.size + 1 }
      if ht.size ≥ ht.growthTrigger then ht.grow hash else some (.success, ht)
    | some e => some (.success, { ht with table := ht.table.set ii (some (e.1, value)) })

/-- The loop of `opal_hash_table_remove_elt_at` over the elements that follow the removed one:
re-hash each and move it down if a slot on its way became free. -/
def rehashFollowers : ℕ → List (Option (K × V)) → ℕ → Option (List (Option (K × V)))
  | 0, _, _ => none
  | fuel + 1, t, ii =>
    let ii := if ii = t.length then 0 else ii
    match slots t ii with
    | none => some t
    | some e =>
      (Probe.scan t.length (Probe.settlesAt (slots t) ii) t.length (hash e.1 % t.length)).bind
        fun jj =>
          let t := if jj = ii then t else (t.set jj (some e)).set ii none
          rehashFollowers fuel t (ii + 1)

/-- `opal_hash_table_remove_elt_at`. -/
def removeEltAt (ht : HashTable K V) (ii : ℕ) : Option (Rc × HashTable K V) :=
  match ht.elt ii with
  | none => some (.error, ht)
  | some _ =>
    (rehashFollowers hash ht.capacity (ht.table.set ii none) (ii + 1)).map fun t =>
      (.success, { ht with table := t, size := ht.size - 1 })

/-- `opal_hash_table_remove_value_*`. -/
def removeValue (ht : HashTable K V) (key : K) : Option (Rc × HashTable K V) :=
  (ht.probe hash key).bind fun ii =>
    match ht.elt ii with
    | none => some (.errNotFound, ht)
    | some _ => ht.removeEltAt hash ii

end Ops

/-! ## 4. Traversal -/

/-- Where `opal_hash_table_get_next_elt` starts to look: `NULL` means find first. -/
def startOf : Option ℕ → ℕ
  | none => 0
  | some i => i + 1

/-- `opal_hash_table_get_next_elt`: the first valid element behind `prevElt`. -/
def getNextElt (ht : HashTable K V) (prevElt : Option ℕ) : Except Rc ℕ :=
  let start := startOf prevElt
  match (List.range' start (ht.capacity - start)).find? fun ii => (ht.elt ii).isSome with
  | some ii => .ok ii
  | none => .error .error

/-- `opal_hash_table_get_next_key_*`: key, value and the node to continue from. -/
def getNextKey (ht : HashTable K V) (inNode : Option ℕ) : Except Rc ((K × V) × ℕ) :=
  match ht.getNextElt inNode with
  | .error rc => .error rc
  | .ok ii =>
    match ht.elt ii with
    | none => .error .error
    | some e => .ok (e, ii)

/-- `opal_hash_table_get_first_key_*`. -/
def getFirstKey (ht : HashTable K V) : Except Rc ((K × V) × ℕ) := ht.getNextKey none

/-- A caller's loop of `get_next_key` calls, from what the last call returned until one fails. -/
def traverseFrom (ht : HashTable K V) : ℕ → Except Rc ((K × V) × ℕ) → Option (List (K × V))
  | 0, _ => none
  | _ + 1, .error _ => some []
  | fuel + 1, .ok (e, node) => (ht.traverseFrom fuel (ht.getNextKey (some node))).map (e :: ·)

/-- A caller's traversal, starting with `get_first_key`. -/
def traverse (ht : HashTable K V) : Option (List (K × V)) :=
  ht.traverseFrom (ht.capacity + 1) ht.getFirstKey

end HashTable

/-- `opal_hash_hash_key_ptr`: `hash = HASH_MULTIPLIER * hash + byte`, on 64 bits. -/
def hashKeyPtr (key : List UInt8) : ℕ :=
  (key.foldl (fun (hash : UInt64) b => 31 * hash + b.toUInt64) 0).toNat

end Sensys.Opal
