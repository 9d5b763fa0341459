import Mathlib.Data.Nat.Notation

/-!
# The incremental merkle tree

`IncrementalMerkle δ` holds the number of appended digests and the roots of the complete subtrees
that later appends still need.  The pair hash (`DigestType::hash` of a canonical pair) is an
argument of `append`.
-/

namespace Sysio

/-- `incremental_merkle_impl`. -/
structure IncrementalMerkle (δ : Type) where
  /-- `_node_count`. -/
  nodeCount : UInt64
  /-- `_active_nodes`. -/
  activeNodes : List δ
  deriving DecidableEq, Repr

namespace IncrementalMerkle

variable {δ : Type}

def empty : IncrementalMerkle δ := ⟨0, []⟩

/-- `next_power_of_2`: the smallest power of two not below `value`. -/
def nextPowerOf2 (value : UInt64) : UInt64 :=
  let v := value - 1
  let v := v ||| (v >>> 1)
  let v := v ||| (v >>> 2)
  let v := v ||| (v >>> 4)
  let v := v ||| (v >>> 8)
  let v := v ||| (v >>> 16)
  let v := v ||| (v >>> 32)
  v + 1

def clzPower2 (value : UInt64) : ℕ :=
  let lz := 64
  let lz := if value ≠ 0 then lz - 1 else lz
  let lz := if value &&& 0x00000000FFFFFFFF ≠ 0 then lz - 32 else lz
  let lz := if value &&& 0x0000FFFF0000FFFF ≠ 0 then lz - 16 else lz
  let lz := if value &&& 0x00FF00FF00FF00FF ≠ 0 then lz - 8 else lz
  let lz := if value &&& 0x0F0F0F0F0F0F0F0F ≠ 0 then lz - 4 else lz
  let lz := if value &&& 0x3333333333333333 ≠ 0 then lz - 2 else lz
  if value &&& 0x5555555555555555 ≠ 0 then lz - 1 else lz

def calcluateMaxDepth (nodeCount : UInt64) : ℕ :=
  if nodeCount = 0 then 0 else clzPower2 (nextPowerOf2 nodeCount) + 1

/-- The loop of `append`: `currentDepth` levels remain above `top`, `active` are the unread old
active nodes and `updated` the new ones written so far. -/
def collapse (hash : δ → δ → δ) :
    ℕ → UInt64 → Bool → δ → List δ → List δ → List δ
  | 0, _, _, top, _, updated => updated ++ [top]
  | currentDepth + 1, index, implied, top, active, updated =>
    if index &&& 1 = 0 then
      -- a left value and an implied right one
      let updated := if implied then updated else updated ++ [top]
      collapse hash currentDepth (index >>> 1) true (hash top top) active updated
    else
      -- a right value and the complete left one, the next old active node
      let left := active.headD top
      let updated := if implied then updated ++ [left] else updated
      collapse hash currentDepth (index >>> 1) implied (hash left top) active.tail updated

def append (hash : δ → δ → δ) (m : IncrementalMerkle δ) (digest : δ) : IncrementalMerkle δ where
  nodeCount := m.nodeCount + 1
  activeNodes := collapse hash (calcluateMaxDepth (m.nodeCount + 1) - 1) m.nodeCount false digest
      m.activeNodes []

/-- `get_root`, with `zero` for the default digest. -/
def getRoot (zero : δ) (m : IncrementalMerkle δ) : δ :=
  if m.nodeCount > 0 then m.activeNodes.getLastD zero else zero

end IncrementalMerkle

end Sysio
