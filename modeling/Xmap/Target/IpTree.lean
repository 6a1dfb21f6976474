import Mathlib.Tactic

/-!
# The address tree (`xm_iptree`)

Words are naturals; `uint32_t` operations that can leave the word wrap explicitly. Addresses are in
host byte order here.
-/

namespace Xmap.Target

/-- `RADIX_LENGTH`. -/
def radixLength : Nat := 20

/-- `1 << (32 - RADIX_LENGTH)`, the number of addresses of a radix block. -/
def radixBlock : Nat := 1 <<< (32 - radixLength)

/-- The top bit of a `uint32_t`. -/
def topMask : Nat := 0x80000000

/-- `xm_node_t`. A node is a leaf exactly when its child pointers are null. -/
inductive XmNode where
  | leaf (value count : Nat)
  | node (l r : XmNode) (value count : Nat)
deriving DecidableEq, Repr

namespace XmNode

/-- `IS_LEAF`. -/
def isLeaf : XmNode → Bool
  | leaf _ _ => true
  | node _ _ _ _ => false

def value : XmNode → Nat
  | leaf v _ => v
  | node _ _ v _ => v

def count : XmNode → Nat
  | leaf _ c => c
  | node _ _ _ c => c

def setValue (v : Nat) : XmNode → XmNode
  | leaf _ c => leaf v c
  | node l r _ c => node l r v c

/-- `_create_leaf`. The count is not initialised by the source; it is read only after painting. -/
def createLeaf (value : Nat) : XmNode := leaf value 0

/-- `_convert_to_leaf`. It returns at once when the node is not a leaf. -/
def convertToLeaf (n : XmNode) : XmNode :=
  if !n.isLeaf then n else leaf n.value n.count

/-- The end of `_set_recurse`: two leaves with one value are to be discarded. -/
def discardEqual : XmNode → XmNode
  | leaf v c => leaf v c
  | node l r v c =>
      if r.isLeaf && l.isLeaf && r.value == l.value then (node l r l.value c).convertToLeaf
      else node l r v c

/-- `_set_recurse` after its guard, by recursion on the prefix length. -/
def setAt : Nat → XmNode → Nat → Nat → XmNode
  | 0, n, _, val => (if !n.isLeaf then n.convertToLeaf else n).setValue val
  | len + 1, leaf v c, pfx, val =>
      if v = val then leaf v c
      else if pfx &&& topMask ≠ 0 then
        discardEqual (node (createLeaf v) (setAt len (createLeaf v) ((pfx <<< 1) % 2 ^ 32) val) v c)
      else
        discardEqual (node (setAt len (createLeaf v) ((pfx <<< 1) % 2 ^ 32) val) (createLeaf v) v c)
  | len + 1, node l r v c, pfx, val =>
      if pfx &&& topMask ≠ 0 then
        discardEqual (node l (setAt len r ((pfx <<< 1) % 2 ^ 32) val) v c)
      else
        discardEqual (node (setAt len l ((pfx <<< 1) % 2 ^ 32) val) r v c)

/-- `_set_recurse`. -/
def setRecurse (n : XmNode) (pfx : Nat) (len : Int) (val : Nat) : XmNode :=
  if len < 0 ∨ len > 256 then n else setAt len.toNat n pfx val

/-- `_lookup_ip`, from a node on with the mask that is left. -/
def lookupIp : XmNode → Nat → Nat → Nat
  | leaf v _, _, _ => v
  | node l r _ _, address, mask =>
      if address &&& mask ≠ 0 then lookupIp r address (mask >>> 1)
      else lookupIp l address (mask >>> 1)

/-- `_lookup_index`, from a node on. The result is converted to an `int` and back. -/
def lookupIndex : XmNode → Nat → Nat → Nat → Nat
  | leaf _ _, n, ip, _ => (ip ||| n) % 2 ^ 32
  | node l r _ _, n, ip, mask =>
      if n < l.count then lookupIndex l n ip (mask >>> 1)
      else lookupIndex r (n - l.count) (ip ||| mask) (mask >>> 1)

/-- `_count_ips_recurse`, with the painted tree beside the count. -/
def countIpsRecurse (val : Nat) (paint excludeRadix : Bool) : XmNode → Nat → XmNode × Nat
  | leaf v c, size =>
      let n := if v = val then (if excludeRadix ∧ radixBlock ≤ size then 0 else size) else 0
      (leaf v (if paint then n else c), n)
  | node l r v c, size =>
      let pl := countIpsRecurse val paint excludeRadix l (size >>> 1)
      let pr := countIpsRecurse val paint excludeRadix r (size >>> 1)
      let n := pl.2 + pr.2
      (node pl.1 pr.1 v (if paint then n else c), n)

/-- `_lookup_node`. -/
def lookupNode : Nat → XmNode → Nat → Nat → XmNode
  | 0, n, _, _ => n
  | _ + 1, leaf v c, _, _ => leaf v c
  | len + 1, node l r _ _, pfx, mask =>
      if pfx &&& mask ≠ 0 then lookupNode len r pfx (mask >>> 1)
      else lookupNode len l pfx (mask >>> 1)

end XmNode

/-- `xm_iptree_t`; `radix` holds the first `radix_len` words of the array. -/
structure XmIptree where
  root : XmNode
  radix : List Nat
  painted : Bool
  paintValue : Nat
deriving DecidableEq, Repr

/-- `xm_iptree_create`. -/
def xmIptreeCreate (value : Nat) : XmIptree :=
  { root := XmNode.createLeaf value, radix := [], painted := false, paintValue := 0 }

/-- `xm_iptree_add`. -/
def xmIptreeAdd (t : XmIptree) (pfx : Nat) (len : Int) (value : Nat) : XmIptree :=
  { t with root := t.root.setRecurse pfx len value, painted := false }

/-- `xm_iptree_lookup_ip`. -/
def xmIptreeLookupIp (t : XmIptree) (address : Nat) : Nat := t.root.lookupIp address topMask

/-- The prefixes that `xm_iptree_paint_value` writes to the radix array. -/
def radixFill (root : XmNode) (value : Nat) : List Nat :=
  (List.range (1 <<< radixLength)).filterMap fun i =>
    let pfx := i <<< (32 - radixLength)
    let n := XmNode.lookupNode radixLength root pfx topMask
    if n.isLeaf ∧ n.value = value then some pfx else none

/-- `xm_iptree_paint_value`. -/
def xmIptreePaintValue (t : XmIptree) (value : Nat) : XmIptree :=
  let root := (t.root.countIpsRecurse value true true (2 ^ 32)).1
  { root := root, radix := radixFill root value, painted := true, paintValue := value }

/-- `xm_iptree_lookup_index`. It paints the tree first unless it is painted for the value. -/
def xmIptreeLookupIndex (t : XmIptree) (index value : Nat) : XmIptree × Nat :=
  let t := if !t.painted || t.paintValue != value then xmIptreePaintValue t value else t
  if h : index / radixBlock < t.radix.length then
    (t, t.radix[index / radixBlock] ||| index % radixBlock)
  else
    (t, t.root.lookupIndex (index - t.radix.length * radixBlock) 0 topMask)

/-- `xm_iptree_count_ips`. -/
def xmIptreeCountIps (t : XmIptree) (value : Nat) : Nat :=
  if t.painted && t.paintValue == value then
    t.root.count + t.radix.length * radixBlock
  else
    (t.root.countIpsRecurse value false false (2 ^ 32)).2

example : xmIptreeLookupIp (xmIptreeAdd (xmIptreeCreate 0) 0x0a000000 8 1) 0x0a010203 = 1 := by
  decide

end Xmap.Target
