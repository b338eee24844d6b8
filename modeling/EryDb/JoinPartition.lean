import EryDb.LittleEndian

/-!
# The partitions of a disk-based join

A `JoinPartition` is a tree. A leaf keeps its rows in a file, in the row groups in which its
buffer was written; a leaf whose hash table would grow beyond the target becomes an inner node
and hands its rows on to two new leaves by a hash with a seed of its own. Rows enter at the
root, in whole row groups, and reach the nodes below one by one.

Each node is known by its path from the root, so the seed of a node is any function of the path.
Temporary files that cannot be read or written end a query with an exception and are left out.
-/

namespace JoinPartition

open LittleEndian (Byte)

abbrev Path := List Nat

inductive KeyField where
  | text (bytes : List Byte)
  | word (w : BitVec 64)
  deriving DecidableEq

/-- The key columns of a row as they are hashed: the first column widened to 64 bits, or every
column of a typeless join. -/
inductive JoinKey where
  | typed (w : BitVec 64)
  | typeless (columns : List KeyField)
  deriving DecidableEq

/-- A key column of a row: the bytes of a number, or a string in a column of some width. -/
inductive KeyValue where
  | signed (bytes : List Byte)
  | unsigned (bytes : List Byte)
  | text (string : List Byte) (width : Nat) (fits : string.length ≤ width)

/-- A short string is stored with NUL bytes behind it. -/
def padded (string : List Byte) (width : Nat) : List Byte :=
  string ++ List.replicate (width - string.length) 0

namespace KeyValue

/-- `getUintField` of an unsigned column and `getIntField` of all others, also of strings. -/
def word : KeyValue → BitVec 64
  | signed bytes => BitVec.ofInt 64 (LittleEndian.readInt bytes)
  | unsigned bytes => BitVec.ofNat 64 (LittleEndian.read bytes)
  | text string width _ => BitVec.ofInt 64 (LittleEndian.readInt (padded string width))

def field : KeyValue → KeyField
  | signed bytes => .word (word (signed bytes))
  | unsigned bytes => .word (word (unsigned bytes))
  | text string _ _ => .text string

end KeyValue

def joinKey (typelessJoin : Bool) (keyCols : List KeyValue) : JoinKey :=
  if typelessJoin then .typeless (keyCols.map KeyValue.field)
  else .typed (keyCols.head?.elim 0 KeyValue.word)

structure Hasher where
  run : List Byte → BitVec 32 → BitVec 32
  finalize : BitVec 32 → Nat → BitVec 32

namespace Hasher

def column (hasher : Hasher) : BitVec 32 × Nat → KeyField → BitVec 32 × Nat
  | (ret, width), .text bytes => (hasher.run [0] (hasher.run bytes ret), width + (bytes.length + 1))
  | (ret, width), .word w => (hasher.run (LittleEndian.write 8 w.toNat) ret, width + 8)

def getHashOfTypelessKey (hasher : Hasher) (columns : List KeyField) (seed : BitVec 32) :
    BitVec 32 :=
  let (ret, width) := columns.foldl hasher.column (seed, 0)
  hasher.finalize ret width

def hash (hasher : Hasher) (seed : BitVec 32) : JoinKey → BitVec 32
  | .typed w => hasher.finalize (hasher.run (LittleEndian.write 8 w.toNat) seed) 8
  | .typeless columns => hasher.getHashOfTypelessKey columns seed

end Hasher

/-- What the nodes of one tree share. `smallKeyCols` and `largeKeyCols` are the key columns of a
row, `smallNulls` and `largeNulls` are `isNullValue` of them, and `getDataSize` is the size of a
row group in memory. -/
structure Setting (S L : Type) where
  hasher : Hasher
  hashSeed : Path → BitVec 32
  typelessJoin : Bool
  smallKeyCols : S → List KeyValue
  largeKeyCols : L → List KeyValue
  smallNulls : S → List Bool
  largeNulls : L → List Bool
  antiWithMatchNulls : Bool
  needsAllNullRows : Bool
  totalUMMemory : Nat
  htTargetSize : Nat
  getDataSize : List S → Nat

inductive Stop where
  | outOfFuel
  | fault
  | dataDistribution
  | antiNull
  deriving DecidableEq

/-- A node holds one buffer, which takes rows of the small side first and of the large side
later. `reread` is a record of the row groups that a split handed on; their file is gone. -/
inductive Node (S L : Type) where
  | file (small : List S) (smallFile : List (List S)) (htSizeEstimate : Nat)
      (large : List L) (largeFile : List (List L)) (nextPartitionToReturn : Nat)
  | split (reread : List (List S)) (gotNullRow : Bool) (small : List S) (large : List L)
      (buckets : List (Node S L)) (nextPartitionToReturn : Nat)

namespace Node

variable {S L : Type}

def fresh : Node S L := .file [] [] 0 [] [] 0

def small : Node S L → List S
  | .file small .. => small
  | .split _ _ small .. => small

def setSmall (rows : List S) : Node S L → Node S L
  | .file _ smallFile est large largeFile next => .file rows smallFile est large largeFile next
  | .split reread got _ large buckets next => .split reread got rows large buckets next

def large : Node S L → List L
  | .file _ _ _ large .. => large
  | .split _ _ _ large .. => large

def setLarge (rows : List L) : Node S L → Node S L
  | .file small smallFile est _ largeFile next => .file small smallFile est rows largeFile next
  | .split reread got small _ buckets next => .split reread got small rows buckets next

end Node

section Small

variable {S L : Type} (c : Setting S L)

namespace Setting

def smallKey (row : S) : JoinKey := joinKey c.typelessJoin (c.smallKeyCols row)

def largeKey (row : L) : JoinKey := joinKey c.typelessJoin (c.largeKeyCols row)

def hasNullJoinColumn (row : S) : Bool := (c.smallNulls row).any id

/-- The rows of an anti join that are not hashed. -/
def unhashed (row : S) : Bool := c.antiWithMatchNulls && c.hasNullJoinColumn row

def bucketCount (path : Path) : Nat :=
  if path = [] then (c.totalUMMemory * 2 % 2 ^ 64 / c.htTargetSize + 1) % 2 ^ 32 else 2

def bucket (path : Path) (key : JoinKey) : Nat :=
  (c.hasher.hash (c.hashSeed path) key).toNat % c.bucketCount path

end Setting

/-- One call on each bucket, the first of them being bucket `i`. -/
def eachBucket (call : Path → Node S L → Except Stop (Node S L)) (path : Path) :
    Nat → List (Node S L) → Except Stop (List (Node S L))
  | _, [] => .ok []
  | i, b :: rest => do
      let b ← call (path ++ [i]) b
      let rest ← eachBucket call path (i + 1) rest
      return b :: rest

def oneBucket (call : Path → Node S L → Except Stop (Node S L)) (path : Path) (i : Nat)
    (buckets : List (Node S L)) : Except Stop (List (Node S L)) :=
  match buckets[i]? with
  | none => .error .fault
  | some b => do
      let b ← call (path ++ [i]) b
      return buckets.set i b

structure Feed (S L : Type) where
  gotNullRow : Bool
  buckets : List (Node S L)

variable (insert : Path → S → Node S L → Except Stop (Node S L)) (path : Path)

/-- A row of an inner node goes to the bucket of its hash. Of the rows that are not hashed all or
only the first go to every bucket. -/
def distribute (feed : Feed S L) (row : S) : Except Stop (Feed S L) :=
  if c.unhashed row then
    if c.needsAllNullRows || !feed.gotNullRow then do
      let buckets ← eachBucket (fun path => insert path row) path 0 feed.buckets
      return ⟨true, buckets⟩
    else .ok feed
  else do
    let buckets ← oneBucket (fun path => insert path row) path (c.bucket path (c.smallKey row))
      feed.buckets
    return ⟨feed.gotNullRow, buckets⟩

structure RowDist where
  rowDist : List Nat
  rowCount : Nat

def RowDist.add (dist : RowDist) (hash : Nat) : RowDist :=
  ⟨dist.rowDist.modify hash (· + 1), dist.rowCount + 1⟩

/-- The loop over a row group that is read back. The row index `j` also counts the buckets that
an unhashed row is copied to, so behind such a row it goes on from the bucket count. -/
def rereadRows (rows : List S) : Nat → Nat → Feed S L → RowDist → Except Stop (Feed S L × RowDist)
  | 0, _, _, _ => .error .outOfFuel
  | fuel + 1, j, feed, dist =>
    match rows[j]? with
    | none => .ok (feed, dist)
    | some row =>
      if c.unhashed row then
        if c.needsAllNullRows || !feed.gotNullRow then do
          let feed ← distribute c insert path feed row
          rereadRows rows fuel (c.bucketCount path + 1) feed dist
        else rereadRows rows fuel (j + 1) feed dist
      else do
        let feed ← distribute c insert path feed row
        rereadRows rows fuel (j + 1) feed (dist.add (c.bucket path (c.smallKey row)))

def rereadFile (fuel : Nat) : List (List S) → Feed S L → RowDist → Except Stop (Feed S L × RowDist)
  | [], feed, dist => .ok (feed, dist)
  | rows :: rest, feed, dist => do
      let (feed, dist) ← rereadRows c insert path rows fuel 0 feed dist
      rereadFile fuel rest feed dist

def convertToSplitMode (fuel : Nat) (smallFile : List (List S)) (large : List L) :
    Except Stop (Node S L) := do
  let count := c.bucketCount path
  let (feed, dist) ← rereadFile c insert path fuel smallFile
    ⟨false, List.replicate count Node.fresh⟩ ⟨List.replicate count 0, 0⟩
  if dist.rowDist.any (· == dist.rowCount) then .error .dataDistribution
  else return .split smallFile feed.gotNullRow [] large feed.buckets 0

/-- The buffer is empty afterwards. -/
def processSmallBuffer (fuel : Nat) (rows : List S) : Node S L → Except Stop (Node S L)
  | .file _ smallFile htSizeEstimate large largeFile next =>
    let smallFile := smallFile ++ [rows]
    let htSizeEstimate := (htSizeEstimate + c.getDataSize rows + 34 * rows.length) % 2 ^ 64
    if c.htTargetSize < htSizeEstimate then
      convertToSplitMode c insert path fuel smallFile large
    else .ok (.file [] smallFile htSizeEstimate large largeFile next)
  | .split reread gotNullRow _ large buckets next => do
      let feed ← rows.foldlM (distribute c insert path) ⟨gotNullRow, buckets⟩
      return .split reread feed.gotNullRow [] large feed.buckets next

end Small

section Calls

variable {S L : Type} (c : Setting S L)

/-- The fuel bounds the depth of the calls and the number of rows a split reads. -/
def insertSmallSideRow : Nat → Path → S → Node S L → Except Stop (Node S L)
  | 0, _, _, _ => .error .outOfFuel
  | fuel + 1, path, row, node =>
    let rows := node.small ++ [row]
    if rows.length = 8192 then
      processSmallBuffer c (insertSmallSideRow fuel) path fuel rows node
    else .ok (node.setSmall rows)

def insertSmallSideRGData (fuel : Nat) (node : Node S L) (rows : List S) : Except Stop (Node S L) :=
  processSmallBuffer c (insertSmallSideRow c fuel) [] fuel rows node

/-- The root has no buffer of its own. -/
def flushSmall (fuel : Nat) (path : Path) (node : Node S L) : Except Stop (Node S L) :=
  if path = [] then .ok node
  else processSmallBuffer c (insertSmallSideRow c fuel) path fuel node.small node

def doneInsertingSmallData : Nat → Path → Node S L → Except Stop (Node S L)
  | 0, _, _ => .error .outOfFuel
  | fuel + 1, path, node => do
      match ← flushSmall c fuel path node with
      | .file small smallFile est large largeFile next =>
        return .file small smallFile est large largeFile next
      | .split reread got small large buckets next =>
        let buckets ← eachBucket (doneInsertingSmallData fuel) path 0 buckets
        return .split reread got small large buckets next

/-- An anti join that has to compare a NULL key with every row of the small side gives up. -/
def processLargeBuffer (insert : Path → L → Node S L → Except Stop (Node S L)) (path : Path)
    (rows : List L) (node : Node S L) : Except Stop (Node S L) :=
  if c.antiWithMatchNulls && c.needsAllNullRows && rows.any (fun row => (c.largeNulls row).any id)
  then .error .antiNull
  else match node with
    | .file small smallFile est _ largeFile next =>
      .ok (.file small smallFile est [] (largeFile ++ [rows]) next)
    | .split reread got small _ buckets next => do
        let buckets ← rows.foldlM (fun buckets row => oneBucket (fun path => insert path row) path
          (c.bucket path (c.largeKey row)) buckets) buckets
        return .split reread got small [] buckets next

def insertLargeSideRow : Nat → Path → L → Node S L → Except Stop (Node S L)
  | 0, _, _, _ => .error .outOfFuel
  | fuel + 1, path, row, node =>
    let rows := node.large ++ [row]
    if rows.length = 8192 then processLargeBuffer c (insertLargeSideRow fuel) path rows node
    else .ok (node.setLarge rows)

def insertLargeSideRGData (fuel : Nat) (node : Node S L) (rows : List L) : Except Stop (Node S L) :=
  processLargeBuffer c (insertLargeSideRow c fuel) [] rows node

def flushLarge (fuel : Nat) (path : Path) (node : Node S L) : Except Stop (Node S L) :=
  if path = [] then .ok node
  else processLargeBuffer c (insertLargeSideRow c fuel) path node.large node

def doneInsertingLargeData : Nat → Path → Node S L → Except Stop (Node S L)
  | 0, _, _ => .error .outOfFuel
  | fuel + 1, path, node => do
      match ← flushLarge c fuel path node with
      | .file small smallFile est large largeFile next =>
        return .file small smallFile est large largeFile next
      | .split reread got small large buckets next =>
        let buckets ← eachBucket (doneInsertingLargeData fuel) path 0 buckets
        return .split reread got small large buckets next

def root : Node S L := .split [] false [] [] (List.replicate (c.bucketCount []) Node.fresh) 0

/-- The small side is inserted and flushed before the first row of the large side. -/
def run (fuel : Nat) (smallSide : List (List S)) (largeSide : List (List L)) :
    Except Stop (Node S L) := do
  let node ← smallSide.foldlM (insertSmallSideRGData c fuel) (root c)
  let node ← doneInsertingSmallData c fuel [] node
  let node ← largeSide.foldlM (insertLargeSideRGData c fuel) node
  doneInsertingLargeData c fuel [] node

end Calls

section Leaves

variable {S L : Type}

/-- What a leaf gives back: the small side by `getNextPartition`, the large side by
`getNextLargeRGData`. -/
structure Leaf (S L : Type) where
  smallData : List (List S)
  largeData : List (List L)
  deriving DecidableEq

namespace Leaf

def small (leaf : Leaf S L) : List S := leaf.smallData.flatten

def large (leaf : Leaf S L) : List L := leaf.largeData.flatten

end Leaf

mutual

def getNextPartition : Node S L → Option (Leaf S L) × Node S L
  | .file small smallFile est large largeFile next =>
    if 0 < next then (none, .file small smallFile est large largeFile next)
    else (some ⟨smallFile, largeFile⟩, .file small smallFile est large largeFile 1)
  | .split reread got small large buckets next =>
    match nextFrom next buckets with
    | (leaf, buckets, next) => (leaf, .split reread got small large buckets next)

/-- Skips the first buckets and asks the others in turn until one of them has a leaf to return;
the last component is the place of that bucket. -/
def nextFrom : Nat → List (Node S L) → Option (Leaf S L) × List (Node S L) × Nat
  | _, [] => (none, [], 0)
  | k + 1, b :: rest =>
    match nextFrom k rest with
    | (leaf, rest, next) => (leaf, b :: rest, next + 1)
  | 0, b :: rest =>
    match getNextPartition b with
    | (some leaf, b) => (some leaf, b :: rest, 0)
    | (none, b) =>
      match nextFrom 0 rest with
      | (leaf, rest, next) => (leaf, b :: rest, next + 1)

end

/-- The leaves that calls of `getNextPartition` return until one returns false. -/
def partitions : Nat → Node S L → List (Leaf S L)
  | 0, _ => []
  | calls + 1, node =>
    match getNextPartition node with
    | (some leaf, node) => leaf :: partitions calls node
    | (none, _) => []

end Leaves

end JoinPartition
