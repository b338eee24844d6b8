import EryDb.ExtentUpdates

/-!
# Minimum and maximum of an extent

The casual partitioning data of an extent: a range of values, a sequence number
and whether the range may be used. Transactions mark an extent as updating before
they change it; a scan or an import later offers a range for it. Two of the calls
stop as soon as every entry of their argument has met its extent and otherwise
throw at the end of the table, with the entries met so far already changed.
-/

namespace CasualPartitions

open ImageUndo SlotScan BrmTypes ExtentMap ExtentUpdates

def setCPRange (change : CPRange → CPRange) (i : Nat) (s : Map) : Map :=
  modifyExtent i (fun e => { e with cprange := change e.cprange }) s

def markUpdating (colDataType : ColDataType) (r : CPRange) : CPRange :=
  if isUnsigned colDataType then ⟨0, toI64 (2 ^ 64 - 1), incSeqNum r.sequenceNum, .updating⟩
  else ⟨int64Min, int64Max, incSeqNum r.sequenceNum, .updating⟩

/-- The first used extent that holds an LBID. -/
def extentOf (lbid : Int) (s : Map) : Option Nat :=
  firstIndex (fun i => decide ((fExtentMap s i).range.size ≠ 0 ∧
    (fExtentMap s i).range.start ≤ lbid ∧ lbid < (fExtentMap s i).range.blockEnd)) (emEntries s)

def markInvalid (lbid : Int) (colDataType : ColDataType) (s : Map) : Outcome Unit :=
  match extentOf lbid s with
  | some i => (.ok (), setCPRange (markUpdating colDataType) i s)
  | none => (.error .logicError, s)

/-- The vector form swallows the exception of each LBID that is not allocated. -/
def markInvalidAll (lbids : List (Int × ColDataType)) (s : Map) : Map :=
  lbids.foldl (fun s arg => (markInvalid arg.1 arg.2 s).2) s

/-- The new range for a sequence number, or none when it has changed since. -/
def offered (arg : CPMaxMin) (usable : CPState → Bool) (r : CPRange) : Option CPRange :=
  if r.sequenceNum = arg.seqNum ∧ usable r.isValid = true then
    some ⟨arg.max, arg.min, incSeqNum r.sequenceNum, .valid⟩
  else if arg.seqNum = -1 then
    some { r with isValid := .invalid, sequenceNum := incSeqNum r.sequenceNum }
  else none

def setMaxMin (lbid : Int) (arg : CPMaxMin) (s : Map) : Outcome Unit :=
  match extentOf lbid s with
  | none => (.error .logicError, s)
  | some i =>
    match offered arg (fun _ => true) (fExtentMap s i).cprange with
    | some r => (.ok (), setCPRange (fun _ => r) i s)
    | none => (.ok (), s)

/-- `setExtentsMaxMin` asks for a range marked invalid, and resets with given bounds at `-2`. -/
def offeredReset (arg : CPMaxMin) (r : CPRange) : Option CPRange :=
  match offered arg (fun state => decide (state = .invalid)) r with
  | some r => some r
  | none =>
    if arg.seqNum = -2 then some ⟨arg.max, arg.min, incSeqNum r.sequenceNum, .invalid⟩
    else none

structure Progress (Args : Type) where
  map : Map
  args : Args
  matched : Nat
  returned : Bool

def setMaxMinStep (cpMap : List (Int × CPMaxMin)) (i : Nat) (p : Progress Unit) : Progress Unit :=
  if p.returned then p
  else
    let e := fExtentMap p.map i
    match lookupKey e.range.start cpMap with
    | none => p
    | some arg =>
      if e.range.size ≠ 0 then
        let map := match offeredReset arg e.cprange with
          | some r => setCPRange (fun _ => r) i p.map
          | none => p.map
        ⟨map, (), p.matched + 1, decide (p.matched + 1 = cpMap.length)⟩
      else p

def setExtentsMaxMin (cpMap : List (Int × CPMaxMin)) (s : Map) : Outcome Unit :=
  let p := forEach (setMaxMinStep cpMap) (emEntries s) ⟨s, (), 0, false⟩
  (if p.returned then .ok () else .error .logicError, p.map)

def isValidCPRange (max min : Int) (type : ColDataType) : Bool :=
  if isUnsigned type then decide (toU64 min < 2 ^ 64 - 2 ∧ toU64 max < 2 ^ 64 - 2)
  else decide (int64Min + 1 < min ∧ int64Min + 1 < max)

/-- `htonll` on a little-endian machine. -/
def uint64ToStr (n : Nat) : Nat :=
  (List.range 8).foldl (fun acc k => acc * 256 + n / 256 ^ k % 256) 0

/-- The order in which two bounds of a type are compared. -/
def boundBelow (type : ColDataType) (a b : Int) : Bool :=
  if isCharType type then decide (toI64 (uint64ToStr (toU64 a)) < toI64 (uint64ToStr (toU64 b)))
  else if isUnsigned type then decide (toU64 a < toU64 b)
  else decide (a < b)

def mergedRange (arg : CPMaxMinMerge) (r : CPRange) : Option CPRange :=
  let next := incSeqNum r.sequenceNum
  let offeredValid := isValidCPRange arg.max arg.min arg.type
  match r.isValid with
  | .valid =>
    if offeredValid then
      if isValidCPRange r.hiVal r.loVal arg.type then
        some { r with
          loVal := if boundBelow arg.type arg.min r.loVal then arg.min else r.loVal
          hiVal := if boundBelow arg.type r.hiVal arg.max then arg.max else r.hiVal
          sequenceNum := next }
      else some { r with loVal := arg.min, hiVal := arg.max, sequenceNum := next }
    else none
  | .updating => some { r with sequenceNum := next }
  | .invalid =>
    if arg.newExtent then
      if offeredValid then some ⟨arg.max, arg.min, next, .valid⟩
      else some { r with isValid := .valid, sequenceNum := next }
    else some { r with sequenceNum := next }

def mergeStep (extentsToMerge : Nat) (i : Nat) (p : Progress (List (Int × CPMaxMinMerge))) :
    Progress (List (Int × CPMaxMinMerge)) :=
  if p.returned then p
  else
    let e := fExtentMap p.map i
    match lookupKey e.range.start p.args with
    | none => p
    | some arg =>
      if e.range.size ≠ 0 then
        let map := match mergedRange arg e.cprange with
          | some r => setCPRange (fun _ => r) i p.map
          | none => p.map
        if p.matched + 1 = extentsToMerge then ⟨map, p.args, p.matched + 1, true⟩
        else
          ⟨map, p.args.filter (fun entry => decide (entry.1 ≠ e.range.start)), p.matched + 1, false⟩
      else p

def mergeExtentsMaxMin (cpMap : List (Int × CPMaxMinMerge)) (s : Map) : Outcome Unit :=
  let p := forEach (mergeStep cpMap.length) (emEntries s) ⟨s, cpMap, 0, false⟩
  (if p.returned then .ok () else .error .logicError, p.map)

end CasualPartitions
