import EryDb.BrmTypes
import EryDb.ByteStream
import Mathlib.Data.Fin.VecNotation
import Mathlib.Tactic.FinCases

/-!
# The messages of the extent calls

The client writes the arguments of a call into a byte stream, behind one byte for the
command; the slave takes the command off, reads the arguments with a handler of its own
and calls the slave node with what it read. The two sides are written separately, field
by field, with the widths of the local variables they happen to use. Replies are left
out, and so is the reading of the slave's print-only mode.

An argument of the slave node is what the handler hands on: the vector of
`deleteEmptyColExtents` arrives as a map from object identifiers to entries.
-/

namespace DbrmMessages

open Option List MessageQueue LittleEndian
open BrmTypes (ColDataType)

def enumerators : List ColDataType :=
  [.bit, .tinyint, .char, .smallint, .decimal, .medint, .int, .float, .date, .bigint, .double,
    .datetime, .varchar, .varbinary, .clob, .blob, .utinyint, .usmallint, .udecimal, .umedint,
    .uint, .ufloat, .ubigint, .udouble, .numOfColDataType, .longdouble, .strint]

def code (colDataType : ColDataType) : Nat := enumerators.idxOf colDataType

/-- A number without an enumerator is no column type. -/
def ofCode (n : Nat) : Option ColDataType := enumerators[n]?

variable (d : DBRoots) (arg : CreateStripeColumnExtentsArgIn) (info : ExtentInfo) (oid : Int32)
    (colWidth : UInt32) (dbRoot : DBRoots) (partitionNum : UInt32) (segmentNum : UInt16)
    (colDataType : ColDataType)

lemma ofCode_code : ofCode (code colDataType) = some colDataType := by
  cases colDataType <;> rfl

lemma code_lt : code colDataType < 256 := by
  cases colDataType <;> decide

/-- The union `DBROOTS_struct` with its four replica DBRoots. -/
structure DBRoots where
  dbRoots : Fin 4 → UInt16
  deriving DecidableEq

def DBRoots.serialize (d : DBRoots) : Put Unit := do
  putU16 (d.dbRoots 0)
  putU16 (d.dbRoots 1)
  putU16 (d.dbRoots 2)
  putU16 (d.dbRoots 3)

def DBRoots.deserialize : Get DBRoots := do
  let r0 ← getU16
  let r1 ← getU16
  let r2 ← getU16
  let r3 ← getU16
  pure ⟨![r0, r1, r2, r3]⟩

structure CreateStripeColumnExtentsArgIn where
  oid : Int32
  width : UInt32
  colDataType : ColDataType
  deriving DecidableEq

/-- The record in memory: three words of four bytes, without padding. -/
def CreateStripeColumnExtentsArgIn.image (arg : CreateStripeColumnExtentsArgIn) : List Byte :=
  write 4 arg.oid.toUInt32.toNat ++ (write 4 arg.width.toNat ++ write 4 (code arg.colDataType))

def getArgIn : Get CreateStripeColumnExtentsArgIn := do
  let oid ← getU32
  let width ← getU32
  let colDataType ← getNat 4
  let colDataType ← StateT.lift (ofCode colDataType)
  pure ⟨oid.toInt32, width, colDataType⟩

structure ExtentInfo where
  oid : Int32
  partitionNum : UInt32
  segmentNum : UInt16
  dbRoot : DBRoots
  hwm : UInt32
  newFile : Bool
  deriving DecidableEq

/-- A call of the client with the arguments it is given. -/
inductive Request where
  | createStripeColumnExtents (cols : List CreateStripeColumnExtentsArgIn) (dbRoot : DBRoots)
      (partitionNum : UInt32)
  | createColumnExtentDBroot (oid : Int32) (colWidth : UInt32) (dbRoot : DBRoots)
      (partitionNum : UInt32) (segmentNum : UInt16) (colDataType : ColDataType)
  | createColumnExtentExactFile (oid : Int32) (colWidth : UInt32) (dbRoot : DBRoots)
      (partitionNum : UInt32) (segmentNum : UInt16) (colDataType : ColDataType)
  | createDictStoreExtent (oid : Int32) (dbRoot : DBRoots) (partitionNum : UInt32)
      (segmentNum : UInt16)
  | rollbackColumnExtentsDBroot (oid : Int32) (bDeleteAll : Bool) (dbRoot : DBRoots)
      (partitionNum : UInt32) (segmentNum : UInt16) (hwm : UInt32)
  | rollbackDictStoreExtentsDBroot (oid : Int32) (dbRoot : DBRoots) (partitionNum : UInt32)
      (segNums : List UInt16) (hwms : List UInt32)
  | deleteEmptyColExtents (extentsInfo : List ExtentInfo)

/-- A call of the slave node with the arguments the handler decoded. -/
inductive SlaveCall where
  | createStripeColumnExtents (cols : List CreateStripeColumnExtentsArgIn) (dbRoot : DBRoots)
      (partitionNum : UInt32)
  | createColumnExtentDBroot (oid : Int32) (colWidth : UInt32) (dbRoot : DBRoots)
      (partitionNum : UInt32) (segmentNum : UInt16) (colDataType : ColDataType)
  | createColumnExtentExactFile (oid : Int32) (colWidth : UInt32) (dbRoot : DBRoots)
      (partitionNum : UInt32) (segmentNum : UInt16) (colDataType : ColDataType)
  | createDictStoreExtent (oid : Int32) (dbRoot : DBRoots) (partitionNum : UInt32)
      (segmentNum : UInt16)
  | rollbackColumnExtentsDBroot (oid : Int32) (bDeleteAll : Bool) (dbRoot : DBRoots)
      (partitionNum : UInt32) (segmentNum : UInt16) (hwm : UInt32)
  | rollbackDictStoreExtentsDBroot (oid : Int32) (dbRoot : DBRoots) (partitionNum : UInt32)
      (segNums : List UInt16) (hwms : List UInt32)
  | deleteEmptyColExtents (extentsInfoMap : Int32 → Option ExtentInfo)

def Command.deleteEmptyColExtents : UInt8 := 24
def Command.createDictStoreExtent : UInt8 := 28
def Command.createColumnExtentDBroot : UInt8 := 36
def Command.rollbackColumnExtentsDBroot : UInt8 := 38
def Command.rollbackDictStoreExtentsDBroot : UInt8 := 39
def Command.createColumnExtentExactFile : UInt8 := 42
def Command.createStripeColumnExtents : UInt8 := 44

/-! ## The client -/

namespace DBRM

def createStripeColumnExtents (cols : List CreateStripeColumnExtentsArgIn) (dbRoot : DBRoots)
    (partitionNum : UInt32) : Put Unit := do
  putByte Command.createStripeColumnExtents
  serializeInlineVector CreateStripeColumnExtentsArgIn.image cols
  dbRoot.serialize
  putU32 partitionNum

/-- The column type goes through a local variable of 32 bits. -/
def createColumnExtentDBroot (oid : Int32) (colWidth : UInt32) (dbRoot : DBRoots)
    (partitionNum : UInt32) (segmentNum : UInt16) (colDataType : ColDataType) : Put Unit := do
  putByte Command.createColumnExtentDBroot
  putU32 oid.toUInt32
  putU32 colWidth
  dbRoot.serialize
  putU32 partitionNum
  putU16 segmentNum
  putU32 (UInt8.ofNat (code colDataType)).toUInt32

def createColumnExtentExactFile (oid : Int32) (colWidth : UInt32) (dbRoot : DBRoots)
    (partitionNum : UInt32) (segmentNum : UInt16) (colDataType : ColDataType) : Put Unit := do
  putByte Command.createColumnExtentExactFile
  putU32 oid.toUInt32
  putU32 colWidth
  dbRoot.serialize
  putU32 partitionNum
  putU16 segmentNum
  putByte (UInt8.ofNat (code colDataType))

def createDictStoreExtent (oid : Int32) (dbRoot : DBRoots) (partitionNum : UInt32)
    (segmentNum : UInt16) : Put Unit := do
  putByte Command.createDictStoreExtent
  putU32 oid.toUInt32
  dbRoot.serialize
  putU32 partitionNum
  putU16 segmentNum

def rollbackColumnExtentsDBroot (oid : Int32) (bDeleteAll : Bool) (dbRoot : DBRoots)
    (partitionNum : UInt32) (segmentNum : UInt16) (hwm : UInt32) : Put Unit := do
  putByte Command.rollbackColumnExtentsDBroot
  putU32 oid.toUInt32
  putByte bDeleteAll.toUInt8
  dbRoot.serialize
  putU32 partitionNum
  putU16 segmentNum
  putU32 hwm

def rollbackDictStoreExtentsDBroot (oid : Int32) (dbRoot : DBRoots) (partitionNum : UInt32)
    (segNums : List UInt16) (hwms : List UInt32) : Put Unit := do
  putByte Command.rollbackDictStoreExtentsDBroot
  putU32 oid.toUInt32
  dbRoot.serialize
  putU32 partitionNum
  serializeVector putU16 segNums
  serializeVector putU32 hwms

def putExtentInfo (info : ExtentInfo) : Put Unit := do
  putU32 info.oid.toUInt32
  putU32 info.partitionNum
  putU16 info.segmentNum
  info.dbRoot.serialize
  putU32 info.hwm

def deleteEmptyColExtents (extentsInfo : List ExtentInfo) : Put Unit := do
  putByte Command.deleteEmptyColExtents
  putU32 (UInt32.ofNat extentsInfo.length)
  extentsInfo.forM putExtentInfo

def command : Request → Put Unit
  | .createStripeColumnExtents cols dbRoot partitionNum =>
    createStripeColumnExtents cols dbRoot partitionNum
  | .createColumnExtentDBroot oid colWidth dbRoot partitionNum segmentNum colDataType =>
    createColumnExtentDBroot oid colWidth dbRoot partitionNum segmentNum colDataType
  | .createColumnExtentExactFile oid colWidth dbRoot partitionNum segmentNum colDataType =>
    createColumnExtentExactFile oid colWidth dbRoot partitionNum segmentNum colDataType
  | .createDictStoreExtent oid dbRoot partitionNum segmentNum =>
    createDictStoreExtent oid dbRoot partitionNum segmentNum
  | .rollbackColumnExtentsDBroot oid bDeleteAll dbRoot partitionNum segmentNum hwm =>
    rollbackColumnExtentsDBroot oid bDeleteAll dbRoot partitionNum segmentNum hwm
  | .rollbackDictStoreExtentsDBroot oid dbRoot partitionNum segNums hwms =>
    rollbackDictStoreExtentsDBroot oid dbRoot partitionNum segNums hwms
  | .deleteEmptyColExtents extentsInfo => deleteEmptyColExtents extentsInfo

end DBRM

/-! ## The slave -/

namespace SlaveComm

/-- The partition number is read into a local variable `tmp32` of 16 bits. -/
def doCreateStripeColumnExtents : Get SlaveCall := do
  let cols ← deserializeInlineVector 12 getArgIn
  let dbRoot ← DBRoots.deserialize
  let tmp32 ← getU16
  pure (.createStripeColumnExtents cols dbRoot tmp32.toUInt32)

def getColDataType : Get ColDataType := do
  let tmp8 ← getByte
  StateT.lift (ofCode tmp8.toNat)

def doCreateColumnExtentDBroot : Get SlaveCall := do
  let oid ← getU32
  let colWidth ← getU32
  let dbRoot ← DBRoots.deserialize
  let partitionNum ← getU32
  let segmentNum ← getU16
  let colDataType ← getColDataType
  pure (.createColumnExtentDBroot oid.toInt32 colWidth dbRoot partitionNum segmentNum colDataType)

def doCreateColumnExtentExactFile : Get SlaveCall := do
  let oid ← getU32
  let colWidth ← getU32
  let dbRoot ← DBRoots.deserialize
  let partitionNum ← getU32
  let segmentNum ← getU16
  let colDataType ← getColDataType
  pure (.createColumnExtentExactFile oid.toInt32 colWidth dbRoot partitionNum segmentNum
    colDataType)

def doCreateDictStoreExtent : Get SlaveCall := do
  let oid ← getU32
  let dbRoot ← DBRoots.deserialize
  let partitionNum ← getU32
  let segmentNum ← getU16
  pure (.createDictStoreExtent oid.toInt32 dbRoot partitionNum segmentNum)

def doRollbackColumnExtentsDBroot : Get SlaveCall := do
  let oid ← getU32
  let bDeleteAll ← getByte
  let dbRoot ← DBRoots.deserialize
  let partitionNum ← getU32
  let segmentNum ← getU16
  let hwm ← getU32
  pure (.rollbackColumnExtentsDBroot oid.toInt32 (bDeleteAll ≠ 0) dbRoot partitionNum segmentNum
    hwm)

def doRollbackDictStoreExtentsDBroot : Get SlaveCall := do
  let oid ← getU32
  let dbRoot ← DBRoots.deserialize
  let partitionNum ← getU32
  let segNums ← deserializeVector getU16
  let hwms ← deserializeVector getU32
  pure (.rollbackDictStoreExtentsDBroot oid.toInt32 dbRoot partitionNum segNums hwms)

/-- An entry that `operator[]` adds to the map is filled with zeros; nothing sets its
`newFile`. -/
def getExtentInfo : Get ExtentInfo := do
  let oid ← getU32
  let partitionNum ← getU32
  let segmentNum ← getU16
  let dbRoot ← DBRoots.deserialize
  let hwm ← getU32
  pure ⟨oid.toInt32, partitionNum, segmentNum, dbRoot, hwm, false⟩

def fillMap : Nat → (Int32 → Option ExtentInfo) → Get (Int32 → Option ExtentInfo)
  | 0, extentsInfoMap => pure extentsInfoMap
  | n + 1, extentsInfoMap => do
      let info ← getExtentInfo
      fillMap n (Function.update extentsInfoMap info.oid (some info))

def doDeleteEmptyColExtents : Get SlaveCall := do
  let size ← getU32
  let extentsInfoMap ← fillMap size.toNat fun _ => none
  pure (.deleteEmptyColExtents extentsInfoMap)

def handler (cmd : UInt8) : Option (Get SlaveCall) :=
  if cmd = Command.createStripeColumnExtents then some doCreateStripeColumnExtents
  else if cmd = Command.createColumnExtentDBroot then some doCreateColumnExtentDBroot
  else if cmd = Command.createColumnExtentExactFile then some doCreateColumnExtentExactFile
  else if cmd = Command.createDictStoreExtent then some doCreateDictStoreExtent
  else if cmd = Command.rollbackColumnExtentsDBroot then some doRollbackColumnExtentsDBroot
  else if cmd = Command.rollbackDictStoreExtentsDBroot then some doRollbackDictStoreExtentsDBroot
  else if cmd = Command.deleteEmptyColExtents then some doDeleteEmptyColExtents
  else none

/-- What the slave node is called with; bytes a handler leaves over are dropped. -/
def processCommand (msg : List Byte) : Option SlaveCall := do
  let (cmd, msg) ← getByte msg
  let get ← handler cmd
  let (call, _) ← get msg
  some call

end SlaveComm

/-- The call that reaches the slave node for a request of the client. -/
def carried (request : Request) : Option SlaveCall := do
  let (_, command) ← DBRM.command request ByteStream.empty
  SlaveComm.processCommand command.bytes

/-! ## What the fields look like in the message -/

def DBRoots.data (d : DBRoots) : List Byte :=
  write 2 (d.dbRoots 0).toNat ++ (write 2 (d.dbRoots 1).toNat ++
    (write 2 (d.dbRoots 2).toNat ++ write 2 (d.dbRoots 3).toNat))

@[simp] lemma DBRoots.length_data : d.data.length = 8 := by
  simp [DBRoots.data]

lemma DBRoots.emits : Emits d.serialize d.data :=
  (emits_putU16 _).bind ((emits_putU16 _).bind ((emits_putU16 _).bind (emits_putU16 _)))

lemma DBRoots.reads : Reads DBRoots.deserialize d.data d := by
  have hwh : (⟨![d.dbRoots 0, d.dbRoots 1, d.dbRoots 2, d.dbRoots 3]⟩ : DBRoots) = d := by
    refine congrArg DBRoots.mk (funext fun i => ?_)
    fin_cases i <;> rfl
  have ran := (reads_getU16 (d.dbRoots 3)).last fun r3 =>
    (⟨![d.dbRoots 0, d.dbRoots 1, d.dbRoots 2, r3]⟩ : DBRoots)
  rw [hwh] at ran
  exact (reads_getU16 _).bind ((reads_getU16 _).bind ((reads_getU16 _).bind ran))

lemma toNat_code (t : ColDataType) : (UInt8.ofNat (code t)).toNat = code t := by
  rw [UInt8.toNat_ofNat']
  exact Nat.mod_eq_of_lt (code_lt t)

lemma reads_lift {α : Type} {o : Option α} {a : α} (is : o = some a) :
    Reads (StateT.lift o) [] a := by
  intro rest
  rw [is]
  rfl

lemma CreateStripeColumnExtentsArgIn.length_image : arg.image.length = 12 := by
  simp [CreateStripeColumnExtentsArgIn.image]

lemma CreateStripeColumnExtentsArgIn.reads : Reads getArgIn arg.image arg := by
  have typed := (reads_lift (ofCode_code arg.colDataType)).last fun t =>
    (⟨arg.oid.toUInt32.toInt32, arg.width, t⟩ : CreateStripeColumnExtentsArgIn)
  have coded := (reads_getNat (k := 4) (Nat.lt_trans (code_lt arg.colDataType) (by decide))).bind
    (f := fun n => StateT.lift (ofCode n) >>= fun t =>
      pure (⟨arg.oid.toUInt32.toInt32, arg.width, t⟩ : CreateStripeColumnExtentsArgIn)) typed
  rw [append_nil] at coded
  exact (reads_getU32 _).bind ((reads_getU32 _).bind coded)

lemma takes_lift {α : Type} (o : Option α) : Takes (StateT.lift o : Get α) 0 := by
  intro msg a rest ran
  cases o with
  | none => cases ran
  | some x =>
    cases ran
    rfl

lemma takes_getArgIn : Takes getArgIn 12 :=
  ((takes_getNat 4).map _).bind fun _ => ((takes_getNat 4).map _).bind fun _ =>
    (takes_getNat 4).bind fun _ => (takes_lift _).bind fun _ => takes_pure _

lemma reads_getColDataType (t : ColDataType) :
    Reads SlaveComm.getColDataType (write 1 (UInt8.ofNat (code t)).toNat) t := by
  have coded := (reads_getByte (UInt8.ofNat (code t))).bind
    (f := fun n => StateT.lift (ofCode n.toNat))
      (reads_lift (by rw [toNat_code]; exact ofCode_code t))
  rwa [append_nil] at coded

def ExtentInfo.data (info : ExtentInfo) : List Byte :=
  write 4 info.oid.toUInt32.toNat ++ (write 4 info.partitionNum.toNat ++
    (write 2 info.segmentNum.toNat ++ (info.dbRoot.data ++ write 4 info.hwm.toNat)))

lemma ExtentInfo.length_data : info.data.length = 22 := by
  simp [ExtentInfo.data]

lemma ExtentInfo.emits : Emits (DBRM.putExtentInfo info) info.data :=
  (emits_putU32 _).bind ((emits_putU32 _).bind ((emits_putU16 _).bind
    (info.dbRoot.emits.bind (emits_putU32 _))))

/-- The entry as the slave sees it. -/
def ExtentInfo.arrived (info : ExtentInfo) : ExtentInfo := { info with newFile := false }

lemma ExtentInfo.reads : Reads SlaveComm.getExtentInfo info.data info.arrived := by
  have last := (reads_getU32 info.hwm).last fun hwm =>
    (⟨info.oid.toUInt32.toInt32, info.partitionNum, info.segmentNum, info.dbRoot, hwm, false⟩ :
      ExtentInfo)
  exact (reads_getU32 _).bind ((reads_getU32 _).bind ((reads_getU16 _).bind
    (info.dbRoot.reads.bind last)))

/-! ## Messages that arrive -/

lemma processCommand_eq {cmd : UInt8} {get : Get SlaveCall}
    (handles : SlaveComm.handler cmd = some get) (msg : List Byte) :
    SlaveComm.processCommand (write 1 cmd.toNat ++ msg) = (get msg).map Prod.fst := by
  have command := reads_getByte cmd msg
  simp only [SlaveComm.processCommand, command, handles, bind_eq_bind, bind_some]
  cases get msg <;> rfl

lemma carried_of_reads {request : Request} {cmd : UInt8} {get : Get SlaveCall} {call : SlaveCall}
    {body data : List Byte} (rest : List Byte) (handles : SlaveComm.handler cmd = some get)
    (emits : Emits (DBRM.command request) (write 1 cmd.toNat ++ data)) (reads : Reads get body call)
    (laid : data = body ++ rest) (fits : 1 + data.length ≤ ByteStream.capacity) :
    carried request = some call := by
  obtain ⟨s, sent, bytes⟩ := emits.fits ByteStream.empty (by
    simpa only [ByteStream.empty, length_append, length_write, length_nil, Nat.zero_add] using fits)
  have bytes : s.bytes = write 1 cmd.toNat ++ (body ++ rest) := by rw [bytes, laid]; rfl
  simp only [carried, sent, bytes, processCommand_eq handles, reads rest, bind_eq_bind,
    bind_some, map_some]

lemma not_carried {request : Request} {data : List Byte} (emits : Emits (DBRM.command request) data)
    (full : ByteStream.capacity < data.length) : carried request = none := by
  have stopped := emits.full ByteStream.empty (by simpa [ByteStream.empty] using full)
  rw [carried, stopped]
  rfl

lemma write_low (n : UInt8) :
    write 4 n.toUInt32.toNat = write 1 n.toNat ++ write 3 (n.toNat / 256) := by
  rw [UInt8.toNat_toUInt32]
  rfl

/-- The three upper bytes of the column type stay behind. -/
lemma carried_createColumnExtentDBroot :
    carried (.createColumnExtentDBroot oid colWidth dbRoot partitionNum segmentNum colDataType) =
      some (.createColumnExtentDBroot oid colWidth dbRoot partitionNum segmentNum colDataType) := by
  have typed := reads_getColDataType colDataType
  have reads : Reads SlaveComm.doCreateColumnExtentDBroot _
      (.createColumnExtentDBroot oid colWidth dbRoot partitionNum segmentNum colDataType) :=
    (reads_getU32 oid.toUInt32).bind ((reads_getU32 colWidth).bind (dbRoot.reads.bind
      ((reads_getU32 partitionNum).bind ((reads_getU16 segmentNum).bind (typed.last _)))))
  refine carried_of_reads (write 3 ((UInt8.ofNat (code colDataType)).toNat / 256)) rfl
    ((emits_putByte Command.createColumnExtentDBroot).bind
      ((emits_putU32 _).bind ((emits_putU32 _).bind
      (dbRoot.emits.bind ((emits_putU32 _).bind ((emits_putU16 _).bind (emits_putU32 _)))))))
    reads ?_ ?_
  · simp only [write_low, append_assoc]
  · simp only [length_append, length_write, DBRoots.length_data]
    decide

lemma carried_createColumnExtentExactFile :
    carried (.createColumnExtentExactFile oid colWidth dbRoot partitionNum segmentNum colDataType) =
      some (.createColumnExtentExactFile oid colWidth dbRoot partitionNum segmentNum
        colDataType) := by
  have typed := reads_getColDataType colDataType
  have reads : Reads SlaveComm.doCreateColumnExtentExactFile _
      (.createColumnExtentExactFile oid colWidth dbRoot partitionNum segmentNum colDataType) :=
    (reads_getU32 oid.toUInt32).bind ((reads_getU32 colWidth).bind (dbRoot.reads.bind
      ((reads_getU32 partitionNum).bind ((reads_getU16 segmentNum).bind (typed.last _)))))
  refine carried_of_reads [] rfl
    ((emits_putByte Command.createColumnExtentExactFile).bind ((emits_putU32 _).bind
      ((emits_putU32 _).bind (dbRoot.emits.bind ((emits_putU32 _).bind ((emits_putU16 _).bind
        (emits_putByte _)))))))
    reads (append_nil _).symm ?_
  simp only [length_append, length_write, DBRoots.length_data]
  decide

lemma carried_createDictStoreExtent :
    carried (.createDictStoreExtent oid dbRoot partitionNum segmentNum) =
      some (.createDictStoreExtent oid dbRoot partitionNum segmentNum) := by
  have reads : Reads SlaveComm.doCreateDictStoreExtent _
      (.createDictStoreExtent oid dbRoot partitionNum segmentNum) :=
    (reads_getU32 oid.toUInt32).bind (dbRoot.reads.bind ((reads_getU32 partitionNum).bind
      ((reads_getU16 segmentNum).last _)))
  refine carried_of_reads [] rfl
    ((emits_putByte Command.createDictStoreExtent).bind ((emits_putU32 _).bind (dbRoot.emits.bind
      ((emits_putU32 _).bind (emits_putU16 _)))))
    reads (append_nil _).symm ?_
  simp only [length_append, length_write, DBRoots.length_data]
  decide

lemma carried_rollbackColumnExtentsDBroot (bDeleteAll : Bool) (dbRoot : DBRoots)
    (partitionNum : UInt32) (segmentNum : UInt16) (hwm : UInt32) :
    carried (.rollbackColumnExtentsDBroot oid bDeleteAll dbRoot partitionNum segmentNum hwm) =
      some (.rollbackColumnExtentsDBroot oid bDeleteAll dbRoot partitionNum segmentNum hwm) := by
  have flag : decide (bDeleteAll.toUInt8 ≠ 0) = bDeleteAll := by cases bDeleteAll <;> rfl
  have last := (reads_getU32 hwm).last fun hwm =>
    SlaveCall.rollbackColumnExtentsDBroot oid (decide (bDeleteAll.toUInt8 ≠ 0)) dbRoot partitionNum
      segmentNum hwm
  have reads : Reads SlaveComm.doRollbackColumnExtentsDBroot _
      (.rollbackColumnExtentsDBroot oid (decide (bDeleteAll.toUInt8 ≠ 0)) dbRoot partitionNum
        segmentNum hwm) :=
    (reads_getU32 oid.toUInt32).bind ((reads_getByte bDeleteAll.toUInt8).bind (dbRoot.reads.bind
      ((reads_getU32 partitionNum).bind ((reads_getU16 segmentNum).bind last))))
  rw [flag] at reads
  refine carried_of_reads [] rfl
    ((emits_putByte Command.rollbackColumnExtentsDBroot).bind ((emits_putU32 _).bind
      ((emits_putByte _).bind (dbRoot.emits.bind ((emits_putU32 _).bind ((emits_putU16 _).bind
        (emits_putU32 _)))))))
    reads (append_nil _).symm ?_
  simp only [length_append, length_write, DBRoots.length_data]
  decide

/-! ## Vectors of numbers -/

lemma carried_rollbackDictStoreExtentsDBroot (segNums : List UInt16) (hwms : List UInt32) :
    carried (.rollbackDictStoreExtentsDBroot oid dbRoot partitionNum segNums hwms) =
      if 33 + 2 * segNums.length + 4 * hwms.length ≤ ByteStream.capacity then
        some (.rollbackDictStoreExtentsDBroot oid dbRoot partitionNum segNums hwms)
      else none := by
  have emits := (emits_putByte Command.rollbackDictStoreExtentsDBroot).bind
    ((emits_putU32 oid.toUInt32).bind (dbRoot.emits.bind ((emits_putU32 partitionNum).bind
      ((emits_serializeVector emits_putU16 segNums).bind
        (emits_serializeVector emits_putU32 hwms)))))
  have segs := length_flatMap_const (fun n : UInt16 => length_write 2 n.toNat) segNums
  have marks := length_flatMap_const (fun n : UInt32 => length_write 4 n.toNat) hwms
  split_ifs with fits
  · have bound : ByteStream.capacity < 2 ^ 32 := by decide
    have reads : Reads SlaveComm.doRollbackDictStoreExtentsDBroot _
        (.rollbackDictStoreExtentsDBroot oid dbRoot partitionNum segNums hwms) :=
      (reads_getU32 oid.toUInt32).bind (dbRoot.reads.bind ((reads_getU32 partitionNum).bind
        ((reads_deserializeVector reads_getU16 (fun _ => cons_ne_nil _ _) (by omega)).bind
          ((reads_deserializeVector reads_getU32 (fun _ => cons_ne_nil _ _) (by omega)).last _))))
    refine carried_of_reads [] rfl emits reads (append_nil _).symm ?_
    simp only [length_append, length_write, DBRoots.length_data, segs, marks]
    omega
  · refine not_carried emits ?_
    simp only [length_append, length_write, DBRoots.length_data, segs, marks]
    omega

/-! ## The map of entries -/

def fill (extentsInfoMap : Int32 → Option ExtentInfo) (info : ExtentInfo) :
    Int32 → Option ExtentInfo :=
  Function.update extentsInfoMap info.oid (some info.arrived)

def arrivedMap (extentsInfo : List ExtentInfo) : Int32 → Option ExtentInfo :=
  extentsInfo.foldl fill fun _ => none

lemma reads_fillMap (v : List ExtentInfo) (m : Int32 → Option ExtentInfo) :
    Reads (SlaveComm.fillMap v.length m) (v.flatMap ExtentInfo.data) (v.foldl fill m) := by
  induction v generalizing m with
  | nil => exact reads_pure m
  | cons info v ih => exact info.reads.bind (ih (fill m info))

lemma carried_deleteEmptyColExtents (v : List ExtentInfo) : carried (.deleteEmptyColExtents v) =
      if 5 + 22 * v.length ≤ ByteStream.capacity then some (.deleteEmptyColExtents (arrivedMap v))
      else none := by
  have emits := (emits_putByte Command.deleteEmptyColExtents).bind
    ((emits_putU32 (UInt32.ofNat v.length)).bind (emits_forM ExtentInfo.emits v))
  have infos := length_flatMap_const ExtentInfo.length_data v
  split_ifs with fits
  · have size : (UInt32.ofNat v.length).toNat = v.length := by
      have bound : ByteStream.capacity < 2 ^ 32 := by decide
      rw [UInt32.toNat_ofNat']
      exact Nat.mod_eq_of_lt (by omega)
    have hfil := reads_fillMap v fun _ => none
    rw [← size] at hfil
    have reads : Reads SlaveComm.doDeleteEmptyColExtents _
        (.deleteEmptyColExtents (arrivedMap v)) :=
      (reads_getU32 (UInt32.ofNat v.length)).bind (hfil.last _)
    refine carried_of_reads [] rfl emits reads (append_nil _).symm ?_
    simp only [length_append, length_write, infos]
    omega
  · refine not_carried emits ?_
    simp only [length_append, length_write, infos]
    omega

lemma arrivedMap_concat (v : List ExtentInfo) (last : ExtentInfo) :
    arrivedMap (v ++ [last]) = fill (arrivedMap v) last := by
  rw [arrivedMap, foldl_append]
  rfl

variable {v : List ExtentInfo}

lemma mem_of_arrivedMap {oid : Int32} {info : ExtentInfo} (hf : arrivedMap v oid = some info) :
    ∃ e ∈ v, e.oid = oid ∧ e.arrived = info := by
  induction v using List.reverseRecOn with
  | nil => cases hf
  | append_singleton v last ih =>
    rw [arrivedMap_concat, fill, Function.update_apply] at hf
    split_ifs at hf with is
    · exact ⟨last, mem_append_right v (mem_singleton.mpr rfl), is.symm, Option.some.inj hf⟩
    · obtain ⟨e, mem, rest⟩ := ih hf
      exact ⟨e, mem_append_left _ mem, rest⟩

lemma arrivedMap_of_mem {e : ExtentInfo} (mem : e ∈ v) :
    ∃ info, arrivedMap v e.oid = some info := by
  induction v using List.reverseRecOn with
  | nil => cases mem
  | append_singleton v last ih =>
    rw [arrivedMap_concat, fill, Function.update_apply]
    split_ifs with is
    · exact ⟨_, rfl⟩
    · rcases mem_append.mp mem with old | new
      · exact ih old
      · exact absurd (congrArg ExtentInfo.oid (mem_singleton.mp new)) is

/-- Every entry of the vector stands in the map under its object, and nothing else does. -/
def HoldsEntries (extentsInfoMap : Int32 → Option ExtentInfo)
    (extentsInfo : List ExtentInfo) : Prop :=
  ∀ oid info, extentsInfoMap oid = some info ↔ info ∈ extentsInfo ∧ info.oid = oid

lemma holdsEntries_arrivedMap : HoldsEntries (arrivedMap v) v ↔
      (∀ e ∈ v, e.newFile = false) ∧ ∀ e ∈ v, ∀ e' ∈ v, e.oid = e'.oid → e = e' := by
  constructor
  · intro hd
    refine ⟨fun e mem => ?_, fun e mem e' mem' he => ?_⟩
    · obtain ⟨source, -, -, rfl⟩ := mem_of_arrivedMap ((hd e.oid e).mpr ⟨mem, rfl⟩)
      rfl
    · have one := (hd e.oid e).mpr ⟨mem, rfl⟩
      have ho := (hd e.oid e').mpr ⟨mem', he.symm⟩
      exact Option.some.inj (one.symm.trans ho)
  · rintro ⟨old, single⟩ oid info
    have har : ∀ e ∈ v, e.arrived = e := by
      intro e mem
      have := old e mem
      cases e
      rw [ExtentInfo.arrived, ← this]
    constructor
    · intro hf
      obtain ⟨e, mem, rfl, rfl⟩ := mem_of_arrivedMap hf
      rw [har e mem]
      exact ⟨mem, rfl⟩
    · rintro ⟨mem, rfl⟩
      obtain ⟨info', hf⟩ := arrivedMap_of_mem mem
      obtain ⟨e, mem', he, rfl⟩ := mem_of_arrivedMap hf
      rw [hf, har e mem', single e mem' info mem he]

/-! ## The inline vector -/

lemma write_halves (n : UInt32) :
    write 4 n.toNat = write 2 n.toUInt16.toNat ++ write 2 (n.toNat / 65536) := by
  rw [UInt32.toNat_toUInt16]
  simp only [write, cons_append, nil_append, List.cons.injEq, Fin.mk.injEq, and_true]
  omega

variable {cols : List CreateStripeColumnExtentsArgIn}

lemma stripe_sent (fits : 21 + 12 * cols.length ≤ ByteStream.capacity) :
    ∃ s, DBRM.createStripeColumnExtents cols dbRoot partitionNum ByteStream.empty = some ((), s) ∧
      s.bytes = write 1 Command.createStripeColumnExtents.toNat ++
        (write 8 (UInt64.ofNat cols.length).toNat ++
          cols.flatMap CreateStripeColumnExtentsArgIn.image ++ (dbRoot.data ++
            write 4 partitionNum.toNat)) := by
  have image := length_flatMap_const CreateStripeColumnExtentsArgIn.length_image cols
  obtain ⟨s₁, sent₁, bytes₁⟩ :=
    (emits_putByte Command.createStripeColumnExtents).fits ByteStream.empty
    (by decide)
  have length₁ : s₁.bytes.length = 1 := by rw [bytes₁]; rfl
  obtain ⟨s₂, sent₂, bytes₂⟩ :=
    @serializeInlineVector_of_le s₁ _ cols CreateStripeColumnExtentsArgIn.image (by omega)
  have tail := dbRoot.emits.bind (emits_putU32 partitionNum)
  obtain ⟨s₃, sent₃, bytes₃⟩ := tail.fits s₂ (by
    rw [bytes₂]
    simp only [length_append, length_write, DBRoots.length_data, length₁, image]
    omega)
  refine ⟨s₃, put_bind_some.mpr ⟨s₁, sent₁, put_bind_some.mpr ⟨s₂, sent₂, sent₃⟩⟩, ?_⟩
  rw [bytes₃, bytes₂, bytes₁]
  simp only [ByteStream.empty, nil_append, append_assoc]

lemma carried_createStripeColumnExtents (fits : 21 + 12 * cols.length ≤ ByteStream.capacity) :
    carried (.createStripeColumnExtents cols dbRoot partitionNum) =
      some (.createStripeColumnExtents cols dbRoot partitionNum.toUInt16.toUInt32) := by
  obtain ⟨s, sent, bytes⟩ := stripe_sent dbRoot partitionNum fits
  have bound : ByteStream.capacity < 2 ^ 32 := by decide
  have vector := reads_deserializeInlineVector CreateStripeColumnExtentsArgIn.reads
    CreateStripeColumnExtentsArgIn.length_image (v := cols) (by decide) (by omega)
  have reads : Reads SlaveComm.doCreateStripeColumnExtents _
      (.createStripeColumnExtents cols dbRoot partitionNum.toUInt16.toUInt32) :=
    vector.bind (dbRoot.reads.bind ((reads_getU16 partitionNum.toUInt16).last fun tmp32 =>
      SlaveCall.createStripeColumnExtents cols dbRoot tmp32.toUInt32))
  have left := reads (write 2 (partitionNum.toNat / 65536))
  simp only [append_assoc] at left bytes
  have handles : SlaveComm.handler Command.createStripeColumnExtents =
    some SlaveComm.doCreateStripeColumnExtents := rfl
  simp only [carried, DBRM.command, sent, bytes, write_halves, bind_eq_bind,
    bind_some, processCommand_eq handles, left, map_some]

/-- A vector that arrives whole was copied whole into the message. -/
lemma stripe_fits {dbRoot dbRoot' : DBRoots} {partitionNum partitionNum' : UInt32}
    (har : carried (.createStripeColumnExtents cols dbRoot partitionNum) =
      some (.createStripeColumnExtents cols dbRoot' partitionNum')) :
    21 + 12 * cols.length ≤ ByteStream.capacity := by
  simp only [carried, DBRM.command, bind_eq_bind, bind_eq_some_iff, Prod.exists] at har
  obtain ⟨⟨⟩, s, sent, processed⟩ := har
  obtain ⟨s₁, sent₁, sent⟩ := put_bind_some.mp sent
  obtain ⟨s₂, sent₂, sent⟩ := put_bind_some.mp sent
  have bytes₁ := (emits_putByte _).ran sent₁
  obtain ⟨chunk, hcp, bytes₂⟩ := serializeInlineVector_ran sent₂
  have bytes := (dbRoot.emits.bind (emits_putU32 partitionNum)).ran sent
  rw [bytes₂, bytes₁] at bytes
  have image := length_flatMap_const CreateStripeColumnExtentsArgIn.length_image cols
  have held := s.length_le_capacity
  simp only [ByteStream.empty, nil_append, append_assoc] at bytes
  have handles : SlaveComm.handler Command.createStripeColumnExtents =
    some SlaveComm.doCreateStripeColumnExtents := rfl
  rw [bytes, processCommand_eq handles, map_eq_some_iff] at processed
  obtain ⟨⟨call, rest⟩, handled, he⟩ := processed
  obtain ⟨cols', mid, vector, handled⟩ := get_bind_some.mp handled
  obtain ⟨dbRoot'', mid', roots, handled⟩ := get_bind_some.mp handled
  obtain ⟨tmp32, mid'', partition, handled⟩ := get_bind_some.mp handled
  cases handled
  cases he
  have hwh := (deserializeInlineVector_some takes_getArgIn vector).2
  rw [bytes] at held
  simp only [length_append, length_write, DBRoots.length_data, hcp, image, BrmTypes.u32]
    at hwh held
  omega

/-! ## Which requests arrive as they were made -/

/-- The slave node is called with exactly the arguments of the request. -/
def SlaveCall.Exactly : SlaveCall → Request → Prop
  | .deleteEmptyColExtents extentsInfoMap, request =>
    ∃ v, request = .deleteEmptyColExtents v ∧ HoldsEntries extentsInfoMap v
  | .createStripeColumnExtents cols dbRoot partitionNum, request =>
    request = .createStripeColumnExtents cols dbRoot partitionNum
  | .createColumnExtentDBroot oid colWidth dbRoot partitionNum segmentNum colDataType, request =>
    request = .createColumnExtentDBroot oid colWidth dbRoot partitionNum segmentNum colDataType
  | .createColumnExtentExactFile oid colWidth dbRoot partitionNum segmentNum colDataType, request =>
    request = .createColumnExtentExactFile oid colWidth dbRoot partitionNum segmentNum colDataType
  | .createDictStoreExtent oid dbRoot partitionNum segmentNum, request =>
    request = .createDictStoreExtent oid dbRoot partitionNum segmentNum
  | .rollbackColumnExtentsDBroot oid bDeleteAll dbRoot partitionNum segmentNum hwm, request =>
    request = .rollbackColumnExtentsDBroot oid bDeleteAll dbRoot partitionNum segmentNum hwm
  | .rollbackDictStoreExtentsDBroot oid dbRoot partitionNum segNums hwms, request =>
    request = .rollbackDictStoreExtentsDBroot oid dbRoot partitionNum segNums hwms

def ArrivesExactly (request : Request) : Prop :=
  ∃ call, carried request = some call ∧ call.Exactly request

/-- The requests both sides agree on: the partition number of a stripe has 16 bits, the
entries of a `deleteEmptyColExtents` are told apart by their objects and their `newFile`
is not set, and the vectors leave room in a byte stream. -/
def Request.agreed : Request → Prop
  | .createStripeColumnExtents cols _ partitionNum =>
    partitionNum.toNat < 2 ^ 16 ∧ 21 + 12 * cols.length ≤ ByteStream.capacity
  | .rollbackDictStoreExtentsDBroot _ _ _ segNums hwms =>
    33 + 2 * segNums.length + 4 * hwms.length ≤ ByteStream.capacity
  | .deleteEmptyColExtents v =>
    5 + 22 * v.length ≤ ByteStream.capacity ∧
      (∀ e ∈ v, e.newFile = false) ∧ ∀ e ∈ v, ∀ e' ∈ v, e.oid = e'.oid → e = e'
  | _ => True

lemma toUInt16_toUInt32_eq_iff (n : UInt32) : n.toUInt16.toUInt32 = n ↔ n.toNat < 2 ^ 16 := by
  rw [← UInt32.toNat_inj, UInt16.toNat_toUInt32, UInt32.toNat_toUInt16]
  omega

lemma stripe_arrives_iff (cols : List CreateStripeColumnExtentsArgIn) (dbRoot : DBRoots)
    (partitionNum : UInt32) :
    ArrivesExactly (.createStripeColumnExtents cols dbRoot partitionNum) ↔
      partitionNum.toNat < 2 ^ 16 ∧ 21 + 12 * cols.length ≤ ByteStream.capacity := by
  rw [← toUInt16_toUInt32_eq_iff]
  constructor
  · rintro ⟨call, har, exactly⟩
    rcases call with ⟨cols', dbRoot', partitionNum'⟩ | _ | _ | _ | _ | _ | _
    case createStripeColumnExtents =>
      cases exactly
      have fits := stripe_fits har
      rw [carried_createStripeColumnExtents dbRoot partitionNum fits] at har
      injection har with he
      injection he with _ _ partition
      exact ⟨partition, fits⟩
    case deleteEmptyColExtents =>
      obtain ⟨v, ho, -⟩ := exactly
      cases ho
    all_goals cases exactly
  · rintro ⟨partition, fits⟩
    refine ⟨_, carried_createStripeColumnExtents dbRoot partitionNum fits, ?_⟩
    rw [partition]
    rfl

lemma deleteEmpty_arrives_iff (v : List ExtentInfo) :
    ArrivesExactly (.deleteEmptyColExtents v) ↔ 5 + 22 * v.length ≤ ByteStream.capacity ∧
        (∀ e ∈ v, e.newFile = false) ∧ ∀ e ∈ v, ∀ e' ∈ v, e.oid = e'.oid → e = e' := by
  rw [← holdsEntries_arrivedMap, ArrivesExactly, carried_deleteEmptyColExtents]
  constructor
  · rintro ⟨call, har, exactly⟩
    split_ifs at har with fits
    cases har
    obtain ⟨w, he, hd⟩ := exactly
    cases he
    exact ⟨fits, hd⟩
  · rintro ⟨fits, hd⟩
    rw [if_pos fits]
    exact ⟨_, rfl, v, rfl, hd⟩

/-- A request reaches the slave node with exactly its arguments when the two sides agree
on it, and only then. -/
theorem arrivesExactly_iff (request : Request) : ArrivesExactly request ↔ request.agreed := by
  cases request with
  | createStripeColumnExtents cols dbRoot partitionNum =>
    exact stripe_arrives_iff cols dbRoot partitionNum
  | createColumnExtentDBroot oid colWidth dbRoot partitionNum segmentNum colDataType =>
    exact iff_of_true ⟨_, carried_createColumnExtentDBroot _ _ _ _ _ _, rfl⟩ trivial
  | createColumnExtentExactFile oid colWidth dbRoot partitionNum segmentNum colDataType =>
    exact iff_of_true ⟨_, carried_createColumnExtentExactFile _ _ _ _ _ _, rfl⟩ trivial
  | createDictStoreExtent oid dbRoot partitionNum segmentNum =>
    exact iff_of_true ⟨_, carried_createDictStoreExtent _ _ _ _, rfl⟩ trivial
  | rollbackColumnExtentsDBroot oid bDeleteAll dbRoot partitionNum segmentNum hwm =>
    exact iff_of_true ⟨_, carried_rollbackColumnExtentsDBroot _ _ _ _ _ _, rfl⟩ trivial
  | rollbackDictStoreExtentsDBroot oid dbRoot partitionNum segNums hwms =>
    rw [ArrivesExactly, carried_rollbackDictStoreExtentsDBroot, Request.agreed]
    constructor
    · rintro ⟨call, arrives, -⟩
      split_ifs at arrives with fits
      exact fits
    · intro fits
      rw [if_pos fits]
      exact ⟨_, rfl, rfl⟩
  | deleteEmptyColExtents v => exact deleteEmpty_arrives_iff v

/-- The first partition number of 17 bits arrives as partition zero. -/
theorem partition_truncated : carried (.createStripeColumnExtents [] ⟨![1, 0, 0, 0]⟩ 65536) =
        some (.createStripeColumnExtents [] ⟨![1, 0, 0, 0]⟩ 0) ∧
      ¬ ArrivesExactly (.createStripeColumnExtents [] ⟨![1, 0, 0, 0]⟩ 65536) := by
  have arrives : carried (.createStripeColumnExtents [] ⟨![1, 0, 0, 0]⟩ 65536) =
      some (.createStripeColumnExtents [] ⟨![1, 0, 0, 0]⟩ 0) :=
    carried_createStripeColumnExtents _ _ (by decide)
  refine ⟨arrives, ?_⟩
  rintro ⟨call, arrives', exactly⟩
  rw [arrives] at arrives'
  cases arrives'
  injection exactly with _ _ partition
  cases partition

end DbrmMessages
