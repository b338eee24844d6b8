import EryDb.RollbackFrame
import EryDb.RangeMerging
import EryDb.PruningSafety
import EryDb.Snapshots
import EryDb.DecimalRounding
import EryDb.DateReading
import EryDb.BulkRanges
import EryDb.CPProtocol
import EryDb.OidServer
import EryDb.TxnFile
import EryDb.DbrmMessages
import EryDb.WriteVB
import EryDb.DictRollback
import EryDb.ColumnRollback
import EryDb.AutoIncrement
import EryDb.TableLocks
import EryDb.AnnexStep
import EryDb.LimitedOrderBy
import EryDb.TupleJoin
import EryDb.AggregateSums
import EryDb.JoinResults
import EryDb.RWLock
import EryDb.DctnryBackup
import EryDb.StreamReads
import EryDb.MinDataRoots
import EryDb.ReplicaRoots
import EryDb.TouchedExtents
import EryDb.WindowSort
import EryDb.StringStore
import EryDb.VssCounters
import EryDb.DictionaryScan
