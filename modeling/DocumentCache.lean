import DocumentCache.Main
import DocumentCache.Proofs.Cache.BatchLookups
import DocumentCache.Proofs.Cache.LastWrite
import DocumentCache.Proofs.Cache.PoolDrains
import DocumentCache.Proofs.Format.RowKeyOrder
import DocumentCache.Proofs.Journal.Crashes
import DocumentCache.Proofs.Cache.FailedStarts
import DocumentCache.Proofs.Cache.TruthfulReads
import DocumentCache.Proofs.Cache.ReadableAdds
import DocumentCache.Proofs.Cache.KeptRows
import DocumentCache.Proofs.Cache.CatchUp
import DocumentCache.Proofs.Cache.AddThreads
import DocumentCache.Proofs.Cache.WholeAdds
import DocumentCache.Proofs.Journal.ArbitraryLogs
import DocumentCache.Proofs.Journal.ChangedBytes
import DocumentCache.Proofs.Format.CanonicalPayloads
import DocumentCache.Proofs.Format.DamagedPayloads
import DocumentCache.Proofs.Journal.CutLogs
import DocumentCache.Proofs.Format.AcceptedRowKeys
import DocumentCache.Proofs.Journal.AutomaticCheckpoints
import DocumentCache.Proofs.Journal.CanonicalLogs
import DocumentCache.Proofs.Cache.CountedCorruption
import DocumentCache.Proofs.Journal.TableScans
import DocumentCache.Proofs.Format.WrittenPaths
import DocumentCache.Proofs.Journal.OversizedPuts
import DocumentCache.Proofs.Cache.RequestedSpans
import DocumentCache.Proofs.Journal.FailedWrites
import DocumentCache.Proofs.Cache.ParentCollections
import DocumentCache.Proofs.Cache.CountedRows
import DocumentCache.Proofs.Shell.Sessions
import DocumentCache.Proofs.Journal.CountedBytes
