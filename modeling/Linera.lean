import Linera.Chain.Inbox
import Linera.Chain.Outbox
import Linera.Lib.Except
import Linera.Lib.Lex
import Linera.Lib.OrdMap
import Linera.Lib.Handler
import Linera.Lib.DependencyOrder
import Linera.Views.Common
import Linera.Views.Batch
import Linera.Views.Memory
import Linera.Views.Client
import Linera.Views.LruCaching
import Linera.Views.LruInterleaving
import Linera.Views.ValueSplitting
import Linera.Views.Simplify
import Linera.Views.KeyValueStoreView
import Linera.Views.Lowering
import Linera.Views.Backends
import Linera.Views.MapView
import Linera.Lib.SortedMerge
import Linera.Views.MapViewOrder
import Linera.Execution.Runtime
import Linera.Chain.CrossChain
import Linera.Chain.Manager
import Linera.Chain.Voting
import Linera.Lib.Quorum
import Linera.Core.Worker
import Linera.Core.Consensus
import Linera.Execution.System
import Linera.Execution.Block
import Linera.Execution.Committee
import Linera.Execution.Applications
import Linera.Chain.Delivery
import Linera.Witty.Flat
import Linera.Witty.Types
import Linera.Lib.ByteMemory
import Linera.Witty.Memory
import Linera.Witty.Codec
import Linera.Witty.Flattening
import Linera.Witty.Footprint
import Linera.Execution.AmountText
import Linera.Lib.Slice
import Linera.Views.LogView
import Linera.Views.QueueView
import Linera.Lib.BinarySearch
import Linera.Chain.DataTypes
import Linera.Execution.Epochs
import Linera.Views.NextLowerKey
import Linera.Chain.MessageIds
import Linera.Execution.Metering
import Linera.Views.CollectionView
import Linera.Core.Updater
import Linera.Lib.Bcs
import Linera.Lib.Session
import Linera.Views.DynamoDb
import Linera.Views.DynamoDbJournal
