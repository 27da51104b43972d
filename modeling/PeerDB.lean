import PeerDB.Lib.Loop
import PeerDB.Lib.Hex
import PeerDB.Lib.Offset
import PeerDB.Lib.KeyedLog
import PeerDB.Lib.BigEndian
import PeerDB.Lib.Replay
import PeerDB.Model.Record
import PeerDB.Model.CDCStore
import PeerDB.Model.Table
import PeerDB.Model.Raw
import PeerDB.Model.QValue
import PeerDB.Postgres.Message
import PeerDB.Postgres.Tuple
import PeerDB.Postgres.Partition
import PeerDB.Postgres.Pull
import PeerDB.Postgres.Batch
import PeerDB.Postgres.Restart
import PeerDB.Postgres.Backfill
import PeerDB.Postgres.NormalizeExpr
import PeerDB.Postgres.Merge
import PeerDB.Postgres.SoftDelete
import PeerDB.Postgres.Toast
import PeerDB.Postgres.PgDump
import PeerDB.MySQL.Pull
import PeerDB.MySQL.Binlog
import PeerDB.MySQL.Session
import PeerDB.MySQL.Delivery
import PeerDB.MySQL.SchemaDelta
import PeerDB.MySQL.Ordinal
import PeerDB.Mongo.Event
import PeerDB.Mongo.Pull
import PeerDB.Mongo.Delivery
import PeerDB.ClickHouse.Query
import PeerDB.ClickHouse.Normalize
import PeerDB.ClickHouse.PrimaryUpdate
import PeerDB.ClickHouse.Bookkeeping
import PeerDB.Elasticsearch.Sync
import PeerDB.Kafka.Sync
import PeerDB.Concurrency.LastChan
import PeerDB.Activities.Normalize
import PeerDB.Lib.Intervals
import PeerDB.Lib.Word
import PeerDB.Model.Time
import PeerDB.QRep.Partition
import PeerDB.Mongo.QRepPartition
import PeerDB.Postgres.QRepPartition
import PeerDB.Postgres.ChildTables
import PeerDB.ClickHouse.TableFunction
import PeerDB.Elasticsearch.DocumentID
import PeerDB.Lib.Encoding
import PeerDB.Lib.Json
import PeerDB.Model.SpillStore
import PeerDB.Mongo.Bson
import PeerDB.Mongo.DocumentKey
import PeerDB.Switchboard.MySQL
import PeerDB.Switchboard.PgLexer
import PeerDB.Switchboard.Postgres
import PeerDB.Lib.Walk
import PeerDB.Postgres.Inheritance
import PeerDB.QRep.StringPartition
import PeerDB.MySQL.UuidPartition
import PeerDB.Mongo.IdPartition
import PeerDB.Lib.Heap
import PeerDB.MySQL.AdaptivePartition
import PeerDB.ClickHouse.ObjectSync
import PeerDB.Destination.UpdateClauses
import PeerDB.Lib.Mvcc
import PeerDB.ClickHouse.SnapshotStaging
import PeerDB.Postgres.Xmin
import PeerDB.ClickHouse.SnapshotSync
import PeerDB.Workflows.CDCFlow
import PeerDB.Activities.HandOff
import PeerDB.Mongo.Deadline
import PeerDB.Utils.LuaPool
import PeerDB.QValue.NumericType
import PeerDB.QValue.AvroNumeric
import PeerDB.QValue.Int256
import PeerDB.Mongo.DocumentJson
import PeerDB.MySQL.StringMidpoint
