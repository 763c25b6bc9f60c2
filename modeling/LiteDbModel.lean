import LiteDbModel.Tx
import LiteDbModel.Conds
import LiteDbModel.Placeholders
import LiteDbModel.Find
import LiteDbModel.LazyRelation
import LiteDbModel.Retry
import LiteDbModel.Routing
import LiteDbModel.CreateManyKeys
import LiteDbModel.UpdateMany
import LiteDbModel.RelationSurfaces
import LiteDbModel.LimitedRelation
import LiteDbModel.ArrayCasts
import LiteDbModel.ColumnMembership
import LiteDbModel.ColumnTests
import LiteDbModel.TokenWrites
import LiteDbModel.CastSyntax
import LiteDbModel.DynamicWhere
import LiteDbModel.KeyIdentity
import LiteDbModel.TxRuntimes
import LiteDbModel.WithWriter
import LiteDbModel.SingleParam
import LiteDbModel.ColumnFamilies
import LiteDbModel.KeyLists
import LiteDbModel.GivenConnection
import LiteDbModel.HardLimits
import LiteDbModel.ReadOnlyStatement
import LiteDbModel.RetryClassifiers
import LiteDbModel.RelationWhere
import LiteDbModel.KeyParameter
import LiteDbModel.BatchTypes
import LiteDbModel.JsonTable
import LiteDbModel.Lib.Onion
import LiteDbModel.Middleware
import LiteDbModel.SqlFragment
import LiteDbModel.LeafPorts
import LiteDbModel.WriterSticky
import LiteDbModel.SessionPools
import LiteDbModel.Lib.Scan
import LiteDbModel.CellTypes
import LiteDbModel.Lib.Nested
import LiteDbModel.SchemaDdl
import LiteDbModel.Lib.Template
import LiteDbModel.MysqlReturning
import LiteDbModel.MysqlReselect
import LiteDbModel.WriteNode
import LiteDbModel.WriteParameters
import LiteDbModel.QueryCache
import LiteDbModel.RequestScope
import LiteDbModel.PoolCache
import LiteDbModel.ClassChain
import LiteDbModel.TypeCasts
import LiteDbModel.SqliteStatements
import LiteDbModel.FreshNames
import LiteDbModel.RetryBackoff
import LiteDbModel.Lib.LastUse
import LiteDbModel.GroupChildren
import LiteDbModel.RustMiddleware
import LiteDbModel.ArrayParamJson
import LiteDbModel.Lib.BigEndian
import LiteDbModel.Lib.Binary32
import LiteDbModel.PgSlots
import LiteDbModel.TypedObject
import LiteDbModel.Fragments
import LiteDbModel.FragmentAssembly
import LiteDbModel.TxOutput
import LiteDbModel.ReadRows
import LiteDbModel.DeleteMany
import LiteDbModel.ScpRuntime
import LiteDbModel.MysqlDriver
import LiteDbModel.ExecuteRoutes
import LiteDbModel.Lib.Schedule
import LiteDbModel.Behavior.Values
import LiteDbModel.Behavior.ExprEval
import LiteDbModel.Behavior.Canonical
import LiteDbModel.Behavior.OutType
import LiteDbModel.Behavior.Plan
import LiteDbModel.Behavior.Nodes
import LiteDbModel.Behavior.Elements
import LiteDbModel.Behavior.RunBehavior
import LiteDbModel.Behavior.Solutions
import LiteDbModel.Lib.Ledger
import LiteDbModel.GoStatements
import LiteDbModel.PythonPool
