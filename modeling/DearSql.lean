import DearSql.PgDescribe
import DearSql.PgEarlyStop
import DearSql.Statements
import DearSql.CommentLiterals
import DearSql.NameShapes
import DearSql.Scripts
import DearSql.PgSplit
import DearSql.CassandraSession
import DearSql.RedisHelpers
import DearSql.MssqlExecute
import DearSql.FetchFailures
import DearSql.ReplaceRange
import DearSql.Items
import DearSql.RelationPaths
import DearSql.AliasWords
import DearSql.StatementIsolation
import DearSql.UnseenText
import DearSql.PgColumns
import DearSql.PgForeignKeys
import DearSql.Conninfo
import DearSql.MongoUri
import DearSql.DefaultDatabase
import DearSql.KeyClauses
import DearSql.CassandraCalls
import DearSql.ExplainReturns
import DearSql.Nesting
import DearSql.TokenViews
import DearSql.FromLists
import DearSql.CteChains
import DearSql.CteReferences
import DearSql.Resolved
import DearSql.Keywords
import DearSql.Ranking
import DearSql.RedisCommands
import DearSql.RedisPipelines
import DearSql.RedisPages
import DearSql.RedisGroups
import DearSql.MysqlExecute
import DearSql.IndexColumns
import DearSql.TypedNames
import DearSql.SelfTimes
import DearSql.MysqlPlans
import DearSql.SqlitePlans
import DearSql.IncomingKeys
import DearSql.ForeignKeyGroups
import DearSql.TableDefinitions
import DearSql.PageQueries
import DearSql.WrappedLines
import DearSql.ByteOffsets
import DearSql.LongerPrefixes
import DearSql.InsertedNames
import DearSql.InsertedColumns
import DearSql.RowCounts
import DearSql.GroupTree
import DearSql.ScopeLookups
import DearSql.PostgresPlans
import DearSql.PropertyOrder
import DearSql.SqliteViews
import DearSql.SiblingGroups
import DearSql.Interleavings
import DearSql.MssqlCancel
import DearSql.MysqlOpen
import DearSql.Separated
import DearSql.DuckdbLists
import DearSql.RowMaps
import DearSql.OracleCatalog
import DearSql.OracleTables
import DearSql.PgThreads
import DearSql.MongoPool
import DearSql.MongoSchema
import DearSql.OracleInstaller
import DearSql.OracleClient
import DearSql.StatementLists
import DearSql.ExplainSql
import DearSql.TableDdl
