import SqlTree.Expression.Operator
import SqlTree.Text.Blank

/-!
# Column types

`CanonicalType` is a column type that does not depend on a backend.  The tables map the type names
that backends report to it, without regard to case and to blanks at the ends.
-/

namespace SqlTree

/-- A column type that does not depend on a backend. -/
inductive CanonicalType where
  | string | boolean | int | numeric | float | date | dateTime | bytes | guid
  /-- Anything that is not recognised. -/
  | variant
  deriving DecidableEq, Repr, Inhabited

namespace CanonicalType

/-- Every type. -/
def all : List CanonicalType :=
  [string, boolean, int, numeric, float, date, dateTime, bytes, guid, variant]

/-- The name of a type. -/
def name : CanonicalType → String
  | string => "String"
  | boolean => "Boolean"
  | int => "Int"
  | numeric => "Numeric"
  | float => "Float"
  | date => "Date"
  | dateTime => "DateTime"
  | bytes => "Bytes"
  | guid => "Guid"
  | variant => "Variant"

/-- The type of a name. -/
def ofName? : String → Option CanonicalType := byName? name all

end CanonicalType

/-- A type name in the form in which the tables hold it: trimmed and in lower case.  Only the
capitals `A` to `Z` need lowering: the tables hold ASCII letters and no `k`, and the Kelvin sign is
the only other character whose lower case is an ASCII letter alone. -/
def typeKey (native : String) : String :=
  String.ofList ((Text.trim native.toList).map Char.toLower)

/-- The entries of a table that map several names to one type. -/
def typeEntries (t : CanonicalType) (names : List String) : List (String × CanonicalType) :=
  names.map fun n => (n, t)

/-- The type names of the standard and of common backends; `timestamp` is a row version here. -/
def standardTypes : List (String × CanonicalType) :=
  typeEntries .string ["xml", "tinytext", "mediumtext", "longtext", "ntext", "text", "sysname",
    "sql_variant", "note", "memo", "clob", "char", "character", "nchar", "varchar", "nvarchar",
    "string", "longvarchar", "longchar", "varyingcharacter", "nativecharacter",
    "nativevaryingcharacter", ""] ++
  typeEntries .boolean ["bit", "bool", "boolean", "yesno", "logical"] ++
  typeEntries .int ["tinyint unsigned", "uint16", "smallint unsigned", "uint32", "integer unsigned",
    "uint64", "bigint unsigned", "tinyint", "smallint", "int", "mediumint", "bigint", "int16",
    "int32", "int64", "integer", "long", "identity", "counter", "autoincrement", "year"] ++
  typeEntries .numeric ["decimal", "newdecimal", "numeric", "currency", "money", "smallmoney"] ++
  typeEntries .float ["float", "real", "double"] ++
  typeEntries .date ["date", "smalldate"] ++
  typeEntries .dateTime ["time", "datetime", "datetime2", "smalldatetime"] ++
  typeEntries .bytes ["image", "timestamp", "varbinary", "binary", "blob", "tinyblob", "mediumblob",
    "longblob", "oleobject", "general"] ++
  typeEntries .guid ["uniqueidentifier", "guid"]

/-- The type names of PostgreSQL that differ from the standard ones. -/
def postgresTypes : List (String × CanonicalType) :=
  typeEntries .int ["int2", "int4", "int8", "serial", "smallserial", "bigserial"] ++
  typeEntries .float ["float4", "float8", "double precision"] ++
  typeEntries .string ["character varying", "citext", "bpchar", "name"] ++
  typeEntries .dateTime ["timestamp", "timestamptz", "timestamp without time zone",
    "timestamp with time zone"] ++
  typeEntries .bytes ["bytea"] ++
  typeEntries .guid ["uuid"]

/-- The type that a table gives to a name. -/
def typeIn (table : List (String × CanonicalType)) (native : String) : CanonicalType :=
  (table.lookup (typeKey native)).getD .variant

/-- The type of a name by the standard table. -/
def standardType : String → CanonicalType := typeIn standardTypes

/-- The type of a name by the names of PostgreSQL, else by the standard table. -/
def postgresType : String → CanonicalType := typeIn (postgresTypes ++ standardTypes)

end SqlTree
