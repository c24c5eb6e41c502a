import SqlTree.Dialect.Basic

/-!
# The built-in dialects

`ansi` takes every default; `mysql` quotes with accents and looks up its catalogue by `DATABASE()`;
`postgres` numbers its placeholders, writes `LIMIT` before `OFFSET` and calls procedures natively.
-/

namespace SqlTree.Dialect

/-- A query with one placeholder, for a name. -/
def lookup (sql : String) (name : String) : Option Compiled := some ⟨sql, [.string name]⟩

/-- The dialect of the standard. -/
def ansi : Dialect := { name := "ansi" }

/-! ### MySQL -/

/-- Looks up a table or view of MySQL. -/
def mysqlTable : String :=
  "SELECT TABLE_CATALOG AS `catalog`, TABLE_SCHEMA AS `schema`, " ++
  "TABLE_NAME AS `name`, TABLE_TYPE AS `type` FROM information_schema.`TABLES` " ++
  "WHERE TABLE_NAME = ? AND TABLE_SCHEMA = DATABASE();"

/-- Looks up the columns of a table of MySQL. -/
def mysqlColumns : String :=
  "SELECT COLUMN_NAME AS `name`, ORDINAL_POSITION AS `position`, " ++
  "CASE IS_NULLABLE WHEN 'YES' THEN TRUE ELSE FALSE END AS `nullable`, " ++
  "DATA_TYPE AS `datatype`, IFNULL(CHARACTER_MAXIMUM_LENGTH, 0) AS `length`, " ++
  "IFNULL(NUMERIC_PRECISION, 0) AS `precision`, IFNULL(NUMERIC_SCALE, 0) AS `scale`, " ++
  "CASE WHEN EXTRA LIKE '%auto_increment%' THEN TRUE ELSE FALSE END AS `autoincrement`, " ++
  "CASE WHEN EXTRA LIKE '%auto_increment%' THEN TRUE ELSE FALSE END AS `readonly`, " ++
  "CASE WHEN COLUMN_KEY = 'PRI' THEN TRUE ELSE FALSE END AS `primarykey` " ++
  "FROM information_schema.COLUMNS " ++
  "WHERE TABLE_NAME = ? AND TABLE_SCHEMA = DATABASE() ORDER BY ORDINAL_POSITION;"

/-- Looks up a procedure or function of MySQL. -/
def mysqlFunction : String :=
  "SELECT ROUTINE_CATALOG AS `catalog`, ROUTINE_SCHEMA AS `schema`, " ++
  "ROUTINE_NAME AS `name` FROM information_schema.ROUTINES " ++
  "WHERE ROUTINE_NAME = ? AND ROUTINE_SCHEMA = DATABASE();"

/-- Looks up the parameters of a procedure of MySQL. -/
def mysqlParameters : String :=
  "SELECT PARAMETER_NAME AS `name`, ORDINAL_POSITION AS `position`, " ++
  "PARAMETER_MODE AS `dirmode`, DATA_TYPE AS `datatype`, " ++
  "IFNULL(CHARACTER_MAXIMUM_LENGTH, 0) AS `length`, " ++
  "IFNULL(NUMERIC_PRECISION, 0) AS `precision`, IFNULL(NUMERIC_SCALE, 0) AS `scale` " ++
  "FROM information_schema.PARAMETERS " ++
  "WHERE SPECIFIC_NAME = ? AND SPECIFIC_SCHEMA = DATABASE() ORDER BY ORDINAL_POSITION;"

/-- The dialect of MySQL. -/
def mysql : Dialect where
  name := "mysql"
  quote := quoteWith '`'
  catalogue
    | .table => lookup mysqlTable
    | .columns => lookup mysqlColumns
    | .function => lookup mysqlFunction
    | .parameters => lookup mysqlParameters

/-! ### PostgreSQL -/

/-- Looks up a table or view of PostgreSQL. -/
def postgresTable : String :=
  "SELECT table_catalog AS catalog, table_schema AS schema, table_name AS name, " ++
  "table_type AS type FROM information_schema.tables " ++
  "WHERE table_name = $1 AND table_schema = current_schema();"

/-- Looks up the columns of a table of PostgreSQL. -/
def postgresColumns : String :=
  "SELECT column_name AS name, ordinal_position AS position, " ++
  "is_nullable = 'YES' AS nullable, data_type AS datatype, " ++
  "COALESCE(character_maximum_length, 0) AS length, " ++
  "COALESCE(numeric_precision, 0) AS precision, COALESCE(numeric_scale, 0) AS scale, " ++
  "COALESCE(column_default LIKE 'nextval(%', FALSE) AS autoincrement " ++
  "FROM information_schema.columns " ++
  "WHERE table_name = $1 AND table_schema = current_schema() ORDER BY ordinal_position;"

/-- Looks up a procedure or function of PostgreSQL. -/
def postgresFunction : String :=
  "SELECT routine_catalog AS catalog, routine_schema AS schema, routine_name AS name " ++
  "FROM information_schema.routines " ++
  "WHERE routine_name = $1 AND routine_schema = current_schema();"

/-- Looks up the parameters of a procedure of PostgreSQL. -/
def postgresParameters : String :=
  "SELECT p.parameter_name AS name, p.ordinal_position AS position, " ++
  "p.parameter_mode AS dirmode, p.data_type AS datatype, " ++
  "COALESCE(p.character_maximum_length, 0) AS length, " ++
  "COALESCE(p.numeric_precision, 0) AS precision, COALESCE(p.numeric_scale, 0) AS scale " ++
  "FROM information_schema.parameters p " ++
  "JOIN information_schema.routines r ON r.specific_name = p.specific_name " ++
  "WHERE r.routine_name = $1 AND r.routine_schema = current_schema() " ++
  "ORDER BY p.ordinal_position;"

/-- The dialect of PostgreSQL. -/
def postgres : Dialect where
  name := "postgres"
  indexed := true
  token := "$"
  nativeType := postgresType
  limitStyle := .limitOffset
  procedureStyle := .nativeCall
  catalogue
    | .table => lookup postgresTable
    | .columns => lookup postgresColumns
    | .function => lookup postgresFunction
    | .parameters => lookup postgresParameters

/-- The built-in dialects; each is registered under its name. -/
def builtIn : List Dialect := [ansi, mysql, postgres]

end SqlTree.Dialect
