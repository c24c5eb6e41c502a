import SqlTree.Calendar.Date
import SqlTree.Calendar.DateTime
import SqlTree.CommandLine.Arguments
import SqlTree.CommandLine.Run
import SqlTree.CommandLine.Workspace
import SqlTree.Compiled
import SqlTree.Compiler
import SqlTree.Config.Basic
import SqlTree.Config.Toml
import SqlTree.Decimal.Notation
import SqlTree.Decimal.Numeral
import SqlTree.Decimal.Shortest
import SqlTree.Dialect.Basic
import SqlTree.Dialect.BuiltIn
import SqlTree.Dialect.NativeType
import SqlTree.Dictionary
import SqlTree.Draft
import SqlTree.Error
import SqlTree.Expression.Basic
import SqlTree.Expression.Builder
import SqlTree.Expression.Codec
import SqlTree.Expression.Operator
import SqlTree.Json.Basic
import SqlTree.Json.Printer
import SqlTree.Json.Reader
import SqlTree.Main
import SqlTree.Procedure
import SqlTree.Registry
import SqlTree.Statement.Basic
import SqlTree.Statement.Clause
import SqlTree.Statement.Page
import SqlTree.Template
import SqlTree.Text.Blank
import SqlTree.Text.Hex
import SqlTree.Uuid
import SqlTree.Value.Basic
import SqlTree.Value.Codec
import SqlTree.Writer
import SqlTree.Proofs.Binding.Independence
import SqlTree.Proofs.Binding.Order
import SqlTree.Proofs.Draft.Unmarked
import SqlTree.Proofs.Placeholder.Correspondence
import SqlTree.Proofs.Draft.Written
import SqlTree.Proofs.Page.Limit
import SqlTree.Proofs.WellFormed.FirstViolation
import SqlTree.Proofs.Draft.Subquery
import SqlTree.Proofs.Draft.Layouts
import SqlTree.Proofs.Condition.Clause
import SqlTree.Proofs.Template.Grammar
import SqlTree.Proofs.Procedure.Script
import SqlTree.Proofs.Draft.Nesting
import SqlTree.Proofs.Statement.Absence
import SqlTree.Proofs.Template.Fault
import SqlTree.Proofs.Statement.Terminator
import SqlTree.Proofs.Dictionary
import SqlTree.Proofs.Registry.Registration
import SqlTree.Proofs.Codec.Decoded
import SqlTree.Proofs.Procedure.Names
import SqlTree.Proofs.Procedure.Styles
import SqlTree.Proofs.Page.Columns
import SqlTree.Proofs.Draft.Endings
import SqlTree.Proofs.Text.Tidiness
import SqlTree.Proofs.Condition.Depth
import SqlTree.Proofs.Condition.Indentation
import SqlTree.Proofs.CommandLine.Output
import SqlTree.Proofs.Text.Quoted
import SqlTree.Proofs.Draft.Context
import SqlTree.Proofs.Statement.Context
import SqlTree.Proofs.Statement.Quoting
import SqlTree.Proofs.Condition.Grammar
import SqlTree.Proofs.CommandLine.Parameters
import SqlTree.Proofs.Page.Order
import SqlTree.Proofs.CommandLine.Templates
