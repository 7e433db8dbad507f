import SchemaScript.Main
import SchemaScript.Session
import SchemaScript.Proofs.Draft.FreshName
import SchemaScript.Proofs.Draft.Imports
import SchemaScript.Proofs.Draft.Edits
import SchemaScript.Proofs.Draft.History
import SchemaScript.Proofs.Draft.Calls
import SchemaScript.Proofs.Outcome
import SchemaScript.Proofs.Schema.Declared
import SchemaScript.Proofs.Schema.Making
import SchemaScript.Proofs.Schema.Resolved
import SchemaScript.Proofs.Expr.Reading
import SchemaScript.Proofs.Wire.Rendering
import SchemaScript.Proofs.FieldInfo.OfField
import SchemaScript.Proofs.FieldInfo.Reading
import SchemaScript.Proofs.FieldInfo.Literal
import SchemaScript.Proofs.FieldInfo.RoundTrip
import SchemaScript.Proofs.Draft.Growth
import SchemaScript.Proofs.FieldInfo.Names
import SchemaScript.Proofs.Schema.Exports
import SchemaScript.Proofs.Module.Source
import SchemaScript.Proofs.Generation
import SchemaScript.Proofs.Module.Closure
import SchemaScript.Proofs.Schema.Unplaced
import SchemaScript.Proofs.Schema.Agreement
import SchemaScript.Proofs.FieldInfo.Agreement
import SchemaScript.Proofs.Module.Independence
import SchemaScript.Proofs.Schema.ExportedNames
import SchemaScript.Proofs.Expr.Script
import SchemaScript.Proofs.Expr.RoundTrip
import SchemaScript.Proofs.FieldInfo.Denotation
import SchemaScript.Proofs.FieldInfo.Modes
import SchemaScript.Proofs.Schema.Registered
import SchemaScript.Proofs.Schema.Regular
import SchemaScript.Proofs.Draft.Progress
import SchemaScript.Proofs.FieldInfo.Progress
import SchemaScript.Proofs.Module.Progress
import SchemaScript.Proofs.Answers
import SchemaScript.Proofs.Schema.Named
import SchemaScript.Proofs.Schema.Declarable
import SchemaScript.Proofs.Schema.Acceptance
import SchemaScript.Proofs.Schema.Places
import SchemaScript.Proofs.Schema.Visible
import SchemaScript.Proofs.Text.Lines
import SchemaScript.Proofs.Module.Exports
import SchemaScript.Proofs.Schema.Stems
import SchemaScript.Proofs.FieldInfo.EnumType
import SchemaScript.Proofs.Module.Members
import SchemaScript.Proofs.Schema.Revised
import SchemaScript.Proofs.Schema.Qualified
import SchemaScript.Proofs.Module.Alike
import SchemaScript.Proofs.Module.Qualified
import SchemaScript.Proofs.Parameters
import SchemaScript.Proofs.Draft.Requests
import SchemaScript.Proofs.FieldInfo.Minimal
import SchemaScript.Proofs.FieldInfo.Failure
import SchemaScript.Proofs.Schema.Located
import SchemaScript.Proofs.Expr.Keys
import SchemaScript.Proofs.ImportPath.Specifiers
import SchemaScript.Proofs.Draft.ImportDeclaration
import SchemaScript.Proofs.FieldInfo.Consistency
import SchemaScript.Proofs.FieldInfo.Deferral
import SchemaScript.Proofs.Module.Doc
import SchemaScript.Proofs.Expr.Layout
import SchemaScript.Proofs.FieldInfo.PropertyNames
import SchemaScript.Proofs.Config
import SchemaScript.Proofs.Schema.Scoping
import SchemaScript.Proofs.FieldInfo.Options
import SchemaScript.Proofs.CamelCase
import SchemaScript.Proofs.Expr.Numbers
import SchemaScript.Proofs.Draft.Indentation
