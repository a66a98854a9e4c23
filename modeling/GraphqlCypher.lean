import GraphqlCypher.Augment.Arguments
import GraphqlCypher.Augment.Document
import GraphqlCypher.Augment.Inputs
import GraphqlCypher.Augment.Mutations
import GraphqlCypher.Augment.NativeStatement
import GraphqlCypher.Augment.Normalize
import GraphqlCypher.Augment.Options
import GraphqlCypher.Augment.Scaffold
import GraphqlCypher.Augment.Scope
import GraphqlCypher.Catalog.Basic
import GraphqlCypher.Catalog.Cache
import GraphqlCypher.Catalog.Failure
import GraphqlCypher.Catalog.Model
import GraphqlCypher.Catalog.Template
import GraphqlCypher.CommandLine.Command
import GraphqlCypher.CommandLine.Files
import GraphqlCypher.CommandLine.Words
import GraphqlCypher.Entries
import GraphqlCypher.Json.Basic
import GraphqlCypher.Json.Decode
import GraphqlCypher.Json.Printer
import GraphqlCypher.Json.Reader
import GraphqlCypher.Language.Executable
import GraphqlCypher.Language.Grammar
import GraphqlCypher.Language.Printer
import GraphqlCypher.Language.Schema
import GraphqlCypher.Language.SchemaPrinter
import GraphqlCypher.Language.SchemaReader
import GraphqlCypher.Language.Token
import GraphqlCypher.Language.Value
import GraphqlCypher.Main
import GraphqlCypher.Mutation.Arguments
import GraphqlCypher.Mutation.Compiled
import GraphqlCypher.Mutation.Group
import GraphqlCypher.Mutation.ReadBack
import GraphqlCypher.Mutation.Reconcile
import GraphqlCypher.Mutation.Walk
import GraphqlCypher.Number.Binary64
import GraphqlCypher.Number.Shortest
import GraphqlCypher.Plan
import GraphqlCypher.Proofs.Augment.Additive
import GraphqlCypher.Proofs.Augment.Clashes
import GraphqlCypher.Proofs.Augment.Closed
import GraphqlCypher.Proofs.Augment.Edges
import GraphqlCypher.Proofs.Augment.Edits
import GraphqlCypher.Proofs.Augment.Extension
import GraphqlCypher.Proofs.Augment.IdShapes
import GraphqlCypher.Proofs.Augment.Idempotent
import GraphqlCypher.Proofs.Augment.Index
import GraphqlCypher.Proofs.Augment.Inputs
import GraphqlCypher.Proofs.Augment.Keys
import GraphqlCypher.Proofs.Augment.MemberTypes
import GraphqlCypher.Proofs.Augment.Members
import GraphqlCypher.Proofs.Augment.Models
import GraphqlCypher.Proofs.Augment.Passes
import GraphqlCypher.Proofs.Augment.Places
import GraphqlCypher.Proofs.Augment.Prepared
import GraphqlCypher.Proofs.Augment.Provided
import GraphqlCypher.Proofs.Augment.References
import GraphqlCypher.Proofs.Augment.Roots
import GraphqlCypher.Proofs.Catalog.Admission
import GraphqlCypher.Proofs.Catalog.Agreement
import GraphqlCypher.Proofs.Catalog.Cache
import GraphqlCypher.Proofs.Catalog.Creates
import GraphqlCypher.Proofs.Catalog.Edges
import GraphqlCypher.Proofs.Catalog.Keys
import GraphqlCypher.Proofs.Catalog.Relations
import GraphqlCypher.Proofs.Cypher.Clauses
import GraphqlCypher.Proofs.Cypher.Descents
import GraphqlCypher.Proofs.Cypher.Tokens
import GraphqlCypher.Proofs.Entries
import GraphqlCypher.Proofs.Json.Alike
import GraphqlCypher.Proofs.Json.Parts
import GraphqlCypher.Proofs.Json.Reader
import GraphqlCypher.Proofs.Json.WellKeyed
import GraphqlCypher.Proofs.Language.Names
import GraphqlCypher.Proofs.Language.Reader
import GraphqlCypher.Proofs.Language.Reading
import GraphqlCypher.Proofs.Language.Scanning
import GraphqlCypher.Proofs.Language.Strings
import GraphqlCypher.Proofs.Mutation.Acceptance
import GraphqlCypher.Proofs.Mutation.Branches
import GraphqlCypher.Proofs.Mutation.Bundle
import GraphqlCypher.Proofs.Mutation.Calls
import GraphqlCypher.Proofs.Mutation.Chains
import GraphqlCypher.Proofs.Mutation.Compiled
import GraphqlCypher.Proofs.Mutation.Connects
import GraphqlCypher.Proofs.Mutation.Counterparts
import GraphqlCypher.Proofs.Mutation.Endless
import GraphqlCypher.Proofs.Mutation.Endow
import GraphqlCypher.Proofs.Mutation.Events
import GraphqlCypher.Proofs.Mutation.Faults
import GraphqlCypher.Proofs.Mutation.Gathered
import GraphqlCypher.Proofs.Mutation.Groups
import GraphqlCypher.Proofs.Mutation.InStep
import GraphqlCypher.Proofs.Mutation.Joins
import GraphqlCypher.Proofs.Mutation.Levels
import GraphqlCypher.Proofs.Mutation.Limits
import GraphqlCypher.Proofs.Mutation.Lookup
import GraphqlCypher.Proofs.Mutation.Mirror
import GraphqlCypher.Proofs.Mutation.Origins
import GraphqlCypher.Proofs.Mutation.Paths
import GraphqlCypher.Proofs.Mutation.ReadBack
import GraphqlCypher.Proofs.Mutation.References
import GraphqlCypher.Proofs.Mutation.Refusal
import GraphqlCypher.Proofs.Mutation.Resolve
import GraphqlCypher.Proofs.Mutation.Retrieval
import GraphqlCypher.Proofs.Mutation.Rows
import GraphqlCypher.Proofs.Mutation.Run
import GraphqlCypher.Proofs.Mutation.Selection
import GraphqlCypher.Proofs.Mutation.Shaped
import GraphqlCypher.Proofs.Mutation.Staged
import GraphqlCypher.Proofs.Mutation.Tidy
import GraphqlCypher.Proofs.Mutation.Unwinding
import GraphqlCypher.Proofs.Mutation.Variables
import GraphqlCypher.Proofs.Plan
import GraphqlCypher.Proofs.Reader
import GraphqlCypher.Proofs.Request.Arguments
import GraphqlCypher.Proofs.Request.Conduct
import GraphqlCypher.Proofs.Request.Delegation
import GraphqlCypher.Proofs.Request.Planning
import GraphqlCypher.Proofs.Request.Recognised
import GraphqlCypher.Proofs.Request.Registration
import GraphqlCypher.Proofs.Request.Sessions
import GraphqlCypher.Proofs.Schema.IdField
import GraphqlCypher.Proofs.Schema.Names
import GraphqlCypher.Proofs.Statement.Forwarded
import GraphqlCypher.Proofs.Statement.Literals
import GraphqlCypher.Proofs.Statement.Placeholders
import GraphqlCypher.Proofs.Traversal
import GraphqlCypher.Reader
import GraphqlCypher.Request.Binding
import GraphqlCypher.Request.Config
import GraphqlCypher.Request.Failure
import GraphqlCypher.Request.Operation
import GraphqlCypher.Request.Registration
import GraphqlCypher.Request.Resolver
import GraphqlCypher.Request.Response
import GraphqlCypher.Request.Service
import GraphqlCypher.Request.Session
import GraphqlCypher.Schema.Fields
import GraphqlCypher.Schema.Index
import GraphqlCypher.Schema.Names
import GraphqlCypher.Statement
import GraphqlCypher.Text.Characters
import GraphqlCypher.Text.Invisible
import GraphqlCypher.Text.Likeness
import GraphqlCypher.Text.UpperCase
