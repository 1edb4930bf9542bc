import IntCalculus.Overflow
import IntCalculus.Ty
import IntCalculus.Expr
import IntCalculus.Render
import IntCalculus.Error
import IntCalculus.Scope
import IntCalculus.Simplify.Coefficient
import IntCalculus.Simplify.Chain
import IntCalculus.Simplify.Rules
import IntCalculus.Simplify
import IntCalculus.Derive
import IntCalculus.Calculus
import IntCalculus.Evaluate
import IntCalculus.Reduce
import IntCalculus.Typing
import IntCalculus.Json
import IntCalculus.Json.Token
import IntCalculus.Json.Parse
import IntCalculus.Format.Record
import IntCalculus.Format.Encode
import IntCalculus.Format.Decode
import IntCalculus.Text.Blank
import IntCalculus.Text.Decimal
import IntCalculus.Text.Pattern
import IntCalculus.Text.Pattern.Class
import IntCalculus.Text.Pattern.Syntax
import IntCalculus.Config
import IntCalculus.Config.Setting
import IntCalculus.Config.Toml.Quoted
import IntCalculus.Config.Toml.Number
import IntCalculus.Config.Toml.Table
import IntCalculus.Config.Toml.Value
import IntCalculus.Config.Toml
import IntCalculus.Config.Yaml.Text
import IntCalculus.Config.Yaml.Scalar
import IntCalculus.Config.Yaml.Tag
import IntCalculus.Config.Yaml.Token
import IntCalculus.Config.Yaml.Node
import IntCalculus.Config.Yaml
import IntCalculus.Config.Save
import IntCalculus.Files.Path
import IntCalculus.Files
import IntCalculus.Config.Load
import IntCalculus.Text.Integer
import IntCalculus.Log
import IntCalculus.Command.Help
import IntCalculus.Command.Options
import IntCalculus.Command.Arguments
import IntCalculus.Command.Input
import IntCalculus.Command.Output
import IntCalculus.Command.Demo
import IntCalculus.Command.Run
import IntCalculus.Main
import IntCalculus.Proofs.Outcome
import IntCalculus.Proofs.Node
import IntCalculus.Proofs.Evaluate
import IntCalculus.Proofs.Simplify.Collected
import IntCalculus.Proofs.Simplify.Exact
import IntCalculus.Proofs.Simplify.Canonical
import IntCalculus.Proofs.Simplify.Settled
import IntCalculus.Proofs.Simplify.Redex
import IntCalculus.Proofs.Simplify.Sums
import IntCalculus.Proofs.Simplify.Gathered
import IntCalculus.Proofs.Simplify.Termination
import IntCalculus.Proofs.Simplify.Evaluate
import IntCalculus.Proofs.Simplify.Folds
import IntCalculus.Proofs.Reduce
import IntCalculus.Proofs.Reduce.Relation
import IntCalculus.Proofs.Reduce.Evaluation
import IntCalculus.Proofs.Reduce.Failure
import IntCalculus.Proofs.Reduce.Stable
import IntCalculus.Proofs.Reduce.Overflow
import IntCalculus.Proofs.Derive.Formal
import IntCalculus.Proofs.Derive.Order
import IntCalculus.Proofs.Derive.Domain
import IntCalculus.Proofs.Derive.Degree
import IntCalculus.Proofs.Calculus
import IntCalculus.Proofs.Calculus.Defaults
import IntCalculus.Proofs.Evaluate.Overflow
import IntCalculus.Proofs.Evaluate.Dependence
import IntCalculus.Proofs.Modular
import IntCalculus.Proofs.Config.Precedence
import IntCalculus.Proofs.Config.Override
import IntCalculus.Proofs.Config.Named
import IntCalculus.Proofs.Scope.Call
import IntCalculus.Proofs.Scope.History
import IntCalculus.Proofs.Scope.Restore
import IntCalculus.Proofs.Typing.Scoping
import IntCalculus.Proofs.Typing.Evaluation
import IntCalculus.Proofs.Format.Restatement
import IntCalculus.Proofs.Format.RoundTrip
import IntCalculus.Proofs.Render.Lexeme
import IntCalculus.Proofs.Render.Reader
import IntCalculus.Proofs.Render.Signature
