import HttpWorkflow.Main
import HttpWorkflow.Proofs.Expression.Translation
import HttpWorkflow.Proofs.Payload.Body
import HttpWorkflow.Proofs.Run.Errors
import HttpWorkflow.Proofs.Run.Extension
import HttpWorkflow.Proofs.Run.Isolation
import HttpWorkflow.Proofs.Run.Completeness
import HttpWorkflow.Proofs.Run.Rulings
import HttpWorkflow.Proofs.Run.Helpers
import HttpWorkflow.Proofs.Run.Input
import HttpWorkflow.Proofs.Document.RoundTrip
import HttpWorkflow.Proofs.Request.Placement
import HttpWorkflow.Proofs.Request.Delivery
import HttpWorkflow.Proofs.Run.Absence
import HttpWorkflow.Proofs.Run.Connection
import HttpWorkflow.Proofs.CommandLine
import HttpWorkflow.Proofs.Template.Quotes
import HttpWorkflow.Proofs.Template.Fragments
import HttpWorkflow.Proofs.Path
import HttpWorkflow.Proofs.Template.Escaping
import HttpWorkflow.Proofs.Template.Assembly
import HttpWorkflow.Proofs.Expression.Verbatim
import HttpWorkflow.Proofs.Request.Encoding
import HttpWorkflow.Proofs.Query.Gathering
import HttpWorkflow.Proofs.Path.Writing
import HttpWorkflow.Proofs.Members.LastWins
import HttpWorkflow.Proofs.Scope.Response
import HttpWorkflow.Proofs.Step.Map
import HttpWorkflow.Proofs.Step.Condition
import HttpWorkflow.Proofs.Step.Options
import HttpWorkflow.Proofs.Expression.Scanners
import HttpWorkflow.Proofs.Expression.Positions.Calls
